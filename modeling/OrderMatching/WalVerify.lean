import OrderMatching.Exchange

namespace OrderMatching.WalVerify

open OrderMatching.Orders OrderMatching.Loop OrderMatching.Commands OrderMatching.Exchange
open OrderMatching.Book

structure VOrder where
  id : Nat
  session : UInt64
  clientOrderId : UInt64
  quantity : Nat
  deriving DecidableEq, Repr

/-- The `std::map` from prices to queues of one side, in its iteration order:
both comparators put the best price first. -/
abbrev PriceMap := List (Int × List VOrder)

def priceKey (s : Side) (lvl : Int × List VOrder) : Int := rank s lvl.1

/-- The verifier's own book. A side stands for the flag `is_bid`, and only the
map `owners_` is iterated over, in the order of ids. -/
structure SimpleBook where
  bids : PriceMap
  asks : PriceMap
  loc : Nat → Option (Int × Side)
  owners : List (Nat × UInt64)
  clientIds : Nat → Option UInt64
  lastTrade : Int

def SimpleBook.empty : SimpleBook := ⟨[], [], fun _ => none, [], fun _ => none, 0⟩

def SimpleBook.side (b : SimpleBook) : Side → PriceMap
  | .bid => b.bids
  | .ask => b.asks

def SimpleBook.setSide (b : SimpleBook) (s : Side) (m : PriceMap) : SimpleBook :=
  match s with
  | .bid => { b with bids := m }
  | .ask => { b with asks := m }

def enqueue (px : Int) (o : VOrder) : Option (Int × List VOrder) → Option (Int × List VOrder)
  | some lvl => some (lvl.1, lvl.2 ++ [o])
  | none => some (px, [o])

def SimpleBook.add (b : SimpleBook) (px : Int) (s : Side) (o : VOrder) : SimpleBook :=
  { b.setSide s (KeyedList.alter (priceKey s) (rank s px) (enqueue px o) (b.side s)) with
    loc := Function.update b.loc o.id (some (px, s)) }

def unlessEmpty (lvl : Int × List VOrder) : Option (Int × List VOrder) :=
  if lvl.2 = [] then none else some lvl

def eraseFrom (s : Side) (m : PriceMap) (px : Int) (id : Nat) : Option PriceMap :=
  match KeyedList.find (priceKey s) (rank s px) m with
  | none => none
  | some lvl =>
    if lvl.2.any (fun o => o.id = id) then
      some (KeyedList.alter (priceKey s) (rank s px)
        (fun _ => unlessEmpty (lvl.1, lvl.2.eraseP (fun o => o.id = id))) m)
    else none

/-- An id whose order is not found at its recorded place keeps the record. -/
def SimpleBook.cancel (b : SimpleBook) (id : Nat) : Bool × SimpleBook :=
  match b.loc id with
  | none => (false, b)
  | some (px, s) =>
    match eraseFrom s (b.side s) px id with
    | none => (false, b)
    | some m => (true, { b.setSide s m with loc := Function.update b.loc id none })

def topOrder : PriceMap → Option VOrder
  | [] => none
  | lvl :: _ => lvl.2.head?

def best (m : PriceMap) : Option Int := m.head?.map Prod.fst

/-- Takes a quantity from the first order at the best price, which leaves when
nothing is left of it. -/
def takeTop (qty : Nat) : PriceMap → PriceMap
  | [] => []
  | (px, os) :: rest =>
    match os with
    | [] => (px, os) :: rest
    | o :: os =>
      if o.quantity - qty = 0 then (unlessEmpty (px, os)).toList ++ rest
      else (px, { o with quantity := o.quantity - qty } :: os) :: rest

def SimpleBook.crossed (b : SimpleBook) : Bool :=
  match best b.bids, best b.asks with
  | some bid, some ask => !decide (bid < ask)
  | _, _ => false

def SimpleBook.crossRound (b : SimpleBook) : SimpleBook :=
  match topOrder b.bids, topOrder b.asks, best b.asks with
  | some x, some y, some px =>
    let qty := min x.quantity y.quantity
    let loc := if x.quantity - qty = 0 then Function.update b.loc x.id none else b.loc
    let loc := if y.quantity - qty = 0 then Function.update loc y.id none else loc
    { b with bids := takeTop qty b.bids, asks := takeTop qty b.asks, loc := loc, lastTrade := px }
  | _, _, _ => b

def count (m : PriceMap) : Nat := (m.map (fun lvl => lvl.2.length)).sum

def SimpleBook.cross (b : SimpleBook) : SimpleBook :=
  loop SimpleBook.crossed SimpleBook.crossRound (count b.bids + count b.asks) b

structure VSweep where
  book : SimpleBook
  remaining : Nat

def VSweep.active (s : Side) (w : VSweep) : Bool :=
  decide (w.remaining > 0) && !(w.book.side s.opposite).isEmpty

/-- A filled order is popped before `cancel` is asked to remove it. -/
def VSweep.round (s : Side) (w : VSweep) : VSweep :=
  match topOrder (w.book.side s.opposite), best (w.book.side s.opposite) with
  | some o, some px =>
    let take := min w.remaining o.quantity
    let b := { w.book.setSide s.opposite (takeTop take (w.book.side s.opposite)) with
      lastTrade := px }
    ⟨if o.quantity - take = 0 then (b.cancel o.id).2 else b, w.remaining - take⟩
  | _, _ => w

def SimpleBook.sweep (b : SimpleBook) (s : Side) (quantity : Nat) : SimpleBook :=
  (loop (VSweep.active s) (VSweep.round s) (count (b.side s.opposite)) ⟨b, quantity⟩).book

def SimpleBook.setOwner (b : SimpleBook) (id : Nat) (session : UInt64) : SimpleBook :=
  { b with owners := KeyedList.insert Prod.fst (id, session) b.owners }

def SimpleBook.setClientId (b : SimpleBook) (id : Nat) (coid : UInt64) : SimpleBook :=
  { b with clientIds := Function.update b.clientIds id (some coid) }

def SimpleBook.findByClient (b : SimpleBook) (session coid : UInt64) : Nat :=
  ((b.owners.find? (fun p => p.2 = session ∧ b.clientIds p.1 = some coid ∧ (b.loc p.1).isSome)).map
    Prod.fst).getD 0

def SimpleBook.passesRisk (b : SimpleBook) (c : OrderCommand) (r : RiskConfig) : Bool :=
  let price := c.priceTicks.toInt
  let band (reference : Int) : Bool :=
    let d := if price > reference then wrap64 (price - reference) else wrap64 (reference - price)
    !decide (wrap64 (d * 10000) > wrap64 (reference * r.priceBandBp.toInt))
  if c.quantity = 0 ∨ c.quantity > r.maxOrderQty then false
  else if c.orderType = .market then true
  else if price ≤ 0 then false
  else if r.tickSize > 1 ∧ Int.tmod price r.tickSize.toInt ≠ 0 then false
  else if r.priceBandBp > 0 then
    if b.lastTrade > 0 then band b.lastTrade
    else
      match best b.bids, best b.asks with
      | some bid, some ask => band (Int.tdiv (wrap64 (bid + ask)) 2)
      | _, _ => true
  else true

structure Verifier where
  book : SimpleBook
  nextId : Nat

def Verifier.initial : Verifier := ⟨SimpleBook.empty, 1⟩

def Verifier.applyNewOrder (risk : RiskConfig) (v : Verifier) (c : OrderCommand) : Verifier :=
  if v.book.passesRisk c risk then
    let id := v.nextId
    if c.orderType = .market then ⟨v.book.sweep c.side c.quantity.toNat, id + 1⟩
    else
      let b := (v.book.setOwner id c.session).setClientId id c.clientOrderId
      ⟨(b.add c.priceTicks.toInt c.side ⟨id, c.session, c.clientOrderId, c.quantity.toNat⟩).cross,
        id + 1⟩
  else v

def Verifier.cancel (v : Verifier) (id : Nat) : Verifier := { v with book := (v.book.cancel id).2 }

def Verifier.applyModify (risk : RiskConfig) (v : Verifier) (c : OrderCommand) : Verifier :=
  let id := v.book.findByClient c.session c.clientOrderId
  if id = 0 then v
  else
    match v.book.loc id with
    | none => v
    | some (_, was) => (v.cancel id).applyNewOrder risk (replacement c was)

def SimpleBook.sessionIds (b : SimpleBook) (session : UInt64) : List Nat :=
  ((b.bids.flatMap Prod.snd ++ b.asks.flatMap Prod.snd).filter
    (fun o => o.session = session)).map VOrder.id

def Verifier.apply (risk : RiskConfig) (v : Verifier) (c : OrderCommand) : Verifier :=
  match c.type with
  | .newOrder => v.applyNewOrder risk c
  | .cancel =>
    let id := v.book.findByClient c.session c.clientOrderId
    if id ≠ 0 then v.cancel id else v
  | .modify => v.applyModify risk c
  | .cancelAllForSession => (v.book.sessionIds c.session).foldl Verifier.cancel v
  | .sessionOpened | .subscribe => v

def verify (risk : RiskConfig) (cs : List OrderCommand) : Verifier :=
  cs.foldl (Verifier.apply risk) Verifier.initial

def mixLevel (h : UInt64) (lvl : Int × List VOrder) : UInt64 :=
  mix (mix (mix h (UInt64.ofInt lvl.1)) (UInt64.ofNat (lvl.2.map VOrder.quantity).sum))
    (UInt64.ofNat lvl.2.length)

def mixSide (h : UInt64) (m : PriceMap) (tag : UInt64) : UInt64 :=
  m.foldl mixLevel (mix (mix h tag) (UInt64.ofNat m.length))

def SimpleBook.digest (b : SimpleBook) : UInt64 := mixSide (mixSide kFnvOffset b.bids 1) b.asks 2

end OrderMatching.WalVerify
