import Mathlib.Logic.Function.Basic
import OrderMatching.KeyedList
import OrderMatching.Loop
import OrderMatching.Orders

namespace OrderMatching.Book

open OrderMatching.Orders OrderMatching.Loop

structure PriceLevel where
  priceTicks : Int
  totalQty : Nat
  orders : List Order
  deriving DecidableEq, Repr

/-- The key both `std::lower_bound` comparators sort a side by. -/
def levelKey (s : Side) (lvl : PriceLevel) : Int := rank s lvl.priceTicks

/-- The two level vectors, best price first, and the map from an order id to
the level it rests in. -/
structure OrderBook where
  bids : List PriceLevel
  asks : List PriceLevel
  orderLoc : Nat → Option (Side × Int)

def OrderBook.empty : OrderBook := ⟨[], [], fun _ => none⟩

def OrderBook.levels (b : OrderBook) : Side → List PriceLevel
  | .bid => b.bids
  | .ask => b.asks

def OrderBook.setLevels (b : OrderBook) (s : Side) (ls : List PriceLevel) : OrderBook :=
  match s with
  | .bid => { b with bids := ls }
  | .ask => { b with asks := ls }

def OrderBook.setLoc (b : OrderBook) (id : Nat) (loc : Option (Side × Int)) : OrderBook :=
  { b with orderLoc := Function.update b.orderLoc id loc }

def OrderBook.levelAt (b : OrderBook) (s : Side) (price : Int) : Option PriceLevel :=
  KeyedList.find (levelKey s) (rank s price) (b.levels s)

def OrderBook.alterLevel (b : OrderBook) (s : Side) (price : Int)
    (f : Option PriceLevel → Option PriceLevel) : OrderBook :=
  b.setLevels s (KeyedList.alter (levelKey s) (rank s price) f (b.levels s))

def pushBack (order : Order) : Option PriceLevel → Option PriceLevel
  | some lvl =>
    some { lvl with totalQty := lvl.totalQty + order.quantity, orders := lvl.orders ++ [order] }
  | none => some ⟨order.priceTicks, order.quantity, [order]⟩

def OrderBook.addOrder (b : OrderBook) (order : Order) : OrderBook :=
  if order.kind ≠ .limit then b
  else (b.alterLevel order.side order.priceTicks (pushBack order)).setLoc order.id
    (some (order.side, order.priceTicks))

def dropEmpty (lvl : PriceLevel) : Option PriceLevel := if lvl.orders = [] then none else some lvl

def PriceLevel.removeOrder (lvl : PriceLevel) (id qty : Nat) : PriceLevel :=
  { lvl with totalQty := lvl.totalQty - qty, orders := lvl.orders.eraseP (fun o => o.id = id) }

/-- The order `cancelOrder` and `replace_remaining_quantity` act on: looked up
by id in the level that the location map names. -/
def OrderBook.locate (b : OrderBook) (id : Nat) : Option (Side × Int × PriceLevel × Order) := do
  let (side, price) ← b.orderLoc id
  let lvl ← b.levelAt side price
  let order ← lvl.orders.find? (fun o => o.id = id)
  some (side, price, lvl, order)

def OrderBook.cancelOrder (b : OrderBook) (id : Nat) : Bool × OrderBook :=
  match b.locate id with
  | none => (false, b)
  | some (side, price, lvl, order) =>
    (true,
      (b.alterLevel side price (fun _ => dropEmpty (lvl.removeOrder id order.quantity))).setLoc id
        none)

def OrderBook.isCrossed (b : OrderBook) : Bool :=
  match b.bids, b.asks with
  | bid :: _, ask :: _ => decide (bid.priceTicks ≥ ask.priceTicks)
  | _, _ => false

def front : List PriceLevel → Option Order
  | [] => none
  | lvl :: _ => lvl.orders.head?

/-- Takes a traded quantity from the order at the front of the best level. The
order leaves when nothing is left of it, and its level with the last order. -/
def takeFront (qty : Nat) : List PriceLevel → List PriceLevel
  | [] => []
  | lvl :: rest =>
    match lvl.orders with
    | [] => lvl :: rest
    | o :: os =>
      if o.quantity - qty = 0 then
        (dropEmpty { lvl with totalQty := lvl.totalQty - qty, orders := os }).toList ++ rest
      else
        { lvl with totalQty := lvl.totalQty - qty,
                   orders := { o with quantity := o.quantity - qty } :: os } :: rest

def OrderBook.takeFront (b : OrderBook) (s : Side) (qty : Nat) (o : Order) : OrderBook :=
  let b' := b.setLevels s (Book.takeFront qty (b.levels s))
  if o.quantity - qty = 0 then b'.setLoc o.id none else b'

/-- One print at the top of a crossed book, or `none` when there is no cross.
The price printed is the ask's, whichever of the two orders came last. -/
def OrderBook.executeTopCross (b : OrderBook) : Option (Trade × OrderBook) :=
  if b.isCrossed then
    match front b.bids, front b.asks with
    | some bid, some ask =>
      let qty := min bid.quantity ask.quantity
      some (⟨bid.id, ask.id, ask.priceTicks, qty, max bid.timestamp ask.timestamp⟩,
        (b.takeFront .bid qty bid).takeFront .ask qty ask)
    | _, _ => none
  else none

def marketTrade (id : Nat) (s : Side) (timestamp : Nat) (o : Order) (take : Nat) : Trade :=
  match s with
  | .bid => ⟨id, o.id, o.priceTicks, take, max timestamp o.timestamp⟩
  | .ask => ⟨o.id, id, o.priceTicks, take, max timestamp o.timestamp⟩

/-- What `match_market` carries from round to round. -/
structure Sweep where
  book : OrderBook
  quantity : Nat
  trades : List Trade

def Sweep.active (s : Side) (w : Sweep) : Bool :=
  decide (w.quantity > 0) && !(w.book.levels s.opposite).isEmpty

def Sweep.round (id : Nat) (s : Side) (timestamp : Nat) (w : Sweep) : Sweep :=
  match front (w.book.levels s.opposite) with
  | none => w
  | some o =>
    let take := min w.quantity o.quantity
    ⟨w.book.takeFront s.opposite take o, w.quantity - take,
      w.trades ++ [marketTrade id s timestamp o take]⟩

def orderCount (ls : List PriceLevel) : Nat := (ls.map (fun lvl => lvl.orders.length)).sum

/-- Sweeps the opposite side, best price first. Every round ends the quantity
or removes an order, so one round for each resting order is enough. -/
def OrderBook.matchMarket (b : OrderBook) (id : Nat) (s : Side) (quantity timestamp : Nat)
    (trades : List Trade) : Sweep :=
  loop (Sweep.active s) (Sweep.round id s timestamp) (orderCount (b.levels s.opposite))
    ⟨b, quantity, trades⟩

def quantities (os : List Order) : Nat := (os.map Order.quantity).sum

/-- What the loop of `reduce_level_after_lobster_execution` leaves of a level:
whether it met its size, the level and the ids it removed. -/
structure Reduced where
  ok : Bool
  level : PriceLevel
  gone : List Nat

def reduceLoop (price : Int) : List Order → Nat → Nat → Reduced
  | os, total, 0 => ⟨true, ⟨price, total, os⟩, []⟩
  | [], total, _ + 1 => ⟨false, ⟨price, total, []⟩, []⟩
  | o :: os, total, remaining + 1 =>
    let take := min (remaining + 1) o.quantity
    if o.quantity - take = 0 then
      let r := reduceLoop price os (total - take) (remaining + 1 - take)
      { r with gone := o.id :: r.gone }
    else ⟨true, ⟨price, total - take, { o with quantity := o.quantity - take } :: os⟩, []⟩

def OrderBook.eraseLocs (b : OrderBook) (ids : List Nat) : OrderBook :=
  ids.foldl (fun b id => b.setLoc id none) b

def OrderBook.reduceLevelAfterLobsterExecution (b : OrderBook) (passive : Side) (price : Int)
    (tradedSize : Nat) (allowMissingLevel : Bool) : Bool × OrderBook :=
  if tradedSize = 0 then (true, b)
  else
    match b.levelAt passive price with
    | none => (allowMissingLevel, b)
    | some lvl =>
      if quantities lvl.orders < tradedSize then (false, b)
      else
        let r := reduceLoop lvl.priceTicks lvl.orders lvl.totalQty tradedSize
        (r.ok, (b.alterLevel passive price
          (fun _ => if r.ok then dropEmpty r.level else some r.level)).eraseLocs r.gone)

def setQuantity (id qty : Nat) : List Order → List Order
  | [] => []
  | o :: os => if o.id = id then { o with quantity := qty } :: os else o :: setQuantity id qty os

def OrderBook.replaceRemainingQuantity (b : OrderBook) (id newRemaining : Nat) : Bool × OrderBook :=
  if newRemaining = 0 then b.cancelOrder id
  else
    match b.locate id with
    | none => (false, b)
    | some (side, price, lvl, order) =>
      (true, b.alterLevel side price (fun _ => some
        { lvl with totalQty := lvl.totalQty - order.quantity + newRemaining,
                   orders := setQuantity id newRemaining lvl.orders }))

def sideOrders (ls : List PriceLevel) : List Order := ls.flatMap PriceLevel.orders

def OrderBook.allOrders (b : OrderBook) : List Order := sideOrders b.bids ++ sideOrders b.asks

def kFnvOffset : UInt64 := 1469598103934665603

def kFnvPrime : UInt64 := 1099511628211

def mix (h v : UInt64) : UInt64 :=
  (List.range 8).foldl (fun h i => (h ^^^ ((v >>> (8 * UInt64.ofNat i)) &&& 0xFF)) * kFnvPrime) h

def digestLevel (h : UInt64) (lvl : PriceLevel) : UInt64 :=
  mix (mix (mix h (UInt64.ofInt lvl.priceTicks)) (UInt64.ofNat lvl.totalQty))
    (UInt64.ofNat lvl.orders.length)

def digestSide (h tag : UInt64) (side : List PriceLevel) : UInt64 :=
  side.foldl digestLevel (mix (mix h tag) (UInt64.ofNat side.length))

def OrderBook.digest (b : OrderBook) : UInt64 :=
  digestSide (digestSide kFnvOffset 1 b.bids) 2 b.asks

end OrderMatching.Book
