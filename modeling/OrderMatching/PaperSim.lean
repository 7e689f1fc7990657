import OrderMatching.BookEdits
import OrderMatching.Exchange
import OrderMatching.Lists
import OrderMatching.Queues

namespace OrderMatching.PaperSim

open OrderMatching.Orders OrderMatching.Book OrderMatching.BookInvariant OrderMatching.BookUpdates
open OrderMatching.BookRuns OrderMatching.Engine OrderMatching.Walk OrderMatching.Crossing
open OrderMatching.Priority OrderMatching.Queues OrderMatching.BookEdits OrderMatching.Exchange
open OrderMatching.Lists

/-- The width of the deposition intervals and the order size as `llround` gives
them, and the event from which on the spread is measured. -/
structure Config where
  width : Int
  sigma : Int
  warm : Nat

def Config.half (cfg : Config) : Int := max 3 cfg.width

/-- The common order size, cast to 32 bits: it is zero for a multiple of
`2 ^ 32`. -/
def Config.size (cfg : Config) : Nat := (max 1 cfg.sigma).toNat % 2 ^ 32

/-- The integer part of `Result`, with the two sums its means are taken from. -/
structure Result where
  measured : Nat
  trades : Nat
  boundaryHits : Nat
  spreadSum : Int
  restingSum : Nat
  deriving DecidableEq

/-- `PaperSim` with the counter of `Order::make` and the locals of `run`. -/
structure Sim where
  engine : MatchingEngine
  live : List Nat
  nextId : Nat
  ts : Nat
  ev : Nat
  result : Result

def Sim.initial : Sim := ⟨.empty, [], 1, 0, 0, ⟨0, 0, 0, 0, 0⟩⟩

def Sim.book (s : Sim) : OrderBook := s.engine.book

def refAsk (b : OrderBook) : Int :=
  match bestTicks b .ask, bestTicks b .bid with
  | some ask, _ => ask
  | none, some bid => bid + 1
  | none, none => 1

def refBid (b : OrderBook) : Int :=
  match bestTicks b .bid, bestTicks b .ask with
  | some bid, _ => bid
  | none, some ask => ask - 1
  | none, none => 0

/-- A uniform draw from an interval. The draw is any number, brought into the
range of the distribution. -/
def pick (lo hi : Int) (draw : Nat) : Int :=
  if hi < lo then lo else lo + (draw % ((hi - lo).toNat + 1) : Nat)

def Sim.make (cfg : Config) (s : Sim) (side : Side) (kind : Kind) (px : Int) : Order :=
  ⟨s.nextId, px, cfg.size, side, kind, s.ts⟩

def Sim.place (cfg : Config) (s : Sim) (side : Side) (px : Int) : Sim :=
  let o := s.make cfg side .limit px
  let r := s.engine.processOrder o
  { s with
    engine := r.2
    nextId := s.nextId + 1
    live := if r.1.accepted then s.live ++ [o.id] else s.live }

def forget (live : List Nat) (id : Nat) : List Nat :=
  if id ∈ live then swapRemove live (live.idxOf id) else live

def passive (id : Nat) (t : Trade) : Nat := if t.buyerId = id then t.sellerId else t.buyerId

def Sim.market (cfg : Config) (s : Sim) (side : Side) : Sim :=
  let o := s.make cfg side .market 0
  let r := s.engine.processOrder o
  let new := r.2.tradeLog.drop s.engine.tradeLog.length
  { s with
    engine := r.2.clearTradeLog
    nextId := s.nextId + 1
    live := (new.map (passive o.id)).foldl forget s.live
    result := { s.result with trades := s.result.trades + new.length } }

/-- The loop of `cancel`, which goes on until it has met an order that rests,
and the number of draws it takes. -/
def Sim.cancelLoop (draws : Nat → Nat) : Nat → Nat → Sim → Sim × Nat
  | 0, k, s => (s, k)
  | n + 1, k, s =>
    match s.live[draws k % s.live.length]? with
    | none => (s, k)
    | some id =>
      let r := s.book.cancelOrder id
      let s :=
        { s with
          engine := { s.engine with book := r.2 }
          live := swapRemove s.live (draws k % s.live.length) }
      if r.1 then (s, k + 1) else Sim.cancelLoop draws n (k + 1) s

def Sim.cancel (s : Sim) (draws : Nat → Nat) : Sim × Nat := s.cancelLoop draws s.live.length 0

/-- What the rates and the uniform draw decide on, with the draws it needs. -/
inductive Event where
  | buy (draw : Nat)
  | sell (draw : Nat)
  | market (side : Side)
  | cancel (draws : Nat → Nat)

def Sim.occur (cfg : Config) (s : Sim) : Event → Sim
  | .buy draw =>
    let buyHi := refAsk s.book - 1
    s.place cfg .bid (pick (buyHi - cfg.half + 1) buyHi draw)
  | .sell draw =>
    let sellLo := refBid s.book + 1
    s.place cfg .ask (pick sellLo (sellLo + cfg.half - 1) draw)
  | .market side => s.market cfg side
  | .cancel draws => (s.cancel draws).1

/-- Before an event: the clock, and whether the spread is as wide as the
intervals. -/
def Sim.observe (cfg : Config) (s : Sim) : Sim :=
  let wide := match bestTicks s.book .bid, bestTicks s.book .ask with
    | some bid, some ask => decide (ask - bid ≥ cfg.half)
    | _, _ => false
  { s with ts := s.ts + 1
           result := { s.result with boundaryHits := s.result.boundaryHits + wide.toNat } }

/-- After an event, `resting` being the number of orders there were before. -/
def Sim.measure (cfg : Config) (resting : Nat) (s : Sim) : Sim :=
  if s.ev ≥ cfg.warm then
    let result := match bestTicks s.book .bid, bestTicks s.book .ask with
      | some bid, some ask =>
        if ask > bid then
          { s.result with
            measured := s.result.measured + 1, spreadSum := s.result.spreadSum + (ask - bid) }
        else s.result
      | _, _ => s.result
    { s with ev := s.ev + 1, result := { result with restingSum := result.restingSum + resting } }
  else { s with ev := s.ev + 1 }

def Sim.step (cfg : Config) (s : Sim) (e : Event) : Sim :=
  ((s.observe cfg).occur cfg e).measure cfg s.live.length

def Sim.run (cfg : Config) (s : Sim) (es : List Event) : Sim := es.foldl (Sim.step cfg) s

variable {cfg : Config} {s : Sim}

structure Deposits (side : Side) (o : Order) (s s' : Sim) : Prop where
  own : queue s'.book side = restAtBack o (queue s.book side)
  other : queue s'.book side.opposite = queue s.book side.opposite
  live : s'.live = s.live ++ [o.id]
  trades : s'.result.trades = s.result.trades

structure Idles (s s' : Sim) : Prop where
  book : s'.book = s.book
  live : s'.live = s.live
  trades : s'.result.trades = s.result.trades

structure Fills (side : Side) (o : Order) (s s' : Sim) : Prop where
  other : queue s.book side.opposite = o :: queue s'.book side.opposite
  own : queue s'.book side = queue s.book side
  live : s.live.Perm (o.id :: s'.live)
  trades : s'.result.trades = s.result.trades + 1

structure Cancels (id : Nat) (s s' : Sim) : Prop where
  rests : ∃ o ∈ s.book.allOrders, o.id = id
  queues : ∀ t, queue s'.book t = (queue s.book t).filter (fun o => o.id ≠ id)
  live : s.live.Perm (id :: s'.live)
  trades : s'.result.trades = s.result.trades

/-- What an event does in the model of the paper: a deposit at most `half` ticks
behind the opposing quote, the loss of the best order of a side, or that of the
order drawn. -/
def Effect (cfg : Config) (s s' : Sim) : Event → Prop
  | .buy _ => ∃ px, refAsk s.book - cfg.half ≤ px ∧ px < refAsk s.book ∧
      Deposits .bid ⟨s.nextId, px, cfg.size, .bid, .limit, s.ts + 1⟩ s s'
  | .sell _ => ∃ px, refBid s.book < px ∧ px ≤ refBid s.book + cfg.half ∧
      Deposits .ask ⟨s.nextId, px, cfg.size, .ask, .limit, s.ts + 1⟩ s s'
  | .market side => queue s.book side.opposite = [] ∧ Idles s s' ∨ ∃ o, Fills side o s s'
  | .cancel draws => s.live = [] ∧ Idles s s' ∨
      ∃ id, s.live[draws 0 % s.live.length]? = some id ∧ Cancels id s s' ∧ (s.cancel draws).2 = 1

end OrderMatching.PaperSim
