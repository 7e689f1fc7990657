import OrderMatching.Book

namespace OrderMatching.Engine

open OrderMatching.Orders OrderMatching.Book OrderMatching.Loop

structure ApplyResult where
  accepted : Bool
  reason : RejectReason
  filledQty : Nat
  fullyFilled : Bool
  deriving DecidableEq, Repr

structure MatchingEngine where
  book : OrderBook
  tradeLog : List Trade

def MatchingEngine.empty : MatchingEngine := ⟨OrderBook.empty, []⟩

def MatchingEngine.clearTradeLog (e : MatchingEngine) : MatchingEngine := { e with tradeLog := [] }

def crossing (w : Sweep) : Bool := decide (w.quantity > 0) && w.book.isCrossed

def crossRound (incoming : Nat) (w : Sweep) : Sweep :=
  match w.book.executeTopCross with
  | none => w
  | some (t, book) =>
    ⟨book,
      if t.buyerId = incoming ∨ t.sellerId = incoming then w.quantity - t.quantity else w.quantity,
      w.trades ++ [t]⟩

/-- Every print removes an order, so one round for each order of the book, the
incoming one included, is enough. -/
def crossLoop (incoming : Nat) (w : Sweep) : Sweep :=
  loop crossing (crossRound incoming) (orderCount w.book.bids + orderCount w.book.asks) w

/-- The aggressive limit order rests first and is then matched from the top of
the book. A market order sweeps the opposite side and drops what is left. -/
def MatchingEngine.processOrder (e : MatchingEngine) (order : Order) :
    ApplyResult × MatchingEngine :=
  match order.kind with
  | .cancel =>
    let r := e.book.cancelOrder order.id
    (⟨r.1, if r.1 then .none else .unknownOrder, 0, false⟩, { e with book := r.2 })
  | .market =>
    let w := e.book.matchMarket order.id order.side order.quantity order.timestamp e.tradeLog
    (⟨true, .none, order.quantity - w.quantity, true⟩, ⟨w.book, w.trades⟩)
  | .limit =>
    let w := crossLoop order.id ⟨e.book.addOrder order, order.quantity, e.tradeLog⟩
    (⟨true, .none, order.quantity - w.quantity, decide (w.quantity = 0)⟩, ⟨w.book, w.trades⟩)

end OrderMatching.Engine
