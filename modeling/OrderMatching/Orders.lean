import Mathlib.Algebra.Order.Ring.Int

namespace OrderMatching.Orders

/-- Both `Order::Side` and the wire's `protocol::Side`. -/
inductive Side where
  | bid
  | ask
  deriving DecidableEq, Repr

def Side.opposite : Side → Side
  | .bid => .ask
  | .ask => .bid

/-- `Order::Type`. -/
inductive Kind where
  | market
  | limit
  | cancel
  deriving DecidableEq, Repr

/-- Prices are integer ticks. Ids, quantities and logical timestamps are
natural numbers: no function of the book depends on where they would wrap. -/
structure Order where
  id : Nat
  priceTicks : Int
  quantity : Nat
  side : Side
  kind : Kind
  timestamp : Nat
  deriving DecidableEq, Repr

structure Trade where
  buyerId : Nat
  sellerId : Nat
  priceTicks : Int
  quantity : Nat
  timestamp : Nat
  deriving DecidableEq, Repr

inductive RejectReason where
  | none
  | unknownOrder
  | invalidPrice
  | invalidQty
  | duplicateOrderId
  | riskMaxOrderSize
  | riskPriceBand
  | malformed
  | rateLimited
  | notSubscribed
  | unknownMessageType
  | notImplemented
  deriving DecidableEq, Repr

/-- The position of a price on its side of the book, best price first: bids
are sorted by falling and asks by rising price. -/
def rank : Side → Int → Int
  | .bid, p => -p
  | .ask, p => p

@[simp] theorem rank_inj {s : Side} {p q : Int} : rank s p = rank s q ↔ p = q := by
  cases s <;> simp [rank]

@[simp] theorem rank_bid (p : Int) : rank .bid p = -p := rfl

@[simp] theorem rank_ask (p : Int) : rank .ask p = p := rfl

@[simp] theorem opposite_opposite (s : Side) : s.opposite.opposite = s := by cases s <;> rfl

theorem eq_opposite_of_ne {s t : Side} (h : s ≠ t) : t = s.opposite := by
  cases s <;> cases t <;> first | rfl | exact absurd rfl h

theorem opposite_ne (s : Side) : s.opposite ≠ s := by cases s <;> simp [Side.opposite]

end OrderMatching.Orders
