import OrderMatching.Orders

namespace OrderMatching.Commands

open OrderMatching.Orders

inductive CommandType where
  | sessionOpened
  | newOrder
  | cancel
  | modify
  | subscribe
  | cancelAllForSession
  deriving DecidableEq, Repr

/-- The wire's `protocol::OrderType`. -/
inductive OrderType where
  | market
  | limit
  deriving DecidableEq, Repr

/-- The two queue pointers are names of queues, `none` is the null pointer. -/
structure OrderCommand where
  type : CommandType
  session : UInt64
  clientOrderId : UInt64
  priceTicks : Int64
  quantity : UInt32
  side : Side
  orderType : OrderType
  egress : Option Nat
  mdQueue : Option Nat
  deriving DecidableEq

def OrderCommand.default : OrderCommand := ⟨.newOrder, 0, 0, 0, 0, .bid, .limit, none, none⟩

def OrderCommand.sessionOpened (s : UInt64) (q md : Option Nat) : OrderCommand :=
  { OrderCommand.default with type := .sessionOpened, session := s, egress := q, mdQueue := md }

def OrderCommand.subscribe (s : UInt64) (depth : UInt8) : OrderCommand :=
  { OrderCommand.default with type := .subscribe, session := s, quantity := depth.toUInt32 }

def OrderCommand.newOrder (s clientOrderId : UInt64) (priceTicks : Int64) (quantity : UInt32)
    (side : Side) (orderType : OrderType) : OrderCommand :=
  { OrderCommand.default with
    session := s, clientOrderId := clientOrderId, priceTicks := priceTicks
    quantity := quantity, side := side, orderType := orderType }

def OrderCommand.cancel (s clientOrderId : UInt64) : OrderCommand :=
  { OrderCommand.default with type := .cancel, session := s, clientOrderId := clientOrderId }

def OrderCommand.modify (s clientOrderId : UInt64) (newPriceTicks : Int64) (newQuantity : UInt32) :
    OrderCommand :=
  { OrderCommand.default with
    type := .modify, session := s, clientOrderId := clientOrderId, priceTicks := newPriceTicks,
    quantity := newQuantity }

def OrderCommand.cancelAll (s : UInt64) : OrderCommand :=
  { OrderCommand.default with type := .cancelAllForSession, session := s }

inductive EventType where
  | ack
  | reject
  | fill
  | sessionRetired
  deriving DecidableEq, Repr

structure OrderEvent where
  type : EventType
  session : UInt64
  clientOrderId : UInt64
  exchangeOrderId : Nat
  priceTicks : Int
  quantity : Nat
  remainingQuantity : Nat
  reason : RejectReason
  closesOrder : Bool
  deriving DecidableEq

def OrderEvent.ack (s coid : UInt64) (xoid : Nat) (closes : Bool) : OrderEvent :=
  ⟨.ack, s, coid, xoid, 0, 0, 0, .none, closes⟩

def OrderEvent.reject (s coid : UInt64) (r : RejectReason) : OrderEvent :=
  ⟨.reject, s, coid, 0, 0, 0, 0, r, true⟩

def OrderEvent.fill (s coid : UInt64) (xoid : Nat) (px : Int) (qty remaining : Nat) : OrderEvent :=
  ⟨.fill, s, coid, xoid, px, qty, remaining, .none, decide (remaining = 0)⟩

def OrderEvent.sessionRetired (s : UInt64) : OrderEvent :=
  ⟨.sessionRetired, s, 0, 0, 0, 0, 0, .none, false⟩

def isLoggable : CommandType → Bool
  | .newOrder | .cancel | .modify | .cancelAllForSession => true
  | .sessionOpened | .subscribe => false

end OrderMatching.Commands
