import OrderMatching.Commands
import OrderMatching.Engine

namespace OrderMatching.Exchange

open OrderMatching.Orders OrderMatching.Book OrderMatching.Engine OrderMatching.Commands

structure RiskConfig where
  maxOrderQty : UInt32
  tickSize : Int64
  priceBandBp : Int64

def RiskConfig.default : RiskConfig := ⟨1000000, 1, 1000⟩

/-- What the matching thread knows about the market: the engine, the maps from
exchange ids to their owners, and the counters. -/
structure Ledger where
  engine : MatchingEngine
  ownerOf : Nat → Option UInt64
  clientIdOf : Nat → Option UInt64
  remainingOf : Nat → Option Nat
  sideOf : Nat → Option Side
  sessionOrders : UInt64 → Option (List Nat)
  byClientId : UInt64 → Option Nat
  lastTradeTicks : Int
  nextExchangeId : Nat
  logicalClock : Nat

def Ledger.initial : Ledger :=
  ⟨MatchingEngine.empty, fun _ => none, fun _ => none, fun _ => none, fun _ => none, fun _ => none,
    fun _ => none, 0, 1, 0⟩

def Ledger.book (l : Ledger) : OrderBook := l.engine.book

def bestTicks (b : OrderBook) (s : Side) : Option Int :=
  (b.levels s).head?.map PriceLevel.priceTicks

def levelsTicks (b : OrderBook) (s : Side) (maxLevels : Nat) : List (Int × Nat) :=
  ((b.levels s).take maxLevels).map (fun lvl => (lvl.priceTicks, lvl.totalQty))

/-- The value an `int64_t` operation leaves when its result does not fit. -/
def wrap64 (x : Int) : Int := x.bmod (2 ^ 64)

def Ledger.referencePrice (l : Ledger) : Option Int :=
  if l.lastTradeTicks > 0 then some l.lastTradeTicks
  else
    match bestTicks l.book .bid, bestTicks l.book .ask with
    | some bid, some ask => some (Int.tdiv (wrap64 (bid + ask)) 2)
    | _, _ => none

def Ledger.checkRisk (risk : RiskConfig) (l : Ledger) (c : OrderCommand) : RejectReason :=
  let price := c.priceTicks.toInt
  if c.quantity = 0 then .invalidQty
  else if c.quantity > risk.maxOrderQty then .riskMaxOrderSize
  else if c.orderType = .market then .none
  else if price ≤ 0 then .invalidPrice
  else if risk.tickSize > 1 ∧ Int.tmod price risk.tickSize.toInt ≠ 0 then .invalidPrice
  else if risk.priceBandBp > 0 then
    match l.referencePrice with
    | none => .none
    | some reference =>
      let distance :=
        if price > reference then wrap64 (price - reference) else wrap64 (reference - price)
      if wrap64 (distance * 10000) > wrap64 (reference * risk.priceBandBp.toInt) then
        .riskPriceBand
      else .none
  else .none

def keyOf (s coid : UInt64) : UInt64 := (s <<< 40) ^^^ (coid * 0x9E3779B97F4A7C15)

/-- Within a session the key tells the client order ids apart: the multiplier is
odd. -/
theorem keyOf_inj {s x y : UInt64} (h : keyOf s x = keyOf s y) : x = y := by
  have hmul : x * 0x9E3779B97F4A7C15 = y * 0x9E3779B97F4A7C15 := by simpa [keyOf] using h
  have hone : (0x9E3779B97F4A7C15 : UInt64) * 0xF1DE83E19937733D = 1 := by decide
  calc
    x = x * 0x9E3779B97F4A7C15 * 0xF1DE83E19937733D := by
      rw [UInt64.mul_assoc, hone, UInt64.mul_one]
    _ = y * 0x9E3779B97F4A7C15 * 0xF1DE83E19937733D := by rw [hmul]
    _ = y := by rw [UInt64.mul_assoc, hone, UInt64.mul_one]

/-- Zero stands for an order that is not there. -/
def Ledger.findOrder (l : Ledger) (s clientOrderId : UInt64) : Nat :=
  (l.byClientId (keyOf s clientOrderId)).getD 0

def Ledger.forgetOrder (l : Ledger) (xoid : Nat) : Ledger :=
  let l : Ledger :=
    match l.ownerOf xoid with
    | none => l
    | some s =>
      { l with
        byClientId :=
          match l.clientIdOf xoid with
          | none => l.byClientId
          | some coid => Function.update l.byClientId (keyOf s coid) none
        sessionOrders :=
          Function.update l.sessionOrders s
            ((l.sessionOrders s).map (List.filter (fun id => id ≠ xoid)))
        ownerOf := Function.update l.ownerOf xoid none }
  { l with
    clientIdOf := Function.update l.clientIdOf xoid none
    remainingOf := Function.update l.remainingOf xoid none
    sideOf := Function.update l.sideOf xoid none }

/-- The order that `apply_new_order` makes of a command. -/
def Ledger.incoming (l : Ledger) (c : OrderCommand) : Order :=
  ⟨l.nextExchangeId, c.priceTicks.toInt, c.quantity.toNat, c.side,
    if c.orderType = .market then .market else .limit, l.logicalClock + 1⟩

/-- `session_orders_[s].insert(id)`, which creates a missing set. -/
def insertOrder (orders : Option (List Nat)) (id : Nat) : List Nat :=
  if id ∈ orders.getD [] then orders.getD [] else orders.getD [] ++ [id]

/-- Ownership is recorded before the order is processed, because its own fills
have to be routable. -/
def Ledger.recordOrder (l : Ledger) (c : OrderCommand) : Ledger :=
  let o := l.incoming c
  { l with
    nextExchangeId := l.nextExchangeId + 1
    logicalClock := l.logicalClock + 1
    ownerOf := Function.update l.ownerOf o.id (some c.session)
    clientIdOf := Function.update l.clientIdOf o.id (some c.clientOrderId)
    remainingOf := Function.update l.remainingOf o.id (some o.quantity)
    sideOf := Function.update l.sideOf o.id (some o.side)
    sessionOrders :=
      Function.update l.sessionOrders c.session
        (some (insertOrder (l.sessionOrders c.session) o.id))
    byClientId := Function.update l.byClientId (keyOf c.session c.clientOrderId) (some o.id) }

/-- `processOrder` on the ledger's engine. -/
def Ledger.process (l : Ledger) (o : Order) : ApplyResult × Ledger :=
  ((l.engine.processOrder o).1, { l with engine := (l.engine.processOrder o).2 })

def cancelRequest (xoid : Nat) : Order := ⟨xoid, 0, 0, .bid, .cancel, 0⟩

def Ledger.clearTradeLog (l : Ledger) : Ledger := { l with engine := l.engine.clearTradeLog }

def replacement (c : OrderCommand) (oldSide : Side) : OrderCommand :=
  { c with type := .newOrder, orderType := .limit, side := oldSide }

end OrderMatching.Exchange
