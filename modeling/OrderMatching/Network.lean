import Mathlib.Data.Finset.Basic
import OrderMatching.Commands

namespace OrderMatching.Network

open OrderMatching.Orders OrderMatching.Commands

def inboundCapacity : Nat := 8192

def egressCapacity : Nat := 4096

structure SessionConfig where
  heartbeatIntervalNs : UInt64
  timeoutNs : UInt64

def SessionConfig.default : SessionConfig := ⟨5 * 1000 * 1000 * 1000, 15 * 1000 * 1000 * 1000⟩

structure Session where
  id : UInt64
  alive : Bool
  lastInboundNs : UInt64
  lastHeartbeatSentNs : UInt64
  liveOrders : Finset UInt64
  deriving DecidableEq

def Session.onInbound (s : Session) (nowNs : UInt64) : Session := { s with lastInboundNs := nowNs }

def Session.heartbeatDue (cfg : SessionConfig) (s : Session) (nowNs : UInt64) : Bool :=
  s.alive && nowNs - s.lastHeartbeatSentNs ≥ cfg.heartbeatIntervalNs

def Session.onHeartbeatSent (s : Session) (nowNs : UInt64) : Session :=
  { s with lastHeartbeatSentNs := nowNs }

def Session.timedOut (cfg : SessionConfig) (s : Session) (nowNs : UInt64) : Bool :=
  s.alive && nowNs - s.lastInboundNs ≥ cfg.timeoutNs

def Session.registerOrder (s : Session) (clientOrderId : UInt64) : Bool × Session :=
  (decide (clientOrderId ∉ s.liveOrders),
    { s with liveOrders := insert clientOrderId s.liveOrders })

def Session.forgetOrder (s : Session) (clientOrderId : UInt64) : Session :=
  { s with liveOrders := s.liveOrders.erase clientOrderId }

structure WriteBuffer where
  capacity : Nat
  pending : Nat
  deriving DecidableEq

def WriteBuffer.append (w : WriteBuffer) (size : Nat) : Bool × WriteBuffer :=
  if size = 0 then (true, w)
  else if w.pending + size > w.capacity then (false, w)
  else (true, { w with pending := w.pending + size })

theorem append_fits {w : WriteBuffer} {size : Nat} (h : w.pending + size ≤ w.capacity) :
    w.append size = (true, ⟨w.capacity, w.pending + size⟩) := by
  unfold WriteBuffer.append
  split
  · rename_i hsize
    rw [hsize, Nat.add_zero]
  · rw [if_neg (Nat.not_lt.mpr h)]

theorem append_cases (w : WriteBuffer) (size : Nat) :
    w.append size = (true, ⟨w.capacity, w.pending + size⟩) ∨ w.append size = (false, w) := by
  by_cases h : w.pending + size ≤ w.capacity
  · exact Or.inl (append_fits h)
  · unfold WriteBuffer.append
    split
    · rename_i hsize
      rw [hsize, Nat.add_zero]
      exact Or.inl rfl
    · exact Or.inr (if_pos (Nat.not_le.mp h))

def WriteBuffer.consume (w : WriteBuffer) (n : Nat) : WriteBuffer :=
  { w with pending := w.pending - min n w.pending }

structure EgressQueue where
  items : List OrderEvent
  overflowed : Bool
  deriving DecidableEq

inductive CloseMode where
  | none
  | afterFlush
  | immediate
  deriving DecidableEq

inductive Reply where
  | ack (clientOrderId : UInt64) (exchangeOrderId : Nat)
  | reject (clientOrderId : UInt64) (reason : RejectReason)
  | fill (exchangeOrderId : Nat) (priceTicks : Int) (quantity remaining : Nat)
  | heartbeat (timestampNs : UInt64)
  | bookUpdate (seq : Nat) (bids asks : List (Int × Nat))

def Reply.size : Reply → Nat
  | .ack _ _ => 8 + 16
  | .reject _ _ => 8 + 10
  | .fill _ _ _ _ => 8 + 24
  | .heartbeat _ => 8 + 8
  | .bookUpdate _ bids asks => 8 + (10 + 16 * (min bids.length 10 + min asks.length 10))

inductive Frame where
  | wrongVersion
  | heartbeat
  | unknownType
  | undecodable
  | newOrder (clientOrderId : UInt64) (priceTicks : Int64) (quantity : UInt32) (side : Side)
      (orderType : Commands.OrderType)
  | cancel (clientOrderId : UInt64)
  | modify (clientOrderId : UInt64) (newPriceTicks : Int64) (newQuantity : UInt32)
  | subscribe (depth : UInt8)

structure Connection where
  fdOpen : Bool
  writer : WriteBuffer
  session : Session
  egress : EgressQueue
  subscribed : Bool
  retiring : Bool
  closeMode : CloseMode
  flushDeadlineNs : UInt64
  deriving DecidableEq

structure ServerConfig where
  maxWriteBuffer : Nat
  session : SessionConfig

def ServerConfig.default : ServerConfig := ⟨1024 * 1024, .default⟩

def Connection.create (cfg : ServerConfig) (id nowNs : UInt64) : Connection :=
  ⟨true, ⟨cfg.maxWriteBuffer, 0⟩, ⟨id, true, nowNs, nowNs, ∅⟩, ⟨[], false⟩, false, false, .none, 0⟩

def Connection.closeNow (c : Connection) : Connection := { c with closeMode := .immediate }

def Connection.closing (c : Connection) : Bool := c.closeMode ≠ .none

def Connection.readyToClose (c : Connection) (nowNs : UInt64) : Bool :=
  match c.closeMode with
  | .immediate => true
  | .afterFlush => c.writer.pending = 0 || nowNs ≥ c.flushDeadlineNs
  | .none => false

/-- `TcpServer::queue`: a frame that does not fit costs the connection. -/
def Connection.queue (c : Connection) (r : Reply) : Connection :=
  let (ok, w) := c.writer.append r.size
  if ok then { c with writer := w } else c.closeNow

def Connection.forgetOrder (c : Connection) (clientOrderId : UInt64) : Connection :=
  { c with session := c.session.forgetOrder clientOrderId }

def queued (c : Connection) (items : List OrderEvent) : Connection :=
  { c with egress := { c.egress with items := items } }

def flagged (c : Connection) : Connection :=
  { c with egress := { c.egress with overflowed := true } }

def reply (e : OrderEvent) : Option Reply :=
  match e.type with
  | .ack => some (.ack e.clientOrderId e.exchangeOrderId)
  | .reject => some (.reject e.clientOrderId e.reason)
  | .fill => some (.fill e.exchangeOrderId e.priceTicks e.quantity e.remainingQuantity)
  | .sessionRetired => none

def Connection.deliver (c : Connection) (e : OrderEvent) : Connection :=
  match e.type with
  | .ack =>
    let c := if e.closesOrder then c.forgetOrder e.clientOrderId else c
    c.queue (.ack e.clientOrderId e.exchangeOrderId)
  | .reject => (c.forgetOrder e.clientOrderId).queue (.reject e.clientOrderId e.reason)
  | .fill =>
    let c := if e.closesOrder then c.forgetOrder e.clientOrderId else c
    c.queue (.fill e.exchangeOrderId e.priceTicks e.quantity e.remainingQuantity)
  | .sessionRetired => { c with retiring := false }.closeNow

/-- A command for the matching thread, and the answer to the client when there
is no room for it. -/
def submit (inbound : List OrderCommand) (c : Connection) (cmd : OrderCommand) :
    Bool × List OrderCommand × Connection :=
  if inbound.length < inboundCapacity then (true, inbound ++ [cmd], c)
  else (false, inbound, c.queue (.reject cmd.clientOrderId .rateLimited))

/-- `allowed` is what the token bucket says. -/
def dispatch (inbound : List OrderCommand) (c : Connection) (allowed : Bool) (f : Frame) :
    List OrderCommand × Connection :=
  match f with
  | .wrongVersion => (inbound, c.queue (.reject 0 .malformed))
  | .heartbeat => (inbound, c)
  | f =>
    if allowed = false then (inbound, c.queue (.reject 0 .rateLimited))
    else
      match f with
      | .newOrder clientOrderId priceTicks quantity side orderType =>
        if quantity = 0 then (inbound, c.queue (.reject clientOrderId .invalidQty))
        else
          let (fresh, session) := c.session.registerOrder clientOrderId
          let c := { c with session := session }
          if fresh = false then (inbound, c.queue (.reject clientOrderId .duplicateOrderId))
          else
            let cmd := OrderCommand.newOrder c.session.id clientOrderId priceTicks quantity
              side orderType
            let (ok, inbound, c) := submit inbound c cmd
            if ok then (inbound, c) else (inbound, c.forgetOrder clientOrderId)
      | .cancel clientOrderId => (submit inbound c (.cancel c.session.id clientOrderId)).2
      | .modify clientOrderId newPriceTicks newQuantity =>
        (submit inbound c (.modify c.session.id clientOrderId newPriceTicks newQuantity)).2
      | .subscribe depth =>
        let (ok, inbound, c) := submit inbound c (.subscribe c.session.id depth)
        if ok then (inbound, { c with subscribed := true }) else (inbound, c)
      | .unknownType => (inbound, c.queue (.reject 0 .unknownMessageType))
      | _ => (inbound, c.queue (.reject 0 .malformed))

def killSession (inbound : List OrderCommand) (c : Connection) : List OrderCommand × Connection :=
  if c.session.alive then
    let c := { c with session := { c.session with alive := false } }
    let (ok, inbound, c) := submit inbound c (.cancelAll c.session.id)
    if ok then (inbound, { c with retiring := true }) else (inbound, c)
  else (inbound, c)

/-- `none` when the connection is destroyed, its queues with it. -/
def closeConnection (inbound : List OrderCommand) (c : Connection) :
    List OrderCommand × Option Connection :=
  let (inbound, c) := killSession inbound c
  let c := { c with fdOpen := false }
  if c.retiring then (inbound, some { c with closeMode := .none }) else (inbound, none)

def serviceTimers (cfg : ServerConfig) (c : Connection) (nowNs : UInt64) : Connection :=
  if c.session.timedOut cfg.session nowNs then c.closeNow
  else if c.session.heartbeatDue cfg.session nowNs then
    let c := c.queue (.heartbeat nowNs)
    { c with session := c.session.onHeartbeatSent nowNs }
  else c

end OrderMatching.Network
