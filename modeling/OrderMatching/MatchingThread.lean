import OrderMatching.Log
import OrderMatching.Snapshot

namespace OrderMatching.MatchingThread

open OrderMatching.Orders OrderMatching.Book OrderMatching.Engine OrderMatching.Commands
open OrderMatching.Log OrderMatching.Exchange OrderMatching.Snapshot

structure SnapshotPolicy where
  path : String
  everyN : UInt64

structure MatchingStats where
  commandsApplied : Nat
  eventsEmitted : Nat
  egressOverflows : Nat
  walFailures : Nat
  marketDataDropped : Nat
  snapshots : Nat
  snapshotFailures : Nat
  sessionsRetired : Nat

def MatchingStats.zero : MatchingStats := ⟨0, 0, 0, 0, 0, 0, 0, 0⟩

def maxBookDepth : Nat := 10

/-- The levels that the counts `n_bids` and `n_asks` make visible. -/
structure BookSnapshot where
  seq : Nat
  bids : List (Int × Nat)
  asks : List (Int × Nat)
  deriving DecidableEq

/-- What the outside answers, question by question: the clock, the kernel on a
log append, the queues on a push and the file system on a snapshot. -/
structure Env where
  monotonicNs : Nat → UInt64
  written : Nat → Written
  egressRoom : Nat → Bool
  mdRoom : Nat → Bool
  renamed : Nat → Bool
  snapshotWritten : Nat → Bool
  truncateFault : Nat → Option (TruncateFault × String)

def Env.obliging : Env :=
  ⟨fun _ => 0, fun _ => ⟨1000, ""⟩, fun _ => true, fun _ => true, fun _ => true, fun _ => true,
    fun _ => none⟩

/-- The matching thread with the effects it has had outside. `asked` counts the
questions put to the environment. `emitted` and `appended` are the history of
calls of `emit` and of appends that returned true. -/
structure Thread where
  ledger : Ledger
  risk : RiskConfig
  wal : Option Wal
  snap : SnapshotPolicy
  replaying : Bool
  recovered : Nat
  egress : UInt64 → Option (Option Nat)
  md : UInt64 → Option (Option Nat)
  subscribers : List (UInt64 × UInt8)
  nextSnapshotAt : UInt64
  lastSnapshotSeq : UInt64
  bookSeq : Nat
  stats : MatchingStats
  pushed : List (Nat × OrderEvent)
  overflowed : Nat → Bool
  mdPushed : List (Nat × BookSnapshot)
  snapshotFile : Option SnapshotData
  prevFile : Option SnapshotData
  asked : Nat
  emitted : List OrderEvent
  appended : List OrderCommand

def Thread.fresh (risk : RiskConfig) (wal : Option Wal) (snap : SnapshotPolicy) : Thread :=
  { ledger := Ledger.initial, risk := risk, wal := wal, snap := snap
    replaying := false, recovered := 0
    egress := fun _ => none, md := fun _ => none, subscribers := []
    nextSnapshotAt := 0, lastSnapshotSeq := 0, bookSeq := 0, stats := MatchingStats.zero
    pushed := [], overflowed := fun _ => false, mdPushed := []
    snapshotFile := none, prevFile := none, asked := 0, emitted := [], appended := [] }

def Thread.egressFor (t : Thread) (s : UInt64) : Option Nat := (t.egress s).join

/-- Nothing is delivered during recovery or to a session that is gone, and a
full queue is latched for the network thread to see. -/
def Thread.emit (env : Env) (t : Thread) (eg : Option Nat) (e : OrderEvent) : Thread :=
  let t := { t with emitted := t.emitted ++ [e] }
  if t.replaying then t
  else
    match eg with
    | none => t
    | some q =>
      if env.egressRoom t.asked then
        { t with
          asked := t.asked + 1
          pushed := t.pushed ++ [(q, e)]
          stats := { t.stats with eventsEmitted := t.stats.eventsEmitted + 1 } }
      else
        { t with
          asked := t.asked + 1
          overflowed := Function.update t.overflowed q true
          stats := { t.stats with egressOverflows := t.stats.egressOverflows + 1 } }

def Thread.publishTo (env : Env) (snap : BookSnapshot) (t : Thread) (sub : UInt64 × UInt8) :
    Thread :=
  match (t.md sub.1).join with
  | none => t
  | some q =>
    let sized : BookSnapshot := ⟨snap.seq, snap.bids.take sub.2.toNat, snap.asks.take sub.2.toNat⟩
    if env.mdRoom t.asked then
      { t with asked := t.asked + 1, mdPushed := t.mdPushed ++ [(q, sized)] }
    else
      { t with
        asked := t.asked + 1
        stats := { t.stats with marketDataDropped := t.stats.marketDataDropped + 1 } }

def Thread.publishBook (env : Env) (t : Thread) : Thread :=
  if t.replaying then t
  else if t.subscribers.isEmpty then t
  else
    let snap : BookSnapshot := ⟨t.bookSeq + 1, levelsTicks t.ledger.book .bid maxBookDepth,
      levelsTicks t.ledger.book .ask maxBookDepth⟩
    t.subscribers.foldl (Thread.publishTo env snap) { t with bookSeq := t.bookSeq + 1 }

def Thread.routeFill (env : Env) (t : Thread) (xoid : Nat) (trade : Trade) : Thread :=
  match t.ledger.ownerOf xoid with
  | none => t
  | some s =>
    let rem := (t.ledger.remainingOf xoid).getD 0 - trade.quantity
    let coid := (t.ledger.clientIdOf xoid).getD 0
    let t :=
      { t with ledger := { t.ledger with
        remainingOf := Function.update t.ledger.remainingOf xoid (some rem) } }
    let t := t.emit env (t.egressFor s) (.fill s coid xoid trade.priceTicks trade.quantity rem)
    if rem = 0 then { t with ledger := t.ledger.forgetOrder xoid } else t

def Thread.publishTrade (env : Env) (t : Thread) (trade : Trade) : Thread :=
  let t := { t with ledger := { t.ledger with lastTradeTicks := trade.priceTicks } }
  (t.routeFill env trade.buyerId trade).routeFill env trade.sellerId trade

def Thread.publishTrades (env : Env) (t : Thread) (start : Nat) : Thread :=
  let t := (t.ledger.engine.tradeLog.drop start).foldl (Thread.publishTrade env) t
  { t with ledger := t.ledger.clearTradeLog }

def Thread.applyNewOrder (env : Env) (t : Thread) (c : OrderCommand) : Thread :=
  let eg := t.egressFor c.session
  let reason := t.ledger.checkRisk t.risk c
  if reason ≠ .none then t.emit env eg (.reject c.session c.clientOrderId reason)
  else
    let o := t.ledger.incoming c
    let t := { t with ledger := t.ledger.recordOrder c }
    let before := t.ledger.engine.tradeLog.length
    let r := t.ledger.process o
    let t := { t with ledger := r.2 }
    if r.1.accepted then
      let t := t.emit env eg (.ack c.session c.clientOrderId o.id false)
      let t := (t.publishTrades env before).publishBook env
      if o.kind = .market then { t with ledger := t.ledger.forgetOrder o.id } else t
    else
      let t := { t with ledger := t.ledger.forgetOrder o.id }
      t.emit env eg (.reject c.session c.clientOrderId r.1.reason)

def Thread.applyCancel (env : Env) (t : Thread) (c : OrderCommand) : Thread :=
  let eg := t.egressFor c.session
  let xoid := t.ledger.findOrder c.session c.clientOrderId
  if xoid = 0 then t.emit env eg (.reject c.session c.clientOrderId .unknownOrder)
  else
    let r := t.ledger.process (cancelRequest xoid)
    let t := { t with ledger := r.2 }
    if r.1.accepted then
      let t := { t with ledger := t.ledger.forgetOrder xoid }
      (t.emit env eg (.ack c.session c.clientOrderId xoid true)).publishBook env
    else t.emit env eg (.reject c.session c.clientOrderId r.1.reason)

/-- `side_of_[old_id]` writes the default for a missing id. -/
def Thread.applyModify (env : Env) (t : Thread) (c : OrderCommand) : Thread :=
  let eg := t.egressFor c.session
  let oldId := t.ledger.findOrder c.session c.clientOrderId
  if oldId = 0 then t.emit env eg (.reject c.session c.clientOrderId .unknownOrder)
  else
    let oldSide := (t.ledger.sideOf oldId).getD .bid
    let t :=
      { t with ledger := { t.ledger with
        sideOf := Function.update t.ledger.sideOf oldId (some oldSide) } }
    let r := t.ledger.process (cancelRequest oldId)
    let t := { t with ledger := r.2 }
    if r.1.accepted then
      let t := { t with ledger := t.ledger.forgetOrder oldId }
      t.applyNewOrder env (replacement c oldSide)
    else t.emit env eg (.reject c.session c.clientOrderId .unknownOrder)

def cancelOrders (l : Ledger) (ids : List Nat) : Ledger :=
  ids.foldl (fun l xoid => (l.process (cancelRequest xoid)).2.forgetOrder xoid) l

def Thread.pushTombstone (env : Env) (t : Thread) (s : UInt64) : Thread :=
  match t.egressFor s with
  | none => t
  | some q =>
    if env.egressRoom t.asked then
      { t with asked := t.asked + 1, pushed := t.pushed ++ [(q, .sessionRetired s)] }
    else { t with asked := t.asked + 1 }

def Thread.applyCancelAll (env : Env) (t : Thread) (c : OrderCommand) : Thread :=
  let l := (cancelOrders t.ledger ((t.ledger.sessionOrders c.session).getD [])).clearTradeLog
  let t := { t with ledger := l }
  let t := t.pushTombstone env c.session
  let t :=
    { t with
      ledger :=
        { t.ledger with sessionOrders := Function.update t.ledger.sessionOrders c.session none }
      egress := Function.update t.egress c.session none
      md := Function.update t.md c.session none
      subscribers := t.subscribers.filter (fun sub => sub.1 ≠ c.session)
      stats := { t.stats with sessionsRetired := t.stats.sessionsRetired + 1 } }
  t.publishBook env

def subscribedDepth (quantity : UInt32) : UInt8 :=
  UInt8.ofNat (min (if quantity = 0 then maxBookDepth else quantity.toNat) maxBookDepth)

/-- `subscribers_[s] = depth` on a map kept in the order of first subscription. -/
def setSubscriber (subs : List (UInt64 × UInt8)) (s : UInt64) (depth : UInt8) :
    List (UInt64 × UInt8) :=
  if subs.any (fun sub => sub.1 = s) then
    subs.map (fun sub => if sub.1 = s then (s, depth) else sub)
  else subs ++ [(s, depth)]

/-- The switch of `apply`, once the record is down. -/
def Thread.dispatch (env : Env) (t : Thread) (c : OrderCommand) : Thread :=
  match c.type with
  | .sessionOpened =>
    { t with
      egress := Function.update t.egress c.session (some c.egress)
      md := Function.update t.md c.session (some c.mdQueue) }
  | .subscribe =>
    let t :=
      { t with subscribers := setSubscriber t.subscribers c.session (subscribedDepth c.quantity) }
    (t.emit env (t.egressFor c.session) (.ack c.session 0 0 false)).publishBook env
  | .newOrder => t.applyNewOrder env c
  | .cancel => t.applyCancel env c
  | .modify => t.applyModify env c
  | .cancelAllForSession => t.applyCancelAll env c

/-- The log of a command, when it has one: the record goes down first, and
nothing happens to a command whose record did not. -/
def Thread.apply (env : Env) (t : Thread) (c : OrderCommand) : Thread :=
  match (if t.replaying = false ∧ isLoggable c.type = true then t.wal else none) with
  | none => t.dispatch env c
  | some w =>
    let r := w.append c (env.monotonicNs t.asked) (env.written t.asked)
    let t := { t with asked := t.asked + 1, wal := some r.2 }
    if r.1 then ({ t with appended := t.appended ++ [c] } : Thread).dispatch env c
    else { t with stats := { t.stats with walFailures := t.stats.walFailures + 1 } }

def Thread.recover (env : Env) (t : Thread) (cs : List OrderCommand) : Thread :=
  let t := cs.foldl (Thread.apply env) { t with replaying := true }
  { t with replaying := false, ledger := t.ledger.clearTradeLog, recovered := cs.length }

def Thread.restore (t : Thread) (d : SnapshotData) : Thread :=
  { t with ledger := Snapshot.restore t.ledger d }

def Thread.maybeSnapshot (env : Env) (t : Thread) : Thread :=
  match t.wal with
  | none => t
  | some w =>
    if t.snap.path.isEmpty ∨ t.snap.everyN = 0 ∨ w.seq < t.nextSnapshotAt then t
    else
      let seq := w.seq
      let kept : Thread :=
        if env.renamed t.asked ∧ t.snapshotFile.isSome then
          { t with prevFile := t.snapshotFile, snapshotFile := none }
        else t
      if env.snapshotWritten t.asked then
        let w' :=
          if t.lastSnapshotSeq > 0 then
            (w.truncateBefore t.lastSnapshotSeq (env.truncateFault t.asked)).2
          else w
        { kept with
          asked := t.asked + 1
          snapshotFile := some (exportSnapshot t.ledger seq)
          wal := some w'
          lastSnapshotSeq := seq
          nextSnapshotAt := seq + t.snap.everyN
          stats := { t.stats with snapshots := t.stats.snapshots + 1 } }
      else
        { kept with
          asked := t.asked + 1
          stats := { t.stats with snapshotFailures := t.stats.snapshotFailures + 1 } }

def Thread.setSnapshotBaseline (t : Thread) (seq : UInt64) : Thread :=
  { t with lastSnapshotSeq := seq, nextSnapshotAt := seq + t.snap.everyN }

def Thread.applyPopped (env : Env) (t : Thread) (c : OrderCommand) : Thread :=
  let t := t.apply env c
  { t with stats := { t.stats with commandsApplied := t.stats.commandsApplied + 1 } }

def Thread.pollSync (env : Env) (t : Thread) : Thread :=
  { t with asked := t.asked + 1, wal := t.wal.map (fun w => w.pollSync (env.monotonicNs t.asked)) }

/-- One call of `drain` that pops these commands. -/
def Thread.drain (env : Env) (t : Thread) (batch : List OrderCommand) : Thread :=
  let t := batch.foldl (Thread.applyPopped env) t
  (if batch.isEmpty then t else t.pollSync env).maybeSnapshot env

end OrderMatching.MatchingThread
