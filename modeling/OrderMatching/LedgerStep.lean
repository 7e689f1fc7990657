import OrderMatching.Views

namespace OrderMatching.LedgerStep

open OrderMatching.Orders OrderMatching.Book OrderMatching.Engine OrderMatching.Commands
open OrderMatching.Log OrderMatching.Exchange OrderMatching.MatchingThread OrderMatching.Views

abbrev Result := Ledger × List OrderEvent

def Result.andThen (r : Result) (f : Ledger → Result) : Result := ((f r.1).1, r.2 ++ (f r.1).2)

def routeFill (l : Ledger) (xoid : Nat) (trade : Trade) : Result :=
  match l.ownerOf xoid with
  | none => (l, [])
  | some s =>
    let rem := (l.remainingOf xoid).getD 0 - trade.quantity
    let coid := (l.clientIdOf xoid).getD 0
    let l := { l with remainingOf := Function.update l.remainingOf xoid (some rem) }
    (if rem = 0 then l.forgetOrder xoid else l,
      [.fill s coid xoid trade.priceTicks trade.quantity rem])

def publishTrade (l : Ledger) (trade : Trade) : Result :=
  (routeFill { l with lastTradeTicks := trade.priceTicks } trade.buyerId trade).andThen
    fun l => routeFill l trade.sellerId trade

def publishAll : Ledger → List Trade → Result
  | l, [] => (l, [])
  | l, trade :: trades => (publishTrade l trade).andThen fun l => publishAll l trades

def publishTrades (l : Ledger) (start : Nat) : Result :=
  ((publishAll l (l.engine.tradeLog.drop start)).1.clearTradeLog,
    (publishAll l (l.engine.tradeLog.drop start)).2)

def stepNewOrder (risk : RiskConfig) (l : Ledger) (c : OrderCommand) : Result :=
  let reason := l.checkRisk risk c
  if reason ≠ .none then (l, [.reject c.session c.clientOrderId reason])
  else
    let o := l.incoming c
    let before := l.engine.tradeLog.length
    let r := (l.recordOrder c).process o
    if r.1.accepted then
      let s := publishTrades r.2 before
      (if o.kind = .market then s.1.forgetOrder o.id else s.1,
        .ack c.session c.clientOrderId o.id false :: s.2)
    else (r.2.forgetOrder o.id, [.reject c.session c.clientOrderId r.1.reason])

def stepCancel (l : Ledger) (c : OrderCommand) : Result :=
  let xoid := l.findOrder c.session c.clientOrderId
  if xoid = 0 then (l, [.reject c.session c.clientOrderId .unknownOrder])
  else
    let r := l.process (cancelRequest xoid)
    if r.1.accepted then (r.2.forgetOrder xoid, [.ack c.session c.clientOrderId xoid true])
    else (r.2, [.reject c.session c.clientOrderId r.1.reason])

def stepModify (risk : RiskConfig) (l : Ledger) (c : OrderCommand) : Result :=
  let oldId := l.findOrder c.session c.clientOrderId
  if oldId = 0 then (l, [.reject c.session c.clientOrderId .unknownOrder])
  else
    let oldSide := (l.sideOf oldId).getD .bid
    let r := ({ l with sideOf := Function.update l.sideOf oldId (some oldSide) } : Ledger).process
      (cancelRequest oldId)
    if r.1.accepted then stepNewOrder risk (r.2.forgetOrder oldId) (replacement c oldSide)
    else (r.2, [.reject c.session c.clientOrderId .unknownOrder])

def stepCancelAll (l : Ledger) (c : OrderCommand) : Ledger :=
  let l := (cancelOrders l ((l.sessionOrders c.session).getD [])).clearTradeLog
  { l with sessionOrders := Function.update l.sessionOrders c.session none }

/-- What a command does to the ledger once its record is down. -/
def step (risk : RiskConfig) (l : Ledger) (c : OrderCommand) : Result :=
  match c.type with
  | .sessionOpened => (l, [])
  | .subscribe => (l, [.ack c.session 0 0 false])
  | .newOrder => stepNewOrder risk l c
  | .cancel => stepCancel l c
  | .modify => stepModify risk l c
  | .cancelAllForSession => (stepCancelAll l c, [])

theorem forgetOrder_frame (l : Ledger) (xoid : Nat) :
    (l.forgetOrder xoid).engine = l.engine ∧
    (l.forgetOrder xoid).lastTradeTicks = l.lastTradeTicks ∧
      (l.forgetOrder xoid).nextExchangeId = l.nextExchangeId ∧
      (l.forgetOrder xoid).logicalClock = l.logicalClock := by
  unfold Ledger.forgetOrder
  dsimp only
  split <;> exact ⟨rfl, rfl, rfl, rfl⟩

@[simp] theorem engine_forgetOrder (l : Ledger) (xoid : Nat) :
    (l.forgetOrder xoid).engine = l.engine :=
  (forgetOrder_frame l xoid).1

@[simp] theorem lastTrade_forgetOrder (l : Ledger) (xoid : Nat) :
    (l.forgetOrder xoid).lastTradeTicks = l.lastTradeTicks := (forgetOrder_frame l xoid).2.1

@[simp] theorem nextId_forgetOrder (l : Ledger) (xoid : Nat) :
    (l.forgetOrder xoid).nextExchangeId = l.nextExchangeId := (forgetOrder_frame l xoid).2.2.1

@[simp] theorem clock_forgetOrder (l : Ledger) (xoid : Nat) :
    (l.forgetOrder xoid).logicalClock = l.logicalClock := (forgetOrder_frame l xoid).2.2.2

theorem routeFill_frame (l : Ledger) (xoid : Nat) (t : Trade) :
    (routeFill l xoid t).1.engine = l.engine ∧
    (routeFill l xoid t).1.lastTradeTicks = l.lastTradeTicks ∧
      (routeFill l xoid t).1.nextExchangeId = l.nextExchangeId ∧
      (routeFill l xoid t).1.logicalClock = l.logicalClock := by
  unfold routeFill
  split
  · exact ⟨rfl, rfl, rfl, rfl⟩
  · dsimp only
    split
    · exact forgetOrder_frame _ xoid
    · exact ⟨rfl, rfl, rfl, rfl⟩

theorem publishAll_frame (l : Ledger) (trades : List Trade) :
    (publishAll l trades).1.engine = l.engine ∧
      (publishAll l trades).1.lastTradeTicks =
        (trades.getLast?.map Trade.priceTicks).getD l.lastTradeTicks ∧
      (publishAll l trades).1.nextExchangeId = l.nextExchangeId ∧
      (publishAll l trades).1.logicalClock = l.logicalClock := by
  induction trades generalizing l with
  | nil => exact ⟨rfl, rfl, rfl, rfl⟩
  | cons t trades ih =>
    have hb := routeFill_frame { l with lastTradeTicks := t.priceTicks } t.buyerId t
    have hs :=
      routeFill_frame
        (routeFill { l with lastTradeTicks := t.priceTicks } t.buyerId t).1 t.sellerId t
    obtain ⟨i1, i2, i3, i4⟩ := ih (publishTrade l t).1
    refine ⟨i1.trans (hs.1.trans hb.1), ?_, i3.trans (hs.2.2.1.trans hb.2.2.1),
      i4.trans (hs.2.2.2.trans hb.2.2.2)⟩
    have hlast : (publishTrade l t).1.lastTradeTicks = t.priceTicks := hs.2.1.trans hb.2.1
    refine i2.trans ?_
    rw [hlast, List.getLast?_cons]
    cases trades.getLast? <;> rfl

structure Core where
  ledger : Ledger
  emitted : List OrderEvent
  risk : RiskConfig
  wal : Option Wal
  appended : List OrderCommand
  replaying : Bool

def core (t : Thread) : Core := ⟨t.ledger, t.emitted, t.risk, t.wal, t.appended, t.replaying⟩

def Core.after (k : Core) (r : Result) : Core :=
  { k with ledger := r.1, emitted := k.emitted ++ r.2 }

theorem after_andThen (k : Core) (r : Result) (f : Ledger → Result) :
    k.after (r.andThen f) = (k.after r).after (f (k.after r).ledger) := by
  simp [Core.after, Result.andThen]

theorem core_emit (env : Env) (t : Thread) (eg : Option Nat) (e : OrderEvent) :
    core (t.emit env eg e) = (core t).after (t.ledger, [e]) := by
  unfold Thread.emit
  dsimp only
  split
  · rfl
  · split
    · rfl
    · split <;> rfl

theorem ignoresBook_core : IgnoresBook core := fun _ _ _ _ _ => rfl

theorem core_publishBook (env : Env) (t : Thread) : core (t.publishBook env) = core t :=
  ignoresBook_core.publishBook env t

theorem core_setLedger (t : Thread) (l : Ledger) :
    core { t with ledger := l } = (core t).after (l, []) := by
  simp [core, Core.after]

@[simp] theorem ledger_emit (env : Env) (t : Thread) (eg : Option Nat) (e : OrderEvent) :
    (t.emit env eg e).ledger = t.ledger := congrArg Core.ledger (core_emit env t eg e)

@[simp] theorem ledger_publishBook (env : Env) (t : Thread) :
    (t.publishBook env).ledger = t.ledger :=
  congrArg Core.ledger (core_publishBook env t)

theorem core_routeFill (env : Env) (t : Thread) (xoid : Nat) (trade : Trade) :
    core (t.routeFill env xoid trade) = (core t).after (routeFill t.ledger xoid trade) := by
  cases ho : t.ledger.ownerOf xoid with
  | none => simp [Thread.routeFill, routeFill, ho, Core.after, core]
  | some s =>
    simp only [Thread.routeFill, routeFill, ho]
    split
    · rw [core_setLedger, core_emit, ledger_emit]
      simp [Core.after, core]
    · rw [core_emit]
      simp [Core.after, core]

theorem core_publishTrade (env : Env) (t : Thread) (trade : Trade) :
    core (t.publishTrade env trade) = (core t).after (publishTrade t.ledger trade) := by
  have hledger : ∀ t : Thread, t.ledger = (core t).ledger := fun _ => rfl
  rw [Thread.publishTrade, publishTrade, after_andThen, core_routeFill,
    hledger (Thread.routeFill _ _ _ _), core_routeFill, core_setLedger]
  simp [Core.after, core]

theorem core_publishAll (env : Env) (t : Thread) (trades : List Trade) :
    core (trades.foldl (Thread.publishTrade env) t) =
      (core t).after (publishAll t.ledger trades) := by
  induction trades generalizing t with
  | nil => simp [publishAll, Core.after, core]
  | cons trade trades ih =>
    rw [List.foldl_cons, ih, publishAll, after_andThen, ← core_publishTrade]
    rfl

theorem core_publishTrades (env : Env) (t : Thread) (start : Nat) :
    core (t.publishTrades env start) = (core t).after (publishTrades t.ledger start) := by
  have h := core_publishAll env t (t.ledger.engine.tradeLog.drop start)
  have hl : (List.foldl (Thread.publishTrade env) t (t.ledger.engine.tradeLog.drop start)).ledger =
      _ :=
    congrArg Core.ledger h
  rw [Thread.publishTrades, core_setLedger, h, hl]
  simp [Core.after, publishTrades]

theorem core_applyNewOrder (env : Env) (t : Thread) (c : OrderCommand) :
    core (t.applyNewOrder env c) = (core t).after (stepNewOrder t.risk t.ledger c) := by
  unfold Thread.applyNewOrder stepNewOrder
  dsimp only
  split
  · exact core_emit env t _ _
  · split
    · have hlog : (t.ledger.recordOrder c).engine.tradeLog = t.ledger.engine.tradeLog := rfl
      have hpub : ∀ t' : Thread, t'.ledger = (core t').ledger := fun _ => rfl
      split
      · rw [core_setLedger, core_publishBook, ledger_publishBook, hpub (Thread.publishTrades _ _ _),
          core_publishTrades, ledger_emit, core_emit, core_setLedger, core_setLedger, hlog]
        simp [Core.after]
      · rw [core_publishBook, core_publishTrades, ledger_emit, core_emit, core_setLedger,
          core_setLedger, hlog]
        simp [Core.after]
    · rw [core_emit, core_setLedger, core_setLedger, core_setLedger]
      simp [Core.after]

theorem core_applyCancel (env : Env) (t : Thread) (c : OrderCommand) :
    core (t.applyCancel env c) = (core t).after (stepCancel t.ledger c) := by
  unfold Thread.applyCancel stepCancel
  dsimp only
  split
  · exact core_emit env t _ _
  · split
    · rw [core_publishBook, core_emit, core_setLedger, core_setLedger]
      simp [Core.after]
    · rw [core_emit, core_setLedger]
      simp [Core.after]

theorem core_applyModify (env : Env) (t : Thread) (c : OrderCommand) :
    core (t.applyModify env c) = (core t).after (stepModify t.risk t.ledger c) := by
  unfold Thread.applyModify stepModify
  dsimp only
  split
  · exact core_emit env t _ _
  · split
    · rw [core_applyNewOrder, core_setLedger, core_setLedger, core_setLedger]
      simp [Core.after]
    · rw [core_emit, core_setLedger, core_setLedger]
      simp [Core.after]

theorem core_pushTombstone (env : Env) (t : Thread) (s : UInt64) :
    core (t.pushTombstone env s) = core t := by
  unfold Thread.pushTombstone
  split
  · rfl
  · split <;> rfl

theorem pushTombstone_setLedger (env : Env) (t : Thread) (s : UInt64) (l : Ledger) :
    ({ t with ledger := l } : Thread).pushTombstone env s =
      { t.pushTombstone env s with ledger := l } := by
  have heg : ({ t with ledger := l } : Thread).egressFor s = t.egressFor s := rfl
  unfold Thread.pushTombstone
  rw [heg]
  cases t.egressFor s with
  | none => rfl
  | some q =>
    dsimp only
    split <;> rfl

def retire (t : Thread) (s : UInt64) : Thread :=
  { t with
    egress := Function.update t.egress s none
    md := Function.update t.md s none
    subscribers := t.subscribers.filter fun sub => sub.1 ≠ s
    stats := { t.stats with sessionsRetired := t.stats.sessionsRetired + 1 } }

theorem applyCancelAll_eq (env : Env) (t : Thread) (c : OrderCommand) :
    t.applyCancelAll env c =
      ({ retire (t.pushTombstone env c.session) c.session with
        ledger := stepCancelAll t.ledger c } : Thread).publishBook env := by
  simp only [Thread.applyCancelAll, pushTombstone_setLedger]
  rfl

theorem core_applyCancelAll (env : Env) (t : Thread) (c : OrderCommand) :
    core (t.applyCancelAll env c) = (core t).after (stepCancelAll t.ledger c, []) := by
  have hretire : ∀ t : Thread, core (retire t c.session) = core t := fun _ => rfl
  rw [applyCancelAll_eq, core_publishBook, core_setLedger, hretire, core_pushTombstone]

/-- Queues, subscribers and replay mode leave no trace in the ledger. -/
theorem core_dispatch (env : Env) (t : Thread) (c : OrderCommand) :
    core (t.dispatch env c) = (core t).after (step t.risk t.ledger c) := by
  unfold Thread.dispatch step
  cases c.type with
  | sessionOpened => simp [core, Core.after]
  | subscribe =>
    dsimp only
    rw [core_publishBook, core_emit]
    rfl
  | newOrder => exact core_applyNewOrder env t c
  | cancel => exact core_applyCancel env t c
  | modify => exact core_applyModify env t c
  | cancelAllForSession => exact core_applyCancelAll env t c

end OrderMatching.LedgerStep
