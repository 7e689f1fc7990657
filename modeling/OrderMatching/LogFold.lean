import OrderMatching.LedgerStep

namespace OrderMatching.LogFold

open OrderMatching.Orders OrderMatching.Book OrderMatching.Engine OrderMatching.Commands
open OrderMatching.Log OrderMatching.Exchange OrderMatching.MatchingThread OrderMatching.LedgerStep

/-- The ledger after a list of commands, with no thread around it. -/
def fold (risk : RiskConfig) (l : Ledger) (cs : List OrderCommand) : Ledger :=
  cs.foldl (fun l c => (step risk l c).1) l

theorem fold_concat (risk : RiskConfig) (l : Ledger) (cs : List OrderCommand) (c : OrderCommand) :
    fold risk l (cs ++ [c]) = (step risk (fold risk l cs) c).1 := by simp [fold]

theorem step_not_loggable {c : OrderCommand} (h : isLoggable c.type = false) (risk : RiskConfig)
    (l : Ledger) :
    (step risk l c).1 = l := by
  cases ht : c.type <;> simp_all [isLoggable, step]

theorem tradeLog_cancel (e : MatchingEngine) (xoid : Nat) :
    (e.processOrder (cancelRequest xoid)).2.tradeLog = e.tradeLog := rfl

theorem process_accepts (l : Ledger) (c : OrderCommand) :
    ((l.recordOrder c).process (l.incoming c)).1.accepted = true := by
  cases ht : c.orderType <;> simp [Ledger.process, MatchingEngine.processOrder, Ledger.incoming, ht]

theorem tradeLog_newOrder {l : Ledger} (h : l.engine.tradeLog = []) (risk : RiskConfig)
    (c : OrderCommand) :
    (stepNewOrder risk l c).1.engine.tradeLog = [] := by
  unfold stepNewOrder
  dsimp only
  split
  · exact h
  · rw [if_pos (process_accepts l c)]
    split
    · rw [engine_forgetOrder]
      rfl
    · rfl

theorem tradeLog_step {l : Ledger} (h : l.engine.tradeLog = []) (risk : RiskConfig)
    (c : OrderCommand) :
    (step risk l c).1.engine.tradeLog = [] := by
  unfold step
  split
  · exact h
  · exact h
  · exact tradeLog_newOrder h risk c
  · unfold stepCancel
    dsimp only
    split
    · exact h
    · split
      · rw [engine_forgetOrder]
        exact (tradeLog_cancel _ _).trans h
      · exact (tradeLog_cancel _ _).trans h
  · unfold stepModify
    dsimp only
    split
    · exact h
    · split
      · refine tradeLog_newOrder ?_ risk _
        rw [engine_forgetOrder]
        exact (tradeLog_cancel _ _).trans h
      · exact (tradeLog_cancel _ _).trans h
  · rfl

theorem tradeLog_fold (risk : RiskConfig) (cs : List OrderCommand) {l : Ledger}
    (h : l.engine.tradeLog = []) :
    (fold risk l cs).engine.tradeLog = [] := by
  induction cs generalizing l with
  | nil => exact h
  | cons c cs ih => exact ih (tradeLog_step h risk c)

theorem core_replay (env : Env) (cs : List OrderCommand) {t : Thread} (ht : t.replaying = true) :
    (cs.foldl (Thread.apply env) t).ledger = fold t.risk t.ledger cs := by
  induction cs generalizing t with
  | nil => rfl
  | cons c cs ih =>
    have happly : t.apply env c = t.dispatch env c := by simp [Thread.apply, ht]
    have hcore := core_dispatch env t c
    rw [List.foldl_cons, happly, ih ((congrArg Core.replaying hcore).trans ht)]
    rw [show (t.dispatch env c).risk = t.risk from congrArg Core.risk hcore,
      show (t.dispatch env c).ledger = (step t.risk t.ledger c).1 from congrArg Core.ledger hcore]
    rfl

theorem clearTradeLog_of_empty {l : Ledger} (h : l.engine.tradeLog = []) : l.clearTradeLog = l := by
  rw [Ledger.clearTradeLog, MatchingEngine.clearTradeLog, ← h]

theorem ledger_recover (env : Env) {t : Thread} (ht : t.ledger.engine.tradeLog = [])
    (cs : List OrderCommand) :
    (t.recover env cs).ledger = fold t.risk t.ledger cs := by
  have hlog : (fold t.risk t.ledger cs).engine.tradeLog = [] := tradeLog_fold t.risk cs ht
  have hreplay := core_replay env cs (t := { t with replaying := true }) rfl
  simp only [Thread.recover, hreplay]
  exact clearTradeLog_of_empty hlog

/-- Write-ahead: a loggable command reaches the ledger exactly when its append
returned true. -/
theorem core_apply_logged (env : Env) {t : Thread} {c : OrderCommand} {w : Wal}
    (hlive : t.replaying = false) (hc : isLoggable c.type = true) (hw : t.wal = some w) :
    let r := w.append c (env.monotonicNs t.asked) (env.written t.asked)
    core (t.apply env c) =
      if r.1 then
        ({ core t with wal := some r.2, appended := t.appended ++ [c] } : Core).after
          (step t.risk t.ledger c)
      else { core t with wal := some r.2 } := by
  have hgate :
      (if t.replaying = false ∧ isLoggable c.type = true then t.wal else none) = some w := by
    rw [if_pos ⟨hlive, hc⟩, hw]
  simp only [Thread.apply, hgate]
  split
  · rw [core_dispatch]
    rfl
  · rfl

theorem core_apply_unlogged (env : Env) {t : Thread} {c : OrderCommand}
    (hc : isLoggable c.type = false) :
    core (t.apply env c) = (core t).after (t.ledger, (step t.risk t.ledger c).2) := by
  have happly : t.apply env c = t.dispatch env c := by simp [Thread.apply, hc]
  rw [happly, core_dispatch]
  simp only [Core.after, step_not_loggable hc t.risk t.ledger]

theorem ledger_apply (env : Env) (t : Thread) (c : OrderCommand) : (t.apply env c).risk = t.risk ∧
    ((t.apply env c).ledger = t.ledger ∨ (t.apply env c).ledger = (step t.risk t.ledger c).1) := by
  unfold Thread.apply
  split
  · have hcore := core_dispatch env t c
    exact ⟨congrArg Core.risk hcore, Or.inr (congrArg Core.ledger hcore)⟩
  · dsimp only
    split
    · have hcore := fun t' : Thread => core_dispatch env t' c
      exact ⟨congrArg Core.risk (hcore _), Or.inr (congrArg Core.ledger (hcore _))⟩
    · exact ⟨rfl, Or.inl rfl⟩

def run (env : Env) (t : Thread) (cs : List OrderCommand) : Thread := cs.foldl (Thread.apply env) t

theorem ledger_run (env : Env) (cs : List OrderCommand) (t : Thread) :
    ∃ ds, (run env t cs).ledger = fold t.risk t.ledger ds := by
  induction cs generalizing t with
  | nil => exact ⟨[], rfl⟩
  | cons c cs ih =>
    obtain ⟨ds, hds⟩ := ih (t.apply env c)
    rw [show run env t (c :: cs) = run env (t.apply env c) cs from rfl, hds]
    obtain ⟨hrisk, hl | hl⟩ := ledger_apply env t c
    · exact ⟨ds, by rw [hrisk, hl]⟩
    · exact ⟨c :: ds, by rw [hrisk, hl]; rfl⟩

theorem risk_run (env : Env) (cs : List OrderCommand) (t : Thread) :
    (run env t cs).risk = t.risk := by
  induction cs generalizing t with
  | nil => rfl
  | cons c cs ih => exact (ih _).trans (ledger_apply env t c).1

/-- A live thread whose ledger is the fold over what it has logged of the
commands it has seen. -/
structure Live (risk : RiskConfig) (seen : List OrderCommand) (k : Core) : Prop where
  sameRisk : k.risk = risk
  live : k.replaying = false
  logged : k.wal.isSome = true
  folded : k.ledger = fold risk Ledger.initial k.appended
  appended : k.appended.Sublist (seen.filter (fun c => isLoggable c.type))

theorem live_apply {risk : RiskConfig} {seen : List OrderCommand} {t : Thread}
    (h : Live risk seen (core t)) (env : Env) (c : OrderCommand) :
    Live risk (seen ++ [c]) (core (t.apply env c)) := by
  obtain ⟨w, hw⟩ := Option.isSome_iff_exists.mp h.logged
  cases hc : isLoggable c.type with
  | false =>
    rw [core_apply_unlogged env hc]
    exact ⟨h.sameRisk, h.live, h.logged, h.folded, by simpa [hc, Core.after] using h.appended⟩
  | true =>
    have hseen : (seen ++ [c]).filter (fun c => isLoggable c.type) =
        seen.filter (fun c => isLoggable c.type) ++ [c] := by simp [hc]
    rw [core_apply_logged env h.live hc hw]
    split
    · refine ⟨h.sameRisk, h.live, rfl, ?_, ?_⟩
      · have hrisk : t.risk = risk := h.sameRisk
        have hfold : t.ledger = fold risk Ledger.initial t.appended := h.folded
        simp only [Core.after, core, fold_concat, hrisk, ← hfold]
      · rw [hseen]
        exact h.appended.append_right [c]
    · refine ⟨h.sameRisk, h.live, rfl, h.folded, ?_⟩
      rw [hseen]
      exact h.appended.trans (List.sublist_append_left _ _)

theorem core_maybeSnapshot (env : Env) (t : Thread) :
    ∃ wal, wal.isSome = t.wal.isSome ∧ core (t.maybeSnapshot env) = { core t with wal := wal } := by
  unfold Thread.maybeSnapshot
  split
  · exact ⟨t.wal, rfl, rfl⟩
  · rename_i w hw
    split
    · exact ⟨t.wal, rfl, rfl⟩
    · dsimp only
      split
      · refine ⟨some (if t.lastSnapshotSeq > 0 then
          (w.truncateBefore t.lastSnapshotSeq (env.truncateFault t.asked)).2 else w),
            by simp [hw], ?_⟩
        split <;> rfl
      · refine ⟨t.wal, rfl, ?_⟩
        split <;> rfl

theorem live_setWal {risk : RiskConfig} {seen : List OrderCommand} {k : Core} (h : Live risk seen k)
    {wal : Option Wal} (hw : wal.isSome = true) : Live risk seen { k with wal := wal } :=
  ⟨h.sameRisk, h.live, hw, h.folded, h.appended⟩

theorem live_batch {risk : RiskConfig} (env : Env) (batch : List OrderCommand)
    {seen : List OrderCommand} {t : Thread} (h : Live risk seen (core t)) :
    Live risk (seen ++ batch) (core (batch.foldl (Thread.applyPopped env) t)) := by
  induction batch generalizing seen t with
  | nil => simpa using h
  | cons c batch ih =>
    have hc : Live risk (seen ++ [c]) (core (t.applyPopped env c)) := live_apply h env c
    simpa using ih hc

theorem live_drain {risk : RiskConfig} {seen : List OrderCommand} {t : Thread}
    (h : Live risk seen (core t)) (env : Env) (batch : List OrderCommand) :
    Live risk (seen ++ batch) (core (t.drain env batch)) := by
  have hb := live_batch env batch h
  have hsnap : ∀ t' : Thread, Live risk (seen ++ batch) (core t') →
      Live risk (seen ++ batch) (core (t'.maybeSnapshot env)) := by
    intro t' ht
    obtain ⟨wal, hw, hcore⟩ := core_maybeSnapshot env t'
    rw [hcore]
    exact live_setWal ht (hw.trans ht.logged)
  unfold Thread.drain
  apply hsnap
  split
  · exact hb
  · have hwal := hb.logged
    exact live_setWal hb (by simpa [core, Thread.pollSync] using hwal)

/-- The state of a live run is the fold over its log: a fresh thread that
recovers the logged commands ends in the same ledger. -/
theorem ledger_eq_recover (env env' : Env) (risk : RiskConfig) (w : Wal) (wal' : Option Wal)
    (snap snap' : SnapshotPolicy) (batches : List (List OrderCommand)) :
    let t := batches.foldl (Thread.drain env) (Thread.fresh risk (some w) snap)
    t.appended.Sublist (batches.flatten.filter (fun c => isLoggable c.type)) ∧
      t.ledger = ((Thread.fresh risk wal' snap').recover env' t.appended).ledger := by
  have hrun : ∀ (seen : List OrderCommand) (t : Thread), Live risk seen (core t) →
      Live risk (seen ++ batches.flatten) (core (batches.foldl (Thread.drain env) t)) := by
    induction batches with
    | nil => simp
    | cons batch batches ih =>
      intro seen t h
      simpa using ih _ _ (live_drain h env batch)
  have h := hrun [] (Thread.fresh risk (some w) snap) ⟨rfl, rfl, rfl, rfl, List.Sublist.refl _⟩
  exact ⟨h.appended,
    h.folded.trans (ledger_recover env' (t := Thread.fresh risk wal' snap') rfl _).symm⟩

end OrderMatching.LogFold
