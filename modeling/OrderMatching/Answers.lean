import OrderMatching.LogFold

namespace OrderMatching.Answers

open OrderMatching.Orders OrderMatching.Book OrderMatching.Engine OrderMatching.Commands
open OrderMatching.Log OrderMatching.Exchange OrderMatching.MatchingThread OrderMatching.LedgerStep
open OrderMatching.LogFold

/-- Whether a command gets past the write-ahead log. -/
def admits (env : Env) (t : Thread) (c : OrderCommand) : Bool :=
  match (if t.replaying = false ∧ isLoggable c.type = true then t.wal else none) with
  | none => true
  | some w => (w.append c (env.monotonicNs t.asked) (env.written t.asked)).1

/-- The events a command emits, delivered or not. -/
def answers (env : Env) (t : Thread) (c : OrderCommand) : List OrderEvent :=
  (t.apply env c).emitted.drop t.emitted.length

theorem apply_setLedger {env : Env} {t : Thread} {c : OrderCommand} (l : Ledger)
    (hadm : admits env t c = true) :
    ∃ w n cs, t.apply env c =
      ({ t with wal := w, asked := n, appended := cs } : Thread).dispatch env c ∧
      ({ t with ledger := l } : Thread).apply env c =
        ({ t with ledger := l, wal := w, asked := n, appended := cs } : Thread).dispatch env c := by
  unfold Thread.apply
  unfold admits at hadm
  dsimp only
  generalize
    (if t.replaying = false ∧ isLoggable c.type = true then t.wal else none) = gate at hadm ⊢
  cases gate with
  | none => exact ⟨t.wal, t.asked, t.appended, rfl, rfl⟩
  | some w =>
    dsimp only at hadm ⊢
    rw [if_pos hadm, if_pos hadm]
    exact ⟨_, _, _, rfl, rfl⟩

theorem apply_admitted {env : Env} {t : Thread} {c : OrderCommand} (h : admits env t c = true) :
    ∃ w n cs, t.apply env c =
      ({ t with wal := w, asked := n, appended := cs } : Thread).dispatch env c := by
  obtain ⟨w, n, cs, happly, -⟩ := apply_setLedger t.ledger h
  exact ⟨w, n, cs, happly⟩

theorem apply_refused {env : Env} {t : Thread} {c : OrderCommand} (h : admits env t c = false) :
    ∃ w n k, t.apply env c =
      { t with wal := w, asked := n, stats := { t.stats with walFailures := k } } := by
  unfold Thread.apply
  unfold admits at h
  generalize (if t.replaying = false ∧ isLoggable c.type = true then t.wal else none) = gate at h ⊢
  cases gate with
  | none => cases h
  | some w =>
    simp only [h, Bool.false_eq_true, if_false]
    exact ⟨_, _, _, rfl⟩

theorem core_admitted {env : Env} {t : Thread} {c : OrderCommand} (h : admits env t c = true) :
    (t.apply env c).ledger = (step t.risk t.ledger c).1 ∧
      (t.apply env c).emitted = t.emitted ++ (step t.risk t.ledger c).2 ∧
      (t.apply env c).risk = t.risk ∧ (t.apply env c).replaying = t.replaying := by
  obtain ⟨w, n, cs, happly⟩ := apply_admitted h
  have hcore := core_dispatch env { t with wal := w, asked := n, appended := cs } c
  rw [← happly] at hcore
  exact ⟨congrArg Core.ledger hcore, congrArg Core.emitted hcore, congrArg Core.risk hcore,
    congrArg Core.replaying hcore⟩

theorem answers_admitted {env : Env} {t : Thread} {c : OrderCommand} (h : admits env t c = true) :
    (t.apply env c).ledger = (step t.risk t.ledger c).1 ∧
      answers env t c = (step t.risk t.ledger c).2 := by
  obtain ⟨hledger, hemitted, -⟩ := core_admitted h
  refine ⟨hledger, ?_⟩
  rw [answers, hemitted, List.drop_left]

theorem answers_refused {env : Env} {t : Thread} {c : OrderCommand} (h : admits env t c = false) :
    (t.apply env c).ledger = t.ledger ∧ answers env t c = [] := by
  obtain ⟨w, n, k, happly⟩ := apply_refused h
  rw [answers, happly]
  exact ⟨rfl, List.drop_length⟩

theorem routeFill_fills (l : Ledger) (xoid : Nat) (t : Trade) :
    ∀ e ∈ (routeFill l xoid t).2, e.type = .fill := by
  unfold routeFill
  split
  · simp
  · simp [OrderEvent.fill]

theorem publishAll_fills (l : Ledger) (trades : List Trade) :
    ∀ e ∈ (publishAll l trades).2, e.type = .fill := by
  induction trades generalizing l with
  | nil => simp [publishAll]
  | cons t trades ih =>
    intro e he
    simp only [publishAll, publishTrade, Result.andThen, List.mem_append] at he
    obtain (he | he) | he := he
    · exact routeFill_fills _ _ _ e he
    · exact routeFill_fills _ _ _ e he
    · exact ih _ e he

end OrderMatching.Answers
