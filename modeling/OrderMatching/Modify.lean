import OrderMatching.Answers
import OrderMatching.Bookkeeping

namespace OrderMatching.Modify

open OrderMatching.Orders OrderMatching.Book OrderMatching.Queues OrderMatching.Commands
open OrderMatching.Log OrderMatching.Exchange OrderMatching.MatchingThread OrderMatching.LedgerStep
open OrderMatching.LogFold OrderMatching.Registry OrderMatching.Acceptance OrderMatching.Bookkeeping
open OrderMatching.Answers

structure SameMarket (l l' : Ledger) : Prop where
  book : l'.book = l.book
  ownerOf : l'.ownerOf = l.ownerOf
  clientIdOf : l'.clientIdOf = l.clientIdOf
  remainingOf : l'.remainingOf = l.remainingOf
  sideOf : l'.sideOf = l.sideOf
  sessionOrders : l'.sessionOrders = l.sessionOrders
  byClientId : l'.byClientId = l.byClientId

theorem sameMarket_refl (l : Ledger) : SameMarket l l := ⟨rfl, rfl, rfl, rfl, rfl, rfl, rfl⟩

/-- A command that is answered with a Reject changes nothing. -/
def Atomic (env : Env) (t : Thread) (c : OrderCommand) : Prop :=
  (∃ e ∈ answers env t c, e.type = .reject) → SameMarket t.ledger (t.apply env c).ledger

/-- The ledger that the replacement is checked against: the old order is gone
from it. -/
def withdrawn (l : Ledger) (x : Nat) : Ledger := (l.process (cancelRequest x)).2.forgetOrder x

theorem book_withdrawn (l : Ledger) (x : Nat) :
    (withdrawn l x).book = (l.book.cancelOrder x).2 := by
  rw [withdrawn, Ledger.book, engine_forgetOrder]
  rfl

theorem withdrawn_frame (l : Ledger) (x : Nat) : (withdrawn l x).lastTradeTicks = l.lastTradeTicks ∧
    (withdrawn l x).nextExchangeId = l.nextExchangeId := by simp [withdrawn, Ledger.process]

theorem queue_withdrawn {l : Ledger} {live : Nat → Option Entry} (h : Sound l live) (x : Nat)
    (s : Side) :
    queue (withdrawn l x).book s = (queue l.book s).filter (fun o => o.id ≠ x) := by
  rw [book_withdrawn]
  exact (cancelOrder_spec h.settled.valid x).2 s

def ReplacementPasses (risk : RiskConfig) (l : Ledger) (c : OrderCommand) : Prop :=
  let x := l.findOrder c.session c.clientOrderId
  x = 0 ∨ (withdrawn l x).checkRisk risk (replacement c ((l.sideOf x).getD .bid)) = .none

theorem stepNewOrder_passes {risk : RiskConfig} {l : Ledger} {c : OrderCommand}
    (h : l.checkRisk risk c = .none) :
    ∀ e ∈ (stepNewOrder risk l c).2, e.type ≠ .reject := by
  have hacc : ((l.recordOrder c).process (l.incoming c)).1.accepted = true := process_accepts l c
  simp only [stepNewOrder, h, ne_eq, not_true_eq_false, if_false, hacc, if_true, List.mem_cons]
  rintro e (rfl | he)
  · simp [OrderEvent.ack]
  · have hfill := publishAll_fills _ _ e he
    simp [hfill]

theorem stepNewOrder_rejects {risk : RiskConfig} {l : Ledger} {c : OrderCommand}
    (h : l.checkRisk risk c ≠ .none) :
    stepNewOrder risk l c = (l, [.reject c.session c.clientOrderId (l.checkRisk risk c)]) := by
  simp only [stepNewOrder, ne_eq, h, not_false_eq_true, if_true]

theorem withdrawn_ne {l : Ledger} {live : Nat → Option Entry} (h : Sound l live) {x : Nat}
    {e : Entry} (he : live x = some e) : (withdrawn l x).book ≠ l.book := by
  obtain ⟨o, ho, rfl⟩ := h.backed x e he
  obtain ⟨s, hs⟩ := mem_queue.mp ho
  intro hb
  rw [← hb, queue_withdrawn h] at hs
  simp at hs

/-- A Modify is atomic exactly when its replacement is not refused: the old
order is cancelled before the replacement is checked. -/
theorem atomic_iff (env : Env) (risk : RiskConfig) (wal : Option Wal) (snap : SnapshotPolicy)
    (cs : List OrderCommand) (c : OrderCommand) (hc : c.type = .modify) :
    let t := run env (Thread.fresh risk wal snap) cs
    Atomic env t c ↔ admits env t c = false ∨ ReplacementPasses risk t.ledger c := by
  intro t
  obtain ⟨live, h⟩ := sound_run env risk wal snap cs
  have hrisk : t.risk = risk := risk_run env cs _
  cases hadm : admits env t c with
  | false =>
    obtain ⟨-, ha⟩ := answers_refused hadm
    simp [Atomic, ha]
  | true =>
    obtain ⟨hl, ha⟩ := answers_admitted hadm
    have hstep : step t.risk t.ledger c = stepModify risk t.ledger c := by rw [step, hc, hrisk]
    rw [hstep] at hl ha
    simp only [Atomic, ReplacementPasses, hl, ha, reduceCtorEq, false_or]
    by_cases hx : t.ledger.findOrder c.session c.clientOrderId = 0
    · simp only [stepModify, hx, if_true, true_or, iff_true]
      exact fun _ => sameMarket_refl _
    · obtain ⟨⟨e, he, -⟩, -⟩ := sound_found h hx
      have hside : (t.ledger.sideOf (t.ledger.findOrder c.session c.clientOrderId)).getD
          .bid = e.side := by
        rw [h.registers.side, he]
        rfl
      rw [stepModify_found h risk hx he, hside]
      simp only [hx, false_or]
      by_cases hpass :
        (withdrawn t.ledger (t.ledger.findOrder c.session c.clientOrderId)).checkRisk risk
          (replacement c e.side) = .none
      · simp only [hpass, iff_true]
        rintro ⟨ev, hev, hrej⟩
        exact absurd hrej (stepNewOrder_passes hpass ev hev)
      · simp only [hpass, iff_false]
        intro hall
        have hrej := stepNewOrder_rejects hpass
        unfold withdrawn at hrej
        rw [hrej] at hall
        exact withdrawn_ne h he (hall ⟨_, List.mem_singleton.mpr rfl, rfl⟩).book

def oneBid : Thread :=
  run .obliging (Thread.fresh .default none ⟨"", 0⟩) [.newOrder 1 1 100 10 .bid .limit]

theorem atomic_oneBid : Atomic .obliging oneBid (.modify 1 1 101 5) :=
  (atomic_iff .obliging .default none ⟨"", 0⟩ [.newOrder 1 1 100 10 .bid .limit] (.modify 1 1 101 5)
    rfl).mpr (Or.inr (Or.inr (by decide +kernel)))

/-- Repricing that bid to zero is rejected, and the bid is gone. -/
theorem atomic_fails : ¬∀ (env : Env) (risk : RiskConfig) (wal : Option Wal) (snap : SnapshotPolicy)
    (cs : List OrderCommand) (c : OrderCommand), c.type = .modify →
    Atomic env (run env (Thread.fresh risk wal snap) cs) c := by
  intro h
  have hsame : SameMarket oneBid.ledger (oneBid.apply .obliging (.modify 1 1 0 5)).ledger :=
    h .obliging .default none ⟨"", 0⟩ [.newOrder 1 1 100 10 .bid .limit] (.modify 1 1 0 5) rfl
      (by decide +kernel)
  have hbids := congrArg OrderBook.bids hsame.book
  revert hbids
  decide +kernel

end OrderMatching.Modify
