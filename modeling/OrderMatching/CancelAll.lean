import OrderMatching.Answers
import OrderMatching.Resume
import OrderMatching.Uncrossed

namespace OrderMatching.CancelAll

open OrderMatching.Orders OrderMatching.Book OrderMatching.Engine OrderMatching.Queues
open OrderMatching.Commands OrderMatching.Exchange OrderMatching.MatchingThread
open OrderMatching.LedgerStep OrderMatching.LogFold OrderMatching.Registry OrderMatching.Acceptance
open OrderMatching.Bookkeeping OrderMatching.Answers OrderMatching.Modify OrderMatching.Resume
open OrderMatching.Uncrossed

attribute [ext] Ledger MatchingEngine

theorem sessions_withdrawn {l : Ledger} {live : Nat → Option Entry} (h : Sound l live) (x : Nat)
    (r : UInt64) :
    (withdrawn l x).sessionOrders r = (l.sessionOrders r).map (List.filter fun id => id ≠ x) := by
  have hreg : Registers (l.process (cancelRequest x)).2 live := h.registers.setEngine _
  have hother : (live x).map Entry.owner ≠ some r →
      l.sessionOrders r = (l.sessionOrders r).map (List.filter fun id => id ≠ x) := by
    intro hne
    cases hs : l.sessionOrders r with
    | none => rfl
    | some os =>
      have hkeep : os.filter (fun id => id ≠ x) = os := by
        apply List.filter_eq_self.mpr
        intro y hy
        have howner := (h.registers.session r y).mp (by rwa [hs])
        simpa using fun hyx : y = x => hne (hyx ▸ howner)
      rw [Option.map_some, hkeep]
  cases hx : live x with
  | none =>
    rw [withdrawn, hreg.forgetOrder_unknown hx]
    apply hother
    simp [hx]
  | some e =>
    rw [withdrawn, hreg.forgetOrder_known hx]
    by_cases hr : r = e.owner
    · subst hr
      exact Function.update_self _ _ _
    · refine (Function.update_of_ne hr _ _).trans (hother ?_)
      simpa [hx] using Ne.symm hr

theorem sessions_cancelOrders {l : Ledger} {live : Nat → Option Entry} (h : Sound l live)
    (ids : List Nat) (r : UInt64) :
    (cancelOrders l ids).sessionOrders r =
      (l.sessionOrders r).map (List.filter fun id => id ∉ ids) := by
  induction ids generalizing l live with
  | nil =>
    change l.sessionOrders r = _
    cases l.sessionOrders r <;> simp
  | cons x ids ih =>
    refine (ih (h.cancel x)).trans ?_
    rw [show (l.process (cancelRequest x)).2.forgetOrder x = withdrawn l x from rfl,
      sessions_withdrawn h, Option.map_map]
    congr 1
    funext os
    rw [Function.comp_apply, List.filter_filter]
    apply List.filter_congr
    intro y _
    by_cases hy : y = x <;> simp [hy]

theorem clock_cancelOrders (l : Ledger) (ids : List Nat) :
    (cancelOrders l ids).logicalClock = l.logicalClock := by
  induction ids generalizing l with
  | nil => rfl
  | cons x ids ih =>
    refine (ih _).trans ?_
    rw [clock_forgetOrder]
    rfl

theorem columns_ext {l l' : Ledger} {live : Nat → Option Entry} (h : Columns l live)
    (h' : Columns l' live) :
    l.ownerOf = l'.ownerOf ∧ l.clientIdOf = l'.clientIdOf ∧ l.remainingOf = l'.remainingOf ∧
      l.sideOf = l'.sideOf := by
  refine ⟨?_, ?_, ?_, ?_⟩ <;> funext x
  · rw [h.owner, h'.owner]
  · rw [h.client, h'.client]
  · rw [h.remaining, h'.remaining]
  · rw [h.side, h'.side]

/-- The orders of a list may be cancelled in any order. -/
theorem cancelOrders_congr {l : Ledger} {live : Nat → Option Entry} (h : Sound l live)
    {ids ids' : List Nat} (hids : ∀ x, x ∈ ids ↔ x ∈ ids') :
    cancelOrders l ids = cancelOrders l ids' := by
  have hs := sound_cancelOrders h ids
  have hs' := sound_cancelOrders h ids'
  have hlive : without live ids = without live ids' := by
    funext x
    simp only [without, hids]
  rw [hlive] at hs
  obtain ⟨hqueue, hclient, hlast, hnext⟩ := cancelOrders_spec h ids
  obtain ⟨hqueue', hclient', hlast', hnext'⟩ := cancelOrders_spec h ids'
  have hbook : (cancelOrders l ids).book = (cancelOrders l ids').book := by
    apply book_ext hs.settled.valid hs'.settled.valid
    intro s
    rw [hqueue, hqueue']
    simp only [hids]
  obtain ⟨howner, hclientId, hremaining, hside⟩ :=
    columns_ext hs.registers.toColumns hs'.registers.toColumns
  apply Ledger.ext
  · apply MatchingEngine.ext
    · exact hbook
    · rw [hs.quiet, hs'.quiet]
  · exact howner
  · exact hclientId
  · exact hremaining
  · exact hside
  · funext r
    rw [sessions_cancelOrders h, sessions_cancelOrders h]
    simp only [hids]
  · funext k
    rw [hclient, hclient']
    simp only [hids]
  · rw [hlast, hlast']
  · rw [hnext, hnext']
  · rw [clock_cancelOrders, clock_cancelOrders]

/-- The ledger with the set of a session's orders replaced: by another enumeration
of it, or by none. -/
def relisted (l : Ledger) (s : UInt64) (ids : Option (List Nat)) : Ledger :=
  { l with sessionOrders := Function.update l.sessionOrders s ids }

theorem relisted_forgetOrder (l : Ledger) (s : UInt64) (x : Nat) :
    relisted (l.forgetOrder x) s none = (relisted l s none).forgetOrder x := by
  cases ho : l.ownerOf x with
  | none => simp only [Ledger.forgetOrder, relisted, ho]
  | some r =>
    simp only [Ledger.forgetOrder, relisted, ho]
    by_cases hr : r = s
    · subst hr
      simp
    · rw [Function.update_of_ne hr, Function.update_comm hr]

theorem relisted_cancelOrders (l : Ledger) (s : UInt64) (ids : List Nat) :
    relisted (cancelOrders l ids) s none = cancelOrders (relisted l s none) ids := by
  induction ids generalizing l with
  | nil => rfl
  | cons x ids ih =>
    refine (ih _).trans ?_
    rw [relisted_forgetOrder]
    rfl

theorem stepCancelAll_eq (l : Ledger) (c : OrderCommand) : stepCancelAll l c =
    (cancelOrders (relisted l c.session none)
      ((l.sessionOrders c.session).getD [])).clearTradeLog := by
  rw [← relisted_cancelOrders]
  rfl

theorem stepCancelAll_relisted {l : Ledger} {live : Nat → Option Entry} (h : Sound l live)
    (c : OrderCommand) {ids : List Nat} (hids : ids.Perm ((l.sessionOrders c.session).getD [])) :
    stepCancelAll (relisted l c.session (some ids)) c = stepCancelAll l c := by
  have hlist : ((relisted l c.session (some ids)).sessionOrders c.session).getD [] = ids := by
    simp [relisted]
  have hnone : relisted (relisted l c.session (some ids)) c.session none =
      relisted l c.session none := by
    simp [relisted]
  rw [stepCancelAll_eq, stepCancelAll_eq, hlist, hnone, ← relisted_cancelOrders,
    ← relisted_cancelOrders, cancelOrders_congr h fun x => hids.mem_iff]

theorem applyCancelAll_relisted {t : Thread} {live : Nat → Option Entry} (h : Sound t.ledger live)
    (env : Env) (c : OrderCommand) {ids : List Nat}
    (hids : ids.Perm ((t.ledger.sessionOrders c.session).getD [])) :
    ({ t with ledger := relisted t.ledger c.session (some ids) } : Thread).applyCancelAll env c =
      t.applyCancelAll env c := by
  rw [applyCancelAll_eq, applyCancelAll_eq, pushTombstone_setLedger,
    stepCancelAll_relisted h c hids]
  rfl

/-- What is left when the orders of a session are gone. -/
structure Cleared (l l' : Ledger) (s : UInt64) : Prop where
  queues : ∀ side, queue l'.book side = (queue l.book side).filter fun o => l.ownerOf o.id ≠ some s
  columns : ∀ x, l.ownerOf x = some s →
    l'.ownerOf x = none ∧ l'.clientIdOf x = none ∧ l'.remainingOf x = none ∧ l'.sideOf x = none
  sessions : l'.sessionOrders s = none ∧ ∀ x, l.ownerOf x = some s →
    ∀ r, x ∉ (l'.sessionOrders r).getD []
  clients : ∀ x, l.ownerOf x = some s → ∀ k, l'.byClientId k ≠ some x
  others : ∀ x, l.ownerOf x ≠ some s → l'.ownerOf x = l.ownerOf x ∧
    l'.clientIdOf x = l.clientIdOf x ∧ l'.remainingOf x = l.remainingOf x ∧ l'.sideOf x = l.sideOf x
  tradeLog : (cancelOrders l ((l.sessionOrders s).getD [])).engine.tradeLog = []
  lastTrade : l'.lastTradeTicks = l.lastTradeTicks

theorem cleared_stepCancelAll {l : Ledger} {live : Nat → Option Entry} (h : Sound l live)
    (c : OrderCommand) :
    Cleared l (stepCancelAll l c) c.session := by
  have hs := sound_cancelAll h c
  have hmem : ∀ x, x ∈ (l.sessionOrders c.session).getD [] ↔ l.ownerOf x = some c.session := by
    intro x
    rw [h.registers.session, h.registers.owner]
  have hgone : ∀ x, l.ownerOf x = some c.session →
      without live ((l.sessionOrders c.session).getD []) x = none :=
    fun x hx => if_pos ((hmem x).mpr hx)
  have hkept : ∀ x, l.ownerOf x ≠ some c.session →
      without live ((l.sessionOrders c.session).getD []) x = live x :=
    fun x hx => if_neg fun hin => hx ((hmem x).mp hin)
  obtain ⟨hqueue, -, hlast, -⟩ := cancelOrders_spec h ((l.sessionOrders c.session).getD [])
  refine ⟨fun side => ?_, fun x hx => ?_, ⟨?_, fun x hx r hin => ?_⟩, fun x hx k hk => ?_,
    fun x hx => ?_, ?_, hlast⟩
  · refine (hqueue side).trans (List.filter_congr fun o _ => ?_)
    simp only [hmem]
  · rw [hs.registers.owner, hs.registers.client, hs.registers.remaining,
      hs.registers.side, hgone x hx]
    exact ⟨rfl, rfl, rfl, rfl⟩
  · exact Function.update_self _ _ _
  · have howner := (hs.registers.session r x).mp hin
    rw [hgone x hx] at howner
    cases howner
  · have hkey := hs.registers.byClient k x hk
    rw [hgone x hx] at hkey
    cases hkey
  · rw [hs.registers.owner, hs.registers.client, hs.registers.remaining, hs.registers.side,
      hkept x hx, h.registers.owner, h.registers.client, h.registers.remaining, h.registers.side]
    exact ⟨rfl, rfl, rfl, rfl⟩
  · exact (sound_cancelOrders h _).quiet

/-- A cancel-all that the log takes removes the orders of its session and nothing
else, without a trade, however the set of their ids is enumerated. -/
theorem cancelAll_clears {env : Env} {t : Thread} {c : OrderCommand} (ht : Reached t)
    (hc : c.type = .cancelAllForSession) (hadm : admits env t c = true) :
    Cleared t.ledger (t.apply env c).ledger c.session ∧ answers env t c = [] ∧
      ∀ ids : List Nat, ids.Perm ((t.ledger.sessionOrders c.session).getD []) →
        ({ t with ledger := relisted t.ledger c.session (some ids) } : Thread).apply env c =
          t.apply env c := by
  obtain ⟨live, h⟩ := ht.sound
  obtain ⟨hledger, hanswers⟩ := answers_admitted hadm
  have hstep : step t.risk t.ledger c = (stepCancelAll t.ledger c, []) := by rw [step, hc]
  rw [hledger, hanswers, hstep]
  refine ⟨cleared_stepCancelAll h c, rfl, fun ids hids => ?_⟩
  have hdispatch : ∀ t : Thread, t.dispatch env c = t.applyCancelAll env c := by
    intro t
    rw [Thread.dispatch, hc]
  obtain ⟨w, n, cs, happly, happly'⟩ :=
    apply_setLedger (relisted t.ledger c.session (some ids)) hadm
  rw [happly, happly', hdispatch, hdispatch]
  exact applyCancelAll_relisted (t := { t with wal := w, asked := n, appended := cs }) h env c hids

def threeBids : Thread :=
  (((Thread.fresh .default none ⟨"", 0⟩).apply .obliging (.newOrder 1 1 100 10 .bid .limit)).apply
    .obliging (.newOrder 2 1 100 20 .bid .limit)).apply .obliging (.newOrder 1 2 100 30 .bid .limit)

theorem reached_threeBids : Reached threeBids := .apply _ _ (.apply _ _ (.apply _ _ (.fresh _ _ _)))

theorem cleared_threeBids :
    Cleared threeBids.ledger (threeBids.apply .obliging (.cancelAll 1)).ledger 1 ∧
    answers .obliging threeBids (.cancelAll 1) = [] ∧
    ({ threeBids with ledger := relisted threeBids.ledger 1 (some [3, 1]) } : Thread).apply
      .obliging (.cancelAll 1) =
      threeBids.apply .obliging (.cancelAll 1) := by
  have hadm : admits .obliging threeBids (.cancelAll 1) = true := rfl
  obtain ⟨hcleared, hanswers, hany⟩ := cancelAll_clears reached_threeBids rfl hadm
  exact ⟨hcleared, hanswers, hany [3, 1] (by decide +kernel)⟩

end OrderMatching.CancelAll
