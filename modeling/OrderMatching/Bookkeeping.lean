import OrderMatching.Acceptance

namespace OrderMatching.Bookkeeping

open OrderMatching.Orders OrderMatching.Book OrderMatching.Queues OrderMatching.Commands
open OrderMatching.Log OrderMatching.Exchange OrderMatching.MatchingThread OrderMatching.LedgerStep
open OrderMatching.LogFold OrderMatching.Registry OrderMatching.Acceptance

theorem sound_found {l : Ledger} {live : Nat → Option Entry} (h : Sound l live) {s coid : UInt64}
    (hx : l.findOrder s coid ≠ 0) :
    (∃ e, live (l.findOrder s coid) = some e ∧ e.key = keyOf s coid) ∧
      (l.process (cancelRequest (l.findOrder s coid))).1.accepted = true := by
  have hk : l.byClientId (keyOf s coid) = some (l.findOrder s coid) := by
    unfold Ledger.findOrder at hx ⊢
    cases hb : l.byClientId (keyOf s coid) with
    | none => simp [hb] at hx
    | some x => rfl
  have hlive := h.registers.byClient _ _ hk
  obtain ⟨e, he, hkey⟩ := Option.map_eq_some_iff.mp hlive
  exact ⟨⟨e, he, hkey⟩, (cancelOrder_spec h.settled.valid _).1.mpr (h.backed _ e he)⟩

theorem stepCancel_found {l : Ledger} {live : Nat → Option Entry} (h : Sound l live)
    {c : OrderCommand} (hx : l.findOrder c.session c.clientOrderId ≠ 0) :
    stepCancel l c =
      ((l.process (cancelRequest (l.findOrder c.session c.clientOrderId))).2.forgetOrder
        (l.findOrder c.session c.clientOrderId),
        [.ack c.session c.clientOrderId (l.findOrder c.session c.clientOrderId) true]) := by
  simp only [stepCancel, hx, if_false, (sound_found h hx).2, if_true]

theorem stepModify_found {l : Ledger} {live : Nat → Option Entry} (h : Sound l live)
    (risk : RiskConfig) {c : OrderCommand} {e : Entry}
    (hx : l.findOrder c.session c.clientOrderId ≠ 0)
    (he : live (l.findOrder c.session c.clientOrderId) = some e) :
    stepModify risk l c =
      stepNewOrder risk
        ((l.process (cancelRequest (l.findOrder c.session c.clientOrderId))).2.forgetOrder
          (l.findOrder c.session c.clientOrderId)) (replacement c e.side) := by
  have hside : l.sideOf (l.findOrder c.session c.clientOrderId) = some e.side := by
    rw [h.registers.side, he]
    rfl
  have hsame : Function.update l.sideOf (l.findOrder c.session c.clientOrderId) (some e.side) =
      l.sideOf := by
    rw [← hside, Function.update_eq_self]
  simp only [stepModify, hx, if_false, hside, Option.getD_some, hsame,
    (sound_found h hx).2, if_true]

def without (live : Nat → Option Entry) (ids : List Nat) (x : Nat) : Option Entry :=
  if x ∈ ids then none else live x

theorem without_nil (live : Nat → Option Entry) : without live [] = live := by
  funext y
  simp [without]

theorem without_cons (live : Nat → Option Entry) (x : Nat) (ids : List Nat) :
    without (Function.update live x none) ids = without live (x :: ids) := by
  funext y
  by_cases hy : y = x
  · simp [without, hy]
  · simp [without, hy]

theorem sound_cancelOrders {l : Ledger} {live : Nat → Option Entry} (h : Sound l live)
    (ids : List Nat) :
    Sound (cancelOrders l ids) (without live ids) := by
  induction ids generalizing l live with
  | nil => exact without_nil live ▸ h
  | cons x ids ih => exact without_cons live x ids ▸ ih (h.cancel x)

theorem sound_cancelAll {l : Ledger} {live : Nat → Option Entry} (h : Sound l live)
    (c : OrderCommand) :
    Sound (stepCancelAll l c) (without live ((l.sessionOrders c.session).getD [])) := by
  have hs := sound_cancelOrders h ((l.sessionOrders c.session).getD [])
  have hreg := hs.registers
  have hgone : ∀ x, (without live ((l.sessionOrders c.session).getD []) x).map Entry.owner ≠
      some c.session := by
    intro x
    unfold without
    split
    · simp
    · rename_i hx
      rwa [h.registers.session] at hx
  refine ⟨⟨⟨hreg.owner, hreg.client, hreg.remaining, hreg.side⟩, fun s x => ?_, hreg.byClient⟩,
    hs.settled, hs.rests, hs.backed, hs.fresh, hs.started, rfl⟩
  by_cases hsc : s = c.session
  · subst hsc
    simpa [stepCancelAll] using hgone x
  · rw [stepCancelAll]
    dsimp only
    rw [Function.update_of_ne hsc]
    exact hreg.session s x

theorem sound_step {l : Ledger} {live : Nat → Option Entry} (h : Sound l live) (risk : RiskConfig)
    (c : OrderCommand) : ∃ live', Sound (step risk l c).1 live' := by
  unfold step
  cases c.type with
  | sessionOpened => exact ⟨live, h⟩
  | subscribe => exact ⟨live, h⟩
  | newOrder => exact h.newOrder risk c
  | cancel =>
    by_cases hx : l.findOrder c.session c.clientOrderId = 0
    · exact ⟨live, by simpa only [stepCancel, hx, if_true] using h⟩
    · exact ⟨_, by rw [stepCancel_found h hx]; exact h.cancel _⟩
  | modify =>
    by_cases hx : l.findOrder c.session c.clientOrderId = 0
    · exact ⟨live, by simpa only [stepModify, hx, if_true] using h⟩
    · obtain ⟨⟨e, he, -⟩, -⟩ := sound_found h hx
      dsimp only
      rw [stepModify_found h risk hx he]
      exact (h.cancel _).newOrder risk _
  | cancelAllForSession => exact ⟨_, sound_cancelAll h c⟩

theorem sound_folds (risk : RiskConfig) (cs : List OrderCommand) {l : Ledger}
    (h : ∃ live, Sound l live) :
    ∃ live, Sound (fold risk l cs) live := by
  induction cs generalizing l with
  | nil => exact h
  | cons c cs ih =>
    obtain ⟨live, h⟩ := h
    exact ih (sound_step h risk c)

theorem sound_fold (risk : RiskConfig) (cs : List OrderCommand) :
    ∃ live, Sound (fold risk Ledger.initial cs) live := sound_folds risk cs ⟨_, sound_initial⟩

theorem sound_run (env : Env) (risk : RiskConfig) (wal : Option Wal) (snap : SnapshotPolicy)
    (cs : List OrderCommand) :
    ∃ live, Sound (run env (Thread.fresh risk wal snap) cs).ledger live := by
  obtain ⟨ds, hds⟩ := ledger_run env cs (Thread.fresh risk wal snap)
  rw [hds]
  exact sound_fold risk ds

/-- The seven maps against the book. -/
structure KeepsBooks (l : Ledger) : Prop where
  ownerKeys : ∀ x, (l.ownerOf x).isSome = true ↔ ∃ o ∈ l.book.allOrders, o.id = x
  clientKeys : ∀ x, (l.clientIdOf x).isSome = true ↔ ∃ o ∈ l.book.allOrders, o.id = x
  remainingKeys : ∀ x, (l.remainingOf x).isSome = true ↔ ∃ o ∈ l.book.allOrders, o.id = x
  sideKeys : ∀ x, (l.sideOf x).isSome = true ↔ ∃ o ∈ l.book.allOrders, o.id = x
  values : ∀ o ∈ l.book.allOrders, l.remainingOf o.id = some o.quantity ∧
    l.sideOf o.id = some o.side
  sessions : ∀ s x, x ∈ (l.sessionOrders s).getD [] ↔ l.ownerOf x = some s
  clients : ∀ k x, l.byClientId k = some x → ∃ o ∈ l.book.allOrders, o.id = x
  below : ∀ o ∈ l.book.allOrders, o.id < l.nextExchangeId

theorem keepsBooks_of_sound {l : Ledger} {live : Nat → Option Entry} (h : Sound l live) :
    KeepsBooks l := by
  have hkeys : ∀ {β : Type} (f : Entry → β) x, ((live x).map f).isSome = true ↔
      ∃ o ∈ l.book.allOrders, o.id = x := by
    intro β f x
    rw [Option.isSome_map, Option.isSome_iff_exists]
    constructor
    · rintro ⟨e, he⟩
      exact h.backed x e he
    · rintro ⟨o, ho, rfl⟩
      obtain ⟨e, he, -⟩ := h.rests o ho
      exact ⟨e, he⟩
  refine ⟨fun x => ?_, fun x => ?_, fun x => ?_, fun x => ?_, fun o ho => ?_, fun s x => ?_,
    fun k x hk => ?_, fun o ho => (h.fresh o ho).2⟩
  · rw [h.registers.owner]
    exact hkeys _ x
  · rw [h.registers.client]
    exact hkeys _ x
  · rw [h.registers.remaining]
    exact hkeys _ x
  · rw [h.registers.side]
    exact hkeys _ x
  · obtain ⟨e, he, hr, hs⟩ := h.rests o ho
    rw [h.registers.remaining, h.registers.side, he, ← hr, ← hs]
    exact ⟨rfl, rfl⟩
  · rw [h.registers.session, h.registers.owner]
  · obtain ⟨e, he, -⟩ := Option.map_eq_some_iff.mp (h.registers.byClient k x hk)
    exact h.backed x e he

/-- After every command of every run, whatever the outside does, the maps
describe exactly the resting orders. -/
theorem keepsBooks_run (env : Env) (risk : RiskConfig) (wal : Option Wal) (snap : SnapshotPolicy)
    (cs : List OrderCommand) : KeepsBooks (run env (Thread.fresh risk wal snap) cs).ledger := by
  obtain ⟨live, h⟩ := sound_run env risk wal snap cs
  exact keepsBooks_of_sound h

end OrderMatching.Bookkeeping
