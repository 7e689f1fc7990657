import OrderMatching.KeyIndex
import OrderMatching.Modify

namespace OrderMatching.Isolation

open OrderMatching.Orders OrderMatching.Book OrderMatching.Engine OrderMatching.Queues
open OrderMatching.Commands OrderMatching.Log OrderMatching.Exchange OrderMatching.MatchingThread
open OrderMatching.LedgerStep OrderMatching.LogFold OrderMatching.Registry OrderMatching.Fills
open OrderMatching.Acceptance OrderMatching.Bookkeeping OrderMatching.Answers OrderMatching.KeyIndex
open OrderMatching.Modify

def Owns (l : Ledger) (s coid : UInt64) (x : Nat) : Prop :=
  l.ownerOf x = some s ∧ l.clientIdOf x = some coid

theorem not_owns_initial {s coid : UInt64} {x : Nat} : ¬Owns Ledger.initial s coid x :=
  fun ho => Option.some_ne_none s ho.1.symm

structure Removes (l l' : Ledger) (x : Nat) : Prop where
  queues : ∀ s, queue l'.book s = (queue l.book s).filter (fun o => o.id ≠ x)
  ownerOf : l'.ownerOf = Function.update l.ownerOf x none
  clientIdOf : l'.clientIdOf = Function.update l.clientIdOf x none
  remainingOf : l'.remainingOf = Function.update l.remainingOf x none
  sideOf : l'.sideOf = Function.update l.sideOf x none
  sessions : ∀ s y, y ∈ (l'.sessionOrders s).getD [] ↔ y ∈ (l.sessionOrders s).getD [] ∧ y ≠ x
  keys : ∀ k, l'.byClientId k = if l.byClientId k = some x then none else l.byClientId k

def Unknown (env : Env) (t : Thread) (c : OrderCommand) : Prop :=
  SameMarket t.ledger (t.apply env c).ledger ∧
    answers env t c = [.reject c.session c.clientOrderId .unknownOrder]

def FilledAway (es : List OrderEvent) (x : Nat) : Prop :=
  ∃ e ∈ es, e.type = .fill ∧ e.exchangeOrderId = x ∧ e.remainingQuantity = 0

/-- One command against the orders it names and the orders of other sessions. -/
structure Isolated (env : Env) (t : Thread) (c : OrderCommand) : Prop where
  cancel : c.type = .cancel → admits env t c = true →
    (∀ x, Owns t.ledger c.session c.clientOrderId x → Removes t.ledger (t.apply env c).ledger x) ∧
      ((∀ x, ¬Owns t.ledger c.session c.clientOrderId x) → Unknown env t c)
  modify : c.type = .modify → admits env t c = true →
    (∀ x, Owns t.ledger c.session c.clientOrderId x → ∃ l side, Removes t.ledger l x ∧
      t.ledger.sideOf x = some side ∧
      (t.apply env c).ledger = (stepNewOrder t.risk l (replacement c side)).1) ∧
      ((∀ x, ¬Owns t.ledger c.session c.clientOrderId x) → Unknown env t c)
  others : ∀ x s coid, s ≠ c.session → Owns t.ledger s coid x →
    (Owns (t.apply env c).ledger s coid x ∧ (t.apply env c).ledger.findOrder s coid = x) ∨
      FilledAway (answers env t c) x

/-- The command's lookup key belongs to no other live order: to none at all for
an order that will be accepted, to none of a different session or client id
for a Cancel or Modify. -/
def KeysApart (risk : RiskConfig) (l : Ledger) (c : OrderCommand) : Prop :=
  match c.type with
  | .newOrder => l.checkRisk risk c = .none →
      ∀ x s coid, Owns l s coid x → keyOf s coid ≠ keyOf c.session c.clientOrderId
  | .cancel | .modify => ∀ x s coid, Owns l s coid x →
      keyOf s coid = keyOf c.session c.clientOrderId →
      s = c.session ∧ coid = c.clientOrderId
  | _ => True

def CleanRun (env : Env) : Thread → List OrderCommand → Prop
  | _, [] => True
  | t, c :: cs => (admits env t c = true → KeysApart t.risk t.ledger c) ∧
      CleanRun env (t.apply env c) cs

theorem owns_entry {l : Ledger} {live : Nat → Option Entry} (h : Registers l live) {x : Nat}
    {s coid : UInt64} :
    Owns l s coid x ↔ ∃ e, live x = some e ∧ e.owner = s ∧ e.client = coid := by
  rw [Owns, h.owner, h.client]
  cases live x <;> simp

theorem removes_withdrawn {l : Ledger} {live : Nat → Option Entry} (h : Sound l live)
    (hi : Indexed l live) {x : Nat} {e : Entry} (hx : live x = some e) :
    Removes l (withdrawn l x) x := by
  have hreg : Registers (l.process (cancelRequest x)).2 live := h.registers.setEngine _
  have hforget : withdrawn l x = _ := hreg.forgetOrder_known hx
  have hafter := hreg.forgetOrder x
  refine ⟨fun s => ?_, by rw [hforget]; rfl, by rw [hforget]; rfl, by rw [hforget]; rfl,
    by rw [hforget]; rfl, fun s y => ?_, fun k => ?_⟩
  · exact queue_withdrawn h x s
  · rw [withdrawn, hafter.session, h.registers.session]
    by_cases hy : y = x
    · simp [hy]
    · simp [hy]
  · rw [hforget]
    dsimp only
    by_cases hk : k = keyOf e.owner e.client
    · have hkx : l.byClientId (keyOf e.owner e.client) = some x := hi x e hx
      rw [hk, Function.update_self, if_pos hkx]
    · rw [Function.update_of_ne hk]
      split
      · rename_i hkx
        have hkey := h.registers.byClient k x hkx
        rw [hx, Option.map_some, Option.some.injEq] at hkey
        exact absurd hkey.symm hk
      · rfl

theorem found_of_owned {l : Ledger} {live : Nat → Option Entry} (h : Sound l live)
    (hi : Indexed l live) {x : Nat} {e : Entry} (hx : live x = some e) :
    l.findOrder e.owner e.client = x ∧ x ≠ 0 := by
  have hkx : l.byClientId (keyOf e.owner e.client) = some x := hi x e hx
  obtain ⟨o, ho, rfl⟩ := h.backed x e hx
  exact ⟨by rw [Ledger.findOrder, hkx]; rfl, (h.fresh o ho).1.ne'⟩

theorem routeFill_closes {l : Ledger} {live : Nat → Option Entry} (hr : Registers l live)
    {x y : Nat} {e : Entry} (hx : live x = some e) {t : Trade}
    (hgone : fillEntry live y t.quantity x = none) :
    FilledAway (routeFill l y t).2 x := by
  by_cases hxy : x = y
  · subst hxy
    have ho : l.ownerOf x = some e.owner := by rw [hr.owner, hx]; rfl
    have hrem : l.remainingOf x = some e.remaining := by rw [hr.remaining, hx]; rfl
    have hz : e.remaining - t.quantity = 0 := by
      rw [fillEntry_self hx] at hgone
      split at hgone
      · assumption
      · cases hgone
    refine ⟨_, by simp only [routeFill, ho]; exact List.mem_singleton.mpr rfl, rfl, rfl, ?_⟩
    simp only [OrderEvent.fill, hrem, Option.getD_some, hz]
  · rw [fillEntry_of_ne _ hxy, hx] at hgone
    cases hgone

theorem FilledAway.left {es : List OrderEvent} {x : Nat} (h : FilledAway es x)
    (fs : List OrderEvent) :
    FilledAway (es ++ fs) x := by
  obtain ⟨e, he, hrest⟩ := h
  exact ⟨e, List.mem_append_left _ he, hrest⟩

theorem FilledAway.right {es : List OrderEvent} {x : Nat} (h : FilledAway es x)
    (fs : List OrderEvent) :
    FilledAway (fs ++ es) x := by
  obtain ⟨e, he, hrest⟩ := h
  exact ⟨e, List.mem_append_right _ he, hrest⟩

theorem publishAll_closes {l : Ledger} {live : Nat → Option Entry} (hr : Registers l live) {x : Nat}
    {e : Entry} (hx : live x = some e) (trades : List Trade)
    (hgone : trades.foldl fillTrade live x = none) :
    FilledAway (publishAll l trades).2 x := by
  induction trades generalizing l live e with
  | nil => rw [List.foldl_nil, hx] at hgone; cases hgone
  | cons t trades ih =>
    have hr₀ := hr.setLastTrade t.priceTicks
    have hr₁ := hr₀.routeFill t.buyerId t
    have hr₂ := hr₁.routeFill t.sellerId t
    cases h₁ : fillEntry live t.buyerId t.quantity x with
    | none => exact ((routeFill_closes hr₀ hx h₁).left _).left _
    | some e₁ =>
      cases h₂ : fillEntry (fillEntry live t.buyerId t.quantity) t.sellerId t.quantity x with
      | none => exact ((routeFill_closes hr₁ h₁ h₂).right _).left _
      | some e₂ => exact (ih hr₂ h₂ hgone).right _

def Kept (live' : Nat → Option Entry) (es : List OrderEvent) (x : Nat) (e : Entry) : Prop :=
  (∃ e', live' x = some e' ∧ e'.owner = e.owner ∧ e'.client = e.client) ∨ FilledAway es x

theorem newOrder_keeps {l : Ledger} {live : Nat → Option Entry} (h : Sound l live)
    {risk : RiskConfig} {c : OrderCommand} (hrisk : l.checkRisk risk c = .none) {x : Nat}
    {e : Entry} (hx : live x = some e) :
    Kept (liveAfter l live c) (stepNewOrder risk l c).2 x e := by
  obtain ⟨-, a2, a3, a4⟩ := liveAfter_spec h (quantity_pos hrisk)
  have hxn : x ≠ l.nextExchangeId := by
    rintro rfl
    rw [h.not_live] at hx
    cases hx
  cases hl : liveAfter l live c x with
  | some e' =>
    refine Or.inl ⟨e', hl, ?_⟩
    obtain ⟨o, ho, rfl⟩ := a4 x e' hxn hl
    obtain ho | ho := List.mem_append.mp ho
    · rw [a2 o ho, hx, Option.some.injEq] at hl
      exact ⟨by rw [hl], by rw [hl]⟩
    · rw [a3 o ho e hx, Option.some.injEq] at hl
      rw [← hl]
      exact ⟨rfl, rfl⟩
  | none =>
    refine Or.inr ?_
    have hreg := (h.registers.recordOrder c h.not_live).setEngine
      (l.engine.processOrder (l.incoming c)).2
    have hgone : (printed l c).foldl fillTrade
        (Function.update live l.nextExchangeId (some (entryOf c))) x = none := by
      rw [fold_printed h c]
      unfold liveAfter at hl
      split at hl
      · rwa [Function.update_of_ne hxn] at hl
      · exact hl
    have hclose := publishAll_closes hreg (by rw [Function.update_of_ne hxn]; exact hx) _ hgone
    rw [stepNewOrder_eq h hrisk]
    exact hclose.right [_]

theorem newOrder_isolates {l : Ledger} {live : Nat → Option Entry} (h : Sound l live)
    (hi : Indexed l live) (risk : RiskConfig) (c : OrderCommand)
    (hkey : l.checkRisk risk c = .none → ∀ y e, live y = some e →
      e.key ≠ keyOf c.session c.clientOrderId) :
    ∃ live', Sound (stepNewOrder risk l c).1 live' ∧ Indexed (stepNewOrder risk l c).1 live' ∧
      ∀ x e, live x = some e → Kept live' (stepNewOrder risk l c).2 x e := by
  by_cases hrisk : l.checkRisk risk c = .none
  · exact ⟨_, sound_accepted h (quantity_pos hrisk) (h.accepted hrisk),
      indexed_newOrder h hi hrisk (hkey hrisk), fun x e hx => newOrder_keeps h hrisk hx⟩
  · rw [stepNewOrder_rejects hrisk]
    exact ⟨live, h, hi, fun x e hx => Or.inl ⟨e, hx, rfl, rfl⟩⟩

theorem found_own {l : Ledger} {live : Nat → Option Entry} (h : Sound l live) {c : OrderCommand}
    (hk : ∀ x s coid, Owns l s coid x → keyOf s coid = keyOf c.session c.clientOrderId →
      s = c.session ∧ coid = c.clientOrderId) (hx : l.findOrder c.session c.clientOrderId ≠ 0) :
    ∃ e, live (l.findOrder c.session c.clientOrderId) = some e ∧ e.owner = c.session ∧
      e.client = c.clientOrderId := by
  obtain ⟨⟨e, he, hkey⟩, -⟩ := sound_found h hx
  obtain ⟨h1, h2⟩ := hk _ e.owner e.client ((owns_entry h.registers).mpr ⟨e, he, rfl, rfl⟩) hkey
  exact ⟨e, he, h1, h2⟩

theorem kept_of_ne {live : Nat → Option Entry} {x y : Nat} {e : Entry} (hx : live x = some e)
    (hxy : x ≠ y) (es : List OrderEvent) : Kept (Function.update live y none) es x e :=
  Or.inl ⟨e, by rw [Function.update_of_ne hxy, hx], rfl, rfl⟩

theorem step_isolates {l : Ledger} {live : Nat → Option Entry} (h : Sound l live)
    (hi : Indexed l live) {risk : RiskConfig} {c : OrderCommand} (hk : KeysApart risk l c) :
    ∃ live', Sound (step risk l c).1 live' ∧ Indexed (step risk l c).1 live' ∧
      ∀ x e, live x = some e → e.owner ≠ c.session → Kept live' (step risk l c).2 x e := by
  have hsame : ∀ es, ∀ x e, live x = some e → e.owner ≠ c.session → Kept live es x e :=
    fun es x e hx _ => Or.inl ⟨e, hx, rfl, rfl⟩
  unfold KeysApart at hk
  unfold step
  cases hc : c.type with
  | sessionOpened => exact ⟨live, h, hi, hsame _⟩
  | subscribe => exact ⟨live, h, hi, hsame _⟩
  | newOrder =>
    rw [hc] at hk
    obtain ⟨live', h', hi', hkept⟩ := newOrder_isolates h hi risk c fun hrisk y e hy =>
      hk hrisk y _ _ ((owns_entry h.registers).mpr ⟨e, hy, rfl, rfl⟩)
    exact ⟨live', h', hi', fun x e hx _ => hkept x e hx⟩
  | cancel =>
    rw [hc] at hk
    by_cases hx : l.findOrder c.session c.clientOrderId = 0
    · exact ⟨live, by simpa only [stepCancel, hx, if_true] using h,
        by simpa only [stepCancel, hx, if_true] using hi,
        hsame _⟩
    · obtain ⟨e₀, he₀, ho₀, -⟩ := found_own h hk hx
      dsimp only
      rw [stepCancel_found h hx]
      refine ⟨_, h.cancel _, indexed_cancel h hi _, fun x e hxe hne => kept_of_ne hxe ?_ _⟩
      rintro rfl
      rw [he₀, Option.some.injEq] at hxe
      exact hne (hxe ▸ ho₀)
  | modify =>
    rw [hc] at hk
    by_cases hx : l.findOrder c.session c.clientOrderId = 0
    · exact ⟨live, by simpa only [stepModify, hx, if_true] using h,
        by simpa only [stepModify, hx, if_true] using hi,
        hsame _⟩
    · obtain ⟨e₀, he₀, ho₀, hcl₀⟩ := found_own h hk hx
      dsimp only
      rw [stepModify_found h risk hx he₀]
      obtain ⟨live', h', hi', hkept⟩ :=
        newOrder_isolates (h.cancel (l.findOrder c.session c.clientOrderId)) (indexed_cancel h hi _)
          risk (replacement c e₀.side) fun _ y e hy => key_free hi hy
      refine ⟨live', h', hi', fun x e hxe hne => hkept x e ?_⟩
      rw [Function.update_of_ne, hxe]
      rintro rfl
      rw [he₀, Option.some.injEq] at hxe
      exact hne (hxe ▸ ho₀)
  | cancelAllForSession =>
    refine ⟨_, sound_cancelAll h c, indexed_cancelOrders h hi _,
      fun x e hxe hne => Or.inl ⟨e, ?_, rfl, rfl⟩⟩
    have hno : x ∉ (l.sessionOrders c.session).getD [] := by
      rw [h.registers.session, hxe]
      simpa using hne
    simp only [without, hno, if_false, hxe]

theorem indexed_run (env : Env) (cs : List OrderCommand) {t : Thread} {live : Nat → Option Entry}
    (h : Sound t.ledger live) (hi : Indexed t.ledger live) (hclean : CleanRun env t cs) :
    ∃ live', Sound (run env t cs).ledger live' ∧ Indexed (run env t cs).ledger live' := by
  induction cs generalizing t live with
  | nil => exact ⟨live, h, hi⟩
  | cons c cs ih =>
    cases hadm : admits env t c with
    | false =>
      obtain ⟨hl, -⟩ := answers_refused hadm
      exact ih (hl ▸ h) (hl ▸ hi) hclean.2
    | true =>
      obtain ⟨hl, -⟩ := answers_admitted hadm
      obtain ⟨live', h', hi', -⟩ := step_isolates h hi (hclean.1 hadm)
      exact ih (hl ▸ h') (hl ▸ hi') hclean.2

theorem cleanRun_append {env : Env} {cs ds : List OrderCommand} {t : Thread}
    (h : CleanRun env t (cs ++ ds)) :
    CleanRun env t cs ∧ CleanRun env (run env t cs) ds := by
  induction cs generalizing t with
  | nil => exact ⟨trivial, h⟩
  | cons c cs ih => exact ⟨⟨h.1, (ih h.2).1⟩, (ih h.2).2⟩

theorem unowned_not_found {l : Ledger} {live : Nat → Option Entry} (h : Sound l live)
    {c : OrderCommand}
    (hk : ∀ x s coid, Owns l s coid x → keyOf s coid = keyOf c.session c.clientOrderId →
      s = c.session ∧ coid = c.clientOrderId)
    (hno : ∀ x, ¬Owns l c.session c.clientOrderId x) :
    l.findOrder c.session c.clientOrderId = 0 := by
  by_contra hx
  obtain ⟨e, he, ho, hcl⟩ := found_own h hk hx
  exact hno _ ((owns_entry h.registers).mpr ⟨e, he, ho, hcl⟩)

theorem owned_found {l : Ledger} {live : Nat → Option Entry} (h : Sound l live)
    (hi : Indexed l live) {s coid : UInt64} {x : Nat} (ho : Owns l s coid x) :
    ∃ e, live x = some e ∧ l.findOrder s coid = x ∧ x ≠ 0 := by
  obtain ⟨e, he, rfl, rfl⟩ := (owns_entry h.registers).mp ho
  exact ⟨e, he, found_of_owned h hi he⟩

/-- As long as keys stay apart, sessions are isolated from each other. -/
theorem isolated_of_cleanRun (env : Env) (risk : RiskConfig) (wal : Option Wal)
    (snap : SnapshotPolicy) (cs : List OrderCommand) (c : OrderCommand)
    (hclean : CleanRun env (Thread.fresh risk wal snap) (cs ++ [c])) :
    Isolated env (run env (Thread.fresh risk wal snap) cs) c := by
  obtain ⟨hcs, hlast⟩ := cleanRun_append hclean
  obtain ⟨live, h, hi⟩ :=
    indexed_run env cs (t := Thread.fresh risk wal snap) sound_initial indexed_initial hcs
  generalize run env (Thread.fresh risk wal snap) cs = t at h hi hlast ⊢
  refine ⟨fun hc hadm => ?_, fun hc hadm => ?_, fun x s coid hs ho => ?_⟩
  · obtain ⟨hl, ha⟩ := answers_admitted hadm
    have hk := hlast.1 hadm
    rw [show step t.risk t.ledger c = stepCancel t.ledger c by rw [step, hc]] at hl ha
    simp only [KeysApart, hc] at hk
    refine ⟨fun x ho => ?_, fun hno => ?_⟩
    · obtain ⟨e, he, hf, hx⟩ := owned_found h hi ho
      rw [hl, stepCancel_found h (hf ▸ hx), hf]
      exact removes_withdrawn h hi he
    · have hstep : stepCancel t.ledger c =
          (t.ledger, [.reject c.session c.clientOrderId .unknownOrder]) := by
        simp only [stepCancel, unowned_not_found h hk hno, if_true]
      rw [Unknown, hl, ha, hstep]
      exact ⟨sameMarket_refl _, rfl⟩
  · obtain ⟨hl, ha⟩ := answers_admitted hadm
    have hk := hlast.1 hadm
    rw [show step t.risk t.ledger c = stepModify t.risk t.ledger c by rw [step, hc]] at hl ha
    simp only [KeysApart, hc] at hk
    refine ⟨fun x ho => ?_, fun hno => ?_⟩
    · obtain ⟨e, he, hf, hx⟩ := owned_found h hi ho
      refine ⟨withdrawn t.ledger x, e.side, removes_withdrawn h hi he, ?_, ?_⟩
      · rw [h.registers.side, he]
        rfl
      · rw [hl, stepModify_found h t.risk (hf ▸ hx) (hf.symm ▸ he), hf]
        rfl
    · have hstep : stepModify t.risk t.ledger c =
          (t.ledger, [.reject c.session c.clientOrderId .unknownOrder]) := by
        simp only [stepModify, unowned_not_found h hk hno, if_true]
      rw [Unknown, hl, ha, hstep]
      exact ⟨sameMarket_refl _, rfl⟩
  · obtain ⟨e, he, rfl, rfl⟩ := (owns_entry h.registers).mp ho
    cases hadm : admits env t c with
    | false =>
      rw [(answers_refused hadm).1]
      exact Or.inl ⟨ho, (found_of_owned h hi he).1⟩
    | true =>
      obtain ⟨hl, ha⟩ := answers_admitted hadm
      obtain ⟨live', h', hi', hkept⟩ := step_isolates h hi (hlast.1 hadm)
      rw [hl, ha]
      obtain ⟨e', he', h1, h2⟩ | hfill := hkept x e he hs
      · exact Or.inl ⟨(owns_entry h'.registers).mpr ⟨e', he', h1, h2⟩,
          h1 ▸ h2 ▸ (found_of_owned h' hi' he').1⟩
      · exact Or.inr hfill

theorem owns_rests {l : Ledger} (h : KeepsBooks l) {x : Nat} {s coid : UInt64}
    (hx : Owns l s coid x) :
    x ∈ l.book.allOrders.map Order.id := by
  obtain ⟨o, ho, rfl⟩ := (h.ownerKeys x).mp (Option.isSome_iff_exists.mpr ⟨s, hx.1⟩)
  exact List.mem_map_of_mem ho

theorem owns_single {l : Ledger} (h : KeepsBooks l) {n x : Nat} {s₀ coid₀ s coid : UInt64}
    (hids : l.book.allOrders.map Order.id = [n]) (hn : Owns l s₀ coid₀ n) (hx : Owns l s coid x) :
    x = n ∧ s = s₀ ∧ coid = coid₀ := by
  have hid : x = n := by simpa [hids] using owns_rests h hx
  rw [hid] at hx
  exact ⟨hid, Option.some.inj (hx.1.symm.trans hn.1), Option.some.inj (hx.2.symm.trans hn.2)⟩

theorem oneBid_owns {x : Nat} {s coid : UInt64} (h : Owns oneBid.ledger s coid x) :
    x = 1 ∧ s = 1 ∧ coid = 1 := by
  obtain ⟨live, hs⟩ := sound_run .obliging .default none ⟨"", 0⟩ [.newOrder 1 1 100 10 .bid .limit]
  exact owns_single (keepsBooks_of_sound hs) (by decide +kernel) ⟨by decide +kernel,
    by decide +kernel⟩ h

theorem isolated_oneBid : Isolated .obliging oneBid (.cancel 2 1) := by
  refine isolated_of_cleanRun .obliging .default none ⟨"", 0⟩ [.newOrder 1 1 100 10 .bid .limit]
    (.cancel 2 1) ⟨fun _ _ x s coid ho => ?_, fun _ x s coid ho hkey => ?_, trivial⟩
  · cases ho.1
  · obtain ⟨rfl, rfl, rfl⟩ := oneBid_owns ho
    revert hkey
    decide

/-- No session holds two live orders under one client order id. -/
def NoTwins (l : Ledger) : Prop := ∀ x y s coid, Owns l s coid x → Owns l s coid y → x = y

/-- Session 2 names a client order id whose key is that of session 1's bid, and
cancels the bid. -/
theorem isolation_fails :
    ¬∀ (env : Env) (risk : RiskConfig) (wal : Option Wal) (snap : SnapshotPolicy)
    (cs : List OrderCommand) (c : OrderCommand),
      NoTwins (run env (Thread.fresh risk wal snap) cs).ledger →
    Isolated env (run env (Thread.fresh risk wal snap) cs) c := by
  intro h
  have htwins : NoTwins oneBid.ledger :=
    fun x y s coid hx hy => (oneBid_owns hx).1.trans (oneBid_owns hy).1.symm
  have hbid :=
    (h .obliging .default none ⟨"", 0⟩ [.newOrder 1 1 100 10 .bid .limit]
      (.cancel 2 3995604364617056257) htwins).others 1 1 1 (by decide) ⟨by decide +kernel,
      by decide +kernel⟩
  simp only [Owns, FilledAway] at hbid
  revert hbid
  decide +kernel

end OrderMatching.Isolation
