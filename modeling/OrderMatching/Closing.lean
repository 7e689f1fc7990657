import OrderMatching.Accounting
import OrderMatching.Moves

namespace OrderMatching.Closing

open OrderMatching.Orders OrderMatching.Book OrderMatching.Engine OrderMatching.Commands
open OrderMatching.Exchange OrderMatching.MatchingThread OrderMatching.LedgerStep
open OrderMatching.LogFold OrderMatching.Registry OrderMatching.Fills OrderMatching.Acceptance
open OrderMatching.Bookkeeping OrderMatching.Answers OrderMatching.Modify OrderMatching.StepCases
open OrderMatching.Moves

/-- Order `y` is live under the names of session `s` and client order id `x`. -/
def Named (live : Nat → Option Entry) (y : Nat) (s x : UInt64) : Prop :=
  ∃ e, live y = some e ∧ e.owner = s ∧ e.client = x

def Unique (live : Nat → Option Entry) : Prop :=
  ∀ y z s x, Named live y s x → Named live z s x → y = z

theorem named_update_of_ne {live : Nat → Option Entry} {y z : Nat} (h : y ≠ z) {o : Option Entry}
    {s x : UInt64} :
    Named (Function.update live z o) y s x ↔ Named live y s x := by
  simp only [Named, Function.update_of_ne h]

theorem named_update_none {live : Nat → Option Entry} {y z : Nat} {s x : UInt64}
    (h : Named (Function.update live z none) y s x) : y ≠ z ∧ Named live y s x := by
  obtain ⟨e, he, hnames⟩ := h
  obtain ⟨hne, he⟩ := update_none he
  exact ⟨hne, e, he, hnames⟩

section Fills

variable {l : Ledger} {live : Nat → Option Entry}

theorem erases_fill (s x : UInt64) (y : Nat) (px : Int) (qty rem : Nat) :
    erases (.fill s x y px qty rem) = decide (rem = 0) := rfl

theorem routeFill_closes (h : Registers l live) (z : Nat) (t : Trade) {y : Nat} {d : Entry}
    (hy : live y = some d) :
    fillEntry live z t.quantity y = none ↔ ∃ e ∈ (routeFill l z t).2, e.exchangeOrderId = y ∧
      erases e = true := by
  by_cases hyz : y = z
  · subst hyz
    rw [fillEntry_self hy, routeFill_event h hy]
    simp only [List.mem_singleton, exists_eq_left, erases_fill, decide_eq_true_eq]
    refine ⟨fun hnone => ?_, fun hrem => if_pos hrem.2⟩
    split at hnone
    · rename_i hrem
      exact ⟨rfl, hrem⟩
    · cases hnone
  · rw [fillEntry_of_ne live hyz, hy]
    refine ⟨nofun, ?_⟩
    rintro ⟨e, he, hid, -⟩
    cases hz : live z with
    | none =>
      have ho : l.ownerOf z = none := by rw [h.owner, hz]; rfl
      simp [routeFill, ho] at he
    | some d' =>
      rw [routeFill_event h hz, List.mem_singleton] at he
      rw [he] at hid
      exact absurd hid.symm hyz

theorem fillEntry_none {z q y : Nat} (h : live y = none) : fillEntry live z q y = none := by
  cases hf : fillEntry live z q y with
  | none => rfl
  | some e =>
    obtain ⟨d, hd, -⟩ := fillEntry_names hf
    rw [h] at hd
    cases hd

theorem fillTrades_none {trades : List Trade} {y : Nat} (h : live y = none) :
    trades.foldl fillTrade live y = none := by
  induction trades generalizing live with
  | nil => exact h
  | cons t trades ih => exact ih (fillEntry_none (fillEntry_none h))

theorem publishAll_closes (h : Registers l live) (trades : List Trade) {y : Nat} {d : Entry}
    (hy : live y = some d) :
    trades.foldl fillTrade live y = none ↔
      ∃ e ∈ (publishAll l trades).2, e.exchangeOrderId = y ∧ erases e = true := by
  induction trades generalizing l live d with
  | nil => simp [publishAll, hy]
  | cons t trades ih =>
    have hr₀ := h.setLastTrade t.priceTicks
    have hr₁ := hr₀.routeFill t.buyerId t
    have hr₂ := hr₁.routeFill t.sellerId t
    have hbuyer := routeFill_closes hr₀ t.buyerId t hy
    simp only [publishAll, publishTrade, Result.andThen, List.mem_append, or_and_right, exists_or,
      List.foldl_cons]
    cases hy₁ : fillEntry live t.buyerId t.quantity y with
    | none =>
      have hnone : trades.foldl fillTrade (fillTrade live t) y = none :=
        fillTrades_none (fillEntry_none hy₁)
      exact ⟨fun _ => Or.inl (Or.inl (hbuyer.mp hy₁)), fun _ => hnone⟩
    | some d₁ =>
      have hseller := routeFill_closes hr₁ t.sellerId t hy₁
      have hopen : ¬∃ e ∈ (routeFill { l with lastTradeTicks := t.priceTicks } t.buyerId t).2,
          e.exchangeOrderId = y ∧ erases e = true := by
        rw [← hbuyer, hy₁]
        exact Option.some_ne_none _
      rw [or_iff_right hopen]
      cases hy₂ : fillEntry (fillEntry live t.buyerId t.quantity) t.sellerId t.quantity y with
      | none =>
        have hnone : trades.foldl fillTrade (fillTrade live t) y = none := fillTrades_none hy₂
        exact ⟨fun _ => Or.inl (hseller.mp hy₂), fun _ => hnone⟩
      | some d₂ =>
        have hopen₂ :
            ¬∃ e ∈ (routeFill (routeFill { l with lastTradeTicks := t.priceTicks } t.buyerId t).1
              t.sellerId t).2, e.exchangeOrderId = y ∧ erases e = true := by
          rw [← hseller, hy₂]
          exact Option.some_ne_none _
        rw [or_iff_right hopen₂]
        exact ih hr₂ hy₂

theorem fillTrades_named {trades : List Trade} {y : Nat} {s x : UInt64}
    (h : Named (trades.foldl fillTrade live) y s x) : Named live y s x := by
  induction trades generalizing live with
  | nil => exact h
  | cons t trades ih =>
    obtain ⟨e, he, rfl, rfl⟩ := ih h
    obtain ⟨d, hd, h1, h2⟩ := fillTrade_names he
    exact ⟨d, hd, h1.symm, h2.symm⟩

end Fills

section Placing

variable {risk : RiskConfig} {l : Ledger} {live live' : Nat → Option Entry} {c : OrderCommand}
  {es : List OrderEvent}
  {n : Nat}

theorem Placing.named (hp : Placing risk l live c live' es n) (h : Sound l live) {y : Nat}
    {s x : UInt64} (hy : Named live' y s x) :
    (y = l.nextExchangeId ∧ s = c.session ∧ x = c.clientOrderId) ∨ Named live y s x := by
  obtain ⟨e, he, rfl, rfl⟩ := hy
  obtain hnew | ⟨d, hd, h1, h2⟩ := hp.names h he
  · exact Or.inl hnew
  · exact Or.inr ⟨d, hd, h1.symm, h2.symm⟩

theorem Placing.unique (hp : Placing risk l live c live' es n) (h : Sound l live) (hu : Unique live)
    (hfree : ∀ y, ¬Named live y c.session c.clientOrderId) : Unique live' := by
  intro y z s x hy hz
  obtain ⟨rfl, hs, hx⟩ | hy := Placing.named hp h hy
  · obtain ⟨rfl, -⟩ | hz := Placing.named hp h hz
    · rfl
    · exact absurd (hs ▸ hx ▸ hz) (hfree z)
  · obtain ⟨-, hs, hx⟩ | hz := Placing.named hp h hz
    · exact absurd (hs ▸ hx ▸ hy) (hfree y)
    · exact hu y z s x hy hz

theorem unique_insert (hu : Unique live) (hfree : ∀ y, ¬Named live y c.session c.clientOrderId) :
    Unique (Function.update live l.nextExchangeId (some (entryOf c))) := by
  have hcases : ∀ {y s x}, Named (Function.update live l.nextExchangeId (some (entryOf c))) y s x →
      (y = l.nextExchangeId ∧ c.session = s ∧ c.clientOrderId = x) ∨ Named live y s x := by
    intro y s x hy
    by_cases hyn : y = l.nextExchangeId
    · obtain ⟨e, he, hs, hx⟩ := hy
      rw [hyn, Function.update_self, Option.some.injEq] at he
      rw [← he] at hs hx
      exact Or.inl ⟨hyn, hs, hx⟩
    · exact Or.inr ((named_update_of_ne hyn).mp hy)
  intro y z s x hy hz
  obtain ⟨rfl, rfl, rfl⟩ | hy := hcases hy
  · obtain ⟨rfl, -⟩ | hz := hcases hz
    · rfl
    · exact absurd hz (hfree z)
  · obtain ⟨-, rfl, rfl⟩ | hz := hcases hz
    · exact absurd hy (hfree y)
    · exact hu y z s x hy hz

theorem named_traded (h : Sound l live) {z : Nat} {s x : UInt64}
    (hz : Named (liveAfter l live c) z s x) :
    Named ((printed l c).foldl fillTrade
      (Function.update live l.nextExchangeId (some (entryOf c)))) z s x := by
  obtain ⟨d, hd, hnames⟩ := hz
  rw [Accounting.liveAfter_eq h] at hd
  split at hd
  · cases hd
  · exact ⟨d, hd, hnames⟩

theorem traded_or_told (h : Sound l live) (hrisk : l.checkRisk risk c = .none) {y : Nat} {d : Entry}
    (hd : Function.update live l.nextExchangeId (some (entryOf c)) y = some d) :
    Named ((printed l c).foldl fillTrade (Function.update live l.nextExchangeId (some (entryOf c))))
      y d.owner d.client ∨
      ∃ e ∈ (publishAll (matched l c) (printed l c)).2, erases e = true ∧ e.session = d.owner ∧
        e.clientOrderId = d.client := by
  obtain ⟨hreg, -⟩ := sound_matched h (quantity_pos hrisk)
  cases hy : (printed l c).foldl fillTrade
    (Function.update live l.nextExchangeId (some (entryOf c))) y with
  | none =>
    obtain ⟨e, he, hid, her⟩ := (publishAll_closes hreg _ hd).mp hy
    obtain ⟨d', hd', hs, hx⟩ := publishAll_names hreg _ e he
    rw [hid, hd, Option.some.injEq] at hd'
    exact Or.inr ⟨e, he, her, hd' ▸ hs, hd' ▸ hx⟩
  | some d' =>
    obtain ⟨d'', hd'', h1, h2⟩ := fillTrades_named ⟨d', hy, rfl, rfl⟩
    rw [hd, Option.some.injEq] at hd''
    exact Or.inl ⟨d', hy, by rw [hd'', h1], by rw [hd'', h2]⟩

/-- Whatever makes a session forget a client order id, no live order bears it
any more. -/
theorem Placing.erased (hp : Placing risk l live c live' es n) (h : Sound l live) (hu : Unique live)
    (hfree : ∀ y, ¬Named live y c.session c.clientOrderId) {e : OrderEvent} (he : e ∈ es)
    (her : erases e = true) (z : Nat) : ¬Named live' z e.session e.clientOrderId := by
  intro hz
  cases hp with
  | refused hrisk =>
    rw [List.mem_singleton.mp he] at hz
    exact hfree z hz
  | placed hrisk =>
    obtain rfl | he := List.mem_cons.mp he
    · cases her
    · obtain ⟨hreg, -⟩ := sound_matched h (quantity_pos hrisk)
      obtain ⟨d, hd, hs, hx⟩ := publishAll_names hreg _ e he
      have hclosed := (publishAll_closes hreg (printed l c) hd).mpr ⟨e, he, rfl, her⟩
      have hz' := named_traded h hz
      obtain rfl := unique_insert hu hfree _ _ _ _ (fillTrades_named hz') ⟨d, hd, hs.symm, hx.symm⟩
      obtain ⟨d', hd', -⟩ := hz'
      rw [hclosed] at hd'
      cases hd'

theorem Placing.kept (hp : Placing risk l live c live' es n) (h : Sound l live) {y : Nat}
    {s x : UInt64} (hy : Named live y s x) :
    Named live' y s x ∨ ∃ e ∈ es, erases e = true ∧ e.session = s ∧ e.clientOrderId = x := by
  cases hp with
  | refused => exact Or.inl hy
  | placed hrisk =>
    obtain ⟨d, hd, rfl, rfl⟩ := hy
    have hne : y ≠ l.nextExchangeId := by
      rintro rfl
      rw [h.not_live] at hd
      cases hd
    have hd₁ : Function.update live l.nextExchangeId (some (entryOf c)) y = some d := by
      rw [Function.update_of_ne hne, hd]
    obtain hy' | ⟨e, he, her, hs, hx⟩ := traded_or_told h hrisk hd₁
    · refine Or.inl ?_
      obtain ⟨d', hd', hnames⟩ := hy'
      exact ⟨d', by rw [Accounting.liveAfter_eq h, if_neg fun hm => hne hm.2, hd'], hnames⟩
    · exact Or.inr ⟨e, List.mem_cons_of_mem _ he, her, hs, hx⟩

theorem Placing.opened (hp : Placing risk l live c live' es n) (h : Sound l live)
    (hfull : l.checkRisk risk c = .none → c.orderType = .market → (outcome l c).remaining = 0) :
    (∃ y, Named live' y c.session c.clientOrderId) ∨
      ∃ e ∈ es, erases e = true ∧ e.session = c.session ∧ e.clientOrderId = c.clientOrderId := by
  cases hp with
  | refused hrisk => exact Or.inr ⟨_, List.mem_cons_self, rfl, rfl, rfl⟩
  | placed hrisk =>
    have hd₁ : Function.update live l.nextExchangeId (some (entryOf c)) l.nextExchangeId =
        some (entryOf c) :=
      Function.update_self ..
    obtain ⟨d', hd', hnames⟩ | ⟨e, he, her, hs, hx⟩ := traded_or_told h hrisk hd₁
    · refine Or.inl ⟨l.nextExchangeId, d', ?_, hnames⟩
      rw [Accounting.liveAfter_eq h, if_neg, hd']
      rintro ⟨hm, -⟩
      obtain ⟨hown, -⟩ :=
        fills_live (Walk.acceptable (l.incoming c)) l.nextExchangeId
          (entryOf c) _ _ _ (h.standing (quantity_pos hrisk))
      rw [fold_printed h c] at hd'
      cases (hown.trans (if_pos (hfull hrisk hm))).symm.trans hd'
    · exact Or.inr ⟨e, List.mem_cons_of_mem _ he, her, hs, hx⟩

end Placing

def concerns (c : OrderCommand) (s x : UInt64) : Bool :=
  c.session = s && c.clientOrderId = x &&
    (c.type = .newOrder || c.type = .cancel || c.type = .modify)

theorem concerns_iff {c : OrderCommand} {s x : UInt64} : concerns c s x = true ↔
    (c.session = s ∧ c.clientOrderId = x) ∧
      (c.type = .newOrder ∨ c.type = .cancel ∨ c.type = .modify) := by
  simp [concerns, or_assoc]

/-- A command meets its own order only: there is none yet under the names of a
new one, and the index by key leads to the order that bears the names. -/
structure Apart (l : Ledger) (live : Nat → Option Entry) (c : OrderCommand) : Prop where
  new : c.type = .newOrder → ∀ y, ¬Named live y c.session c.clientOrderId
  found : c.type = .cancel ∨ c.type = .modify → ∀ y d, live y = some d →
    (l.findOrder c.session c.clientOrderId = y ↔ d.owner = c.session ∧ d.client = c.clientOrderId)

section Step

variable {risk : RiskConfig} {l : Ledger} {live live' : Nat → Option Entry} {c : OrderCommand}
  {es : List OrderEvent}
  {n : Nat}

theorem Apart.withdrawn (ha : Apart l live c) (hc : c.type = .cancel ∨ c.type = .modify) (y : Nat) :
    ¬Named (Function.update live (l.findOrder c.session c.clientOrderId) none) y c.session
      c.clientOrderId := by
  intro hy
  obtain ⟨hne, d, hd, hs, hx⟩ := named_update_none hy
  exact hne ((ha.found hc y d hd).mpr ⟨hs, hx⟩).symm

theorem unique_remove (hu : Unique live) (z : Nat) : Unique (Function.update live z none) :=
  fun _ _ _ _ hy hy' => hu _ _ _ _ (named_update_none hy).2 (named_update_none hy').2

theorem named_without {ids : List Nat} {y : Nat} {s x : UInt64}
    (h : Named (without live ids) y s x) :
    Named live y s x := by
  obtain ⟨e, he, hnames⟩ := h
  unfold without at he
  split at he
  · cases he
  · exact ⟨e, he, hnames⟩

theorem Stepped.unique (hp : Stepped risk l live c live' es n) (h : Sound l live) (hu : Unique live)
    (ha : Apart l live c) : Unique live' := by
  cases hp with
  | newOrder hc hp => exact Placing.unique hp h hu (ha.new hc)
  | cancelled hc hx he => exact unique_remove hu _
  | replaced hc hx he hkey hp =>
    subst hx
    exact Placing.unique hp (h.cancel _) (unique_remove hu _) (ha.withdrawn (Or.inr hc))
  | retired hc => exact fun y z s x hy hz => hu y z s x (named_without hy) (named_without hz)
  | _ => exact hu

theorem Stepped.erased (hp : Stepped risk l live c live' es n) (h : Sound l live) (hu : Unique live)
    (ha : Apart l live c) {e : OrderEvent} (he : e ∈ es) (her : erases e = true) (z : Nat) :
    ¬Named live' z e.session e.clientOrderId := by
  cases hp with
  | opened => cases he
  | subscribed =>
    rw [List.mem_singleton.mp he] at her
    cases her
  | newOrder hc hp => exact Placing.erased hp h hu (ha.new hc) he her z
  | unknown hc hx =>
    rw [List.mem_singleton.mp he]
    rintro ⟨d, hd, hs, hx'⟩
    have hz := (ha.found hc z d hd).mpr ⟨hs, hx'⟩
    obtain ⟨o, ho, hid⟩ := h.backed z d hd
    have hpos := (h.fresh o ho).1
    omega
  | cancelled hc hx =>
    subst hx
    rw [List.mem_singleton.mp he]
    exact ha.withdrawn (Or.inl hc) z
  | replaced hc hx hd hkey hp =>
    subst hx
    exact Placing.erased hp (h.cancel _) (unique_remove hu _) (ha.withdrawn (Or.inr hc)) he her z
  | retired => cases he

theorem Stepped.forgets (hp : Stepped risk l live c live' es n) (h : Sound l live) {e : OrderEvent}
    (he : e ∈ es) (her : erases e = true) :
    concerns c e.session e.clientOrderId = true ∨ ∃ y, Named live y e.session e.clientOrderId := by
  have hown : ∀ {e : OrderEvent}, c.type = .newOrder ∨ c.type = .cancel ∨ c.type = .modify →
      e.session = c.session → e.clientOrderId = c.clientOrderId →
      concerns c e.session e.clientOrderId = true :=
    fun hc hs hx => concerns_iff.mpr ⟨⟨hs.symm, hx.symm⟩, hc⟩
  cases hp with
  | opened => cases he
  | subscribed =>
    rw [List.mem_singleton.mp he] at her
    cases her
  | newOrder hc hp =>
    obtain ⟨hs, hx, -⟩ | ⟨d, hd, hs, hx⟩ := hp.told h e he
    · exact Or.inl (hown (Or.inl hc) hs hx)
    · exact Or.inr ⟨_, d, hd, hs.symm, hx.symm⟩
  | unknown hc hx =>
    rw [List.mem_singleton.mp he]
    exact Or.inl (hown (Or.inr hc) rfl rfl)
  | cancelled hc hx =>
    rw [List.mem_singleton.mp he]
    exact Or.inl (hown (Or.inr (Or.inl hc)) rfl rfl)
  | replaced hc hx hd hkey hp =>
    obtain ⟨hs, hx, -⟩ | ⟨d, hd, hs, hx⟩ := hp.told (h.cancel _) e he
    · exact Or.inl (hown (Or.inr (Or.inr hc)) hs hx)
    · exact Or.inr ⟨_, d, (update_none hd).2, hs.symm, hx.symm⟩
  | retired => cases he

theorem Stepped.named (hp : Stepped risk l live c live' es n) (h : Sound l live)
    (ha : Apart l live c) {y : Nat} {s x : UInt64} (hy : Named live' y s x) :
    (c.type = .newOrder ∧ c.session = s ∧ c.clientOrderId = x) ∨ ∃ z, Named live z s x := by
  cases hp with
  | newOrder hc hp =>
    obtain ⟨-, hs, hx⟩ | hy := Placing.named hp h hy
    · exact Or.inl ⟨hc, hs.symm, hx.symm⟩
    · exact Or.inr ⟨y, hy⟩
  | cancelled => exact Or.inr ⟨y, (named_update_none hy).2⟩
  | @replaced z e _ _ _ hc hz he hkey hp =>
    obtain ⟨-, hs, hx⟩ | hy := Placing.named hp (h.cancel _) hy
    · have hnames := (ha.found (Or.inr hc) z e he).mp hz
      exact Or.inr ⟨z, e, he, hnames.1.trans hs.symm, hnames.2.trans hx.symm⟩
    · exact Or.inr ⟨y, (named_update_none hy).2⟩
  | retired => exact Or.inr ⟨y, named_without hy⟩
  | _ => exact Or.inr ⟨y, hy⟩

theorem Stepped.entered (hp : Stepped risk l live c live' es n) (h : Sound l live)
    (hc : c.type = .newOrder)
    (hfull : l.checkRisk risk c = .none → c.orderType = .market → (outcome l c).remaining = 0) :
    (∃ y, Named live' y c.session c.clientOrderId) ∨
      ∃ e ∈ es, erases e = true ∧ e.session = c.session ∧ e.clientOrderId = c.clientOrderId := by
  cases hp with
  | newOrder _ hp => exact Placing.opened hp h hfull
  | opened hc' => cases hc.symm.trans hc'
  | subscribed hc' => cases hc.symm.trans hc'
  | unknown hc' => obtain hc' | hc' := hc' <;> cases hc.symm.trans hc'
  | cancelled hc' => cases hc.symm.trans hc'
  | replaced hc' => cases hc.symm.trans hc'
  | retired hc' => cases hc.symm.trans hc'

theorem Stepped.kept (hp : Stepped risk l live c live' es n) (h : Sound l live)
    (hc : c.type ≠ .cancelAllForSession) {y : Nat} {x : UInt64} (hy : Named live y c.session x) :
    (∃ z, Named live' z c.session x) ∨
      ∃ e ∈ es, erases e = true ∧ e.session = c.session ∧ e.clientOrderId = x := by
  have hfound : ∀ {z e}, live z = some e → e.key = keyOf c.session c.clientOrderId → y = z →
      c.clientOrderId = x := by
    intro z e he hkey hyz
    obtain ⟨d, hd, hs, hx⟩ := hy
    rw [hyz, he, Option.some.injEq] at hd
    rw [Entry.key, hd, hs, hx] at hkey
    exact (keyOf_inj hkey).symm
  cases hp with
  | newOrder _ hp => exact (Placing.kept hp h hy).imp_left fun hy => ⟨y, hy⟩
  | @cancelled z e hc hz he hkey =>
    by_cases hyz : y = z
    · exact Or.inr ⟨_, List.mem_cons_self, rfl, rfl, hfound he hkey hyz⟩
    · exact Or.inl ⟨y, (named_update_of_ne hyz).mpr hy⟩
  | @replaced z e _ _ _ hc hz he hkey hp =>
    by_cases hyz : y = z
    · obtain rfl := hfound he hkey hyz
      have hlimit : (replacement c e.side).orderType ≠ .market := nofun
      exact Placing.opened (l := withdrawn l z) (c := replacement c e.side) hp (h.cancel z)
        fun _ hm => absurd hm hlimit
    · exact (Placing.kept hp (h.cancel z) ((named_update_of_ne hyz).mpr hy)).imp_left
        fun hy => ⟨y, hy⟩
  | retired hc' => exact absurd hc' hc
  | _ => exact Or.inl ⟨y, hy⟩

end Step

end OrderMatching.Closing
