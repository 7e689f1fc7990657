import OrderMatching.Modify

namespace OrderMatching.StepCases

open OrderMatching.Orders OrderMatching.Book OrderMatching.Engine OrderMatching.Walk
open OrderMatching.Crossing OrderMatching.Priority OrderMatching.Queues OrderMatching.Commands
open OrderMatching.Exchange OrderMatching.MatchingThread OrderMatching.LedgerStep
open OrderMatching.LogFold OrderMatching.Registry OrderMatching.Fills OrderMatching.Acceptance
open OrderMatching.Bookkeeping OrderMatching.Answers OrderMatching.Modify

/-- What becomes of an order that is to enter the book: the table afterwards,
the events and the next exchange id. -/
inductive Placing (risk : RiskConfig) (l : Ledger) (live : Nat → Option Entry) (c : OrderCommand) :
    (Nat → Option Entry) → List OrderEvent → Nat → Prop where
  | refused (h : l.checkRisk risk c ≠ .none) :
      Placing risk l live c live [.reject c.session c.clientOrderId (l.checkRisk risk c)]
        l.nextExchangeId
  | placed (h : l.checkRisk risk c = .none) :
      Placing risk l live c (liveAfter l live c)
        (.ack c.session c.clientOrderId l.nextExchangeId false ::
          (publishAll (matched l c) (printed l c)).2) (l.nextExchangeId + 1)

/-- Everything a command can do, case by case, to the table of live orders, in
events and to the next exchange id. -/
inductive Stepped (risk : RiskConfig) (l : Ledger) (live : Nat → Option Entry) (c : OrderCommand) :
    (Nat → Option Entry) → List OrderEvent → Nat → Prop where
  | opened (hc : c.type = .sessionOpened) : Stepped risk l live c live [] l.nextExchangeId
  | subscribed (hc : c.type = .subscribe) :
      Stepped risk l live c live [.ack c.session 0 0 false] l.nextExchangeId
  | newOrder {live' : Nat → Option Entry} {es : List OrderEvent} {n : Nat} (hc : c.type = .newOrder)
      (h : Placing risk l live c live' es n) : Stepped risk l live c live' es n
  | unknown (hc : c.type = .cancel ∨ c.type = .modify)
      (hx : l.findOrder c.session c.clientOrderId = 0) :
      Stepped risk l live c live [.reject c.session c.clientOrderId .unknownOrder] l.nextExchangeId
  | cancelled {x : Nat} {e : Entry} (hc : c.type = .cancel)
      (hx : l.findOrder c.session c.clientOrderId = x) (he : live x = some e)
      (hkey : e.key = keyOf c.session c.clientOrderId) :
      Stepped risk l live c (Function.update live x none) [.ack c.session c.clientOrderId x true]
        l.nextExchangeId
  | replaced {x : Nat} {e : Entry} {live' : Nat → Option Entry} {es : List OrderEvent} {n : Nat}
      (hc : c.type = .modify) (hx : l.findOrder c.session c.clientOrderId = x)
      (he : live x = some e) (hkey : e.key = keyOf c.session c.clientOrderId)
      (h : Placing risk (withdrawn l x) (Function.update live x none) (replacement c e.side)
        live' es n) :
      Stepped risk l live c live' es n
  | retired (hc : c.type = .cancelAllForSession) :
      Stepped risk l live c (without live ((l.sessionOrders c.session).getD [])) [] l.nextExchangeId

theorem placing_cases {l : Ledger} {live : Nat → Option Entry} (h : Sound l live)
    (risk : RiskConfig) (c : OrderCommand) : ∃ live', Sound (stepNewOrder risk l c).1 live' ∧
      Placing risk l live c live' (stepNewOrder risk l c).2
        (stepNewOrder risk l c).1.nextExchangeId := by
  by_cases hrisk : l.checkRisk risk c = .none
  · have ha := h.accepted hrisk
    refine ⟨_, sound_accepted h (quantity_pos hrisk) ha, ?_⟩
    rw [ha.nextId, stepNewOrder_eq h hrisk]
    exact .placed hrisk
  · rw [stepNewOrder_rejects hrisk]
    exact ⟨live, h, .refused hrisk⟩

theorem nextId_cancelOrders (l : Ledger) (ids : List Nat) :
    (cancelOrders l ids).nextExchangeId = l.nextExchangeId := by
  induction ids generalizing l with
  | nil => rfl
  | cons x ids ih => exact (ih _).trans (withdrawn_frame l x).2

/-- The case analysis of a step, done once. -/
theorem step_cases {l : Ledger} {live : Nat → Option Entry} (h : Sound l live) (risk : RiskConfig)
    (c : OrderCommand) : ∃ live', Sound (step risk l c).1 live' ∧
      Stepped risk l live c live' (step risk l c).2 (step risk l c).1.nextExchangeId := by
  unfold step
  cases hc : c.type with
  | sessionOpened => exact ⟨live, h, .opened hc⟩
  | subscribe => exact ⟨live, h, .subscribed hc⟩
  | newOrder =>
    obtain ⟨live', h', hp⟩ := placing_cases h risk c
    exact ⟨live', h', .newOrder hc hp⟩
  | cancel =>
    by_cases hx : l.findOrder c.session c.clientOrderId = 0
    · have hstep : stepCancel l c = (l, [.reject c.session c.clientOrderId .unknownOrder]) := by
        simp only [stepCancel, hx, if_true]
      rw [hstep]
      exact ⟨live, h, .unknown (Or.inl hc) hx⟩
    · obtain ⟨⟨e, he, hkey⟩, -⟩ := sound_found h hx
      dsimp only
      rw [stepCancel_found h hx, nextId_forgetOrder]
      exact ⟨_, h.cancel _, .cancelled hc rfl he hkey⟩
  | modify =>
    by_cases hx : l.findOrder c.session c.clientOrderId = 0
    · have hstep : stepModify risk l c =
          (l, [.reject c.session c.clientOrderId .unknownOrder]) := by
        simp only [stepModify, hx, if_true]
      rw [hstep]
      exact ⟨live, h, .unknown (Or.inr hc) hx⟩
    · obtain ⟨⟨e, he, hkey⟩, -⟩ := sound_found h hx
      obtain ⟨live', h', hp⟩ :=
        placing_cases (h.cancel (l.findOrder c.session c.clientOrderId)) risk (replacement c e.side)
      dsimp only
      rw [stepModify_found h risk hx he]
      exact ⟨live', h', .replaced hc rfl he hkey hp⟩
  | cancelAllForSession =>
    dsimp only
    rw [show (stepCancelAll l c).nextExchangeId = l.nextExchangeId from nextId_cancelOrders l _]
    exact ⟨_, sound_cancelAll h c, .retired hc⟩

theorem fillEntry_names {live : Nat → Option Entry} {x q y : Nat} {e : Entry}
    (h : fillEntry live x q y = some e) :
    ∃ d, live y = some d ∧ e.owner = d.owner ∧ e.client = d.client := by
  by_cases hy : y = x
  · subst hy
    cases hl : live y with
    | none => simp [fillEntry, hl] at h
    | some d =>
      rw [fillEntry_self hl] at h
      split at h
      · cases h
      · rw [← Option.some.inj h]
        exact ⟨d, rfl, rfl, rfl⟩
  · rw [fillEntry_of_ne live hy] at h
    exact ⟨e, h, rfl, rfl⟩

theorem fillTrade_names {live : Nat → Option Entry} {t : Trade} {y : Nat} {e : Entry}
    (h : fillTrade live t y = some e) :
    ∃ d, live y = some d ∧ e.owner = d.owner ∧ e.client = d.client := by
  obtain ⟨d, hd, h1, h2⟩ := fillEntry_names h
  obtain ⟨d', hd', h3, h4⟩ := fillEntry_names hd
  exact ⟨d', hd', h1.trans h3, h2.trans h4⟩

theorem routeFill_event {l : Ledger} {live : Nat → Option Entry} (h : Registers l live) {x : Nat}
    {e : Entry} (hx : live x = some e) (t : Trade) :
    (routeFill l x t).2 =
      [.fill e.owner e.client x t.priceTicks t.quantity (e.remaining - t.quantity)] := by
  have ho : l.ownerOf x = some e.owner := by rw [h.owner, hx]; rfl
  have hc : l.clientIdOf x = some e.client := by rw [h.client, hx]; rfl
  have hr : l.remainingOf x = some e.remaining := by rw [h.remaining, hx]; rfl
  simp only [routeFill, ho, hc, hr, Option.getD_some]

theorem sound_matched {l : Ledger} {live : Nat → Option Entry} (h : Sound l live) {c : OrderCommand}
    (hpos : 0 < c.quantity.toNat) :
    Registers (matched l c) (Function.update live l.nextExchangeId (some (entryOf c))) ∧
      Covered (Function.update live l.nextExchangeId (some (entryOf c))) (printed l c) :=
  ⟨(h.registers.recordOrder c h.not_live).setEngine _,
    covered_fills (acceptable (l.incoming c)) (l.incoming c) (h.standing hpos)⟩

theorem publishAll_names {l : Ledger} {live : Nat → Option Entry} (h : Registers l live)
    (trades : List Trade) :
    ∀ e ∈ (publishAll l trades).2, ∃ d, live e.exchangeOrderId = some d ∧ e.session = d.owner ∧
      e.clientOrderId = d.client := by
  have hroute : ∀ {l : Ledger} {live : Nat → Option Entry}, Registers l live →
      ∀ (x : Nat) (t : Trade),
      ∀ e ∈ (routeFill l x t).2, ∃ d, live e.exchangeOrderId = some d ∧ e.session = d.owner ∧
        e.clientOrderId = d.client := by
    intro l live h x t e he
    cases hx : live x with
    | none =>
      have ho : l.ownerOf x = none := by rw [h.owner, hx]; rfl
      simp [routeFill, ho] at he
    | some d =>
      rw [routeFill_event h hx, List.mem_singleton] at he
      rw [he]
      exact ⟨d, hx, rfl, rfl⟩
  induction trades generalizing l live with
  | nil => simp [publishAll]
  | cons t trades ih =>
    intro e he
    have hr₀ := h.setLastTrade t.priceTicks
    have hr₁ := hr₀.routeFill t.buyerId t
    simp only [publishAll, publishTrade, Result.andThen, List.mem_append] at he
    obtain (he | he) | he := he
    · exact hroute hr₀ t.buyerId t e he
    · obtain ⟨d, hd, h1, h2⟩ := hroute hr₁ t.sellerId t e he
      obtain ⟨d', hd', h3, h4⟩ := fillEntry_names hd
      exact ⟨d', hd', h1.trans h3, h2.trans h4⟩
    · obtain ⟨d, hd, h1, h2⟩ := ih (hr₁.routeFill t.sellerId t) e he
      obtain ⟨d', hd', h3, h4⟩ := fillTrade_names hd
      exact ⟨d', hd', h1.trans h3, h2.trans h4⟩

theorem Placing.told {risk : RiskConfig} {l : Ledger} {live live' : Nat → Option Entry}
    {c : OrderCommand} {es : List OrderEvent} {n : Nat} (hp : Placing risk l live c live' es n)
    (h : Sound l live) :
    ∀ e ∈ es, (e.session = c.session ∧ e.clientOrderId = c.clientOrderId ∧
        (e.exchangeOrderId = 0 ∨
          (e.exchangeOrderId = l.nextExchangeId ∧ n = l.nextExchangeId + 1))) ∨
      ∃ d, live e.exchangeOrderId = some d ∧ e.session = d.owner ∧ e.clientOrderId = d.client := by
  intro e he
  cases hp with
  | refused hrisk =>
    rw [List.mem_singleton.mp he]
    exact Or.inl ⟨rfl, rfl, Or.inl rfl⟩
  | placed hrisk =>
    obtain rfl | he := List.mem_cons.mp he
    · exact Or.inl ⟨rfl, rfl, Or.inr ⟨rfl, rfl⟩⟩
    · obtain ⟨hreg, -⟩ := sound_matched h (quantity_pos hrisk)
      obtain ⟨d, hd, h1, h2⟩ := publishAll_names hreg _ e he
      by_cases hx : e.exchangeOrderId = l.nextExchangeId
      · rw [hx, Function.update_self] at hd
        obtain rfl := Option.some.inj hd
        exact Or.inl ⟨h1, h2, Or.inr ⟨hx, rfl⟩⟩
      · rw [Function.update_of_ne hx] at hd
        exact Or.inr ⟨d, hd, h1, h2⟩

theorem Placing.names {risk : RiskConfig} {l : Ledger} {live live' : Nat → Option Entry}
    {c : OrderCommand} {es : List OrderEvent} {n : Nat} (hp : Placing risk l live c live' es n)
    (h : Sound l live) {x : Nat} {e : Entry} (hx : live' x = some e) :
    (x = l.nextExchangeId ∧ e.owner = c.session ∧ e.client = c.clientOrderId) ∨
      ∃ d, live x = some d ∧ e.owner = d.owner ∧ e.client = d.client := by
  cases hp with
  | refused => exact Or.inr ⟨e, hx, rfl, rfl⟩
  | placed hrisk =>
    obtain ⟨h1, -, h2, h3⟩ | hd := liveAfter_names h (quantity_pos hrisk) hx
    · exact Or.inl ⟨h1, h2, h3⟩
    · exact Or.inr hd

theorem update_none {live : Nat → Option Entry} {x y : Nat} {e : Entry}
    (h : Function.update live x none y = some e) :
    y ≠ x ∧ live y = some e := by
  have hne : y ≠ x := by
    rintro rfl
    simp at h
  rw [Function.update_of_ne hne] at h
  exact ⟨hne, h⟩

theorem Stepped.told {risk : RiskConfig} {l : Ledger} {live live' : Nat → Option Entry}
    {c : OrderCommand} {es : List OrderEvent} {n : Nat} (hp : Stepped risk l live c live' es n)
    (h : Sound l live) :
    ∀ e ∈ es, e.exchangeOrderId < n ∧
      (e.session = c.session ∨ ∃ x d, live x = some d ∧ e.session = d.owner) := by
  have hbelow : ∀ {x d}, live x = some d → x < l.nextExchangeId := by
    intro x d hd
    obtain ⟨o, ho, rfl⟩ := h.backed x d hd
    exact (h.fresh o ho).2
  have hstart := h.started
  intro e he
  cases hp with
  | opened => cases he
  | subscribed =>
    rw [List.mem_singleton.mp he]
    exact ⟨hstart, Or.inl rfl⟩
  | newOrder hc hp =>
    have hn : l.nextExchangeId ≤ n := by cases hp <;> omega
    obtain ⟨h1, -, h2⟩ | ⟨d, hd, h1, -⟩ := hp.told h e he
    · exact ⟨by omega, Or.inl h1⟩
    · exact ⟨(hbelow hd).trans_le hn, Or.inr ⟨_, d, hd, h1⟩⟩
  | unknown =>
    rw [List.mem_singleton.mp he]
    exact ⟨hstart, Or.inl rfl⟩
  | cancelled hc hx hd =>
    rw [List.mem_singleton.mp he]
    exact ⟨hbelow hd, Or.inl rfl⟩
  | @replaced y _ _ _ _ hc hx hd hkey hp =>
    have hnext : (withdrawn l y).nextExchangeId = l.nextExchangeId := (withdrawn_frame l y).2
    have hn : (withdrawn l y).nextExchangeId ≤ n := by cases hp <;> omega
    obtain ⟨h1, -, h2⟩ | ⟨d, hd, h1, -⟩ := hp.told (h.cancel y) e he
    · exact ⟨by omega, Or.inl h1⟩
    · have hlive := (update_none hd).2
      have hid := hbelow hlive
      exact ⟨by omega, Or.inr ⟨_, d, hlive, h1⟩⟩
  | retired => cases he

theorem Stepped.next_le {risk : RiskConfig} {l : Ledger} {live live' : Nat → Option Entry}
    {c : OrderCommand} {es : List OrderEvent} {n : Nat} (hp : Stepped risk l live c live' es n) :
    l.nextExchangeId ≤ n := by
  cases hp with
  | newOrder hc hp => cases hp <;> omega
  | @replaced y _ _ _ _ hc hx hd hkey hp =>
    have hnext : (withdrawn l y).nextExchangeId = l.nextExchangeId := (withdrawn_frame l y).2
    cases hp <;> omega
  | _ => exact Nat.le_refl _

theorem Stepped.alerts {risk : RiskConfig} {l : Ledger} {live live' : Nat → Option Entry}
    {c : OrderCommand} {es : List OrderEvent} {n : Nat} (hp : Stepped risk l live c live' es n) :
    ∀ e ∈ es, e.type ≠ .sessionRetired := by
  have hplacing : ∀ {l live c live' es n}, Placing risk l live c live' es n →
      ∀ e ∈ es, e.type ≠ .sessionRetired := by
    intro l live c live' es n hp e he
    cases hp with
    | refused =>
      rw [List.mem_singleton.mp he]
      nofun
    | placed =>
      obtain rfl | he := List.mem_cons.mp he
      · nofun
      · rw [publishAll_fills _ _ e he]
        nofun
  intro e he
  cases hp with
  | opened => cases he
  | retired => cases he
  | newOrder hc hp => exact hplacing hp e he
  | replaced hc hx hd hkey hp => exact hplacing hp e he
  | _ =>
    rw [List.mem_singleton.mp he]
    nofun

/-- A step enters at most the sender's order, under the sender's names, and
renames nothing. -/
theorem Stepped.names {risk : RiskConfig} {l : Ledger} {live live' : Nat → Option Entry}
    {c : OrderCommand} {es : List OrderEvent} {n : Nat} (hp : Stepped risk l live c live' es n)
    (h : Sound l live) {x : Nat} {e : Entry} (hx : live' x = some e) :
    (x = l.nextExchangeId ∧ (c.type = .newOrder ∨ c.type = .modify) ∧ e.owner = c.session ∧
        e.client = c.clientOrderId) ∨
      ∃ d, live x = some d ∧ e.owner = d.owner ∧ e.client = d.client := by
  cases hp with
  | opened => exact Or.inr ⟨e, hx, rfl, rfl⟩
  | subscribed => exact Or.inr ⟨e, hx, rfl, rfl⟩
  | newOrder hc hp =>
    obtain ⟨h1, h2⟩ | hd := hp.names h hx
    · exact Or.inl ⟨h1, Or.inl hc, h2⟩
    · exact Or.inr hd
  | unknown => exact Or.inr ⟨e, hx, rfl, rfl⟩
  | cancelled => exact Or.inr ⟨e, (update_none hx).2, rfl, rfl⟩
  | @replaced y _ _ _ _ hc _ _ _ hp =>
    obtain ⟨h1, h2⟩ | ⟨d, hd, h2⟩ := hp.names (h.cancel y) hx
    · exact Or.inl ⟨h1.trans (withdrawn_frame l y).2, Or.inr hc, h2⟩
    · exact Or.inr ⟨d, (update_none hd).2, h2⟩
  | retired =>
    refine Or.inr ⟨e, ?_, rfl, rfl⟩
    unfold without at hx
    split at hx
    · cases hx
    · exact hx

theorem Stepped.retires {risk : RiskConfig} {l : Ledger} {live live' : Nat → Option Entry}
    {c : OrderCommand} {es : List OrderEvent} {n : Nat} (hp : Stepped risk l live c live' es n)
    (h : Sound l live) (hc : c.type = .cancelAllForSession) {x : Nat} {e : Entry}
    (hx : live' x = some e) : e.owner ≠ c.session := by
  cases hp with
  | retired =>
    unfold without at hx
    split at hx
    · cases hx
    · rename_i hno
      rw [h.registers.session, hx] at hno
      exact fun ho => hno (congrArg some ho)
  | unknown hc' => simp [hc] at hc'
  | _ => simp_all

end OrderMatching.StepCases
