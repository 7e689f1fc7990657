import OrderMatching.Isolation
import OrderMatching.Rebuild
import OrderMatching.Untimed

namespace OrderMatching.Resume

open OrderMatching.Orders OrderMatching.Book OrderMatching.BookInvariant OrderMatching.Engine
open OrderMatching.Walk OrderMatching.Crossing OrderMatching.Priority OrderMatching.Queues
open OrderMatching.Commands OrderMatching.Log OrderMatching.Exchange OrderMatching.Snapshot
open OrderMatching.MatchingThread OrderMatching.LedgerStep OrderMatching.LogFold
open OrderMatching.Registry OrderMatching.Acceptance OrderMatching.Bookkeeping
open OrderMatching.KeyIndex OrderMatching.Modify OrderMatching.Isolation OrderMatching.Rebuild
open OrderMatching.Untimed

structure SameMaps (l l' : Ledger) : Prop where
  ownerOf : l'.ownerOf = l.ownerOf
  clientIdOf : l'.clientIdOf = l.clientIdOf
  remainingOf : l'.remainingOf = l.remainingOf
  sideOf : l'.sideOf = l.sideOf
  byClientId : l'.byClientId = l.byClientId

theorem SameMaps.forgetOrder {l l' : Ledger} (h : SameMaps l l') (x : Nat) :
    SameMaps (l.forgetOrder x) (l'.forgetOrder x) := by
  obtain ⟨h1, h2, h3, h4, h5⟩ := h
  cases ho : l.ownerOf x with
  | none =>
    have ho' : l'.ownerOf x = none := h1 ▸ ho
    simp only [Ledger.forgetOrder, ho, ho', h2, h3, h4]
    exact ⟨h1, rfl, rfl, rfl, h5⟩
  | some s =>
    have ho' : l'.ownerOf x = some s := h1 ▸ ho
    simp only [Ledger.forgetOrder, ho, ho', h1, h2, h3, h4, h5]
    exact ⟨rfl, rfl, rfl, rfl, rfl⟩

theorem SameMaps.recordOrder {l l' : Ledger} (h : SameMaps l l')
    (hnext : l'.nextExchangeId = l.nextExchangeId) (c : OrderCommand) :
    SameMaps (l.recordOrder c) (l'.recordOrder c) := by
  obtain ⟨h1, h2, h3, h4, h5⟩ := h
  simp only [Ledger.recordOrder, Ledger.incoming, hnext, h1, h2, h3, h4, h5]
  exact ⟨rfl, rfl, rfl, rfl, rfl⟩

theorem SameMaps.routeFill {l l' : Ledger} (h : SameMaps l l') {x x' : Nat} (hx : x' = x)
    {t t' : Trade} (hq : t'.quantity = t.quantity) :
    SameMaps (routeFill l x t).1 (routeFill l' x' t').1 := by
  rw [hx]
  obtain ⟨h1, h2, h3, h4, h5⟩ := h
  cases ho : l.ownerOf x with
  | none =>
    have ho' : l'.ownerOf x = none := h1 ▸ ho
    simp only [LedgerStep.routeFill, ho, ho']
    exact ⟨h1, h2, h3, h4, h5⟩
  | some s =>
    have ho' : l'.ownerOf x = some s := h1 ▸ ho
    have hset : SameMaps { l with
        remainingOf := Function.update l.remainingOf x
          (some ((l.remainingOf x).getD 0 - t.quantity)) } { l' with
        remainingOf := Function.update l.remainingOf x
          (some ((l.remainingOf x).getD 0 - t.quantity)) } :=
      ⟨h1, h2, rfl, h4, h5⟩
    simp only [LedgerStep.routeFill, ho, ho', h3, hq]
    split
    · exact hset.forgetOrder x
    · exact hset

theorem SameMaps.publishAll {l l' : Ledger} (h : SameMaps l l') {ts ts' : List Trade}
    (hts : ts'.map deal = ts.map deal) : SameMaps (publishAll l ts).1 (publishAll l' ts').1 := by
  induction ts generalizing l l' ts' with
  | nil =>
    rw [List.map_eq_nil_iff.mp hts]
    exact h
  | cons t ts ih =>
    obtain ⟨t', rest, rfl, ht, hrest⟩ := List.map_eq_cons_iff.mp hts
    simp only [deal, Trade.mk.injEq, and_true] at ht
    obtain ⟨hb, hs, -, hq⟩ := ht
    have hprice : SameMaps { l with lastTradeTicks := t.priceTicks } { l' with
        lastTradeTicks := t'.priceTicks } :=
      ⟨h.ownerOf, h.clientIdOf, h.remainingOf, h.sideOf, h.byClientId⟩
    exact ih ((hprice.routeFill hb hq).routeFill hs hq) hrest

/-- The relation between an uninterrupted ledger and one that went through a
snapshot when the next exchange id was `n`. -/
structure Resumes (n : Nat) (l l' : Ledger) : Prop where
  maps : SameMaps l l'
  book : untimedBook n l'.book = untimedBook n l.book
  lastTrade : l'.lastTradeTicks = l.lastTradeTicks
  nextId : l'.nextExchangeId = l.nextExchangeId
  reached : n ≤ l.nextExchangeId
  sound : ∃ live, Sound l live
  sound' : ∃ live, Sound l' live

theorem Resumes.queue {n : Nat} {l l' : Ledger} (h : Resumes n l l') (s : Side) :
    (Queues.queue l'.book s).map (untimed n) = (Queues.queue l.book s).map (untimed n) := by
  rw [← queue_untimedBook, ← queue_untimedBook, h.book]

theorem bestTicks_untimed (n : Nat) (b : OrderBook) (s : Side) :
    bestTicks (untimedBook n b) s = bestTicks b s := by
  simp [bestTicks, levels_untimedBook, Function.comp_def, untimedLevel]

theorem checkRisk_congr {l l' : Ledger} (hlast : l'.lastTradeTicks = l.lastTradeTicks)
    (hbest : ∀ s, bestTicks l'.book s = bestTicks l.book s) (risk : RiskConfig) (c : OrderCommand) :
    l'.checkRisk risk c = l.checkRisk risk c := by
  have href : l'.referencePrice = l.referencePrice := by
    simp only [Ledger.referencePrice, hlast, hbest]
  simp only [Ledger.checkRisk, href]

theorem Resumes.checkRisk {n : Nat} {l l' : Ledger} (h : Resumes n l l') (risk : RiskConfig)
    (c : OrderCommand) :
    l'.checkRisk risk c = l.checkRisk risk c := by
  refine checkRisk_congr h.lastTrade (fun s => ?_) risk c
  rw [← bestTicks_untimed n, h.book, bestTicks_untimed]

theorem Resumes.findOrder {n : Nat} {l l' : Ledger} (h : Resumes n l l') (s coid : UInt64) :
    l'.findOrder s coid = l.findOrder s coid := by
  rw [Ledger.findOrder, Ledger.findOrder, h.maps.byClientId]

theorem filter_untimed (n : Nat) (p : Nat → Bool) (os : List Order) :
    (os.filter (fun o => p o.id)).map (untimed n) =
      (os.map (untimed n)).filter (fun o => p o.id) := by
  simp [List.filter_map, Function.comp_def]

theorem Resumes.withdrawn {n : Nat} {l l' : Ledger} (h : Resumes n l l') (x : Nat) :
    Resumes n (withdrawn l x) (withdrawn l' x) := by
  obtain ⟨live, hs⟩ := h.sound
  obtain ⟨live', hs'⟩ := h.sound'
  have hmaps : SameMaps (l.process (cancelRequest x)).2 (l'.process (cancelRequest x)).2 :=
    ⟨h.maps.ownerOf, h.maps.clientIdOf, h.maps.remainingOf, h.maps.sideOf, h.maps.byClientId⟩
  have hw : Sound (Modify.withdrawn l x) _ := hs.cancel x
  have hw' : Sound (Modify.withdrawn l' x) _ := hs'.cancel x
  refine ⟨hmaps.forgetOrder x, untimedBook_ext hw.settled.valid hw'.settled.valid fun s => ?_, ?_,
    ?_, ?_, ⟨_, hw⟩, ⟨_, hw'⟩⟩
  · have hf := fun os => filter_untimed n (fun id => decide (id ≠ x)) os
    rw [queue_withdrawn hs', queue_withdrawn hs, hf, hf, h.queue]
  · rw [(withdrawn_frame l' x).1, (withdrawn_frame l x).1, h.lastTrade]
  · rw [(withdrawn_frame l' x).2, (withdrawn_frame l x).2, h.nextId]
  · rw [(withdrawn_frame l x).2]
    exact h.reached

theorem printed_deals (n : Nat) (l : Ledger) (c : OrderCommand) :
    (printed l c).map deal = ((outcome l c).fills.map (untimedFill n)).map
      (fun f => deal (tradeOf { l.incoming c with timestamp := 0 } f)) := by
  simp only [printed, List.map_map]
  exact List.map_congr_left fun f _ => deal_tradeOf n (l.incoming c) f

theorem getLast_deals (ts : List Trade) :
    ts.getLast?.map Trade.priceTicks = (ts.map deal).getLast?.map Trade.priceTicks := by
  simp [List.getLast?_map, Function.comp_def, deal]

theorem Resumes.newOrder {n : Nat} {l l' : Ledger} (h : Resumes n l l') (risk : RiskConfig)
    (c : OrderCommand) :
    Resumes n (stepNewOrder risk l c).1 (stepNewOrder risk l' c).1 := by
  by_cases hrisk : l.checkRisk risk c = .none
  · obtain ⟨live, hs⟩ := h.sound
    obtain ⟨live', hs'⟩ := h.sound'
    have hrisk' := (h.checkRisk risk c).trans hrisk
    have ha := hs.accepted hrisk
    have ha' := hs'.accepted hrisk'
    -- both walks run over the same orders and decide by the same prices
    have hwalk : (⟨(outcome l' c).fills.map (untimedFill n), (outcome l' c).remaining,
        (outcome l' c).leftover.map (untimed n)⟩ : Outcome) =
          ⟨(outcome l c).fills.map (untimedFill n),
        (outcome l c).remaining, (outcome l c).leftover.map (untimed n)⟩ := by
      have hacc : acceptable (l'.incoming c) = acceptable (l.incoming c) := rfl
      rw [outcome, outcome, ← walk_untimed, ← walk_untimed, h.queue, hacc]
    simp only [Outcome.mk.injEq] at hwalk
    obtain ⟨hfills, hrem, hleft⟩ := hwalk
    have hincoming : ∀ q, untimed n { l'.incoming c with quantity := q } =
        untimed n { l.incoming c with quantity := q } := by
      intro q
      have hnew : ¬l.nextExchangeId < n := not_lt.mpr h.reached
      simp [untimed, Ledger.incoming, h.nextId, hnew]
    have hdeals : (printed l' c).map deal = (printed l c).map deal := by
      rw [printed_deals n, printed_deals n, hfills]
      simp only [Ledger.incoming, h.nextId]
    have hmatched : SameMaps (matched l c) (matched l' c) := by
      have hrec := h.maps.recordOrder h.nextId c
      exact ⟨hrec.ownerOf, hrec.clientIdOf, hrec.remainingOf, hrec.sideOf, hrec.byClientId⟩
    have hpub := hmatched.publishAll hdeals
    have hcleared : SameMaps (publishAll (matched l c) (printed l c)).1.clearTradeLog
        (publishAll (matched l' c) (printed l' c)).1.clearTradeLog :=
      ⟨hpub.ownerOf, hpub.clientIdOf, hpub.remainingOf, hpub.sideOf, hpub.byClientId⟩
    refine ⟨?_, untimedBook_ext ha.valid.valid ha'.valid.valid fun s => ?_, ?_, ?_, ?_,
      ⟨_, sound_accepted hs (quantity_pos hrisk) ha⟩,
      ⟨_, sound_accepted hs' (quantity_pos hrisk') ha'⟩⟩
    · rw [stepNewOrder_eq hs hrisk, stepNewOrder_eq hs' hrisk', h.nextId]
      dsimp only
      split
      · exact hcleared.forgetOrder _
      · exact hcleared
    · by_cases hside : c.side = s
      · subst hside
        rw [ha.own, ha'.own, hrem]
        split
        · exact h.queue _
        · rw [restAtBack_untimed, restAtBack_untimed, hincoming, h.queue]
      · rw [eq_opposite_of_ne hside, ha.opposite, ha'.opposite]
        exact hleft
    · have hlast : ∀ l : Ledger,
          ((outcome l c).fills.map (tradeOf (l.incoming c))).getLast?.map Trade.priceTicks =
          ((printed l c).map deal).getLast?.map Trade.priceTicks := fun l => getLast_deals _
      rw [ha.lastTrade, ha'.lastTrade, hlast, hlast, hdeals, h.lastTrade]
    · rw [ha.nextId, ha'.nextId, h.nextId]
    · rw [ha.nextId]
      exact Nat.le_succ_of_le h.reached
  · have hrisk' : l'.checkRisk risk c ≠ .none :=
      fun hc => hrisk ((h.checkRisk risk c).symm.trans hc)
    rw [stepNewOrder_rejects hrisk, stepNewOrder_rejects hrisk']
    exact h

theorem cancelOrders_spec {l : Ledger} {live : Nat → Option Entry} (h : Sound l live)
    (ids : List Nat) :
    (∀ s, queue (cancelOrders l ids).book s = (queue l.book s).filter (fun o => o.id ∉ ids)) ∧
      (∀ k, (cancelOrders l ids).byClientId k =
        if ∃ x ∈ ids, (live x).map Entry.key = some k then none else l.byClientId k) ∧
      (cancelOrders l ids).lastTradeTicks = l.lastTradeTicks ∧
      (cancelOrders l ids).nextExchangeId = l.nextExchangeId := by
  induction ids generalizing l live with
  | nil => exact ⟨fun s => by simp [cancelOrders], fun k => by simp [cancelOrders], rfl, rfl⟩
  | cons x ids ih =>
    obtain ⟨i1, i2, i3, i4⟩ := ih (h.cancel x)
    have hreg : Registers (l.process (cancelRequest x)).2 live := h.registers.setEngine _
    refine ⟨fun s => ?_, fun k => ?_, ?_, ?_⟩
    · refine (i1 s).trans ?_
      rw [show (l.process (cancelRequest x)).2.forgetOrder x = withdrawn l x from rfl,
        queue_withdrawn h, List.filter_filter]
      exact List.filter_congr fun o _ => by by_cases ho : o.id = x <;> simp [ho]
    · refine (i2 k).trans ?_
      rw [byClient_forgetOrder hreg.toColumns]
      by_cases hx : (live x).map Entry.key = some k
      · rw [if_pos hx, ite_self, if_pos ⟨x, List.mem_cons_self, hx⟩]
      · have hiff : (∃ y ∈ ids, (Function.update live x none y).map Entry.key = some k) ↔
            ∃ y ∈ x :: ids, (live y).map Entry.key = some k := by
          constructor
          · rintro ⟨y, hy, hk⟩
            have hyx : y ≠ x := by
              rintro rfl
              simp at hk
            exact ⟨y, List.mem_cons_of_mem x hy, by rwa [Function.update_of_ne hyx] at hk⟩
          · rintro ⟨y, hy, hk⟩
            have hyx : y ≠ x := by
              rintro rfl
              exact hx hk
            exact ⟨y, (List.mem_cons.mp hy).resolve_left hyx, by rwa [Function.update_of_ne hyx]⟩
        rw [if_neg hx]
        exact if_congr hiff rfl rfl
    · exact i3.trans (lastTrade_forgetOrder _ _)
    · exact i4.trans (nextId_forgetOrder _ _)

theorem live_unique {l l' : Ledger} {live live' : Nat → Option Entry} (h : Columns l live)
    (h' : Columns l' live') (hm : SameMaps l l') : live' = live := by
  funext x
  have ho : (live' x).map Entry.owner = (live x).map Entry.owner := by
    rw [← h.owner, ← h'.owner, hm.ownerOf]
  have hc : (live' x).map Entry.client = (live x).map Entry.client := by
    rw [← h.client, ← h'.client, hm.clientIdOf]
  have hr : (live' x).map Entry.remaining = (live x).map Entry.remaining := by
    rw [← h.remaining, ← h'.remaining, hm.remainingOf]
  have hs : (live' x).map Entry.side = (live x).map Entry.side := by
    rw [← h.side, ← h'.side, hm.sideOf]
  cases hx : live x with
  | none => simpa [hx] using ho
  | some e =>
    cases hx' : live' x with
    | none => simp [hx, hx'] at ho
    | some e' =>
      simp only [hx, hx', Option.map_some, Option.some.injEq] at ho hc hr hs
      obtain ⟨o, k, r, s⟩ := e
      obtain ⟨o', k', r', s'⟩ := e'
      simp_all

theorem sameMaps_of_columns {l l' : Ledger} {live : Nat → Option Entry} (h : Columns l live)
    (h' : Columns l' live) (hk : l'.byClientId = l.byClientId) : SameMaps l l' :=
  ⟨funext fun x => (h'.owner x).trans (h.owner x).symm,
    funext fun x => (h'.client x).trans (h.client x).symm,
    funext fun x => (h'.remaining x).trans (h.remaining x).symm, funext fun x =>
      (h'.side x).trans (h.side x).symm, hk⟩

theorem Resumes.cancelAll {n : Nat} {l l' : Ledger} (h : Resumes n l l') (c : OrderCommand) :
    Resumes n (stepCancelAll l c) (stepCancelAll l' c) := by
  obtain ⟨live, hs⟩ := h.sound
  obtain ⟨live', hs'⟩ := h.sound'
  obtain rfl := live_unique hs.registers.toColumns hs'.registers.toColumns h.maps
  have hids : ∀ x, x ∈ (l'.sessionOrders c.session).getD [] ↔
      x ∈ (l.sessionOrders c.session).getD [] := by
    intro x
    rw [hs'.registers.session, hs.registers.session]
  have hwithout : without live' ((l'.sessionOrders c.session).getD []) =
      without live' ((l.sessionOrders c.session).getD []) := by
    funext x
    simp [without, hids]
  have ha := sound_cancelAll hs c
  have ha' := sound_cancelAll hs' c
  rw [hwithout] at ha'
  obtain ⟨c1, c2, c3, c4⟩ := cancelOrders_spec hs ((l.sessionOrders c.session).getD [])
  obtain ⟨d1, d2, d3, d4⟩ := cancelOrders_spec hs' ((l'.sessionOrders c.session).getD [])
  refine ⟨sameMaps_of_columns ha.registers.toColumns ha'.registers.toColumns ?_,
    untimedBook_ext ha.settled.valid ha'.settled.valid fun s => ?_, ?_, ?_, ?_, ⟨_, ha⟩, ⟨_, ha'⟩⟩
  · funext k
    refine (d2 k).trans (Eq.trans ?_ (c2 k).symm)
    simp only [hids, h.maps.byClientId]
  · have hf := fun os =>
      filter_untimed n (fun id => decide (id ∉ (l.sessionOrders c.session).getD [])) os
    have hq : Queues.queue (stepCancelAll l c).book s = _ := c1 s
    have hq' : Queues.queue (stepCancelAll l' c).book s = _ := d1 s
    simp only [hids] at hq'
    rw [hq, hq', hf, hf, h.queue]
  · exact d3.trans (h.lastTrade.trans c3.symm)
  · exact d4.trans (h.nextId.trans c4.symm)
  · exact h.reached.trans (le_of_eq c4.symm)

/-- Every command keeps the two in step. -/
theorem Resumes.step {n : Nat} {l l' : Ledger} (h : Resumes n l l') (risk : RiskConfig)
    (c : OrderCommand) :
    Resumes n (step risk l c).1 (step risk l' c).1 := by
  obtain ⟨live, hs⟩ := h.sound
  obtain ⟨live', hs'⟩ := h.sound'
  have hfind := h.findOrder c.session c.clientOrderId
  unfold LedgerStep.step
  cases c.type with
  | sessionOpened => exact h
  | subscribe => exact h
  | newOrder => exact h.newOrder risk c
  | cancel =>
    dsimp only
    by_cases hx : l.findOrder c.session c.clientOrderId = 0
    · simpa only [stepCancel, hx, hfind.trans hx, if_true] using h
    · rw [stepCancel_found hs hx, stepCancel_found hs' (hfind.symm ▸ hx), hfind]
      exact h.withdrawn _
  | modify =>
    dsimp only
    by_cases hx : l.findOrder c.session c.clientOrderId = 0
    · simpa only [stepModify, hx, hfind.trans hx, if_true] using h
    · obtain ⟨⟨e, he, -⟩, -⟩ := sound_found hs hx
      obtain rfl := live_unique hs.registers.toColumns hs'.registers.toColumns h.maps
      rw [stepModify_found hs risk hx he,
        stepModify_found hs' risk (hfind.symm ▸ hx) (hfind.symm ▸ he), hfind]
      exact (h.withdrawn _).newOrder risk _
  | cancelAllForSession => exact h.cancelAll c

theorem Resumes.fold {n : Nat} {l l' : Ledger} (h : Resumes n l l') (risk : RiskConfig)
    (cs : List OrderCommand) :
    Resumes n (fold risk l cs) (fold risk l' cs) := by
  induction cs generalizing l l' with
  | nil => exact h
  | cons c cs ih => exact ih (h.step risk c)

/-- No two orders are ever live under one lookup key: an order that is accepted
comes under a key that no live order has. An order is live from the moment its
ownership is recorded, and the replacement of a Modify inherits its key. -/
def DistinctKeys (risk : RiskConfig) : Ledger → List OrderCommand → Prop
  | _, [] => True
  | l, c :: cs =>
    (c.type = .newOrder → l.checkRisk risk c = .none →
      ∀ x s coid, Owns l s coid x → keyOf s coid ≠ keyOf c.session c.clientOrderId) ∧
    DistinctKeys risk (step risk l c).1 cs

theorem distinctKeys_single (risk : RiskConfig) (c : OrderCommand) :
    DistinctKeys risk Ledger.initial [c] :=
  ⟨fun _ _ _ _ _ ho => absurd ho not_owns_initial, trivial⟩

theorem indexed_step {l : Ledger} {live : Nat → Option Entry} (h : Sound l live)
    (hi : Indexed l live) {risk : RiskConfig} {c : OrderCommand}
    (hd : c.type = .newOrder → l.checkRisk risk c = .none → ∀ x s coid, Owns l s coid x →
      keyOf s coid ≠ keyOf c.session c.clientOrderId) :
    ∃ live', Sound (step risk l c).1 live' ∧ Indexed (step risk l c).1 live' := by
  unfold step
  cases hc : c.type with
  | sessionOpened => exact ⟨live, h, hi⟩
  | subscribe => exact ⟨live, h, hi⟩
  | newOrder =>
    obtain ⟨live', h', hi', -⟩ := newOrder_isolates h hi risk c fun hrisk y e hy =>
      hd hc hrisk y _ _ ((owns_entry h.registers).mpr ⟨e, hy, rfl, rfl⟩)
    exact ⟨live', h', hi'⟩
  | cancel =>
    dsimp only
    by_cases hx : l.findOrder c.session c.clientOrderId = 0
    · exact ⟨live, by simpa only [stepCancel, hx, if_true] using h,
        by simpa only [stepCancel, hx, if_true] using hi⟩
    · rw [stepCancel_found h hx]
      exact ⟨_, h.cancel _, indexed_cancel h hi _⟩
  | modify =>
    dsimp only
    by_cases hx : l.findOrder c.session c.clientOrderId = 0
    · exact ⟨live, by simpa only [stepModify, hx, if_true] using h,
        by simpa only [stepModify, hx, if_true] using hi⟩
    · obtain ⟨⟨e, he, -⟩, -⟩ := sound_found h hx
      rw [stepModify_found h risk hx he]
      obtain ⟨live', h', hi', -⟩ :=
        newOrder_isolates (h.cancel (l.findOrder c.session c.clientOrderId)) (indexed_cancel h hi _)
          risk (replacement c e.side) fun _ y d hy => key_free hi hy
      exact ⟨live', h', hi'⟩
  | cancelAllForSession => exact ⟨_, sound_cancelAll h c, indexed_cancelOrders h hi _⟩

theorem indexed_fold {risk : RiskConfig} {cs : List OrderCommand} {l : Ledger}
    {live : Nat → Option Entry} (h : Sound l live) (hi : Indexed l live)
    (hd : DistinctKeys risk l cs) :
    ∃ live', Sound (fold risk l cs) live' ∧ Indexed (fold risk l cs) live' := by
  induction cs generalizing l live with
  | nil => exact ⟨live, h, hi⟩
  | cons c cs ih =>
    obtain ⟨live', h', hi'⟩ := indexed_step h hi hd.1
    exact ih h' hi' hd.2

end OrderMatching.Resume
