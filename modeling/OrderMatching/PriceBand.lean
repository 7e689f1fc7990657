import OrderMatching.Prices
import OrderMatching.StepCases
import OrderMatching.Uncrossed

namespace OrderMatching.PriceBand

open OrderMatching.Orders OrderMatching.Book OrderMatching.BookInvariant OrderMatching.Engine
open OrderMatching.Walk OrderMatching.Crossing OrderMatching.Priority OrderMatching.Queues
open OrderMatching.Prices OrderMatching.Commands OrderMatching.Exchange OrderMatching.MatchingThread
open OrderMatching.LedgerStep OrderMatching.LogFold OrderMatching.Registry OrderMatching.Acceptance
open OrderMatching.Bookkeeping OrderMatching.Modify OrderMatching.Rebuild OrderMatching.Uncrossed

/-- What an `int64_t` can hold. -/
def Fits (x : Int) : Prop := -2 ^ 63 ≤ x ∧ x < 2 ^ 63

instance (x : Int) : Decidable (Fits x) := inferInstanceAs (Decidable (_ ∧ _))

theorem wrap64_of_fits {x : Int} (h : Fits x) : wrap64 x = x := by
  unfold Fits at h
  unfold wrap64
  exact Int.bmod_eq_of_le (by omega) (by omega)

def reference (l : Ledger) : Option Int :=
  if l.lastTradeTicks > 0 then some l.lastTradeTicks
  else
    match bestTicks l.book .bid, bestTicks l.book .ask with
    | some bid, some ask => some ((bid + ask) / 2)
    | _, _ => none

/-- The exact results of the `int64_t` operations of `reference_price`. -/
def midOperations (l : Ledger) : List Int :=
  if l.lastTradeTicks > 0 then []
  else
    match bestTicks l.book .bid, bestTicks l.book .ask with
    | some bid, some ask => [bid + ask]
    | _, _ => []

/-- Those of `check_risk`, with the price that it is compared to. -/
def bandOperations (risk : RiskConfig) (c : OrderCommand) (ref : Int) : List Int :=
  [|c.priceTicks.toInt - ref|, |c.priceTicks.toInt - ref| * 10000, ref * risk.priceBandBp.toInt]

def operations (risk : RiskConfig) (l : Ledger) (c : OrderCommand) : List Int :=
  midOperations l ++ (reference l).toList.flatMap (bandOperations risk c)

def Outside (risk : RiskConfig) (l : Ledger) (c : OrderCommand) : Prop :=
  ∃ ref, reference l = some ref ∧ |c.priceTicks.toInt - ref| * 10000 > ref * risk.priceBandBp.toInt

structure Banded (risk : RiskConfig) (c : OrderCommand) : Prop where
  limit : c.orderType = .limit
  quantity : c.quantity ≠ 0
  size : ¬c.quantity > risk.maxOrderQty
  price : 0 < c.priceTicks.toInt
  aligned : ¬(risk.tickSize > 1 ∧ Int.tmod c.priceTicks.toInt risk.tickSize.toInt ≠ 0)
  band : risk.priceBandBp > 0

/-- The check is exact, and nothing in it overflows. -/
def Exact (risk : RiskConfig) (l : Ledger) (c : OrderCommand) : Prop :=
  (l.checkRisk risk c = .riskPriceBand ↔ Outside risk l c) ∧ ∀ x ∈ operations risk l c, Fits x

/-- The sum of the best prices, where it is needed, and the two products are below
the limit of an `int64_t`. -/
def Small (risk : RiskConfig) (l : Ledger) (c : OrderCommand) : Prop :=
  (∀ bid ask, l.lastTradeTicks ≤ 0 → bestTicks l.book .bid = some bid →
    bestTicks l.book .ask = some ask → bid + ask < 2 ^ 63) ∧
    ∀ ref, reference l = some ref →
      |c.priceTicks.toInt - ref| * 10000 < 2 ^ 63 ∧ ref * risk.priceBandBp.toInt < 2 ^ 63

def Priced (p : Int) : Prop := 0 < p ∧ p < 2 ^ 63

structure PricesKept (l : Ledger) : Prop where
  book : ∀ o ∈ l.book.allOrders, Priced o.priceTicks
  trade : 0 ≤ l.lastTradeTicks ∧ l.lastTradeTicks < 2 ^ 63

theorem PricesKept.best {l : Ledger} (h : PricesKept l) (hv : Valid l.book) {s : Side} {p : Int}
    (hp : bestTicks l.book s = some p) : Priced p := by
  unfold bestTicks at hp
  obtain ⟨lvl, hlvl, rfl⟩ := Option.map_eq_some_iff.mp hp
  have hmem : lvl ∈ l.book.levels s := List.mem_of_head? hlvl
  have hlevel := (hv.side s).level lvl hmem
  obtain ⟨o, os, ho⟩ := List.exists_cons_of_ne_nil hlevel.nonempty
  have hin : o ∈ lvl.orders := by
    rw [ho]
    exact List.mem_cons_self
  rw [← (hlevel.member o hin).1]
  apply h.book
  rw [mem_queue]
  exact ⟨s, List.mem_flatMap.mpr ⟨lvl, hmem, hin⟩⟩

theorem checkRisk_banded {risk : RiskConfig} {c : OrderCommand} (h : Banded risk c) (l : Ledger) :
    l.checkRisk risk c =
      match l.referencePrice with
      | none => .none
      | some ref =>
        if wrap64 ((if c.priceTicks.toInt > ref then wrap64 (c.priceTicks.toInt - ref)
              else wrap64 (ref - c.priceTicks.toInt)) * 10000) >
            wrap64 (ref * risk.priceBandBp.toInt) then
          .riskPriceBand
        else .none := by
  have hmarket : c.orderType ≠ .market := by simp [h.limit]
  have hprice : ¬c.priceTicks.toInt ≤ 0 := not_le.mpr h.price
  exact (if_neg h.quantity).trans
    ((if_neg h.size).trans
      ((if_neg hmarket).trans ((if_neg hprice).trans ((if_neg h.aligned).trans (if_pos h.band)))))

theorem referencePrice_eq {l : Ledger} (hp : PricesKept l) (hv : Valid l.book)
    (hsum : ∀ x ∈ midOperations l, Fits x) : l.referencePrice = reference l := by
  unfold Ledger.referencePrice reference
  unfold midOperations at hsum
  by_cases ht : l.lastTradeTicks > 0
  · rw [if_pos ht, if_pos ht]
  · rw [if_neg ht] at hsum ⊢
    rw [if_neg ht]
    cases hb : bestTicks l.book .bid with
    | none => rfl
    | some bid =>
      cases ha : bestTicks l.book .ask with
      | none => rfl
      | some ask =>
        rw [hb, ha] at hsum
        have hbid := hp.best hv hb
        have hask := hp.best hv ha
        have hfit := hsum (bid + ask) List.mem_cons_self
        dsimp only
        rw [wrap64_of_fits hfit, Int.tdiv_eq_ediv_of_nonneg (by unfold Priced at hbid hask; omega)]

theorem exact_of_fits {risk : RiskConfig} {l : Ledger} {c : OrderCommand} (h : Banded risk c)
    (hp : PricesKept l) (hv : Valid l.book) (hfits : ∀ x ∈ operations risk l c, Fits x) :
    l.checkRisk risk c = .riskPriceBand ↔ Outside risk l c := by
  have hmid := referencePrice_eq hp hv fun x hx => hfits x (List.mem_append_left _ hx)
  rw [checkRisk_banded h, hmid]
  cases href : reference l with
  | none => simp [Outside, href]
  | some ref =>
    have hband : ∀ x ∈ bandOperations risk c ref, Fits x := by
      intro x hx
      apply hfits x
      simp [operations, href, hx]
    simp only [bandOperations, List.forall_mem_cons] at hband
    obtain ⟨hdist, htimes, hwidth, -⟩ := hband
    have hdistance : (if c.priceTicks.toInt > ref then wrap64 (c.priceTicks.toInt - ref)
        else wrap64 (ref - c.priceTicks.toInt)) = |c.priceTicks.toInt - ref| := by
      split
      · next hgt =>
        rw [abs_of_pos (by omega)] at hdist ⊢
        exact wrap64_of_fits hdist
      · next hle =>
        rw [abs_of_nonpos (by omega), neg_sub] at hdist ⊢
        exact wrap64_of_fits hdist
    dsimp only
    rw [hdistance, wrap64_of_fits htimes, wrap64_of_fits hwidth]
    simp [Outside, href]

theorem fits_of_small {risk : RiskConfig} {l : Ledger} {c : OrderCommand} (h : Banded risk c)
    (hp : PricesKept l) (hv : Valid l.book) (hs : Small risk l c) :
    ∀ x ∈ operations risk l c, Fits x := by
  have hbp : 0 < risk.priceBandBp.toInt := Int64.lt_iff_toInt_lt.mp h.band
  have href : ∀ ref, reference l = some ref → 0 < ref := by
    intro ref href
    unfold reference at href
    split at href
    · next ht => exact Option.some.inj href ▸ ht
    · cases hb : bestTicks l.book .bid with
      | none => simp [hb] at href
      | some bid =>
        cases ha : bestTicks l.book .ask with
        | none => simp [hb, ha] at href
        | some ask =>
          obtain ⟨hbid, -⟩ := hp.best hv hb
          obtain ⟨hask, -⟩ := hp.best hv ha
          simp only [hb, ha, Option.some.injEq] at href
          omega
  intro x hx
  obtain hx | hx := List.mem_append.mp hx
  · unfold midOperations at hx
    split at hx
    · simp at hx
    · next ht =>
      cases hb : bestTicks l.book .bid with
      | none => simp [hb] at hx
      | some bid =>
        cases ha : bestTicks l.book .ask with
        | none => simp [hb, ha] at hx
        | some ask =>
          obtain ⟨hbid, -⟩ := hp.best hv hb
          obtain ⟨hask, -⟩ := hp.best hv ha
          have hlt := hs.1 bid ask (by omega) hb ha
          simp only [hb, ha, List.mem_singleton] at hx
          subst hx
          exact ⟨by omega, hlt⟩
  · obtain ⟨ref, hmem, hx⟩ := List.mem_flatMap.mp hx
    have hsome : reference l = some ref := by simpa using hmem
    obtain ⟨htimes, hwidth⟩ := hs.2 ref hsome
    have hpos := href ref hsome
    have habs := abs_nonneg (c.priceTicks.toInt - ref)
    have hprod : 0 < ref * risk.priceBandBp.toInt := Int.mul_pos hpos hbp
    simp only [bandOperations, List.mem_cons, List.not_mem_nil, or_false] at hx
    obtain rfl | rfl | rfl := hx
    · exact ⟨by omega, by omega⟩
    · exact ⟨by omega, htimes⟩
    · exact ⟨by omega, hwidth⟩

theorem small_of_fits {risk : RiskConfig} {l : Ledger} {c : OrderCommand}
    (hfits : ∀ x ∈ operations risk l c, Fits x) : Small risk l c := by
  refine ⟨fun bid ask ht hb ha => ?_, fun ref href => ?_⟩
  · apply (hfits (bid + ask) _).2
    apply List.mem_append_left
    rw [midOperations, if_neg (by omega), hb, ha]
    exact List.mem_singleton_self _
  · have hband : ∀ x ∈ bandOperations risk c ref, Fits x := by
      intro x hx
      apply hfits x
      simp [operations, href, hx]
    simp only [bandOperations, List.forall_mem_cons] at hband
    exact ⟨hband.2.1.2, hband.2.2.1.2⟩

theorem pricesKept_initial : PricesKept Ledger.initial where
  book := by
    simp [Ledger.book, Ledger.initial, MatchingEngine.empty, OrderBook.allOrders,
      OrderBook.empty, sideOrders]
  trade := ⟨Int.le_refl 0, by decide⟩

theorem priced_incoming {risk : RiskConfig} {l : Ledger} {c : OrderCommand}
    (h : l.checkRisk risk c = .none) (hm : c.orderType ≠ .market) : Priced c.priceTicks.toInt := by
  refine ⟨?_, c.priceTicks.toInt_lt⟩
  by_contra hle
  unfold Ledger.checkRisk at h
  dsimp only at h
  rw [if_neg hm, if_pos (not_lt.mp hle)] at h
  split_ifs at h

theorem PricesKept.print {l : Ledger} {risk : RiskConfig} {c : OrderCommand} (h : PricesKept l)
    (hrisk : l.checkRisk risk c = .none) {t : Trade} (ht : t ∈ printed l c) :
    Priced t.priceTicks := by
  obtain ⟨f, hf, rfl⟩ := List.mem_map.mp ht
  have horder : Priced f.order.priceTicks := h.book _ (mem_queue.mpr ⟨_, (walk_fills hf).1⟩)
  by_cases hkind : (l.incoming c).kind = .market ∨ (l.incoming c).side = .bid
  · rw [price_tradeOf hkind]
    exact horder
  · obtain ⟨hmarket, hbid⟩ := not_or.mp hkind
    have hlimit : (l.incoming c).kind = .limit := by
      cases hk : (l.incoming c).kind with
      | limit => rfl
      | market => exact absurd hk hmarket
      | cancel => exact absurd hk (incoming_kind l c).1
    have hask : (l.incoming c).side = .ask := by
      cases hside : (l.incoming c).side with
      | ask => rfl
      | bid => exact absurd hside hbid
    rw [price_sell_limit hlimit hask]
    exact priced_incoming hrisk fun hm => hmarket ((incoming_kind l c).2.mpr hm)

theorem PricesKept.accepted {l l' : Ledger} {live : Nat → Option Entry} {risk : RiskConfig}
    {c : OrderCommand} (h : PricesKept l) (hrisk : l.checkRisk risk c = .none)
    (ha : Accepted l live c l') : PricesKept l' := by
  have hqueue : ∀ s, ∀ o ∈ queue l.book s, Priced o.priceTicks :=
    fun s o ho => h.book o (mem_queue.mpr ⟨s, ho⟩)
  constructor
  · intro o ho
    obtain ho | ho := (mem_queues c.side).mp ho
    · rw [ha.own] at ho
      split at ho
      · exact hqueue _ o ho
      · next hrest =>
        obtain rfl | ho := mem_restAtBack.mp ho
        · exact priced_incoming hrisk fun hm => hrest (.inl hm)
        · exact hqueue _ o ho
    · rw [ha.opposite] at ho
      obtain ⟨r, hr, k, rfl, -⟩ := walk_leftover ho
      exact hqueue _ r hr
  · rw [ha.lastTrade]
    cases hlast : (printed l c).getLast? with
    | none =>
      unfold Acceptance.printed at hlast
      rw [hlast]
      exact h.trade
    | some t =>
      have ht := h.print hrisk (List.mem_of_getLast? hlast)
      unfold Acceptance.printed at hlast
      rw [hlast]
      exact ⟨Int.le_of_lt ht.1, ht.2⟩

theorem PricesKept.newOrder {l : Ledger} {live : Nat → Option Entry} (h : PricesKept l)
    (hs : Sound l live) (risk : RiskConfig) (c : OrderCommand) :
    PricesKept (stepNewOrder risk l c).1 := by
  by_cases hrisk : l.checkRisk risk c = .none
  · exact h.accepted hrisk (hs.accepted hrisk)
  · rw [stepNewOrder_rejects hrisk]
    exact h

theorem PricesKept.withdrawn {l : Ledger} {live : Nat → Option Entry} (h : PricesKept l)
    (hs : Sound l live) (x : Nat) :
    PricesKept (withdrawn l x) where
  book o ho := by
    rw [book_withdrawn, mem_cancelOrder hs.settled.valid] at ho
    exact h.book o ho.1
  trade := (withdrawn_frame l x).1 ▸ h.trade

theorem PricesKept.cancelOrders {l : Ledger} {live : Nat → Option Entry} (h : PricesKept l)
    (hs : Sound l live) (ids : List Nat) : PricesKept (cancelOrders l ids) := by
  induction ids generalizing l live with
  | nil => exact h
  | cons x ids ih => exact ih (h.withdrawn hs x) (hs.cancel x)

theorem PricesKept.step {l : Ledger} {live : Nat → Option Entry} (hs : Sound l live)
    (h : PricesKept l) (risk : RiskConfig) (c : OrderCommand) : PricesKept (step risk l c).1 := by
  unfold LedgerStep.step
  cases c.type with
  | sessionOpened => exact h
  | subscribe => exact h
  | newOrder => exact h.newOrder hs risk c
  | cancel =>
    by_cases hx : l.findOrder c.session c.clientOrderId = 0
    · simpa only [stepCancel, hx, if_true] using h
    · dsimp only
      rw [stepCancel_found hs hx]
      exact h.withdrawn hs _
  | modify =>
    by_cases hx : l.findOrder c.session c.clientOrderId = 0
    · simpa only [stepModify, hx, if_true] using h
    · obtain ⟨⟨e, he, -⟩, -⟩ := sound_found hs hx
      dsimp only
      rw [stepModify_found hs risk hx he]
      exact (h.withdrawn hs _).newOrder (hs.cancel _) risk _
  | cancelAllForSession => exact ⟨(h.cancelOrders hs _).book, (h.cancelOrders hs _).trade⟩

theorem pricesKept_of_reached {t : Thread} (h : Reached t) : PricesKept t.ledger :=
  h.keeps pricesKept_initial PricesKept.step
    fun hbook htrade _ hp => ⟨fun o ho => hp.book o (hbook ▸ ho), htrade ▸ hp.trade⟩

/-- The band check is exact and free of overflow just where the sum of the best
prices and the two products fit. -/
theorem exact_iff_small {t : Thread} (ht : Reached t) {risk : RiskConfig} {c : OrderCommand}
    (h : Banded risk c) :
    Exact risk t.ledger c ↔ Small risk t.ledger c := by
  obtain ⟨live, hs⟩ := ht.sound
  have hp := pricesKept_of_reached ht
  constructor
  · exact fun he => small_of_fits he.2
  · intro hsmall
    have hfits := fits_of_small h hp hs.settled.valid hsmall
    exact ⟨exact_of_fits h hp hs.settled.valid hfits, hfits⟩

def traded : Thread :=
  ((Thread.fresh .default none ⟨"", 0⟩).apply .obliging (.newOrder 1 1 100 10 .bid .limit)).apply
    .obliging (.newOrder 2 1 100 10 .ask .limit)

theorem reached_traded : Reached traded := .apply _ _ (.apply _ _ (.fresh _ _ _))

theorem reference_traded : reference traded.ledger = some 100 := by decide +kernel

theorem small_traded : Small .default traded.ledger (.newOrder 1 2 109 10 .bid .limit) := by
  refine ⟨fun bid ask ht => absurd ht (by decide +kernel), fun ref href => ?_⟩
  rw [reference_traded] at href
  obtain rfl := Option.some.inj href
  decide

theorem exact_near : Small .default traded.ledger (.newOrder 1 2 109 10 .bid .limit) ∧
    Exact .default traded.ledger (.newOrder 1 2 109 10 .bid .limit) :=
  ⟨small_traded, (exact_iff_small reached_traded
    ⟨rfl, by decide, by decide, by decide, by decide, by decide⟩).mpr small_traded⟩

def far : OrderCommand := .newOrder 1 2 1844674407371056 10 .bid .limit

/-- It is far outside the band of ten percent around the last trade, and accepted. -/
theorem band_not_exact :
    ¬∀ (t : Thread) (risk : RiskConfig) (c : OrderCommand), Reached t → Banded risk c →
    Exact risk t.ledger c := by
  intro h
  have hfar := h traded .default far reached_traded ⟨rfl, by decide, by decide, by decide,
    by decide, by decide⟩
  have houtside : Outside .default traded.ledger far := ⟨100, reference_traded, by decide⟩
  exact absurd (hfar.1.mpr houtside) (by decide +kernel)

end OrderMatching.PriceBand
