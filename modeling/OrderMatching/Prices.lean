import OrderMatching.Priority

namespace OrderMatching.Prices

open OrderMatching.Orders OrderMatching.Book OrderMatching.BookInvariant OrderMatching.BookUpdates
open OrderMatching.Engine OrderMatching.Walk OrderMatching.Crossing OrderMatching.Priority
open OrderMatching.Loop

def prints (e : MatchingEngine) (order : Order) : List Trade :=
  (e.processOrder order).2.tradeLog.drop e.tradeLog.length

def counterparty (order : Order) (t : Trade) : Nat :=
  match order.side with
  | .bid => t.sellerId
  | .ask => t.buyerId

def asMarket (order : Order) : Order := { order with kind := .market }

def terms (t : Trade) : Nat × Nat × Int × Nat := (t.buyerId, t.sellerId, t.priceTicks, t.quantity)

/-- Trades print at the resting order's price, and so a limit order that could
pay for everything it meets prints what a market order would. -/
def RestingPrices (e : MatchingEngine) (order : Order) : Prop :=
  (∀ t ∈ prints e order, ∃ o ∈ e.book.allOrders, o.id = counterparty order t ∧
    t.priceTicks = o.priceTicks) ∧
    (order.kind = .limit → (∀ t ∈ prints e (asMarket order), acceptable order t.priceTicks = true) →
      (prints e order).map terms = (prints e (asMarket order)).map terms)

/-- A sell limit that meets a bid above its own price. -/
def SellsBelowBid (e : MatchingEngine) (order : Order) : Prop :=
  order.kind = .limit ∧ order.side = .ask ∧ 0 < order.quantity ∧
    ∃ o ∈ sideOrders e.book.bids, order.priceTicks < o.priceTicks

theorem walk_fills_eq {accept : Int → Bool} {os : List Order} {q : Nat}
    (h : ∀ f ∈ (walk (fun _ => true) os q).fills, accept f.order.priceTicks = true) :
    (walk accept os q).fills = (walk (fun _ => true) os q).fills := by
  induction os generalizing q with
  | nil => rfl
  | cons o os ih =>
    by_cases hq : 0 < q
    · have hw := walk_cons (a := fun _ => true) (o := o) hq rfl os
      rw [hw] at h ⊢
      have ho := h ⟨o, min q o.quantity⟩ (by simp)
      rw [walk_cons hq ho, ih fun f hf => h f (List.mem_cons_of_mem _ hf)]
    · simp [walk, hq]

theorem prints_eq {e : MatchingEngine} (hv : Valid e.book) (hu : e.book.isCrossed = false)
    {order : Order} (hk : order.kind ≠ .cancel) (hfresh : ∀ r ∈ e.book.allOrders, r.id ≠ order.id) :
    prints e order = (walk (acceptable order) (sideOrders (e.book.levels order.side.opposite))
      order.quantity).fills.map (tradeOf order) := by
  by_cases hpos : 0 < order.quantity
  · obtain ⟨-, -, -, -, hlog⟩ := processOrder_spec hv hu hk hfresh hpos
    rw [prints, hlog, List.drop_left]
  · have hz : order.quantity = 0 := by omega
    have hlog : (e.processOrder order).2.tradeLog = e.tradeLog := by
      cases hkind : order.kind with
      | cancel => exact absurd hkind hk
      | market =>
        simp only [MatchingEngine.processOrder, hkind, OrderBook.matchMarket]
        rw [loop_false (by simp [Sweep.active, hz])]
      | limit =>
        simp only [MatchingEngine.processOrder, hkind, crossLoop]
        rw [loop_false (by simp [crossing, hz])]
    simp [prints, hlog, hz, walk_zero]

theorem price_tradeOf {order : Order} (hk : order.kind = .market ∨ order.side = .bid) (f : Fill) :
    (tradeOf order f).priceTicks = f.order.priceTicks := by
  cases hkind : order.kind <;> cases hside : order.side <;>
    simp_all [tradeOf, marketTrade, topTrade]

theorem counterparty_tradeOf (order : Order) (f : Fill) :
    counterparty order (tradeOf order f) = f.order.id := by
  cases hkind : order.kind <;> cases hside : order.side <;>
    simp [counterparty, tradeOf, marketTrade, topTrade, hkind, hside]

theorem price_sell_limit {order : Order} (hk : order.kind = .limit) (hs : order.side = .ask)
    (f : Fill) :
    (tradeOf order f).priceTicks = order.priceTicks := by
  simp [tradeOf, topTrade, hk, hs]

theorem terms_tradeOf (order : Order) (f : Fill)
    (h : (tradeOf order f).priceTicks = f.order.priceTicks) :
    terms (tradeOf order f) = terms (tradeOf (asMarket order) f) := by
  cases hkind : order.kind <;> cases hside : order.side <;>
    simp_all [terms, asMarket, tradeOf, marketTrade, topTrade]

/-- Unless the order is a sell limit below some bid, every fill prints at the
resting price. -/
theorem price_of_fill {e : MatchingEngine} {order : Order}
    (hkind : order.kind = .limit ∨ order.kind = .market) (h : ¬SellsBelowBid e order) {f : Fill}
    (hf : f ∈ (walk (acceptable order) (sideOrders (e.book.levels order.side.opposite))
      order.quantity).fills) :
    (tradeOf order f).priceTicks = f.order.priceTicks := by
  obtain ⟨hm, ha⟩ := walk_fills hf
  obtain hk | hk := hkind
  · cases hs : order.side with
    | bid => exact price_tradeOf (Or.inr hs) f
    | ask =>
      have hpos : 0 < order.quantity := by
        by_contra hz
        rw [Nat.eq_zero_of_not_pos hz, walk_zero] at hf
        simp at hf
      have hle : order.priceTicks ≤ f.order.priceTicks := by simpa [acceptable, hk, hs] using ha
      have hge : ¬order.priceTicks < f.order.priceTicks := fun hlt =>
        h ⟨hk, hs, hpos, f.order, by simpa [hs, Side.opposite, OrderBook.levels] using hm, hlt⟩
      rw [price_sell_limit hk hs]
      omega
  · exact price_tradeOf (Or.inl hk) f

theorem restingPrices_of_not {e : MatchingEngine} (hv : Valid e.book)
    (hu : e.book.isCrossed = false) {order : Order}
    (hk : order.kind = .limit ∨ order.kind = .market)
    (hfresh : ∀ r ∈ e.book.allOrders, r.id ≠ order.id) (h : ¬SellsBelowBid e order) :
    RestingPrices e order := by
  have hk' : order.kind ≠ .cancel := fun hc => by simp [hc] at hk
  have hp := prints_eq hv hu hk' hfresh
  have hm : prints e (asMarket order) =
      (walk (fun _ => true) (sideOrders (e.book.levels order.side.opposite))
        order.quantity).fills.map (tradeOf (asMarket order)) := by
    have hacc : acceptable (asMarket order) = fun _ => true := by
      funext p
      simp [acceptable, asMarket]
    rw [← hacc]
    exact prints_eq hv hu (by simp [asMarket]) hfresh
  constructor
  · intro t ht
    rw [hp] at ht
    obtain ⟨f, hf, rfl⟩ := List.mem_map.mp ht
    refine ⟨f.order, mem_allOrders.mpr ⟨_, (walk_fills hf).1⟩,
      (counterparty_tradeOf order f).symm, ?_⟩
    exact price_of_fill hk h hf
  · intro hlim hall
    rw [hm] at hall
    have hsame :
        (walk (acceptable order) (sideOrders (e.book.levels order.side.opposite))
          order.quantity).fills =
        (walk (fun _ => true) (sideOrders (e.book.levels order.side.opposite))
          order.quantity).fills := by
      refine walk_fills_eq fun f hf => ?_
      have hacc := hall _ (List.mem_map_of_mem hf)
      rwa [price_tradeOf (Or.inl (by simp [asMarket]))] at hacc
    rw [hp, hm, ← hsame, List.map_map, List.map_map]
    exact List.map_congr_left fun f hf => terms_tradeOf order f (price_of_fill hk h hf)

/-- A sell limit below the best bid prints at its own price, not at the bid's. -/
theorem not_restingPrices_of {e : MatchingEngine} (hv : Valid e.book)
    (hu : e.book.isCrossed = false) {order : Order}
    (hfresh : ∀ r ∈ e.book.allOrders, r.id ≠ order.id) (h : SellsBelowBid e order) :
    ¬RestingPrices e order := by
  obtain ⟨hk, hs, hpos, o, ho, hlt⟩ := h
  intro hrest
  have hb := hv.side .bid
  obtain ⟨best, hbest⟩ := front_isSome hb (fun hn => by
    have hn' : e.book.bids = [] := hn
    simp [hn'] at ho)
  have hle := front_best hb hbest ho
  obtain ⟨rest, he, -⟩ := sideOrders_takeFront hb hbest 0
  simp only [rank_bid] at hle
  have hacc : acceptable order best.priceTicks = true := by
    simp only [acceptable, hk, hs, decide_eq_true_eq]
    omega
  have hopp : sideOrders (e.book.levels order.side.opposite) = best :: rest := by rw [hs]; exact he
  have hp := prints_eq hv hu (by simp [hk]) hfresh
  rw [hopp, walk_cons hpos hacc] at hp
  obtain ⟨r, hr, hid, hprice⟩ :=
    hrest.1 (tradeOf order ⟨best, min order.quantity best.quantity⟩) (by simp [hp])
  rw [counterparty_tradeOf] at hid
  rw [price_sell_limit hk hs] at hprice
  have hmem : best ∈ e.book.allOrders := mem_allOrders.mpr ⟨.bid, by rw [he]; simp⟩
  rw [id_injective hv hr hmem hid] at hprice
  omega

/-- Exactly the sell limits below some bid print away from the resting price:
the top-of-book print always takes the ask's price. -/
theorem restingPrices_iff (e : MatchingEngine) (order : Order) (hv : Valid e.book)
    (hu : e.book.isCrossed = false) (hk : order.kind = .limit ∨ order.kind = .market)
    (hfresh : ∀ r ∈ e.book.allOrders, r.id ≠ order.id) :
    RestingPrices e order ↔ ¬SellsBelowBid e order :=
  ⟨fun h hb => not_restingPrices_of hv hu hfresh hb h, restingPrices_of_not hv hu hk hfresh⟩

theorem threeAsks_restingPrices : RestingPrices threeAsks ⟨9, 100, 5, .bid, .limit, 4⟩ :=
  (restingPrices_iff threeAsks _ threeAsks_valid (by decide) (by simp) (by decide)).mpr
    (by simp [SellsBelowBid])

/-- One bid at 105 and a sell limit at 100: the trade prints at 100. -/
theorem restingPrices_fails : ¬∀ (e : MatchingEngine) (order : Order), Valid e.book →
    e.book.isCrossed = false → order.kind = .limit ∨ order.kind = .market →
    (∀ r ∈ e.book.allOrders, r.id ≠ order.id) → RestingPrices e order := by
  intro hall
  have hv : Valid (OrderBook.empty.addOrder ⟨1, 105, 10, .bid, .limit, 1⟩) :=
    addOrder_valid valid_empty _ (by decide)
  obtain ⟨o, ho, -, hp⟩ :=
    (hall ⟨OrderBook.empty.addOrder ⟨1, 105, 10, .bid, .limit, 1⟩, []⟩ ⟨2, 100, 4, .ask, .limit,
      2⟩ hv (by decide) (by simp) (by decide)).1 ⟨1, 2, 100, 4, 2⟩ (by decide)
  have hb : ∀ r ∈ (OrderBook.empty.addOrder ⟨1, 105, 10, .bid, .limit, 1⟩).allOrders,
      r.priceTicks = 105 := by
    decide
  rw [hb o ho] at hp
  cases hp

end OrderMatching.Prices
