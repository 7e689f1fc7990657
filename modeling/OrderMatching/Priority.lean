import OrderMatching.Crossing

namespace OrderMatching.Priority

open OrderMatching.Orders OrderMatching.Book OrderMatching.BookInvariant OrderMatching.BookRuns
open OrderMatching.Engine OrderMatching.Walk OrderMatching.Crossing

theorem walk_sum (accept : Int → Bool) (os : List Order) (q : Nat) :
    ((walk accept os q).fills.map Fill.quantity).sum + (walk accept os q).remaining = q := by
  induction os generalizing q with
  | nil => simp [walk]
  | cons o os ih =>
    by_cases h : q > 0 ∧ accept o.priceTicks = true
    · have hi := ih (q - min q o.quantity)
      rw [walk_cons h.1 h.2]
      simp only [List.map_cons, List.sum_cons]
      omega
    · simp [walk, h]

def parties (order : Order) (f : Fill) : Nat × Nat × Nat :=
  match order.side with
  | .bid => (order.id, f.order.id, f.quantity)
  | .ask => (f.order.id, order.id, f.quantity)

def tradeOf (order : Order) (f : Fill) : Trade :=
  match order.kind with
  | .market => marketTrade order.id order.side order.timestamp f.order f.quantity
  | _ => topTrade order.side order f.order f.quantity

theorem parties_tradeOf (order : Order) (f : Fill) :
    ((tradeOf order f).buyerId, (tradeOf order f).sellerId, (tradeOf order f).quantity) =
      parties order f := by
  cases hk : order.kind <;> cases hs : order.side <;>
    simp [tradeOf, parties, marketTrade, topTrade, hk, hs]

/-- What processing a limit or market order does, whole: the reference walk
over the other side decides everything. -/
theorem processOrder_spec {e : MatchingEngine} (hv : Valid e.book) (hu : e.book.isCrossed = false)
    {order : Order} (hk : order.kind ≠ .cancel) (hfresh : ∀ r ∈ e.book.allOrders, r.id ≠ order.id)
    (hpos : 0 < order.quantity) :
    let r := walk (acceptable order) (sideOrders (e.book.levels order.side.opposite)) order.quantity
    let e' := (e.processOrder order).2
    (e.processOrder order).1 = ⟨true, .none, order.quantity - r.remaining,
        decide (order.kind = .market ∨ r.remaining = 0)⟩ ∧
      Valid e'.book ∧ sideOrders (e'.book.levels order.side.opposite) = r.leftover ∧
      sideOrders (e'.book.levels order.side) =
        (if order.kind = .market ∨ r.remaining = 0 then sideOrders (e.book.levels order.side)
          else restAtBack { order with quantity := r.remaining }
            (sideOrders (e.book.levels order.side))) ∧
      e'.tradeLog = e.tradeLog ++ r.fills.map (tradeOf order) := by
  cases hkind : order.kind with
  | cancel => exact absurd hkind hk
  | market =>
    have hacc : acceptable order = fun _ => true := by
      funext p
      simp [acceptable, hkind]
    have ht : tradeOf order = fun f =>
        marketTrade order.id order.side order.timestamp f.order f.quantity := by
      funext f
      simp [tradeOf, hkind]
    obtain ⟨h1, h2, h3, h4⟩ := market_loop order.id order.side order.timestamp
      (orderCount (e.book.levels order.side.opposite)) ⟨e.book, order.quantity, e.tradeLog⟩ hv
      (by rw [orderCount_eq])
    have hval := matchMarket_valid hv order.id order.side order.quantity order.timestamp e.tradeLog
    simp only [MatchingEngine.processOrder, hkind, hacc, ht, true_or, decide_true, if_true]
    refine ⟨?_, hval, h2, congrArg sideOrders h3, h4⟩
    rw [OrderBook.matchMarket, h1]
  | limit =>
    have ht : tradeOf order = fun f => topTrade order.side order f.order f.quantity := by
      funext f
      simp [tradeOf, hkind]
    obtain ⟨h1, h2, h3, h4, h5⟩ := crossLoop_spec hv hu hkind hfresh hpos e.tradeLog
    simp only [MatchingEngine.processOrder, hkind, ht, reduceCtorEq, false_or] at h4 ⊢
    exact ⟨by rw [h2], h1, h3, h4, h5⟩

/-- Processing a limit or market order on a valid uncrossed book is price-time
priority: trades, both sides and the result are those of the reference. A market
order counts as fully filled whatever it took, since its remainder is dropped. -/
theorem price_time_priority (e : MatchingEngine) (order : Order) (hv : Valid e.book)
    (hu : e.book.isCrossed = false) (hk : order.kind = .limit ∨ order.kind = .market)
    (hfresh : ∀ r ∈ e.book.allOrders, r.id ≠ order.id) (hpos : 0 < order.quantity) :
    let r := walk (acceptable order) (sideOrders (e.book.levels order.side.opposite)) order.quantity
    let e' := (e.processOrder order).2
    ∃ trades, e'.tradeLog = e.tradeLog ++ trades ∧
      trades.map (fun t => (t.buyerId, t.sellerId, t.quantity)) = r.fills.map (parties order) ∧
      Valid e'.book ∧ sideOrders (e'.book.levels order.side.opposite) = r.leftover ∧
      sideOrders (e'.book.levels order.side) =
        (if order.kind = .market ∨ r.remaining = 0 then sideOrders (e.book.levels order.side)
          else restAtBack { order with quantity := r.remaining }
            (sideOrders (e.book.levels order.side))) ∧
      (e.processOrder order).1.accepted = true ∧
      (e.processOrder order).1.filledQty = (trades.map Trade.quantity).sum ∧
      ((e.processOrder order).1.fullyFilled = true ↔
        order.kind = .market ∨ (trades.map Trade.quantity).sum = order.quantity) := by
  have hk' : order.kind ≠ .cancel := fun hc => by simp [hc] at hk
  obtain ⟨hres, hval, hopp, hown, hlog⟩ := processOrder_spec hv hu hk' hfresh hpos
  have hsum := walk_sum (acceptable order) (sideOrders (e.book.levels order.side.opposite))
    order.quantity
  have hparts : ∀ fs : List Fill, (fs.map (tradeOf order)).map
      (fun t => (t.buyerId, t.sellerId, t.quantity)) = fs.map (parties order) := by
    intro fs
    rw [List.map_map]
    exact List.map_congr_left fun f _ => parties_tradeOf order f
  have hqty : ∀ fs : List Fill,
      (fs.map (tradeOf order)).map Trade.quantity = fs.map Fill.quantity := by
    intro fs
    rw [List.map_map]
    refine List.map_congr_left fun f _ => ?_
    cases hkind : order.kind <;> cases hside : order.side <;>
      simp [tradeOf, marketTrade, topTrade, hkind, hside]
  refine ⟨_, hlog, hparts _, hval, hopp, hown, ?_⟩
  rw [hqty, hres]
  refine ⟨rfl, ?_, ?_⟩
  · dsimp only
    omega
  · rw [decide_eq_true_iff]
    refine or_congr Iff.rfl ⟨fun hz => ?_, fun hz => ?_⟩ <;> omega

def threeAsks : MatchingEngine :=
  ⟨((OrderBook.empty.addOrder ⟨1, 100, 3, .ask, .limit, 1⟩).addOrder
    ⟨2, 100, 2, .ask, .limit, 2⟩).addOrder ⟨3, 99, 1, .ask, .limit, 3⟩, []⟩

theorem threeAsks_valid : Valid threeAsks.book := by
  dsimp only [threeAsks]
  refine addOrder_valid (addOrder_valid (addOrder_valid valid_empty _ ?_) _ ?_) _ ?_ <;> decide

theorem price_time_priority_threeAsks :
    ∃ trades, (threeAsks.processOrder ⟨9, 100, 5, .bid, .limit, 4⟩).2.tradeLog = trades ∧
      trades.map (fun t => (t.buyerId, t.sellerId, t.quantity)) =
        [(9, 3, 1), (9, 1, 3), (9, 2, 1)] := by
  obtain ⟨trades, hlog, hparts, -⟩ := price_time_priority threeAsks ⟨9, 100, 5, .bid, .limit, 4⟩
    threeAsks_valid (by decide) (by simp) (by decide) (by decide)
  exact ⟨trades, hlog, hparts.trans (by decide)⟩

end OrderMatching.Priority
