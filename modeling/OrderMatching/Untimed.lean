import OrderMatching.Queues

namespace OrderMatching.Untimed

open OrderMatching.Orders OrderMatching.Book OrderMatching.BookInvariant OrderMatching.BookUpdates
open OrderMatching.Walk OrderMatching.Crossing OrderMatching.Priority OrderMatching.Queues

/-- An order with its timestamp struck out, unless its id is below `n`. -/
def untimed (n : Nat) (o : Order) : Order := if o.id < n then o else { o with timestamp := 0 }

@[simp] theorem id_untimed (n : Nat) (o : Order) : (untimed n o).id = o.id := by
  unfold untimed; split <;> rfl

@[simp] theorem price_untimed (n : Nat) (o : Order) : (untimed n o).priceTicks = o.priceTicks := by
  unfold untimed; split <;> rfl

@[simp] theorem quantity_untimed (n : Nat) (o : Order) : (untimed n o).quantity = o.quantity := by
  unfold untimed; split <;> rfl

@[simp] theorem side_untimed (n : Nat) (o : Order) : (untimed n o).side = o.side := by
  unfold untimed; split <;> rfl

@[simp] theorem kind_untimed (n : Nat) (o : Order) : (untimed n o).kind = o.kind := by
  unfold untimed; split <;> rfl

theorem untimed_setQuantity (n : Nat) (o : Order) (q : Nat) :
    untimed n { o with quantity := q } = { untimed n o with quantity := q } := by
  by_cases h : o.id < n <;> simp [untimed, h]

def untimedLevel (n : Nat) (lvl : PriceLevel) : PriceLevel :=
  { lvl with orders := lvl.orders.map (untimed n) }

/-- The book with the timestamps of the orders from `n` on struck out. -/
def untimedBook (n : Nat) (b : OrderBook) : OrderBook :=
  ⟨b.bids.map (untimedLevel n), b.asks.map (untimedLevel n), b.orderLoc⟩

theorem levels_untimedBook (n : Nat) (b : OrderBook) (s : Side) :
    (untimedBook n b).levels s = (b.levels s).map (untimedLevel n) := by cases s <;> rfl

@[simp] theorem orderLoc_untimedBook (n : Nat) (b : OrderBook) :
    (untimedBook n b).orderLoc = b.orderLoc :=
  rfl

theorem sideOrders_untimed (n : Nat) (ls : List PriceLevel) :
    sideOrders (ls.map (untimedLevel n)) = (sideOrders ls).map (untimed n) := by
  simp [sideOrders, List.flatMap_map, List.map_flatMap, untimedLevel]

@[simp] theorem queue_untimedBook (n : Nat) (b : OrderBook) (s : Side) :
    queue (untimedBook n b) s = (queue b s).map (untimed n) := by
  rw [queue, levels_untimedBook, sideOrders_untimed]
  rfl

theorem allOrders_untimedBook (n : Nat) (b : OrderBook) :
    (untimedBook n b).allOrders = b.allOrders.map (untimed n) := by
  simp [OrderBook.allOrders, untimedBook, sideOrders_untimed]

theorem sideValid_untimed {s : Side} {ls : List PriceLevel} (h : SideValid s ls) (n : Nat) :
    SideValid s (ls.map (untimedLevel n)) := by
  refine ⟨List.pairwise_map.mpr h.sorted, fun lvl hl => ?_⟩
  obtain ⟨m, hm, rfl⟩ := List.mem_map.mp hl
  have hv := h.level m hm
  refine ⟨by simpa [untimedLevel] using hv.nonempty, ?_, ?_⟩
  · simp [untimedLevel, hv.total, quantities, Function.comp_def]
  · simpa [untimedLevel] using hv.member

theorem valid_untimedBook {b : OrderBook} (h : Valid b) (n : Nat) : Valid (untimedBook n b) where
  side s := by
    rw [levels_untimedBook]
    exact sideValid_untimed (h.side s) n
  nodup := by simpa [allOrders_untimedBook, Function.comp_def] using h.nodup
  locSome := by simpa [allOrders_untimedBook] using h.locSome
  locNone := by simpa [allOrders_untimedBook] using h.locNone

theorem untimedBook_ext {b b' : OrderBook} (h : Valid b) (h' : Valid b') {n : Nat}
    (hq : ∀ s, (queue b' s).map (untimed n) = (queue b s).map (untimed n)) :
    untimedBook n b' = untimedBook n b :=
  book_ext (valid_untimedBook h' n) (valid_untimedBook h n) fun s => by simpa using hq s

def untimedFill (n : Nat) (f : Fill) : Fill := ⟨untimed n f.order, f.quantity⟩

/-- Matching does not look at timestamps. -/
theorem walk_untimed (n : Nat) (accept : Int → Bool) (os : List Order) (q : Nat) :
    walk accept (os.map (untimed n)) q =
      ⟨(walk accept os q).fills.map (untimedFill n), (walk accept os q).remaining,
        (walk accept os q).leftover.map (untimed n)⟩ := by
  induction os generalizing q with
  | nil => simp [walk]
  | cons o os ih =>
    have hrem : ∀ k, remainder k (untimed n o) = (remainder k o).map (untimed n) := by
      intro k
      by_cases hk : o.quantity - k = 0
      · simp [remainder, hk]
      · simp [remainder, hk, untimed_setQuantity]
    by_cases hc : q > 0 ∧ accept o.priceTicks = true
    · rw [List.map_cons, walk_cons hc.1 hc.2, walk_cons hc.1 (by simpa using hc.2),
        quantity_untimed, ih, hrem]
      simp [untimedFill]
    · simp [walk, hc]

theorem restAtBack_untimed (n : Nat) (o : Order) (os : List Order) :
    (restAtBack o os).map (untimed n) = restAtBack (untimed n o) (os.map (untimed n)) := by
  simp [restAtBack, List.takeWhile_map, List.dropWhile_map, Function.comp_def]

def deal (t : Trade) : Trade := { t with timestamp := 0 }

theorem deal_tradeOf (n : Nat) (order : Order) (f : Fill) :
    deal (tradeOf order f) = deal (tradeOf { order with timestamp := 0 } (untimedFill n f)) := by
  cases hk : order.kind <;> cases hs : order.side <;>
    simp [deal, tradeOf, marketTrade, topTrade, untimedFill, hk, hs]

end OrderMatching.Untimed
