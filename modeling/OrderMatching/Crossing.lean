import OrderMatching.Walk

namespace OrderMatching.Crossing

open OrderMatching.Orders OrderMatching.Book OrderMatching.BookInvariant OrderMatching.BookUpdates
open OrderMatching.BookRuns OrderMatching.Engine OrderMatching.Walk OrderMatching.Loop

def restAtBack (order : Order) (os : List Order) : List Order :=
  os.takeWhile (fun o => rank order.side o.priceTicks ≤ rank order.side order.priceTicks) ++
    order :: os.dropWhile (fun o => rank order.side o.priceTicks ≤ rank order.side order.priceTicks)

/-- The print between the order on side `s` and the resting order it meets. -/
def topTrade (s : Side) (x o : Order) (qty : Nat) : Trade :=
  match s with
  | .bid => ⟨x.id, o.id, o.priceTicks, qty, max x.timestamp o.timestamp⟩
  | .ask => ⟨o.id, x.id, x.priceTicks, qty, max o.timestamp x.timestamp⟩

theorem front_price {s : Side} {ls : List PriceLevel} (h : SideValid s ls) {o : Order}
    (ho : front ls = some o) : ∃ lvl rest, ls = lvl :: rest ∧ lvl.priceTicks = o.priceTicks := by
  obtain ⟨lvl, rest, os, rfl, hos⟩ := front_eq_some h ho
  exact ⟨lvl, rest, rfl, ((h.level lvl (by simp)).member o (by simp [hos])).1.symm⟩

theorem isCrossed_eq {b : OrderBook} (h : Valid b) (s : Side) {x o : Order}
    (hx : front (b.levels s) = some x) (ho : front (b.levels s.opposite) = some o) :
    b.isCrossed = decide (rank s x.priceTicks ≤ rank s o.priceTicks) := by
  obtain ⟨l, ls, hl, hlp⟩ := front_price (h.side s) hx
  obtain ⟨m, ms, hm, hmp⟩ := front_price (h.side s.opposite) ho
  rw [Bool.eq_iff_iff, decide_eq_true_iff]
  cases s with
  | bid =>
    have hb : b.bids = l :: ls := hl
    have ha : b.asks = m :: ms := hm
    simp [OrderBook.isCrossed, hb, ha, hlp, hmp]
  | ask =>
    have ha : b.asks = l :: ls := hl
    have hb : b.bids = m :: ms := hm
    simp [OrderBook.isCrossed, hb, ha, hlp, hmp]

theorem isCrossed_nil {b : OrderBook} {s : Side} (h : b.levels s = []) : b.isCrossed = false := by
  cases s with
  | bid =>
    have hb : b.bids = [] := h
    simp [OrderBook.isCrossed, hb]
  | ask =>
    have ha : b.asks = [] := h
    cases hb : b.bids <;> simp [OrderBook.isCrossed, ha, hb]

theorem executeTopCross_eq {b : OrderBook} (h : Valid b) (s : Side) {x o : Order}
    (hx : front (b.levels s) = some x) (ho : front (b.levels s.opposite) = some o)
    (hc : b.isCrossed = true) :
    ∃ b', b.executeTopCross = some (topTrade s x o (min x.quantity o.quantity), b') ∧ Valid b' ∧
      ∀ t, b'.levels t = takeFront (min x.quantity o.quantity) (b.levels t) := by
  have hlv : ∀ (qty : Nat) (bid ask : Order) (t : Side),
      ((b.takeFront .bid qty bid).takeFront .ask qty ask).levels t =
        takeFront qty (b.levels t) := by
    intro qty bid ask t
    have h1 := levels_takeFront b .bid qty bid
    have h2 := levels_takeFront (b.takeFront .bid qty bid) .ask qty ask
    cases t with
    | bid => exact h2.2.trans h1.1
    | ask => exact h2.1.trans (congrArg (takeFront qty) h1.2)
  cases s with
  | bid =>
    have hb : front b.bids = some x := hx
    have ha : front b.asks = some o := ho
    have he : b.executeTopCross = some (topTrade .bid x o (min x.quantity o.quantity),
        (b.takeFront .bid (min x.quantity o.quantity) x).takeFront .ask
          (min x.quantity o.quantity) o) := by
      simp only [OrderBook.executeTopCross, hc, if_true, hb, ha]
      rfl
    exact ⟨_, he, executeTopCross_valid h he, hlv _ x o⟩
  | ask =>
    have ha : front b.asks = some x := hx
    have hb : front b.bids = some o := ho
    have he : b.executeTopCross = some (topTrade .ask x o (min x.quantity o.quantity),
        (b.takeFront .bid (min x.quantity o.quantity) o).takeFront .ask
          (min x.quantity o.quantity) x) := by
      simp only [OrderBook.executeTopCross, hc, if_true, hb, ha, Nat.min_comm o.quantity]
      rfl
    exact ⟨_, he, executeTopCross_valid h he, hlv _ o x⟩

theorem topTrade_incoming (s : Side) (x o : Order) (qty : Nat) :
    ((topTrade s x o qty).buyerId = x.id ∨ (topTrade s x o qty).sellerId = x.id) ∧
      (topTrade s x o qty).quantity = qty := by
  cases s <;> simp [topTrade]

theorem crossRound_eq {w : Sweep} (hv : Valid w.book) (s : Side) {x o : Order}
    {own rest : List Order} (hown : sideOrders (w.book.levels s) = x :: own)
    (hopp : sideOrders (w.book.levels s.opposite) = o :: rest) (hq : x.quantity = w.quantity)
    (hc : w.book.isCrossed = true) :
    let w' := crossRound x.id w
    Valid w'.book ∧ w'.quantity = w.quantity - min w.quantity o.quantity ∧
      sideOrders (w'.book.levels s) = remainder (min w.quantity o.quantity) x ++ own ∧
      sideOrders (w'.book.levels s.opposite) = remainder (min w.quantity o.quantity) o ++ rest ∧
      w'.trades = w.trades ++ [topTrade s x o (min w.quantity o.quantity)] := by
  have hx : front (w.book.levels s) = some x := by rw [front_eq_head (hv.side s), hown]; rfl
  have ho : front (w.book.levels s.opposite) = some o := by
    rw [front_eq_head (hv.side s.opposite), hopp]; rfl
  obtain ⟨b', he, hv', hlv⟩ := executeTopCross_eq hv s hx ho hc
  rw [hq] at he hlv
  have hround : crossRound x.id w = ⟨b', w.quantity - min w.quantity o.quantity,
      w.trades ++ [topTrade s x o (min w.quantity o.quantity)]⟩ := by
    have ht := topTrade_incoming s x o (min w.quantity o.quantity)
    simp only [crossRound, he, if_pos ht.1, ht.2]
  obtain ⟨restOwn, heOwn, hOwn⟩ := sideOrders_takeFront (hv.side s) hx (min w.quantity o.quantity)
  obtain ⟨restOpp, heOpp, hOpp⟩ :=
    sideOrders_takeFront (hv.side s.opposite) ho (min w.quantity o.quantity)
  obtain rfl : own = restOwn := by simpa [hown] using heOwn
  obtain rfl : rest = restOpp := by simpa [hopp] using heOpp
  rw [← hlv] at hOwn hOpp
  rw [hround]
  exact ⟨hv', rfl, hOwn, hOpp, rfl⟩

/-- As long as the incoming order heads its own side, the crossing loop is the
reference walk over the other side. The counter is that order's quantity. -/
theorem cross_loop (s : Side) (own : List Order) (n : Nat) (w : Sweep) (x : Order)
    (hv : Valid w.book) (hown : sideOrders (w.book.levels s) = x :: own)
    (hq : x.quantity = w.quantity) (hpos : 0 < w.quantity)
    (hn : (sideOrders (w.book.levels s.opposite)).length ≤ n) :
    let r := walk (fun p => decide (rank s x.priceTicks ≤ rank s p))
      (sideOrders (w.book.levels s.opposite)) w.quantity
    let w' := loop crossing (crossRound x.id) n w
    Valid w'.book ∧ w'.quantity = r.remaining ∧
      sideOrders (w'.book.levels s.opposite) = r.leftover ∧
      sideOrders (w'.book.levels s) =
        (if r.remaining = 0 then own else { x with quantity := r.remaining } :: own) ∧
      w'.trades = w.trades ++ r.fills.map (fun f => topTrade s x f.order f.quantity) := by
  have hx : front (w.book.levels s) = some x := by rw [front_eq_head (hv.side s), hown]; rfl
  have hsame : { x with quantity := w.quantity } = x := by rw [← hq]
  induction n generalizing w x with
  | zero =>
    have hnil := List.length_eq_zero_iff.mp (Nat.le_zero.mp hn)
    simp [loop, hnil, walk, hv, hown, hsame, Nat.pos_iff_ne_zero.mp hpos]
  | succ n ih =>
    cases hopp : sideOrders (w.book.levels s.opposite) with
    | nil =>
      have hc : w.book.isCrossed = false :=
        isCrossed_nil ((sideOrders_ne_nil (hv.side s.opposite)).mp hopp)
      rw [loop_false (by simp [crossing, hc])]
      simp [walk, hopp, hv, hown, hsame, Nat.pos_iff_ne_zero.mp hpos]
    | cons o rest =>
      have ho : front (w.book.levels s.opposite) = some o := by
        rw [front_eq_head (hv.side s.opposite), hopp]; rfl
      have hc := isCrossed_eq hv s hx ho
      by_cases hacc : rank s x.priceTicks ≤ rank s o.priceTicks
      · rw [decide_eq_true hacc] at hc
        rw [loop_true (by simp [crossing, hc, hpos]), walk_cons hpos (decide_eq_true hacc)]
        obtain ⟨hv', hqty, hOwn, hOpp, htrades⟩ := crossRound_eq hv s hown hopp hq hc
        generalize crossRound x.id w = w₁ at *
        by_cases hle : w.quantity ≤ o.quantity
        · -- the incoming order is used up here, and the counter with it
          have hz : w.quantity - min w.quantity o.quantity = 0 := by omega
          have hxr : remainder (min w.quantity o.quantity) x = [] := by
            rw [remainder, if_pos (by omega)]
          rw [hz] at hqty
          rw [loop_false (by simp [crossing, hqty]), hz, walk_zero]
          exact ⟨hv', hqty, hOpp, by rw [hOwn, hxr]; rfl, by simp [htrades]⟩
        · -- the resting order is used up, and the incoming one goes on
          have hmin : min w.quantity o.quantity = o.quantity := by omega
          have hor : remainder (min w.quantity o.quantity) o = [] := by
            rw [remainder, if_pos (by omega)]
          have hxr : remainder (min w.quantity o.quantity) x =
              [{ x with quantity := w.quantity - o.quantity }] := by
            rw [remainder, if_neg (by omega), hq, hmin]
          rw [hor, List.nil_append] at hOpp
          rw [hxr] at hOwn
          rw [hmin] at hqty hor htrades ⊢
          have hi := ih w₁ { x with quantity := w.quantity - o.quantity } hv' hOwn hqty.symm
            (by omega) (by rw [hOpp]; rw [hopp] at hn; simpa using hn)
            (by rw [front_eq_head (hv'.side s), hOwn]; rfl) (by rw [hqty])
          rw [hOpp, hqty] at hi
          obtain ⟨h1, h2, h3, h4, h5⟩ := hi
          refine ⟨h1, h2, by rw [h3, hor]; rfl, h4, ?_⟩
          rw [h5, htrades]
          simp only [List.map_cons, List.append_assoc, List.singleton_append]
          rfl
      · rw [decide_eq_false hacc] at hc
        rw [loop_false (by simp [crossing, hc]), walk_refused (by simpa using not_le.mp hacc)]
        simp [hopp, hv, hown, hsame, Nat.pos_iff_ne_zero.mp hpos]

theorem sideOrders_addOrder {b : OrderBook} (h : Valid b) {o : Order} (hk : o.kind = .limit) :
    sideOrders ((b.addOrder o).levels o.side) = restAtBack o (sideOrders (b.levels o.side)) ∧
      (b.addOrder o).levels o.side.opposite = b.levels o.side.opposite := by
  have hside := h.side o.side
  obtain ⟨pre, post, he, hl, hr, halt⟩ :=
    KeyedList.alter_split hside.sorted (rank o.side o.priceTicks)
  have hprice : ∀ lvl ∈ b.levels o.side, ∀ r ∈ lvl.orders,
      rank o.side r.priceTicks = levelKey o.side lvl :=
    fun lvl hm r hr => by rw [((hside.level lvl hm).member r hr).1, levelKey]
  simp only [OrderBook.addOrder, hk, ne_eq, not_true_eq_false, if_false, levels_setLoc,
    OrderBook.alterLevel, levels_setLevels, levels_setLevels_opposite, and_true, halt]
  -- everything up to the level itself is at least as good, everything after it is worse
  have hgood : ∀ r ∈ sideOrders
      (pre ++ (KeyedList.find (levelKey o.side) (rank o.side o.priceTicks)
        (b.levels o.side)).toList),
      decide (rank o.side r.priceTicks ≤ rank o.side o.priceTicks) = true := by
    intro r hm
    obtain ⟨lvl, hlm, hrm⟩ := List.mem_flatMap.mp hm
    rw [decide_eq_true_iff]
    obtain hlm | hlm := List.mem_append.mp hlm
    · rw [hprice lvl (he ▸ List.mem_append_left _ hlm) r hrm]
      exact (hl lvl hlm).le
    · have hf := Option.mem_toList.mp hlm
      rw [hprice lvl (KeyedList.mem_find hf) r hrm, KeyedList.key_find hf]
  have hbad : ∀ r ∈ sideOrders post, ¬rank o.side r.priceTicks ≤ rank o.side o.priceTicks := by
    intro r hm
    obtain ⟨lvl, hlm, hrm⟩ := List.mem_flatMap.mp hm
    have hmem : lvl ∈ b.levels o.side := by
      rw [he]
      exact List.mem_append_right _ (List.mem_append_right _ hlm)
    rw [hprice lvl hmem r hrm]
    exact not_le.mpr (hr lvl hlm)
  have hsplit : sideOrders (b.levels o.side) = sideOrders (pre ++ (KeyedList.find (levelKey o.side)
      (rank o.side o.priceTicks) (b.levels o.side)).toList) ++ sideOrders post := by
    conv_lhs => rw [he]
    simp
  have htake : (sideOrders post).takeWhile
      (fun r => decide (rank o.side r.priceTicks ≤ rank o.side o.priceTicks)) = [] := by
    cases hp : sideOrders post with
    | nil => rfl
    | cons r os => rw [List.takeWhile_cons_of_neg (by simpa using hbad r (by simp [hp]))]
  have hdrop : (sideOrders post).dropWhile
      (fun r => decide (rank o.side r.priceTicks ≤ rank o.side o.priceTicks)) =
      sideOrders post := by
    cases hp : sideOrders post with
    | nil => rfl
    | cons r os => rw [List.dropWhile_cons_of_neg (by simpa using hbad r (by simp [hp]))]
  rw [restAtBack, hsplit, List.takeWhile_append_of_pos hgood, List.dropWhile_append_of_pos hgood,
    htake, hdrop]
  simp [sideOrders_toList, levelOrders_pushBack]

theorem rank_opposite (s : Side) (p q : Int) :
    rank s.opposite p ≤ rank s.opposite q ↔ rank s q ≤ rank s p := by
  cases s <;> simp [Side.opposite]

theorem sideOrders_sorted {s : Side} {ls : List PriceLevel} (h : SideValid s ls) :
    (sideOrders ls).Pairwise (fun a b => rank s a.priceTicks ≤ rank s b.priceTicks) := by
  refine List.pairwise_flatMap.mpr ⟨fun lvl hl => ?_, h.sorted.imp_of_mem fun {l m} hl hm hlt => ?_⟩
  · refine List.pairwise_of_forall_mem_list fun a ha b hb => ?_
    rw [((h.level lvl hl).member a ha).1, ((h.level lvl hl).member b hb).1]
  · intro a ha b hb
    rw [((h.level l hl).member a ha).1, ((h.level m hm).member b hb).1]
    exact le_of_lt hlt

theorem front_best {s : Side} {ls : List PriceLevel} (h : SideValid s ls) {x r : Order}
    (hx : front ls = some x) (hr : r ∈ sideOrders ls) :
    rank s x.priceTicks ≤ rank s r.priceTicks := by
  obtain ⟨rest, he, -⟩ := sideOrders_takeFront h hx 0
  have hs := sideOrders_sorted h
  rw [he] at hs hr
  obtain rfl | hr := List.mem_cons.mp hr
  · exact le_refl _
  · exact (List.pairwise_cons.mp hs).1 r hr

/-- Looking at the two best prices decides about all of them. -/
theorem uncrossed_iff {b : OrderBook} (h : Valid b) (s : Side) :
    b.isCrossed = false ↔ ∀ x ∈ sideOrders (b.levels s), ∀ o ∈ sideOrders (b.levels s.opposite),
      rank s o.priceTicks < rank s x.priceTicks := by
  constructor
  · intro hc x hx o ho
    obtain ⟨x', hx'⟩ := front_isSome (h.side s) (fun hn => by simp [hn] at hx)
    obtain ⟨o', ho'⟩ := front_isSome (h.side s.opposite) (fun hn => by simp [hn] at ho)
    rw [isCrossed_eq h s hx' ho', decide_eq_false_iff_not, not_le] at hc
    have h1 := front_best (h.side s) hx' hx
    have h2 := (rank_opposite s _ _).mp (front_best (h.side s.opposite) ho' ho)
    omega
  · intro hall
    cases hx : front (b.levels s) with
    | none =>
      rw [front_eq_head (h.side s), List.head?_eq_none_iff] at hx
      exact isCrossed_nil ((sideOrders_ne_nil (h.side s)).mp hx)
    | some x =>
      cases ho : front (b.levels s.opposite) with
      | none =>
        rw [front_eq_head (h.side s.opposite), List.head?_eq_none_iff] at ho
        exact isCrossed_nil ((sideOrders_ne_nil (h.side s.opposite)).mp ho)
      | some o =>
        rw [isCrossed_eq h s hx ho, decide_eq_false_iff_not, not_le]
        rw [front_eq_head (h.side s)] at hx
        rw [front_eq_head (h.side s.opposite)] at ho
        exact hall x (List.mem_of_mem_head? hx) o (List.mem_of_mem_head? ho)

theorem restAtBack_perm (o : Order) (os : List Order) : (restAtBack o os).Perm (o :: os) := by
  have hmiddle : (restAtBack o os).Perm
      (o :: (os.takeWhile (fun r => rank o.side r.priceTicks ≤ rank o.side o.priceTicks) ++
        os.dropWhile (fun r => rank o.side r.priceTicks ≤ rank o.side o.priceTicks))) :=
    List.perm_middle
  rwa [List.takeWhile_append_dropWhile] at hmiddle

theorem mem_restAtBack {order o : Order} {os : List Order} :
    o ∈ restAtBack order os ↔ o = order ∨ o ∈ os := by
  rw [(restAtBack_perm order os).mem_iff, List.mem_cons]

theorem restAtBack_best {order : Order} {os : List Order}
    (h : ∀ o ∈ os, rank order.side order.priceTicks < rank order.side o.priceTicks) :
    restAtBack order os = order :: os := by
  cases os with
  | nil => rfl
  | cons o os =>
    have ho := not_le.mpr (h o (by simp))
    simp [restAtBack, ho]

theorem acceptable_limit {order : Order} (hk : order.kind = .limit) :
    acceptable order = fun p => decide (rank order.side order.priceTicks ≤ rank order.side p) := by
  funext p
  rw [Bool.eq_iff_iff, decide_eq_true_iff]
  cases hs : order.side <;> simp [acceptable, hk, hs]

/-- Resting a limit order and then crossing from the top of the book is the
reference walk, followed by the remainder joining its own side. -/
theorem crossLoop_spec {b : OrderBook} (hv : Valid b) (hu : b.isCrossed = false) {order : Order}
    (hk : order.kind = .limit) (hfresh : ∀ r ∈ b.allOrders, r.id ≠ order.id)
    (hpos : 0 < order.quantity) (trades : List Trade) :
    let r := walk (acceptable order) (sideOrders (b.levels order.side.opposite)) order.quantity
    let w := crossLoop order.id ⟨b.addOrder order, order.quantity, trades⟩
    Valid w.book ∧ w.quantity = r.remaining ∧
      sideOrders (w.book.levels order.side.opposite) = r.leftover ∧
      sideOrders (w.book.levels order.side) =
        (if r.remaining = 0 then sideOrders (b.levels order.side)
          else restAtBack { order with quantity := r.remaining }
            (sideOrders (b.levels order.side))) ∧
      w.trades = trades ++ r.fills.map (fun f => topTrade order.side order f.order f.quantity) := by
  have hva := addOrder_valid hv order hfresh
  obtain ⟨hown, hopp⟩ := sideOrders_addOrder hv hk
  have hun := (uncrossed_iff hv order.side).mp hu
  rw [acceptable_limit hk]
  by_cases hx : ∃ o ∈ sideOrders (b.levels order.side.opposite),
      rank order.side order.priceTicks ≤ rank order.side o.priceTicks
  · obtain ⟨o, ho, hacc⟩ := hx
    have hbest : ∀ x ∈ sideOrders (b.levels order.side),
        rank order.side order.priceTicks < rank order.side x.priceTicks :=
      fun x hm => lt_of_le_of_lt hacc (hun x hm o ho)
    rw [restAtBack_best hbest] at hown
    have hl := cross_loop order.side (sideOrders (b.levels order.side))
      (orderCount (b.addOrder order).bids + orderCount (b.addOrder order).asks)
      ⟨b.addOrder order, order.quantity, trades⟩ order hva hown rfl hpos (by
        rw [← orderCount_eq]
        cases hs : order.side <;> simp [OrderBook.levels, Side.opposite])
    rw [hopp] at hl
    obtain ⟨h1, h2, h3, h4, h5⟩ := hl
    refine ⟨h1, h2, h3, ?_, h5⟩
    rw [crossLoop, h4]
    congr 1
    refine (restAtBack_best ?_).symm
    exact hbest
  · have hno : ∀ o ∈ sideOrders (b.levels order.side.opposite),
        rank order.side o.priceTicks < rank order.side order.priceTicks := by
      intro o ho
      by_contra hc
      exact hx ⟨o, ho, not_lt.mp hc⟩
    have hnc : (b.addOrder order).isCrossed = false := by
      refine (uncrossed_iff hva order.side).mpr fun x hm o ho => ?_
      rw [hopp] at ho
      rw [hown] at hm
      obtain rfl | hm := mem_restAtBack.mp hm
      · exact hno o ho
      · exact hun x hm o ho
    have hw : walk (fun p => decide (rank order.side order.priceTicks ≤ rank order.side p))
        (sideOrders (b.levels order.side.opposite)) order.quantity =
        ⟨[], order.quantity, sideOrders (b.levels order.side.opposite)⟩ :=
      walk_refused (fun o ho => decide_eq_false (not_le.mpr (hno o (List.mem_of_mem_head? ho)))) _
    rw [hw, crossLoop, loop_false (by simp [crossing, hnc])]
    refine ⟨hva, rfl, by rw [hopp], ?_, by simp⟩
    rw [if_neg (Nat.pos_iff_ne_zero.mp hpos), hown]

end OrderMatching.Crossing
