import OrderMatching.Exchange
import OrderMatching.Priority

namespace OrderMatching.Queues

open OrderMatching.Orders OrderMatching.Book OrderMatching.BookInvariant OrderMatching.BookUpdates
open OrderMatching.Engine OrderMatching.Walk OrderMatching.Crossing OrderMatching.Priority
open OrderMatching.Exchange

/-- A side of the book as the priority queue it stands for. -/
def queue (b : OrderBook) (s : Side) : List Order := sideOrders (b.levels s)

theorem mem_queue {b : OrderBook} {o : Order} : o ∈ b.allOrders ↔ ∃ s, o ∈ queue b s :=
  mem_allOrders

theorem mem_queues {b : OrderBook} (s : Side) {o : Order} :
    o ∈ b.allOrders ↔ o ∈ queue b s ∨ o ∈ queue b s.opposite := by
  rw [(allOrders_perm b s).mem_iff, List.mem_append]
  rfl

theorem queue_side {b : OrderBook} (h : Valid b) {s : Side} {o : Order} (ho : o ∈ queue b s) :
    o.side = s :=
  ((h.side s).mem ho).1

theorem queue_nodup {b : OrderBook} (h : Valid b) (s : Side) :
    ((queue b s ++ queue b s.opposite).map Order.id).Nodup :=
  ((allOrders_perm b s).map Order.id).nodup_iff.mp h.nodup

theorem bestTicks_queue {b : OrderBook} (h : Valid b) (t : Side) :
    bestTicks b t = (queue b t).head?.map Order.priceTicks := by
  rw [bestTicks, queue, ← front_eq_head (h.side t)]
  cases hl : b.levels t with
  | nil => rfl
  | cons lvl ls =>
    obtain ⟨o, ho⟩ := front_isSome (h.side t) (by simp [hl])
    obtain ⟨lvl', ls', hl', hp⟩ := front_price (h.side t) ho
    rw [hl] at ho hl'
    obtain ⟨rfl, -⟩ := List.cons.inj hl'
    rw [ho]
    simp [hp]

theorem levels_ext {s : Side} {ls ms : List PriceLevel} (hl : SideValid s ls) (hm : SideValid s ms)
    (h : sideOrders ls = sideOrders ms) : ls = ms := by
  induction ls generalizing ms with
  | nil => exact ((sideOrders_ne_nil hm).mp h.symm).symm
  | cons l ls ih =>
    obtain _ | ⟨m, ms⟩ := ms
    · exact (sideOrders_ne_nil hl).mp h
    · have hrest : ∀ {l : PriceLevel} {ls : List PriceLevel}, SideValid s (l :: ls) →
          SideValid s ls ∧
            (l.orders ++ sideOrders ls).filter (fun o => o.priceTicks = l.priceTicks) =
              l.orders := by
        intro l ls hv
        have hsort := List.pairwise_cons.mp hv.sorted
        refine ⟨⟨hsort.2, fun lvl hlvl => hv.level lvl (by simp [hlvl])⟩, ?_⟩
        rw [List.filter_append, List.filter_eq_self.mpr, List.filter_eq_nil_iff.mpr,
          List.append_nil]
        · intro o ho
          obtain ⟨lvl, hlvl, ho⟩ := List.mem_flatMap.mp ho
          have hp := ((hv.level lvl (by simp [hlvl])).member o ho).1
          have hlt := hsort.1 lvl hlvl
          have hne : lvl.priceTicks ≠ l.priceTicks := fun he => by simp [levelKey, he] at hlt
          simpa [hp] using hne
        · intro o ho
          simpa using ((hv.level l (by simp)).member o ho).1
      obtain ⟨hls, hlf⟩ := hrest hl
      obtain ⟨hms, hmf⟩ := hrest hm
      rw [sideOrders_cons, sideOrders_cons] at h
      have hvl := hl.level l (by simp)
      have hvm := hm.level m (by simp)
      have hprice : l.priceTicks = m.priceTicks := by
        obtain ⟨o, os, ho⟩ := List.exists_cons_of_ne_nil hvl.nonempty
        obtain ⟨r, rs, hr⟩ := List.exists_cons_of_ne_nil hvm.nonempty
        rw [ho, hr, List.cons_append, List.cons_append] at h
        rw [← (hvl.member o (by simp [ho])).1, ← (hvm.member r (by simp [hr])).1,
          (List.cons.inj h).1]
      have horders : l.orders = m.orders := by rw [← hlf, ← hmf, h, hprice]
      rw [horders] at h
      have htotal : l.totalQty = m.totalQty := by rw [hvl.total, hvm.total, horders]
      have hlm : l = m := by
        cases l
        cases m
        cases hprice
        cases htotal
        cases horders
        rfl
      rw [hlm, ih hls hms (List.append_cancel_left h)]

/-- The two queues are all there is to a valid book. -/
theorem book_ext {b b' : OrderBook} (h : Valid b) (h' : Valid b')
    (hq : ∀ s, queue b s = queue b' s) : b = b' := by
  have hlevels : ∀ s, b.levels s = b'.levels s := fun s => levels_ext (h.side s) (h'.side s) (hq s)
  have hbids : b.bids = b'.bids := hlevels .bid
  have hasks : b.asks = b'.asks := hlevels .ask
  have hall : b.allOrders = b'.allOrders := by simp only [OrderBook.allOrders, hbids, hasks]
  have hloc : b.orderLoc = b'.orderLoc := by
    funext id
    by_cases hid : ∃ o ∈ b.allOrders, o.id = id
    · obtain ⟨o, ho, rfl⟩ := hid
      rw [h.locSome o ho, h'.locSome o (hall ▸ ho)]
    · have hno : ∀ o ∈ b.allOrders, o.id ≠ id := fun o ho he => hid ⟨o, ho, he⟩
      rw [h.locNone id hno, h'.locNone id (hall ▸ hno)]
  cases b
  cases b'
  simp_all

theorem filter_id_split {pre post : List Order} {o : Order}
    (h : ((pre ++ o :: post).map Order.id).Nodup) :
    (pre ++ o :: post).filter (fun r => r.id ≠ o.id) = pre ++ post := by
  simp only [List.map_append, List.map_cons, List.nodup_append, List.nodup_cons, List.mem_map] at h
  obtain ⟨-, ⟨hpost, -⟩, hpre⟩ := h
  rw [List.filter_append, List.filter_cons_of_neg (by simp), List.filter_eq_self.mpr,
    List.filter_eq_self.mpr]
  · intro r hr
    simpa using fun he : r.id = o.id => hpost ⟨r, hr, he⟩
  · intro r hr
    simpa using hpre r.id ⟨r, hr, rfl⟩ o.id (by simp)

theorem cancelOrder_spec {b : OrderBook} (h : Valid b) (id : Nat) :
    ((b.cancelOrder id).1 = true ↔ ∃ o ∈ b.allOrders, o.id = id) ∧
      ∀ s, queue (b.cancelOrder id).2 s = (queue b s).filter (fun o => o.id ≠ id) := by
  by_cases hid : ∃ o ∈ b.allOrders, o.id = id
  · obtain ⟨o, ho, rfl⟩ := hid
    obtain ⟨lvl, hloc⟩ := locate_of_mem h ho
    obtain ⟨hl, hf⟩ := locate_eq_some hloc
    obtain ⟨p, q, he, -, hd, -⟩ := find_id_split hf
    obtain ⟨pre, post, hside, halt⟩ := sideOrders_alter (h.side o.side) o.priceTicks
    have hlvl : KeyedList.find (levelKey o.side) (rank o.side o.priceTicks) (b.levels o.side) =
        some lvl := hl
    have hnodup := queue_nodup h o.side
    have hq : queue b o.side = (pre ++ p) ++ o :: (q ++ post) := by
      rw [queue, hside, hlvl]
      simp [levelOrders, he]
    simp only [OrderBook.cancelOrder, hloc]
    refine ⟨⟨fun _ => ⟨o, ho, rfl⟩, fun _ => trivial⟩, fun s => ?_⟩
    by_cases hs : s = o.side
    · subst hs
      rw [hq] at hnodup ⊢
      rw [List.map_append] at hnodup
      rw [filter_id_split (List.Nodup.of_append_left hnodup)]
      simp only [queue, levels_setLoc, OrderBook.alterLevel, levels_setLevels, halt,
        levelOrders_dropEmpty]
      simp [PriceLevel.removeOrder, hd]
    · obtain rfl := eq_opposite_of_ne (Ne.symm hs)
      have hkeep : (queue b o.side.opposite).filter (fun r => r.id ≠ o.id) =
          queue b o.side.opposite := by
        rw [List.filter_eq_self]
        intro r hr
        rw [List.map_append, List.nodup_append] at hnodup
        have hmem : o.id ∈ (queue b o.side).map Order.id := by simp [hq]
        simpa using (hnodup.2.2 o.id hmem r.id (List.mem_map_of_mem hr)).symm
      rw [hkeep]
      simp [queue, OrderBook.alterLevel]
  · have hno : ∀ o ∈ b.allOrders, o.id ≠ id := fun o ho he => hid ⟨o, ho, he⟩
    have hloc := locate_eq_none h hno
    simp only [OrderBook.cancelOrder, hloc]
    refine ⟨by simpa using fun o ho => hno o ho, fun s => ?_⟩
    rw [List.filter_eq_self.mpr]
    intro o ho
    simpa using hno o (mem_queue.mpr ⟨s, ho⟩)

theorem mem_cancelOrder {b : OrderBook} (h : Valid b) {id : Nat} {o : Order} :
    o ∈ (b.cancelOrder id).2.allOrders ↔ o ∈ b.allOrders ∧ o.id ≠ id := by
  simp only [mem_queue, (cancelOrder_spec h id).2, List.mem_filter, decide_eq_true_eq]
  exact exists_and_right

theorem walk_leftover {accept : Int → Bool} {os : List Order} {q : Nat} {o : Order}
    (h : o ∈ (walk accept os q).leftover) :
    ∃ r ∈ os, ∃ k, o = { r with quantity := k } ∧ (0 < r.quantity → 0 < k) := by
  induction os generalizing q with
  | nil => simp [walk] at h
  | cons r os ih =>
    by_cases hq : q > 0 ∧ accept r.priceTicks = true
    · rw [walk_cons hq.1 hq.2, List.mem_append] at h
      obtain h | h := h
      · obtain ⟨hr, -⟩ | ⟨hr, hlt⟩ := remainder_cases q r
        · simp [hr] at h
        · rw [hr, List.mem_singleton] at h
          exact ⟨r, by simp, _, h, fun _ => by omega⟩
      · obtain ⟨r', hr', k, hk⟩ := ih h
        exact ⟨r', by simp [hr'], k, hk⟩
    · simp only [walk, hq, if_false] at h
      exact ⟨o, h, o.quantity, rfl, id⟩

theorem walk_refuses {accept : Int → Bool} {os : List Order} {q : Nat}
    (hsort : os.Pairwise fun a b => accept b.priceTicks = true → accept a.priceTicks = true)
    (hrem : (walk accept os q).remaining ≠ 0) :
    ∀ o ∈ (walk accept os q).leftover, accept o.priceTicks = false := by
  induction os generalizing q with
  | nil => simp [walk]
  | cons r os ih =>
    obtain ⟨hhead, htail⟩ := List.pairwise_cons.mp hsort
    by_cases hq : q > 0 ∧ accept r.priceTicks = true
    · rw [walk_cons hq.1 hq.2] at hrem ⊢
      obtain ⟨hr, -⟩ | ⟨-, hlt⟩ := remainder_cases q r
      · simpa [hr] using ih htail hrem
      · rw [Nat.min_eq_left hlt.le, Nat.sub_self, walk_zero] at hrem
        exact absurd rfl hrem
    · have hq' : 0 < q := by
        simp only [walk, hq, if_false] at hrem
        omega
      have hr : accept r.priceTicks = false := by simpa [hq'] using hq
      simp only [walk, hq, if_false, List.mem_cons]
      intro o ho
      obtain rfl | ho := ho
      · exact hr
      · cases ha : accept o.priceTicks with
        | false => rfl
        | true => exact absurd (hhead o ho ha) (by simp [hr])

structure Settled (b : OrderBook) : Prop where
  valid : Valid b
  uncrossed : b.isCrossed = false
  positive : ∀ o ∈ b.allOrders, 0 < o.quantity

theorem settled_empty : Settled OrderBook.empty :=
  ⟨valid_empty, rfl, by simp [OrderBook.allOrders, OrderBook.empty, sideOrders]⟩

theorem settled_cancelOrder {b : OrderBook} (h : Settled b) (id : Nat) :
    Settled (b.cancelOrder id).2 := by
  have hv := cancelOrder_valid h.valid id
  have hq := (cancelOrder_spec h.valid id).2
  have hmem : ∀ s, ∀ o ∈ queue (b.cancelOrder id).2 s, o ∈ queue b s := by
    intro s o ho
    rw [hq s] at ho
    exact List.mem_of_mem_filter ho
  refine ⟨hv, (uncrossed_iff hv .bid).mpr fun x hx o ho => ?_, fun o ho => ?_⟩
  · exact (uncrossed_iff h.valid .bid).mp h.uncrossed x (hmem _ x hx) o (hmem _ o ho)
  · exact h.positive o ((mem_cancelOrder h.valid).mp ho).1

theorem acceptable_sorted {order : Order} (hk : order.kind ≠ .cancel) {ls : List PriceLevel}
    (h : SideValid order.side.opposite ls) : (sideOrders ls).Pairwise fun a b =>
      acceptable order b.priceTicks = true → acceptable order a.priceTicks = true := by
  refine (sideOrders_sorted h).imp fun {a b} hab hb => ?_
  rw [rank_opposite] at hab
  cases hkind : order.kind with
  | cancel => exact absurd hkind hk
  | market => simp [acceptable, hkind]
  | limit =>
    rw [acceptable_limit hkind] at hb ⊢
    simp only [decide_eq_true_eq] at hb ⊢
    omega

theorem settled_processOrder {e : MatchingEngine} (h : Settled e.book) {order : Order}
    (hk : order.kind ≠ .cancel) (hfresh : ∀ r ∈ e.book.allOrders, r.id ≠ order.id)
    (hpos : 0 < order.quantity) :
    Settled (e.processOrder order).2.book := by
  obtain ⟨-, hv, hopp, hown, -⟩ := processOrder_spec h.valid h.uncrossed hk hfresh hpos
  have hold := (uncrossed_iff h.valid order.side).mp h.uncrossed
  refine ⟨hv, (uncrossed_iff hv order.side).mpr fun x hx o ho => ?_, fun o ho => ?_⟩
  · rw [hopp] at ho
    rw [hown] at hx
    obtain ⟨r, hr, k, rfl, -⟩ := walk_leftover ho
    split at hx
    · exact hold x hx r hr
    · rename_i hrest
      rw [not_or] at hrest
      obtain rfl | hx := mem_restAtBack.mp hx
      · have hlimit : order.kind = .limit := by cases hkind : order.kind <;> simp_all
        have href := walk_refuses (acceptable_sorted hk (h.valid.side _)) hrest.2 _ ho
        rw [acceptable_limit hlimit] at href
        simpa using href
      · exact hold x hx r hr
  · obtain ⟨s, hs⟩ := mem_queue.mp ho
    by_cases hside : s = order.side
    · rw [hside, queue, hown] at hs
      split at hs
      · exact h.positive o (mem_queue.mpr ⟨_, hs⟩)
      · rename_i hrest
        rw [not_or] at hrest
        obtain rfl | hs := mem_restAtBack.mp hs
        · exact Nat.pos_of_ne_zero hrest.2
        · exact h.positive o (mem_queue.mpr ⟨_, hs⟩)
    · rw [eq_opposite_of_ne (Ne.symm hside), queue, hopp] at hs
      obtain ⟨r, hr, k, rfl, hk⟩ := walk_leftover hs
      exact hk (h.positive r (mem_queue.mpr ⟨_, hr⟩))

theorem rests_processOrder {e : MatchingEngine} (h : Settled e.book) {order : Order}
    (hk : order.kind ≠ .cancel) (hfresh : ∀ r ∈ e.book.allOrders, r.id ≠ order.id)
    (hpos : 0 < order.quantity) {o : Order} (ho : o ∈ (e.processOrder order).2.book.allOrders) :
    o.id = order.id ∨ ∃ r ∈ e.book.allOrders, o.id = r.id := by
  obtain ⟨-, -, hopp, hown, -⟩ := processOrder_spec h.valid h.uncrossed hk hfresh hpos
  obtain hs | hs := (mem_queues order.side).mp ho
  · rw [queue, hown] at hs
    split at hs
    · exact Or.inr ⟨o, mem_queue.mpr ⟨_, hs⟩, rfl⟩
    · obtain rfl | hs := mem_restAtBack.mp hs
      · exact Or.inl rfl
      · exact Or.inr ⟨o, mem_queue.mpr ⟨_, hs⟩, rfl⟩
  · rw [queue, hopp] at hs
    obtain ⟨r, hr, k, rfl, -⟩ := walk_leftover hs
    exact Or.inr ⟨r, mem_queue.mpr ⟨_, hr⟩, rfl⟩

end OrderMatching.Queues
