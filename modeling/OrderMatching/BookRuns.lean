import OrderMatching.BookUpdates

namespace OrderMatching.BookRuns

open OrderMatching.Orders OrderMatching.Book OrderMatching.BookInvariant OrderMatching.BookUpdates
open OrderMatching.Loop

theorem executeTopCross_eq_some {b b' : OrderBook} {t : Trade}
    (h : b.executeTopCross = some (t, b')) :
    ∃ bid ask, front b.bids = some bid ∧ front b.asks = some ask ∧
      t = ⟨bid.id, ask.id, ask.priceTicks, min bid.quantity ask.quantity,
        max bid.timestamp ask.timestamp⟩ ∧
      b' = (b.takeFront .bid (min bid.quantity ask.quantity) bid).takeFront .ask
        (min bid.quantity ask.quantity) ask := by
  unfold OrderBook.executeTopCross at h
  split at h
  · cases hb : front b.bids with
    | none => simp [hb] at h
    | some bid =>
      cases ha : front b.asks with
      | none => simp [hb, ha] at h
      | some ask =>
        simp only [hb, ha, Option.some.injEq, Prod.mk.injEq] at h
        exact ⟨bid, ask, rfl, rfl, h.1.symm, h.2.symm⟩
  · cases h

theorem executeTopCross_valid {b b' : OrderBook} {t : Trade} (h : Valid b)
    (hx : b.executeTopCross = some (t, b')) : Valid b' := by
  obtain ⟨bid, ask, hb, ha, -, rfl⟩ := executeTopCross_eq_some hx
  have hb' : front (b.levels .bid) = some bid := hb
  have hv := takeFront_valid h hb' (Nat.min_le_left bid.quantity ask.quantity)
  refine takeFront_valid hv ?_ (Nat.min_le_right _ _)
  exact (congrArg front (levels_takeFront b .bid _ bid).2).trans ha

theorem round_valid {s : Side} {w : Sweep} (h : Valid w.book) (id timestamp : Nat) :
    Valid (w.round id s timestamp).book := by
  unfold Sweep.round
  split
  · exact h
  · rename_i o ho
    exact takeFront_valid h ho (Nat.min_le_right _ _)

theorem matchMarket_valid {b : OrderBook} (h : Valid b) (id : Nat) (s : Side)
    (quantity timestamp : Nat) (trades : List Trade) :
    Valid (b.matchMarket id s quantity timestamp trades).book := by
  have hround : ∀ w : Sweep, Valid w.book → w.active s = true →
      Valid (w.round id s timestamp).book :=
    fun _ hw _ => round_valid hw id timestamp
  exact loop_invariant hround _ ⟨b, quantity, trades⟩ h

/-- Reducing a level that holds enough drops a prefix of its orders and cuts
into at most one more. -/
theorem reduceLoop_spec (price : Int) (os : List Order) (n : Nat) (hn : n ≤ quantities os) :
    ∃ dropped kept, os = dropped ++ kept ∧
      (reduceLoop price os (quantities os) n).ok = true ∧
      (reduceLoop price os (quantities os) n).gone = dropped.map Order.id ∧
      (reduceLoop price os (quantities os) n).level.priceTicks = price ∧
      (reduceLoop price os (quantities os) n).level.totalQty =
        quantities (reduceLoop price os (quantities os) n).level.orders ∧
      quantities (reduceLoop price os (quantities os) n).level.orders + n = quantities os ∧
      ((reduceLoop price os (quantities os) n).level.orders = kept ∨
        ∃ o rest q, kept = o :: rest ∧
          (reduceLoop price os (quantities os) n).level.orders =
            { o with quantity := q } :: rest) := by
  induction os generalizing n with
  | nil =>
    have hz : n = 0 := by simpa using hn
    subst hz
    exact ⟨[], [], rfl, rfl, rfl, rfl, rfl, rfl, Or.inl rfl⟩
  | cons o os ih =>
    cases n with
    | zero => exact ⟨[], o :: os, rfl, by simp [reduceLoop]⟩
    | succ m =>
      simp only [quantities_cons] at hn ⊢
      by_cases hq : o.quantity - min (m + 1) o.quantity = 0
      · have hle : o.quantity ≤ m + 1 := by omega
        obtain ⟨dropped, kept, he, hok, hgone, hp, ht, hsum, hos⟩ :=
          ih (m + 1 - o.quantity) (by omega)
        refine ⟨o :: dropped, kept, by simp [he], ?_⟩
        have hr : o.quantity + quantities os - o.quantity = quantities os := by omega
        simp only [reduceLoop, Nat.min_eq_right hle, Nat.sub_self, if_true, hr]
        refine ⟨hok, by simp [hgone], hp, ht, by omega, hos⟩
      · have hlt : m + 1 < o.quantity := by omega
        refine ⟨[], o :: os, rfl, ?_⟩
        simp only [reduceLoop, Nat.min_eq_left hlt.le,
          if_neg (show ¬o.quantity - (m + 1) = 0 by omega)]
        refine ⟨trivial, by simp, trivial, by simp; omega, by simp; omega,
          Or.inr ⟨o, os, _, rfl, rfl⟩⟩

theorem eraseLocs_levels (ids : List Nat) (b : OrderBook) (s : Side) :
    (b.eraseLocs ids).levels s = b.levels s := by
  induction ids generalizing b with
  | nil => rfl
  | cons id ids ih => exact (ih (b.setLoc id none)).trans (levels_setLoc b id none s)

theorem eraseLocs_orderLoc (ids : List Nat) (b : OrderBook) (id : Nat) :
    (b.eraseLocs ids).orderLoc id = if id ∈ ids then none else b.orderLoc id := by
  induction ids generalizing b with
  | nil => rfl
  | cons k ids ih =>
    have h := ih (b.setLoc k none)
    simp only [OrderBook.eraseLocs, List.foldl_cons] at h ⊢
    rw [h]
    by_cases hk : id = k <;> simp [hk]

theorem eraseLocs_allOrders (ids : List Nat) (b : OrderBook) :
    (b.eraseLocs ids).allOrders = b.allOrders := by
  have hb := eraseLocs_levels ids b .bid
  have ha := eraseLocs_levels ids b .ask
  simp only [OrderBook.levels] at hb ha
  simp [OrderBook.allOrders, hb, ha]

theorem reduceLevel_valid {b : OrderBook} (h : Valid b) (s : Side) (price : Int) (size : Nat)
    (allow : Bool) : Valid (b.reduceLevelAfterLobsterExecution s price size allow).2 := by
  unfold OrderBook.reduceLevelAfterLobsterExecution
  split
  · exact h
  · cases hl : b.levelAt s price with
    | none => exact h
    | some lvl =>
      dsimp only
      split
      · exact h
      · rename_i hsize
        obtain ⟨hp, hv⟩ := levelAt_valid h hl
        obtain ⟨dropped, kept, he, hok, hgone, hprice, htotal, -, hos⟩ :=
          reduceLoop_spec lvl.priceTicks lvl.orders size (by omega)
        rw [← hv.total] at hok hgone hprice htotal hos
        generalize reduceLoop lvl.priceTicks lvl.orders lvl.totalQty size = r at *
        obtain ⟨rest, hold, hnew⟩ := alterLevel_split h hl
        have hplace : r.level.orders.map place = kept.map place := by
          obtain hos | ⟨o, os, q, hk, hos⟩ := hos
          · rw [hos]
          · simp [hk, hos, place]
        have hids : r.level.orders.map Order.id = kept.map Order.id := by
          simpa [Function.comp_def, place] using congrArg (List.map Prod.fst) hplace
        have hmem : ∀ o ∈ r.level.orders, ∃ x ∈ lvl.orders, o.priceTicks = x.priceTicks ∧
            o.side = x.side ∧ o.kind = x.kind := by
          intro o ho
          obtain hos | ⟨x, os, q, hk, hos⟩ := hos
          · exact ⟨o, by simp [he, ← hos, ho], rfl, rfl, rfl⟩
          · rw [hos] at ho
            obtain rfl | ho := List.mem_cons.mp ho
            · exact ⟨x, by simp [he, hk], rfl, rfl, rfl⟩
            · exact ⟨o, by simp [he, hk, ho], rfl, rfl, rfl⟩
        have hdrop : ∀ id ∈ kept.map Order.id, id ∉ dropped.map Order.id := by
          intro id hk hd
          have hnodup := (hold.map Order.id).nodup_iff.mp h.nodup
          rw [he, List.append_assoc, List.map_append, List.map_append, List.nodup_append] at hnodup
          exact hnodup.2.2 id hd id (List.mem_append_left _ hk) rfl
        rw [if_pos hok]
        refine h.of_sublist lvl.orders r.level.orders rest hold ?_ ?_ ?_ ?_ ?_
        · simpa [eraseLocs_allOrders] using hnew (dropEmpty r.level)
        · intro t
          rw [eraseLocs_levels]
          refine alterLevel_side h (dropEmpty_valid r.level (hprice.trans hp) fun hne => ?_) t
          have hl' := levelValid_replace hv hne htotal hmem
          rwa [← hprice] at hl'
        · simp [hplace, he]
        · intro id hid
          have hno : id ∉ dropped.map Order.id := by
            obtain hid | hid := hid
            · exact fun hd => hid (by simp [he, hd])
            · exact hdrop id (hids ▸ hid)
          simp [eraseLocs_orderLoc, hgone, hno]
        · intro id hid hno
          have hd : id ∈ dropped.map Order.id := by
            rw [he, List.map_append, List.mem_append] at hid
            exact hid.resolve_right (hids ▸ hno)
          simp [eraseLocs_orderLoc, hgone, hd]

theorem replaceRemainingQuantity_valid {b : OrderBook} (h : Valid b) (id n : Nat) :
    Valid (b.replaceRemainingQuantity id n).2 := by
  unfold OrderBook.replaceRemainingQuantity
  split
  · exact cancelOrder_valid h id
  · cases hloc : b.locate id with
    | none => exact h
    | some found =>
      obtain ⟨s, price, lvl, o⟩ := found
      obtain ⟨hl, hf⟩ := locate_eq_some hloc
      obtain ⟨pre, post, he, hid, -, hset⟩ := find_id_split hf
      obtain ⟨hp, hv⟩ := levelAt_valid h hl
      obtain ⟨rest, hold, hnew⟩ := alterLevel_split h hl
      have hmem : o ∈ lvl.orders := by simp [he]
      have hplace : (setQuantity id n lvl.orders).map place = lvl.orders.map place := by
        rw [hset n, he]
        simp [place]
      have hids : (setQuantity id n lvl.orders).map Order.id = lvl.orders.map Order.id := by
        simpa [Function.comp_def, place] using congrArg (List.map Prod.fst) hplace
      dsimp only
      refine h.of_sublist lvl.orders (setQuantity id n lvl.orders) rest hold ?_ ?_ ?_ ?_ ?_
      · simpa [levelOrders] using hnew (some _)
      · refine fun t => alterLevel_side h ?_ t
        simp only [Option.mem_some, forall_eq']
        refine ⟨hp, levelValid_replace hv (by simp [hset n]) ?_ fun r hr => ?_⟩
        · rw [hset n, hv.total, he]
          simp only [quantities_append, quantities_cons]
          omega
        · rw [hset n] at hr
          obtain hr | hr := List.mem_append.mp hr
          · exact ⟨r, by simp [he, hr], rfl, rfl, rfl⟩
          · obtain rfl | hr := List.mem_cons.mp hr
            · exact ⟨o, hmem, rfl, rfl, rfl⟩
            · exact ⟨r, by simp [he, hr], rfl, rfl, rfl⟩
      · rw [hplace]
      · simp
      · intro k hk hno
        exact absurd (hids ▸ hk) hno

inductive Op where
  | addOrder (o : Order)
  | cancelOrder (id : Nat)
  | executeTopCross
  | matchMarket (id : Nat) (s : Side) (quantity timestamp : Nat)
  | replaceRemainingQuantity (id newRemaining : Nat)
  | reduceLevel (passive : Side) (price : Int) (tradedSize : Nat) (allowMissingLevel : Bool)

def Op.apply (b : OrderBook) : Op → OrderBook
  | .addOrder o => b.addOrder o
  | .cancelOrder id => (b.cancelOrder id).2
  | .executeTopCross => (b.executeTopCross.map Prod.snd).getD b
  | .matchMarket id s quantity timestamp => (b.matchMarket id s quantity timestamp []).book
  | .replaceRemainingQuantity id n => (b.replaceRemainingQuantity id n).2
  | .reduceLevel s price size allow => (b.reduceLevelAfterLobsterExecution s price size allow).2

def Op.Fresh (b : OrderBook) : Op → Prop
  | .addOrder o => ∀ r ∈ b.allOrders, r.id ≠ o.id
  | _ => True

inductive Reachable : OrderBook → Prop
  | empty : Reachable OrderBook.empty
  | step {b : OrderBook} (h : Reachable b) (op : Op) (hop : op.Fresh b) : Reachable (op.apply b)

theorem apply_valid {b : OrderBook} (h : Valid b) (op : Op) (hop : op.Fresh b) :
    Valid (op.apply b) := by
  cases op with
  | addOrder o => exact addOrder_valid h o hop
  | cancelOrder id => exact cancelOrder_valid h id
  | executeTopCross =>
    cases hx : b.executeTopCross with
    | none => simpa [Op.apply, hx] using h
    | some r =>
      obtain ⟨t, b'⟩ := r
      simpa [Op.apply, hx] using executeTopCross_valid h hx
  | matchMarket id s quantity timestamp => exact matchMarket_valid h id s quantity timestamp []
  | replaceRemainingQuantity id n => exact replaceRemainingQuantity_valid h id n
  | reduceLevel s price size allow => exact reduceLevel_valid h s price size allow

theorem reachable_valid {b : OrderBook} (h : Reachable b) : Valid b := by
  induction h with
  | empty => exact valid_empty
  | step _ op hop ih => exact apply_valid ih op hop

/-- Whatever sequence of operations produced a book, its sorted vectors, its
cached totals and its location map agree with the orders that rest in it. -/
theorem representation_invariant {b : OrderBook} (h : Reachable b) :
    b.bids.Pairwise (fun x y => x.priceTicks > y.priceTicks) ∧
      b.asks.Pairwise (fun x y => x.priceTicks < y.priceTicks) ∧
      (∀ s, ∀ lvl ∈ b.levels s, lvl.orders ≠ [] ∧ lvl.totalQty = quantities lvl.orders ∧
        ∀ o ∈ lvl.orders, o.priceTicks = lvl.priceTicks ∧ o.side = s) ∧
      (b.allOrders.map Order.id).Nodup ∧
      ∀ id s p, b.orderLoc id = some (s, p) ↔
        ∃ o ∈ b.allOrders, o.id = id ∧ o.side = s ∧ o.priceTicks = p := by
  have hv := reachable_valid h
  refine ⟨?_, (hv.side .ask).sorted, ?_, hv.nodup, ?_⟩
  · refine (hv.side .bid).sorted.imp fun hlt => ?_
    simp only [levelKey, rank_bid] at hlt
    omega
  · intro s lvl hl
    have hlv := (hv.side s).level lvl hl
    exact ⟨hlv.nonempty, hlv.total, fun o ho => ⟨(hlv.member o ho).1, (hlv.member o ho).2.1⟩⟩
  · intro id s p
    constructor
    · intro hloc
      by_contra hno
      have hnone := hv.locNone id fun o ho hi => hno ⟨o, ho, hi, ?_⟩
      · rw [hnone] at hloc
        cases hloc
      · have ho' := hv.locSome o ho
        rw [hi, hloc] at ho'
        simpa [eq_comm] using ho'
    · rintro ⟨o, ho, rfl, rfl, rfl⟩
      exact hv.locSome o ho

def crossedOnce : OrderBook :=
  Op.apply (Op.apply (Op.apply OrderBook.empty (.addOrder ⟨1, 105, 10, .bid, .limit, 1⟩))
    (.addOrder ⟨2, 100, 4, .ask, .limit, 2⟩)) .executeTopCross

theorem crossedOnce_representation : Reachable crossedOnce ∧ crossedOnce.asks = [] ∧
    crossedOnce.bids = [⟨105, 6, [⟨1, 105, 6, .bid, .limit, 1⟩]⟩] ∧
    (crossedOnce.orderLoc 1 = some (.bid, 105) ↔
      ∃ o ∈ crossedOnce.allOrders, o.id = 1 ∧ o.side = .bid ∧ o.priceTicks = 105) := by
  have h : Reachable crossedOnce :=
    .step (.step (.step .empty _ (by simp [Op.Fresh, OrderBook.allOrders, OrderBook.empty])) _
      (by simp [Op.Fresh]; decide)) _ trivial
  exact ⟨h, by decide, by decide, (representation_invariant h).2.2.2.2 1 .bid 105⟩

end OrderMatching.BookRuns
