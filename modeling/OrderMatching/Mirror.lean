import OrderMatching.Queues
import OrderMatching.WalVerify

namespace OrderMatching.Mirror

open OrderMatching.Orders OrderMatching.Book OrderMatching.BookInvariant OrderMatching.BookUpdates
open OrderMatching.BookRuns OrderMatching.Engine OrderMatching.Walk OrderMatching.Crossing
open OrderMatching.Queues OrderMatching.Loop OrderMatching.WalVerify

def viewOrder (who : Nat → UInt64 × UInt64) (o : Order) : VOrder :=
  ⟨o.id, (who o.id).1, (who o.id).2, o.quantity⟩

def viewLevel (who : Nat → UInt64 × UInt64) (lvl : PriceLevel) : Int × List VOrder :=
  (lvl.priceTicks, lvl.orders.map (viewOrder who))

/-- The verifier's book shows the engine's: the same orders in the same places,
each with its session and client order id, and the place of every one of them
on record. What else is on record is left open. -/
structure View (who : Nat → UInt64 × UInt64) (b : OrderBook) (v : SimpleBook) : Prop where
  side : ∀ s, v.side s = (b.levels s).map (viewLevel who)
  loc : ∀ o ∈ b.allOrders, v.loc o.id = some (o.priceTicks, o.side)

variable {who : Nat → UInt64 × UInt64} {b : OrderBook} {v : SimpleBook}

@[simp] theorem side_setSide (v : SimpleBook) (s : Side) (m : PriceMap) :
    (v.setSide s m).side s = m := by
  cases s <;> rfl

theorem side_setSide_ne (v : SimpleBook) {s t : Side} (m : PriceMap) (h : t ≠ s) :
    (v.setSide s m).side t = v.side t := by
  cases s <;> cases t <;> first | rfl | exact absurd rfl h

theorem side_congr {v v' : SimpleBook} (hb : v'.bids = v.bids) (ha : v'.asks = v.asks) (s : Side) :
    v'.side s = v.side s := by
  cases s
  · exact hb
  · exact ha

theorem View.edit (h : View who b v) {b' : OrderBook} {v' : SimpleBook} {s : Side} {m : PriceMap}
    (hb : v'.bids = (v.setSide s m).bids) (ha : v'.asks = (v.setSide s m).asks)
    (hm : m = (b'.levels s).map (viewLevel who))
    (hother : b'.levels s.opposite = b.levels s.opposite)
    (hloc : ∀ o ∈ b'.allOrders, v'.loc o.id = some (o.priceTicks, o.side)) : View who b' v' := by
  refine ⟨fun t => ?_, hloc⟩
  rw [side_congr hb ha]
  by_cases ht : t = s
  · rw [ht, side_setSide, hm]
  · rw [side_setSide_ne v m ht, eq_opposite_of_ne (Ne.symm ht), hother]
    exact h.side _

theorem View.rename (h : View who b v) {who' : Nat → UInt64 × UInt64}
    (hw : ∀ o ∈ b.allOrders, who' o.id = who o.id) : View who' b v := by
  refine ⟨fun s => ?_, h.loc⟩
  rw [h.side s]
  refine List.map_congr_left fun lvl hl => ?_
  have horders : lvl.orders.map (viewOrder who) = lvl.orders.map (viewOrder who') := by
    refine List.map_congr_left fun o ho => ?_
    rw [viewOrder, viewOrder, hw o (mem_queue.mpr ⟨s, List.mem_flatMap.mpr ⟨lvl, hl, ho⟩⟩)]
  rw [viewLevel, viewLevel, horders]

theorem view_add (h : View who b v) (hv : Valid b) {o : Order} (hk : o.kind = .limit)
    (hfresh : ∀ r ∈ b.allOrders, r.id ≠ o.id) :
    View who (b.addOrder o) (v.add o.priceTicks o.side (viewOrder who o)) := by
  have hlevels : ∀ t,
      (b.addOrder o).levels t = (b.alterLevel o.side o.priceTicks (pushBack o)).levels t := by
    intro t
    simp [OrderBook.addOrder, hk]
  have hpush : ∀ lvl : Option PriceLevel, (pushBack o lvl).map (viewLevel who) =
      enqueue o.priceTicks (viewOrder who o) (lvl.map (viewLevel who)) := by
    intro lvl
    cases lvl <;> simp [pushBack, enqueue, viewLevel]
  refine h.edit (s := o.side) (m := _) rfl rfl ?_ ?_ fun r hr => ?_
  · rw [hlevels, OrderBook.alterLevel, levels_setLevels, h.side]
    exact (KeyedList.map_alter (fun _ => rfl) hpush _).symm
  · rw [hlevels, OrderBook.alterLevel, levels_setLevels_opposite]
  · have hloc : (v.add o.priceTicks o.side (viewOrder who o)).loc =
        Function.update v.loc o.id (some (o.priceTicks, o.side)) := rfl
    rw [hloc]
    obtain rfl | hr := List.mem_cons.mp ((addOrder_perm hv hk).mem_iff.mp hr)
    · rw [Function.update_self]
    · rw [Function.update_of_ne (hfresh r hr)]
      exact h.loc r hr

theorem find_view (h : View who b v) (s : Side) (px : Int) :
    KeyedList.find (priceKey s) (rank s px) (v.side s) = (b.levelAt s px).map (viewLevel who) := by
  rw [h.side]
  exact KeyedList.find_map (fun _ => rfl) _ _

theorem any_view (os : List Order) (id : Nat) :
    (os.map (viewOrder who)).any (fun o => o.id = id) = os.any (fun o => o.id = id) := by
  rw [List.any_map]
  rfl

theorem cancel_absent (h : View who b v) {id : Nat} (hno : ∀ o ∈ b.allOrders, o.id ≠ id) :
    (v.cancel id).2 = v := by
  unfold SimpleBook.cancel
  split
  · rfl
  · rename_i px s _
    have hnone : eraseFrom s (v.side s) px id = none := by
      unfold eraseFrom
      rw [find_view h]
      cases hl : b.levelAt s px with
      | none => rfl
      | some lvl =>
        have hany : lvl.orders.any (fun o => decide (o.id = id)) = false := by
          rw [List.any_eq_false]
          exact fun o ho => by simpa using hno o (mem_of_levelAt hl ho)
        simp only [Option.map_some, viewLevel, any_view, hany]
        rfl
    rw [hnone]

theorem cancel_resting (h : View who b v) (hv : Valid b) {o : Order} (ho : o ∈ b.allOrders) :
    ∃ m, m = ((b.cancelOrder o.id).2.levels o.side).map (viewLevel who) ∧
      (v.cancel o.id).2 = { v.setSide o.side m with loc := Function.update v.loc o.id none } ∧
      (b.cancelOrder o.id).2.levels o.side.opposite = b.levels o.side.opposite := by
  obtain ⟨lvl, hloc⟩ := locate_of_mem hv ho
  obtain ⟨hl, hf⟩ := locate_eq_some hloc
  have hany : lvl.orders.any (fun r => decide (r.id = o.id)) = true := by
    rw [List.any_eq_true]
    exact ⟨o, List.mem_of_find?_eq_some hf, by simp⟩
  have hdrop : (dropEmpty (lvl.removeOrder o.id o.quantity)).map (viewLevel who) =
      unlessEmpty (lvl.priceTicks,
        (lvl.orders.map (viewOrder who)).eraseP (fun r => r.id = o.id)) := by
    have herase : (lvl.orders.map (viewOrder who)).eraseP (fun r => decide (r.id = o.id)) =
        (lvl.orders.eraseP (fun r => decide (r.id = o.id))).map (viewOrder who) := by
      rw [List.eraseP_map]
      rfl
    rw [herase, PriceLevel.removeOrder]
    generalize lvl.orders.eraseP (fun r => decide (r.id = o.id)) = os
    cases os <;> simp [dropEmpty, unlessEmpty, viewLevel]
  have hbook : (b.cancelOrder o.id).2 = (b.alterLevel o.side o.priceTicks
      (fun _ => dropEmpty (lvl.removeOrder o.id o.quantity))).setLoc o.id none := by
    simp only [OrderBook.cancelOrder, hloc]
  refine ⟨KeyedList.alter (priceKey o.side) (rank o.side o.priceTicks)
    (fun _ => unlessEmpty (lvl.priceTicks,
      (lvl.orders.map (viewOrder who)).eraseP (fun r => r.id = o.id))) (v.side o.side), ?_, ?_, ?_⟩
  · rw [hbook, levels_setLoc, OrderBook.alterLevel, levels_setLevels, h.side]
    exact (KeyedList.map_alter (fun _ => rfl) (fun _ => hdrop) _).symm
  · simp only [SimpleBook.cancel, h.loc o ho, eraseFrom, find_view h, hl, Option.map_some,
      viewLevel, any_view, hany, if_true]
  · rw [hbook, levels_setLoc, OrderBook.alterLevel, levels_setLevels_opposite]

theorem view_cancel (h : View who b v) (hv : Valid b) {o : Order} (ho : o ∈ b.allOrders) :
    View who (b.cancelOrder o.id).2 (v.cancel o.id).2 := by
  obtain ⟨m, hm, hcancel, hopp⟩ := cancel_resting h hv ho
  refine h.edit (by rw [hcancel]) (by rw [hcancel]) hm hopp fun r hr => ?_
  obtain ⟨hr, hne⟩ := (mem_cancelOrder hv).mp hr
  rw [hcancel]
  dsimp only
  rw [Function.update_of_ne hne]
  exact h.loc r hr

theorem topOrder_view (ls : List PriceLevel) :
    topOrder (ls.map (viewLevel who)) = (front ls).map (viewOrder who) := by
  cases ls with
  | nil => rfl
  | cons lvl ls => simp [topOrder, front, viewLevel, List.head?_map]

theorem best_view (ls : List PriceLevel) :
    best (ls.map (viewLevel who)) = ls.head?.map PriceLevel.priceTicks := by
  cases ls <;> rfl

theorem takeTop_view (qty : Nat) (ls : List PriceLevel) :
    takeTop qty (ls.map (viewLevel who)) = (takeFront qty ls).map (viewLevel who) := by
  cases ls with
  | nil => rfl
  | cons lvl ls =>
    obtain ⟨px, total, os⟩ := lvl
    cases os with
    | nil => rfl
    | cons o os =>
      by_cases hq : o.quantity - qty = 0
      · cases os <;> simp [takeTop, takeFront, viewLevel, viewOrder, unlessEmpty, dropEmpty, hq]
      · simp [takeTop, takeFront, viewLevel, viewOrder, hq]

theorem mem_takeFront (hv : Valid b) {s : Side} {o : Order} (ho : front (b.levels s) = some o)
    (qty : Nat) {r : Order} :
    r ∈ (b.takeFront s qty o).allOrders ↔
      (o.quantity - qty ≠ 0 ∧ r = { o with quantity := o.quantity - qty }) ∨
        (r ∈ b.allOrders ∧ r.id ≠ o.id) := by
  obtain ⟨rest, hold, hnew⟩ := takeFront_perm hv ho qty
  have hnodup := (hold.map Order.id).nodup_iff.mp hv.nodup
  simp only [List.singleton_append, List.map_cons, List.nodup_cons] at hnodup
  have hrest : r ∈ rest ↔ r ∈ b.allOrders ∧ r.id ≠ o.id := by
    rw [hold.mem_iff, List.singleton_append, List.mem_cons]
    constructor
    · exact fun hr => ⟨Or.inr hr, fun he => hnodup.1 (he ▸ List.mem_map_of_mem hr)⟩
    · rintro ⟨rfl | hr, hne⟩
      · exact absurd rfl hne
      · exact hr
  rw [hnew.mem_iff, List.mem_append, hrest, remainder]
  by_cases hq : o.quantity - qty = 0 <;> simp [hq]

theorem view_takeFront (h : View who b v) (hv : Valid b) {s : Side} {o : Order}
    (ho : front (b.levels s) = some o) (qty : Nat) {v' : SimpleBook}
    (hb : v'.bids = (v.setSide s (takeTop qty (v.side s))).bids)
    (ha : v'.asks = (v.setSide s (takeTop qty (v.side s))).asks)
    (hloc : ∀ id, (o.quantity - qty = 0 → id ≠ o.id) → v'.loc id = v.loc id) :
    View who (b.takeFront s qty o) v' := by
  obtain ⟨hown, hopp⟩ := levels_takeFront b s qty o
  refine h.edit hb ha (by rw [h.side, takeTop_view, hown]) hopp fun r hr => ?_
  obtain ⟨hq, rfl⟩ | ⟨hr, hne⟩ := (mem_takeFront hv ho qty).mp hr
  · rw [hloc o.id fun hz => absurd hz hq]
    refine h.loc o (mem_queue.mpr ⟨s, List.mem_of_mem_head? ?_⟩)
    rw [queue, ← front_eq_head (hv.side s), ho]
    rfl
  · rw [hloc r.id fun _ => hne]
    exact h.loc r hr

def Tidy (b : OrderBook) (v : SimpleBook) : Prop :=
  ∀ x, (v.loc x).isSome = true → ∃ o ∈ b.allOrders, o.id = x

theorem tidy_add (hv : Valid b) {o : Order} (hk : o.kind = .limit) (ht : Tidy b v) {r : VOrder}
    (hr : r.id = o.id) :
    Tidy (b.addOrder o) (v.add o.priceTicks o.side r) := by
  intro x hx
  have hloc : (v.add o.priceTicks o.side r).loc =
      Function.update v.loc r.id (some (o.priceTicks, o.side)) := rfl
  have hmem := fun r => (addOrder_perm hv hk).mem_iff (a := r)
  by_cases hxo : x = o.id
  · exact ⟨o, (hmem o).mpr (by simp), hxo.symm⟩
  · rw [hloc, Function.update_of_ne (hr ▸ hxo)] at hx
    obtain ⟨r, hr, rfl⟩ := ht x hx
    exact ⟨r, (hmem r).mpr (by simp [hr]), rfl⟩

theorem tidy_cancel (h : View who b v) (hv : Valid b) (ht : Tidy b v) {o : Order}
    (ho : o ∈ b.allOrders) :
    Tidy (b.cancelOrder o.id).2 (v.cancel o.id).2 := by
  obtain ⟨m, -, hcancel, -⟩ := cancel_resting h hv ho
  intro x hx
  rw [hcancel] at hx
  dsimp only at hx
  have hne : x ≠ o.id := by
    rintro rfl
    simp at hx
  rw [Function.update_of_ne hne] at hx
  obtain ⟨r, hr, rfl⟩ := ht x hx
  exact ⟨r, (mem_cancelOrder hv).mpr ⟨hr, hne⟩, rfl⟩

theorem tidy_takeFront (hv : Valid b) (ht : Tidy b v) {s : Side} {o : Order}
    (ho : front (b.levels s) = some o) (qty : Nat) {v' : SimpleBook}
    (hloc : ∀ id, (v'.loc id).isSome = true → (v.loc id).isSome = true ∧
      (o.quantity - qty = 0 → id ≠ o.id)) : Tidy (b.takeFront s qty o) v' := by
  intro x hx
  obtain ⟨hx, hgone⟩ := hloc x hx
  by_cases hxo : x = o.id
  · exact ⟨_, (mem_takeFront hv ho qty).mpr (Or.inl ⟨fun hz => hgone hz hxo, rfl⟩), hxo.symm⟩
  · obtain ⟨r, hr, rfl⟩ := ht x hx
    exact ⟨r, (mem_takeFront hv ho qty).mpr (Or.inr ⟨hr, hxo⟩), rfl⟩

theorem front_best_view {s : Side} (h : View who b v) (hv : Valid b) {o : Order}
    (ho : front (b.levels s) = some o) :
    topOrder (v.side s) = some (viewOrder who o) ∧ best (v.side s) = some o.priceTicks := by
  obtain ⟨lvl, rest, hl, hp⟩ := front_price (hv.side s) ho
  rw [h.side, topOrder_view, best_view, ho, hl]
  exact ⟨rfl, by rw [← hp]; rfl⟩

theorem crossed_view (h : View who b v) : v.crossed = b.isCrossed := by
  have hbids : v.bids = b.bids.map (viewLevel who) := h.side .bid
  have hasks : v.asks = b.asks.map (viewLevel who) := h.side .ask
  rw [SimpleBook.crossed, OrderBook.isCrossed, hbids, hasks, best_view, best_view]
  cases b.bids with
  | nil => rfl
  | cons bid _ =>
    cases b.asks with
    | nil => rfl
    | cons ask _ =>
      simp only [List.head?_cons, Option.map_some]
      rw [Bool.eq_iff_iff]
      simp

theorem count_view (ls : List PriceLevel) : count (ls.map (viewLevel who)) = orderCount ls := by
  simp [count, orderCount, viewLevel, Function.comp_def]

/-- A loop on the engine's side and a book of the verifier with the same orders,
trading history and names. -/
structure InStep (who : Nat → UInt64 × UInt64) (last : Int) (v₀ : SimpleBook) (w : Sweep)
    (v : SimpleBook) : Prop where
  view : View who w.book v
  valid : Valid w.book
  lastTrade : v.lastTrade = (w.trades.getLast?.map Trade.priceTicks).getD last
  owners : v.owners = v₀.owners
  clientIds : v.clientIds = v₀.clientIds

def settleLoc (qty : Nat) (o : Order) (loc : Nat → Option (Int × Side)) :
    Nat → Option (Int × Side) :=
  if o.quantity - qty = 0 then Function.update loc o.id none else loc

theorem settleLoc_kept {qty : Nat} {o : Order} {loc : Nat → Option (Int × Side)} {id : Nat}
    (h : o.quantity - qty = 0 → id ≠ o.id) : settleLoc qty o loc id = loc id := by
  unfold settleLoc
  split
  · rename_i hz
    rw [Function.update_of_ne (h hz)]
  · rfl

theorem settleLoc_isSome {qty : Nat} {o : Order} {loc : Nat → Option (Int × Side)} {id : Nat}
    (h : (settleLoc qty o loc id).isSome = true) :
    (loc id).isSome = true ∧ (o.quantity - qty = 0 → id ≠ o.id) := by
  have hne : o.quantity - qty = 0 → id ≠ o.id := by
    rintro hz rfl
    simp [settleLoc, hz] at h
  rw [settleLoc_kept hne] at h
  exact ⟨h, hne⟩

/-- One print at the top of a crossed book, on both books. -/
theorem crossRound_spec (h : View who b v) (hv : Valid b) (hc : b.isCrossed = true) :
    ∃ x y qty, qty = min x.quantity y.quantity ∧ front (b.levels .bid) = some x ∧
      front (b.levels .ask) = some y ∧
      b.executeTopCross = some (⟨x.id, y.id, y.priceTicks, qty, max x.timestamp y.timestamp⟩,
        (b.takeFront .bid qty x).takeFront .ask qty y) ∧
      v.crossRound = { v with
        bids := takeTop qty v.bids, asks := takeTop qty v.asks,
        loc := settleLoc qty y (settleLoc qty x v.loc), lastTrade := y.priceTicks } := by
  have hne : b.levels .bid ≠ [] ∧ b.levels .ask ≠ [] := by
    refine ⟨fun hn => ?_, fun hn => ?_⟩ <;> simp [isCrossed_nil hn] at hc
  obtain ⟨x, hx⟩ := front_isSome (hv.side .bid) hne.1
  obtain ⟨y, hy⟩ := front_isSome (hv.side .ask) hne.2
  refine ⟨x, y, _, rfl, hx, hy, ?_, ?_⟩
  · have hx' : front b.bids = some x := hx
    have hy' : front b.asks = some y := hy
    simp only [OrderBook.executeTopCross, hc, if_true, hx', hy']
  · have htopx : topOrder v.bids = some (viewOrder who x) := (front_best_view h hv hx).1
    have htopy : topOrder v.asks = some (viewOrder who y) := (front_best_view h hv hy).1
    have hbest : best v.asks = some y.priceTicks := (front_best_view h hv hy).2
    simp only [SimpleBook.crossRound, htopx, htopy, hbest]
    rfl

theorem inStep_crossRound {last : Int} {v₀ : SimpleBook} {w : Sweep} (h : InStep who last v₀ w v)
    (hc : w.book.isCrossed = true) (incoming : Nat) :
    InStep who last v₀ (crossRound incoming w) v.crossRound ∧
      (Tidy w.book v → Tidy (crossRound incoming w).book v.crossRound) := by
  obtain ⟨x, y, qty, hqty, hx, hy, hexec, hround⟩ := crossRound_spec h.view h.valid hc
  -- the two sides are edited one after the other
  let v₁ : SimpleBook := { v with bids := takeTop qty v.bids, loc := settleLoc qty x v.loc }
  have hbid : View who (w.book.takeFront .bid qty x) v₁ :=
    view_takeFront h.view h.valid hx qty rfl rfl fun id hid => settleLoc_kept hid
  have hvalid : Valid (w.book.takeFront .bid qty x) := by
    rw [hqty]
    exact takeFront_valid h.valid hx (Nat.min_le_left _ _)
  have hfront : front ((w.book.takeFront .bid qty x).levels .ask) = some y :=
    (congrArg front (levels_takeFront w.book .bid qty x).2).trans hy
  have hask : View who ((w.book.takeFront .bid qty x).takeFront .ask qty y) v.crossRound := by
    rw [hround]
    exact view_takeFront hbid hvalid hfront qty rfl rfl fun id hid => settleLoc_kept hid
  rw [crossRound, hexec]
  refine ⟨⟨hask, executeTopCross_valid h.valid hexec, ?_, ?_, ?_⟩, fun ht => ?_⟩
  · rw [hround]
    simp
  · rw [hround]
    exact h.owners
  · rw [hround]
    exact h.clientIds
  · have ht₁ : Tidy (w.book.takeFront .bid qty x) v₁ :=
      tidy_takeFront h.valid ht hx qty fun id hid => settleLoc_isSome hid
    rw [hround]
    exact tidy_takeFront hvalid ht₁ hfront qty fun id hid => settleLoc_isSome hid

/-- Crossing the book on both sides. The engine also stops when its order is
used up, and the book is not crossed then. -/
theorem inStep_cross {last : Int} {v₀ : SimpleBook} {w : Sweep} (h : InStep who last v₀ w v)
    (incoming : Nat) (hdone : (crossLoop incoming w).book.isCrossed = false) :
    InStep who last v₀ (crossLoop incoming w) v.cross ∧
      (Tidy w.book v → Tidy (crossLoop incoming w).book v.cross) := by
  have hcount : count v.bids + count v.asks = orderCount w.book.bids + orderCount w.book.asks := by
    have hbids : v.bids = w.book.bids.map (viewLevel who) := h.view.side .bid
    have hasks : v.asks = w.book.asks.map (viewLevel who) := h.view.side .ask
    rw [hbids, hasks, count_view, count_view]
  have hguard : ∀ w : Sweep, crossing w = true → w.book.isCrossed = true :=
    fun w hw => (Bool.and_eq_true_iff.mp hw).2
  have hmore : loop (fun w => w.book.isCrossed) (crossRound incoming)
      (orderCount w.book.bids + orderCount w.book.asks) w = crossLoop incoming w :=
    loop_extend hguard hdone
  have hloop :=
    loop_simulation (R := fun u v' => InStep who last v₀ u v' ∧ (Tidy w.book v → Tidy u.book v'))
      (fun u v' hu => (crossed_view hu.1.view).symm)
      (fun u v' hu hc => ⟨(inStep_crossRound hu.1 hc incoming).1,
        fun ht => (inStep_crossRound hu.1 hc incoming).2 (hu.2 ht)⟩)
          (orderCount w.book.bids + orderCount w.book.asks) w v ⟨h, id⟩
  rw [SimpleBook.cross, hcount, ← hmore]
  exact hloop

theorem inStep_sweepRound {last : Int} {v₀ : SimpleBook} {w : Sweep} {u : VSweep} {s : Side}
    (h : InStep who last v₀ w u.book) (hq : u.remaining = w.quantity) (ha : w.active s = true)
    (id timestamp : Nat) :
    InStep who last v₀ (w.round id s timestamp) (u.round s).book ∧
      (u.round s).remaining = (w.round id s timestamp).quantity := by
  have hne : w.book.levels s.opposite ≠ [] := by
    intro hn
    simp [Sweep.active, hn] at ha
  obtain ⟨o, ho⟩ := front_isSome (h.valid.side s.opposite) hne
  obtain ⟨htop, hbest⟩ := front_best_view h.view h.valid ho
  let take := min w.quantity o.quantity
  let v₁ : SimpleBook :=
    { u.book.setSide s.opposite (takeTop take (u.book.side s.opposite)) with
      lastTrade := o.priceTicks }
  have hview : View who (w.book.takeFront s.opposite take o) v₁ :=
    view_takeFront h.view h.valid ho take rfl rfl fun id _ => by
      cases hs : s.opposite <;> simp [v₁, SimpleBook.setSide, hs]
  have hvalid := takeFront_valid h.valid ho (Nat.min_le_right w.quantity o.quantity)
  -- the order has left the book, so its record stays
  have hstale : o.quantity - take = 0 → (v₁.cancel o.id).2 = v₁ := by
    intro hz
    refine cancel_absent hview fun r hr => ?_
    obtain ⟨hq, -⟩ | ⟨-, hne⟩ := (mem_takeFront h.valid ho take).mp hr
    · exact absurd hz hq
    · exact hne
  have hround : u.round s = ⟨v₁, w.quantity - take⟩ := by
    simp only [VSweep.round, htop, hbest, hq]
    split
    · rename_i hz
      exact congrArg (fun v => VSweep.mk v _) (hstale hz)
    · rfl
  have hw : w.round id s timestamp = ⟨w.book.takeFront s.opposite take o, w.quantity - take,
      w.trades ++ [marketTrade id s timestamp o take]⟩ := by simp only [Sweep.round, ho]; rfl
  rw [hround, hw]
  have hframe : v₁.owners = u.book.owners ∧ v₁.clientIds = u.book.clientIds := by
    cases hs : s.opposite <;> simp [v₁, SimpleBook.setSide, hs]
  refine ⟨⟨hview, hvalid, ?_, hframe.1.trans h.owners, hframe.2.trans h.clientIds⟩, rfl⟩
  cases s <;> simp [v₁, marketTrade]

theorem inStep_sweep {last : Int} {v₀ : SimpleBook} {quantity : Nat}
    (h : InStep who last v₀ ⟨b, quantity, []⟩ v) (id timestamp : Nat) (s : Side) :
    InStep who last v₀ (b.matchMarket id s quantity timestamp []) (v.sweep s quantity) := by
  have hcount : count (v.side s.opposite) = orderCount (b.levels s.opposite) := by
    rw [h.view.side, count_view]
  have hguard : ∀ (w : Sweep) (u : VSweep), InStep who last v₀ w u.book ∧ u.remaining = w.quantity →
      w.active s = u.active s := by
    rintro w u ⟨hw, hq⟩
    rw [Sweep.active, VSweep.active, hq, hw.view.side, List.isEmpty_map]
  have hloop :=
    loop_simulation
      (R := fun w (u : VSweep) => InStep who last v₀ w u.book ∧ u.remaining = w.quantity) hguard
      (fun w u hwu ha => inStep_sweepRound hwu.1 hwu.2 ha id timestamp)
      (orderCount (b.levels s.opposite)) ⟨b, quantity, []⟩ ⟨v, quantity⟩ ⟨h, rfl⟩
  rw [OrderBook.matchMarket, SimpleBook.sweep, hcount]
  exact hloop.1

end OrderMatching.Mirror
