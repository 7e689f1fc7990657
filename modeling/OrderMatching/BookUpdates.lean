import Mathlib.Data.List.Nodup
import OrderMatching.BookInvariant

namespace OrderMatching.BookUpdates

open OrderMatching.Orders OrderMatching.Book OrderMatching.BookInvariant OrderMatching.Loop

theorem find_id_split {os : List Order} {id : Nat} {o : Order}
    (h : os.find? (fun r => r.id = id) = some o) :
    ∃ pre post, os = pre ++ o :: post ∧ o.id = id ∧ os.eraseP (fun r => r.id = id) = pre ++ post ∧
      ∀ q, setQuantity id q os = pre ++ { o with quantity := q } :: post := by
  induction os with
  | nil => cases h
  | cons r os ih =>
    by_cases hr : r.id = id
    · have he : r = o := by simpa [hr] using h
      subst he
      exact ⟨[], os, rfl, hr, by simp [hr], fun q => by simp [setQuantity, hr]⟩
    · obtain ⟨pre, post, he, ho, hd, hq⟩ := ih (by simpa [hr] using h)
      refine ⟨r :: pre, post, by simp [he], ho, ?_, fun q => by simp [setQuantity, hr, hq q]⟩
      simp [hr, hd]

theorem locate_eq_some {b : OrderBook} {id : Nat} {s : Side} {price : Int} {lvl : PriceLevel}
    {o : Order} (h : b.locate id = some (s, price, lvl, o)) :
    b.levelAt s price = some lvl ∧ lvl.orders.find? (fun r => r.id = id) = some o := by
  simp only [OrderBook.locate, Option.bind_eq_bind, Option.bind_eq_some_iff, Option.some.injEq,
    Prod.mk.injEq] at h
  obtain ⟨⟨s', price'⟩, -, lvl', hl, o', ho, rfl, rfl, rfl, rfl⟩ := h
  exact ⟨hl, ho⟩

theorem mem_levelAt {b : OrderBook} (h : Valid b) {o : Order} (ho : o ∈ b.allOrders) :
    ∃ lvl, b.levelAt o.side o.priceTicks = some lvl ∧ o ∈ lvl.orders := by
  obtain ⟨s, hs⟩ := mem_allOrders.mp ho
  obtain ⟨lvl, hl, hm⟩ := List.mem_flatMap.mp hs
  obtain ⟨hp, hside, -⟩ := ((h.side s).level lvl hl).member o hm
  refine ⟨lvl, ?_, hm⟩
  rw [OrderBook.levelAt, hside, hp]
  exact KeyedList.find_of_mem (h.side s).sorted hl

theorem id_injective {b : OrderBook} (h : Valid b) {o r : Order} (ho : o ∈ b.allOrders)
    (hr : r ∈ b.allOrders) (he : o.id = r.id) : o = r :=
  List.inj_on_of_nodup_map h.nodup ho hr he

theorem mem_of_levelAt {b : OrderBook} {s : Side} {price : Int} {lvl : PriceLevel}
    (hl : b.levelAt s price = some lvl) {o : Order} (ho : o ∈ lvl.orders) : o ∈ b.allOrders :=
  mem_allOrders.mpr ⟨s, List.mem_flatMap.mpr ⟨lvl, KeyedList.mem_find hl, ho⟩⟩

theorem locate_of_mem {b : OrderBook} (h : Valid b) {o : Order} (ho : o ∈ b.allOrders) :
    ∃ lvl, b.locate o.id = some (o.side, o.priceTicks, lvl, o) := by
  obtain ⟨lvl, hl, hm⟩ := mem_levelAt h ho
  have hf : lvl.orders.find? (fun r => r.id = o.id) = some o := by
    obtain ⟨r, hr⟩ : ∃ r, lvl.orders.find? (fun r => r.id = o.id) = some r := by
      rw [← Option.isSome_iff_exists, List.find?_isSome]
      exact ⟨o, hm, by simp⟩
    have hid : r.id = o.id := by simpa using List.find?_some hr
    rw [hr, id_injective h (mem_of_levelAt hl (List.mem_of_find?_eq_some hr)) ho hid]
  exact ⟨lvl, by simp [OrderBook.locate, h.locSome o ho, hl, hf]⟩

theorem locate_eq_none {b : OrderBook} (h : Valid b) {id : Nat}
    (hid : ∀ o ∈ b.allOrders, o.id ≠ id) :
    b.locate id = none := by
  simp [OrderBook.locate, h.locNone id hid]

theorem levelValid_replace {s : Side} {lvl : PriceLevel} (h : LevelValid s lvl) {total : Nat}
    {os : List Order} (hne : os ≠ []) (htotal : total = quantities os)
    (hmem : ∀ o ∈ os, ∃ r ∈ lvl.orders, o.priceTicks = r.priceTicks ∧ o.side = r.side ∧
      o.kind = r.kind) :
    LevelValid s { lvl with totalQty := total, orders := os } where
  nonempty := hne
  total := htotal
  member o ho := by
    obtain ⟨r, hr, hp, hs, hk⟩ := hmem o ho
    rw [hp, hs, hk]
    exact h.member r hr

theorem dropEmpty_valid {s : Side} {price : Int} (lvl : PriceLevel) (hp : lvl.priceTicks = price)
    (h : lvl.orders ≠ [] → LevelValid s lvl) :
    ∀ l ∈ dropEmpty lvl, l.priceTicks = price ∧ LevelValid s l := by
  intro l hl
  unfold dropEmpty at hl
  split at hl
  · cases hl
  · cases hl
    exact ⟨hp, h (by assumption)⟩

theorem alterLevel_split {b : OrderBook} (h : Valid b) {s : Side} {price : Int} {lvl : PriceLevel}
    (hl : b.levelAt s price = some lvl) :
    ∃ rest, b.allOrders.Perm (lvl.orders ++ rest) ∧
      ∀ new, (b.alterLevel s price (fun _ => new)).allOrders.Perm (levelOrders new ++ rest) := by
  obtain ⟨rest, hold, hnew⟩ := alterLevel_perm h s price
  exact ⟨rest, by simpa [hl, levelOrders] using hold, fun new => by simpa using hnew (fun _ => new)⟩

@[simp] theorem quantities_append (os ps : List Order) :
    quantities (os ++ ps) = quantities os + quantities ps := by simp [quantities]

@[simp] theorem quantities_cons (o : Order) (os : List Order) :
    quantities (o :: os) = o.quantity + quantities os := by simp [quantities]

@[simp] theorem quantities_nil : quantities [] = 0 := rfl

theorem cancelOrder_valid {b : OrderBook} (h : Valid b) (id : Nat) :
    Valid (b.cancelOrder id).2 := by
  cases hloc : b.locate id with
  | none => simpa [OrderBook.cancelOrder, hloc] using h
  | some found =>
    obtain ⟨s, price, lvl, o⟩ := found
    obtain ⟨hl, hf⟩ := locate_eq_some hloc
    obtain ⟨pre, post, he, hid, hd, -⟩ := find_id_split hf
    obtain ⟨hp, hv⟩ := levelAt_valid h hl
    obtain ⟨rest, hold, hnew⟩ := alterLevel_split h hl
    have hperm : b.allOrders.Perm ([o] ++ (pre ++ post ++ rest)) := by
      refine hold.trans ?_
      rw [he]
      simp
    simp only [OrderBook.cancelOrder, hloc]
    refine h.of_sublist [o] [] (pre ++ post ++ rest) hperm ?_ ?_ (by simp) ?_ ?_
    · simpa [PriceLevel.removeOrder, hd] using hnew (dropEmpty (lvl.removeOrder id o.quantity))
    · intro t
      rw [levels_setLoc]
      refine alterLevel_side h (dropEmpty_valid (lvl.removeOrder id o.quantity) hp fun hne => ?_) t
      refine levelValid_replace hv hne ?_ fun r hr => ⟨r, List.mem_of_mem_eraseP hr, rfl, rfl, rfl⟩
      rw [hd, hv.total, he]
      simp only [quantities_append, quantities_cons]
      omega
    · intro k hk
      have hne : k ≠ id := by simpa [hid] using hk
      simp [Function.update_of_ne hne]
    · intro k hk _
      have he : k = id := by simpa [hid] using hk
      simp [he]

def remainder (qty : Nat) (o : Order) : List Order :=
  if o.quantity - qty = 0 then [] else [{ o with quantity := o.quantity - qty }]

theorem front_eq_some {s : Side} {ls : List PriceLevel} (h : SideValid s ls) {o : Order}
    (ho : front ls = some o) : ∃ lvl rest os, ls = lvl :: rest ∧ lvl.orders = o :: os := by
  cases ls with
  | nil => cases ho
  | cons lvl rest =>
    cases hos : lvl.orders with
    | nil => exact absurd hos (h.level lvl (by simp)).nonempty
    | cons r os =>
      simp only [front, hos, List.head?_cons, Option.some.injEq] at ho
      exact ⟨lvl, rest, os, rfl, by rw [hos, ho]⟩

theorem front_isSome {s : Side} {ls : List PriceLevel} (h : SideValid s ls) (hne : ls ≠ []) :
    ∃ o, front ls = some o := by
  obtain ⟨lvl, rest, rfl⟩ := List.exists_cons_of_ne_nil hne
  obtain ⟨o, os, ho⟩ := List.exists_cons_of_ne_nil (h.level lvl (by simp)).nonempty
  exact ⟨o, by simp [front, ho]⟩

theorem sideOrders_takeFront {s : Side} {ls : List PriceLevel} (h : SideValid s ls) {o : Order}
    (ho : front ls = some o) (qty : Nat) :
    ∃ rest, sideOrders ls = o :: rest ∧
      sideOrders (takeFront qty ls) = remainder qty o ++ rest := by
  obtain ⟨lvl, rest, os, rfl, hos⟩ := front_eq_some h ho
  refine ⟨os ++ sideOrders rest, by simp [hos], ?_⟩
  by_cases hq : o.quantity - qty = 0
  · simp [takeFront, hos, hq, remainder, sideOrders_toList]
  · simp [takeFront, hos, hq, remainder]

theorem takeFront_sideValid {s : Side} {ls : List PriceLevel} (h : SideValid s ls) {o : Order}
    (ho : front ls = some o) {qty : Nat} (hqty : qty ≤ o.quantity) :
    SideValid s (takeFront qty ls) := by
  obtain ⟨lvl, rest, os, rfl, hos⟩ := front_eq_some h ho
  have hv := h.level lvl (by simp)
  have htotal : lvl.totalQty = o.quantity + quantities os := by simp [hv.total, hos]
  by_cases hq : o.quantity - qty = 0
  · have he : takeFront qty (lvl :: rest) =
        KeyedList.alter (levelKey s) (rank s lvl.priceTicks)
          (fun _ => dropEmpty { lvl with totalQty := lvl.totalQty - qty, orders := os })
          (lvl :: rest) := by
      simp [takeFront, hos, hq, KeyedList.alter, levelKey]
    rw [he]
    refine h.alter (dropEmpty_valid _ rfl fun hne => ?_)
    exact levelValid_replace hv hne (by omega) fun r hr => ⟨r, by simp [hos, hr], rfl, rfl, rfl⟩
  · have he : takeFront qty (lvl :: rest) = KeyedList.alter (levelKey s) (rank s lvl.priceTicks)
        (fun _ => some { lvl with totalQty := lvl.totalQty - qty,
                                  orders := { o with quantity := o.quantity - qty } :: os })
                                    (lvl :: rest) := by
      simp [takeFront, hos, hq, KeyedList.alter, levelKey]
    rw [he]
    refine h.alter ?_
    simp only [Option.mem_some, forall_eq']
    refine ⟨trivial, levelValid_replace hv (by simp) (by simp; omega) fun r hr => ?_⟩
    obtain rfl | hr := List.mem_cons.mp hr
    · exact ⟨o, by simp [hos], rfl, rfl, rfl⟩
    · exact ⟨r, by simp [hos, hr], rfl, rfl, rfl⟩

theorem levels_takeFront (b : OrderBook) (s : Side) (qty : Nat) (o : Order) :
    (b.takeFront s qty o).levels s = takeFront qty (b.levels s) ∧
      (b.takeFront s qty o).levels s.opposite = b.levels s.opposite := by
  unfold OrderBook.takeFront
  dsimp only
  split <;> simp

theorem orderLoc_takeFront (b : OrderBook) (s : Side) (qty : Nat) (o : Order) :
    (b.takeFront s qty o).orderLoc =
      if o.quantity - qty = 0 then Function.update b.orderLoc o.id none else b.orderLoc := by
  unfold OrderBook.takeFront
  dsimp only
  split <;> simp

theorem takeFront_perm {b : OrderBook} (h : Valid b) {s : Side} {o : Order}
    (ho : front (b.levels s) = some o) (qty : Nat) :
    ∃ rest, b.allOrders.Perm ([o] ++ rest) ∧
      (b.takeFront s qty o).allOrders.Perm (remainder qty o ++ rest) := by
  obtain ⟨rest, he, hn⟩ := sideOrders_takeFront (h.side s) ho qty
  refine ⟨rest ++ sideOrders (b.levels s.opposite), ?_, ?_⟩
  · simpa [he] using allOrders_perm b s
  · have hp := allOrders_perm (b.takeFront s qty o) s
    rwa [(levels_takeFront b s qty o).1, (levels_takeFront b s qty o).2, hn,
      List.append_assoc] at hp

theorem takeFront_valid {b : OrderBook} (h : Valid b) {s : Side} {o : Order}
    (ho : front (b.levels s) = some o) {qty : Nat} (hqty : qty ≤ o.quantity) :
    Valid (b.takeFront s qty o) := by
  obtain ⟨rest, hold, hnew⟩ := takeFront_perm h ho qty
  refine h.of_sublist [o] (remainder qty o) rest hold hnew ?_ ?_ ?_ ?_
  · intro t
    by_cases ht : t = s
    · subst t
      rw [(levels_takeFront b s qty o).1]
      exact takeFront_sideValid (h.side s) ho hqty
    · rw [eq_opposite_of_ne (Ne.symm ht), (levels_takeFront b s qty o).2]
      exact h.side s.opposite
  · unfold remainder
    split <;> simp [place]
  · intro id hid
    rw [orderLoc_takeFront]
    split
    · rename_i hq
      have hne : id ≠ o.id := by simpa [remainder, hq] using hid
      rw [Function.update_of_ne hne]
    · rfl
  · intro id hid hno
    have he : id = o.id := by simpa using hid
    rw [orderLoc_takeFront]
    split
    · simp [he]
    · rename_i hq
      simp [remainder, hq, he] at hno

end OrderMatching.BookUpdates
