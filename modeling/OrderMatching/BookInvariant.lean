import Mathlib.Data.List.Perm.Basic
import OrderMatching.Book

namespace OrderMatching.BookInvariant

open OrderMatching.Orders OrderMatching.Book OrderMatching.Loop

structure LevelValid (s : Side) (lvl : PriceLevel) : Prop where
  nonempty : lvl.orders ≠ []
  total : lvl.totalQty = quantities lvl.orders
  member : ∀ o ∈ lvl.orders, o.priceTicks = lvl.priceTicks ∧ o.side = s ∧ o.kind = .limit

structure SideValid (s : Side) (ls : List PriceLevel) : Prop where
  sorted : KeyedList.Sorted (levelKey s) ls
  level : ∀ lvl ∈ ls, LevelValid s lvl

/-- The representation invariant: both vectors sorted best price first, every
level sound, no id resting twice and the location map exact. -/
structure Valid (b : OrderBook) : Prop where
  side : ∀ s, SideValid s (b.levels s)
  nodup : (b.allOrders.map Order.id).Nodup
  locSome : ∀ o ∈ b.allOrders, b.orderLoc o.id = some (o.side, o.priceTicks)
  locNone : ∀ id, (∀ o ∈ b.allOrders, o.id ≠ id) → b.orderLoc id = none

theorem valid_empty : Valid OrderBook.empty where
  side s := by cases s <;> exact ⟨List.Pairwise.nil, by simp [OrderBook.levels, OrderBook.empty]⟩
  nodup := List.nodup_nil
  locSome := by simp [OrderBook.allOrders, OrderBook.empty, sideOrders]
  locNone _ _ := rfl

@[simp] theorem levels_setLevels (b : OrderBook) (s : Side) (ls : List PriceLevel) :
    (b.setLevels s ls).levels s = ls := by cases s <;> rfl

@[simp] theorem levels_setLevels_opposite (b : OrderBook) (s : Side) (ls : List PriceLevel) :
    (b.setLevels s ls).levels s.opposite = b.levels s.opposite := by cases s <;> rfl

@[simp] theorem orderLoc_setLevels (b : OrderBook) (s : Side) (ls : List PriceLevel) :
    (b.setLevels s ls).orderLoc = b.orderLoc := by cases s <;> rfl

@[simp] theorem levels_setLoc (b : OrderBook) (id : Nat) (loc : Option (Side × Int)) (s : Side) :
    (b.setLoc id loc).levels s = b.levels s := by cases s <;> rfl

@[simp] theorem orderLoc_setLoc (b : OrderBook) (id : Nat) (loc : Option (Side × Int)) :
    (b.setLoc id loc).orderLoc = Function.update b.orderLoc id loc := rfl

theorem levels_setLevels_ne (b : OrderBook) {s t : Side} (ls : List PriceLevel) (h : t ≠ s) :
    (b.setLevels s ls).levels t = b.levels t := by
  cases s <;> cases t <;> first | rfl | exact absurd rfl h

theorem mem_allOrders {b : OrderBook} {o : Order} :
    o ∈ b.allOrders ↔ ∃ s, o ∈ sideOrders (b.levels s) := by
  simp only [OrderBook.allOrders, List.mem_append]
  refine ⟨fun h => h.elim (fun h => ⟨.bid, h⟩) (fun h => ⟨.ask, h⟩), ?_⟩
  rintro ⟨s, h⟩
  cases s with
  | bid => exact Or.inl h
  | ask => exact Or.inr h

theorem allOrders_perm (b : OrderBook) (s : Side) :
    b.allOrders.Perm (sideOrders (b.levels s) ++ sideOrders (b.levels s.opposite)) := by
  cases s with
  | bid => exact List.Perm.refl _
  | ask => exact List.perm_append_comm

@[simp] theorem sideOrders_append (ls ms : List PriceLevel) :
    sideOrders (ls ++ ms) = sideOrders ls ++ sideOrders ms := by simp [sideOrders]

@[simp] theorem sideOrders_cons (lvl : PriceLevel) (ls : List PriceLevel) :
    sideOrders (lvl :: ls) = lvl.orders ++ sideOrders ls := by simp [sideOrders]

@[simp] theorem sideOrders_nil : sideOrders [] = [] := rfl

theorem SideValid.mem {s : Side} {ls : List PriceLevel} (h : SideValid s ls) {o : Order}
    (ho : o ∈ sideOrders ls) : o.side = s ∧ o.kind = .limit := by
  obtain ⟨lvl, hl, ho⟩ := List.mem_flatMap.mp ho
  exact ((h.level lvl hl).member o ho).2

def levelOrders (lvl : Option PriceLevel) : List Order := lvl.elim [] PriceLevel.orders

theorem sideOrders_toList (lvl : Option PriceLevel) :
    sideOrders lvl.toList = levelOrders lvl := by
  cases lvl <;> simp [levelOrders, sideOrders]

@[simp] theorem levelOrders_dropEmpty (lvl : PriceLevel) :
    levelOrders (dropEmpty lvl) = lvl.orders := by
  unfold dropEmpty
  split <;> simp_all [levelOrders]

theorem SideValid.alter {s : Side} {ls : List PriceLevel} (h : SideValid s ls) {price : Int}
    {f : Option PriceLevel → Option PriceLevel}
    (hf : ∀ lvl ∈ f (KeyedList.find (levelKey s) (rank s price) ls),
      lvl.priceTicks = price ∧ LevelValid s lvl) :
    SideValid s (KeyedList.alter (levelKey s) (rank s price) f ls) where
  sorted := KeyedList.sorted_alter h.sorted fun lvl hl => by rw [levelKey, (hf lvl hl).1]
  level lvl hl := by
    obtain hl | hl := KeyedList.mem_alter h.sorted hl
    · exact h.level lvl hl
    · exact (hf lvl hl).2

theorem sideOrders_alter {s : Side} {ls : List PriceLevel} (h : SideValid s ls) (price : Int) :
    ∃ pre post, sideOrders ls =
        pre ++ (levelOrders (KeyedList.find (levelKey s) (rank s price) ls) ++ post) ∧
      ∀ f, sideOrders (KeyedList.alter (levelKey s) (rank s price) f ls) =
        pre ++ (levelOrders (f (KeyedList.find (levelKey s) (rank s price) ls)) ++ post) := by
  obtain ⟨pre, post, he, -, -, halt⟩ := KeyedList.alter_split h.sorted (rank s price)
  refine ⟨sideOrders pre, sideOrders post, ?_, fun f => ?_⟩
  · conv_lhs => rw [he]
    rw [sideOrders_append, sideOrders_append, sideOrders_toList]
  · rw [halt f, sideOrders_append, sideOrders_append, sideOrders_toList]

theorem Valid.of_perm {b b' : OrderBook} (h : Valid b) (old new rest : List Order)
    (hold : b.allOrders.Perm (old ++ rest)) (hnew : b'.allOrders.Perm (new ++ rest))
    (hside : ∀ s, SideValid s (b'.levels s)) (hids : ((new ++ rest).map Order.id).Nodup)
    (hrest : ∀ o ∈ rest, b'.orderLoc o.id = b.orderLoc o.id)
    (hnewLoc : ∀ o ∈ new, b'.orderLoc o.id = some (o.side, o.priceTicks))
    (hgone : ∀ id, (∀ o ∈ new ++ rest, o.id ≠ id) → b'.orderLoc id = none) : Valid b' where
  side := hside
  nodup := (hnew.map Order.id).nodup_iff.mpr hids
  locSome o ho := by
    obtain ho | ho := List.mem_append.mp (hnew.mem_iff.mp ho)
    · exact hnewLoc o ho
    · rw [hrest o ho]
      exact h.locSome o (hold.mem_iff.mpr (List.mem_append_right old ho))
  locNone id hid := hgone id fun o ho => hid o (hnew.mem_iff.mpr ho)

def place (o : Order) : Nat × Side × Int := (o.id, o.side, o.priceTicks)

/-- Fills, cancels and quantity changes only drop orders or cut into them, and
the location map forgets exactly the ids that are dropped. -/
theorem Valid.of_sublist {b b' : OrderBook} (h : Valid b) (old new rest : List Order)
    (hold : b.allOrders.Perm (old ++ rest)) (hnew : b'.allOrders.Perm (new ++ rest))
    (hside : ∀ s, SideValid s (b'.levels s)) (hsub : (new.map place).Sublist (old.map place))
    (hkeep : ∀ id, id ∉ old.map Order.id ∨ id ∈ new.map Order.id → b'.orderLoc id = b.orderLoc id)
    (hgone : ∀ id ∈ old.map Order.id, id ∉ new.map Order.id → b'.orderLoc id = none) :
    Valid b' := by
  have hids : (new.map Order.id).Sublist (old.map Order.id) := by
    simpa [Function.comp_def, place] using hsub.map Prod.fst
  have hnodup := (hold.map Order.id).nodup_iff.mp h.nodup
  rw [List.map_append] at hnodup
  refine h.of_perm old new rest hold hnew hside ?_ ?_ ?_ ?_
  · rw [List.map_append]
    exact hnodup.sublist (hids.append (List.Sublist.refl _))
  · intro o ho
    refine hkeep o.id (Or.inl fun hm => ?_)
    exact (List.nodup_append.mp hnodup).2.2 o.id hm o.id (List.mem_map_of_mem ho) rfl
  · intro o ho
    obtain ⟨x, hx, hxo⟩ := List.mem_map.mp (hsub.mem (List.mem_map_of_mem ho))
    simp only [place, Prod.mk.injEq] at hxo
    obtain ⟨hi, hs, hp⟩ := hxo
    rw [hkeep o.id (Or.inr (List.mem_map_of_mem ho)), ← hi, ← hs, ← hp]
    exact h.locSome x (hold.mem_iff.mpr (List.mem_append_left rest hx))
  · intro id hid
    have hn : id ∉ new.map Order.id := fun hm => by
      obtain ⟨x, hx, hxi⟩ := List.mem_map.mp hm
      exact hid x (List.mem_append_left rest hx) hxi
    by_cases ho : id ∈ old.map Order.id
    · exact hgone id ho hn
    · rw [hkeep id (Or.inl ho)]
      refine h.locNone id fun o hm => ?_
      obtain hm | hm := List.mem_append.mp (hold.mem_iff.mp hm)
      · exact fun hi => ho (hi ▸ List.mem_map_of_mem hm)
      · exact hid o (List.mem_append_right new hm)

theorem alterLevel_perm {b : OrderBook} (h : Valid b) (s : Side) (price : Int) :
    ∃ rest, b.allOrders.Perm (levelOrders (b.levelAt s price) ++ rest) ∧
      ∀ f, (b.alterLevel s price f).allOrders.Perm
        (levelOrders (f (b.levelAt s price)) ++ rest) := by
  obtain ⟨pre, post, he, halt⟩ := sideOrders_alter (h.side s) price
  refine ⟨pre ++ post ++ sideOrders (b.levels s.opposite), ?_, fun f => ?_⟩
  · refine (allOrders_perm b s).trans ?_
    rw [he]
    simpa [OrderBook.levelAt] using List.perm_append_comm_assoc pre _ _
  · refine (allOrders_perm _ s).trans ?_
    simp only [OrderBook.alterLevel, levels_setLevels, levels_setLevels_opposite, halt f]
    simpa [OrderBook.levelAt] using List.perm_append_comm_assoc pre _ _

theorem alterLevel_side {b : OrderBook} (h : Valid b) {s : Side} {price : Int}
    {f : Option PriceLevel → Option PriceLevel}
    (hf : ∀ lvl ∈ f (b.levelAt s price), lvl.priceTicks = price ∧ LevelValid s lvl) (t : Side) :
    SideValid t ((b.alterLevel s price f).levels t) := by
  by_cases ht : t = s
  · subst t
    simpa [OrderBook.alterLevel] using (h.side s).alter hf
  · rw [OrderBook.alterLevel, levels_setLevels_ne b _ ht]
    exact h.side t

theorem levelAt_valid {b : OrderBook} (h : Valid b) {s : Side} {price : Int} {lvl : PriceLevel}
    (hl : b.levelAt s price = some lvl) : lvl.priceTicks = price ∧ LevelValid s lvl := by
  have hk : levelKey s lvl = rank s price := KeyedList.key_find hl
  exact ⟨rank_inj.mp hk, (h.side s).level lvl (KeyedList.mem_find hl)⟩

@[simp] theorem orderLoc_alterLevel (b : OrderBook) (s : Side) (price : Int)
    (f : Option PriceLevel → Option PriceLevel) :
    (b.alterLevel s price f).orderLoc = b.orderLoc := by simp [OrderBook.alterLevel]

@[simp] theorem allOrders_setLoc (b : OrderBook) (id : Nat) (loc : Option (Side × Int)) :
    (b.setLoc id loc).allOrders = b.allOrders := rfl

theorem levelOrders_pushBack (o : Order) (lvl : Option PriceLevel) :
    levelOrders (pushBack o lvl) = levelOrders lvl ++ [o] := by
  cases lvl <;> simp [levelOrders, pushBack]

theorem pushBack_valid {s : Side} {o : Order} (hs : o.side = s) (hk : o.kind = .limit)
    {lvl : Option PriceLevel} (h : ∀ l ∈ lvl, l.priceTicks = o.priceTicks ∧ LevelValid s l) :
    ∀ l ∈ pushBack o lvl, l.priceTicks = o.priceTicks ∧ LevelValid s l := by
  cases lvl with
  | none =>
    simp only [pushBack, Option.mem_some, forall_eq']
    exact ⟨trivial, by simp, by simp [quantities], by simp [hs, hk]⟩
  | some lvl =>
    obtain ⟨hp, hl⟩ := h lvl rfl
    simp only [pushBack, Option.mem_some, forall_eq']
    refine ⟨hp, by simp, by simp [quantities, hl.total], ?_⟩
    intro x hx
    obtain hx | hx := List.mem_append.mp hx
    · exact hl.member x hx
    · rw [List.mem_singleton.mp hx]
      exact ⟨hp.symm, hs, hk⟩

theorem addOrder_perm {b : OrderBook} (h : Valid b) {o : Order} (hk : o.kind = .limit) :
    (b.addOrder o).allOrders.Perm ([o] ++ b.allOrders) := by
  obtain ⟨rest, hold, hnew⟩ := alterLevel_perm h o.side o.priceTicks
  have hn := hnew (pushBack o)
  rw [levelOrders_pushBack, List.append_assoc] at hn
  simp only [OrderBook.addOrder, hk, ne_eq, not_true_eq_false, if_false, allOrders_setLoc]
  exact hn.trans ((List.perm_append_comm_assoc _ _ _).trans (hold.symm.append_left [o]))

theorem addOrder_valid {b : OrderBook} (h : Valid b) (o : Order)
    (hfresh : ∀ r ∈ b.allOrders, r.id ≠ o.id) : Valid (b.addOrder o) := by
  by_cases hk : o.kind = .limit
  · have hloc : (b.addOrder o).orderLoc =
        Function.update b.orderLoc o.id (some (o.side, o.priceTicks)) := by
      simp [OrderBook.addOrder, hk]
    refine h.of_perm [] [o] b.allOrders (List.Perm.refl _) (addOrder_perm h hk) ?_ ?_ ?_ ?_ ?_
    · intro t
      simp only [OrderBook.addOrder, hk, ne_eq, not_true_eq_false, if_false, levels_setLoc]
      exact alterLevel_side h (pushBack_valid rfl hk fun l hl => levelAt_valid h hl) t
    · simpa [h.nodup] using fun r hr => (hfresh r hr)
    · intro r hr
      rw [hloc, Function.update_of_ne (hfresh r hr)]
    · simp [hloc]
    · intro id hid
      have hne : id ≠ o.id := fun he => hid o (by simp) he.symm
      rw [hloc, Function.update_of_ne hne]
      exact h.locNone id fun r hr => hid r (by simp [hr])
  · simpa [OrderBook.addOrder, hk] using h

end OrderMatching.BookInvariant
