import Mathlib.Data.List.Basic
import Mathlib.Order.Lattice

namespace OrderMatching.KeyedList

variable {K α β : Type} [LinearOrder K] (key : α → K)

def Sorted (l : List α) : Prop := l.Pairwise (fun a b => key a < key b)

/-- Look a key up at its lower bound: the first element that is not ordered
before it decides. -/
def find (k : K) : List α → Option α
  | [] => none
  | a :: l => if key a < k then find k l else if key a = k then some a else none

/-- Edit the element with key `k` in place, or what is missing at its lower
bound. Answering `none` erases the element, or inserts nothing. -/
def alter (k : K) (f : Option α → Option α) : List α → List α
  | [] => (f none).toList
  | a :: l =>
    if key a < k then a :: alter k f l
    else if key a = k then (f (some a)).toList ++ l
    else (f none).toList ++ a :: l

/-- `m[key a] = a` on a sorted map. -/
def insert (a : α) (l : List α) : List α := alter key (key a) (fun _ => some a) l

variable {key}

theorem sorted_cons {a : α} {l : List α} :
    Sorted key (a :: l) ↔ (∀ b ∈ l, key a < key b) ∧ Sorted key l := List.pairwise_cons

/-- An edit of a sorted vector happens at one place, the same for every edit
of that key, and nothing else moves. -/
theorem alter_split {l : List α} (h : Sorted key l) (k : K) :
    ∃ pre post, l = pre ++ ((find key k l).toList ++ post) ∧ (∀ a ∈ pre, key a < k) ∧
      (∀ a ∈ post, k < key a) ∧
      ∀ f, alter key k f l = pre ++ ((f (find key k l)).toList ++ post) := by
  induction l with
  | nil => exact ⟨[], [], rfl, by simp, by simp, fun f => by simp [alter, find]⟩
  | cons b l ih =>
    obtain ⟨hb, hl⟩ := sorted_cons.mp h
    by_cases hlt : key b < k
    · obtain ⟨pre, post, he, hpre, hpost, halt⟩ := ih hl
      have hf : find key k (b :: l) = find key k l := by simp [find, hlt]
      rw [hf]
      refine ⟨b :: pre, post, by rw [List.cons_append, ← he], ?_, hpost, fun f => ?_⟩
      · simpa [hlt] using hpre
      · simp [alter, hlt, halt f]
    · by_cases heq : key b = k
      · refine ⟨[], l, by simp [find, heq], by simp, heq ▸ hb, fun f => ?_⟩
        simp [alter, find, heq]
      · have hgt : k < key b := lt_of_le_of_ne (not_lt.mp hlt) (Ne.symm heq)
        refine ⟨[], b :: l, by simp [find, hlt, heq], by simp, ?_, fun f => ?_⟩
        · intro a ha
          obtain rfl | ha := List.mem_cons.mp ha
          · exact hgt
          · exact hgt.trans (hb a ha)
        · simp [alter, find, hlt, heq]

theorem key_find {l : List α} {k : K} {a : α} (h : find key k l = some a) : key a = k := by
  induction l with
  | nil => cases h
  | cons b l ih =>
    simp only [find] at h
    split at h
    · exact ih h
    · split at h
      · cases h
        assumption
      · cases h

theorem mem_find {l : List α} {k : K} {a : α} (h : find key k l = some a) : a ∈ l := by
  induction l with
  | nil => cases h
  | cons b l ih =>
    simp only [find] at h
    split at h
    · exact List.mem_cons_of_mem b (ih h)
    · split at h
      · cases h
        exact List.mem_cons_self
      · cases h

theorem find_of_mem {l : List α} (h : Sorted key l) {a : α} (ha : a ∈ l) :
    find key (key a) l = some a := by
  induction l with
  | nil => cases ha
  | cons b l ih =>
    obtain ⟨hb, hl⟩ := sorted_cons.mp h
    obtain rfl | ha := List.mem_cons.mp ha
    · simp [find]
    · simp [find, hb a ha, ih hl ha]

theorem sorted_alter {l : List α} (h : Sorted key l) {k : K} {f : Option α → Option α}
    (hf : ∀ a ∈ f (find key k l), key a = k) : Sorted key (alter key k f l) := by
  obtain ⟨pre, post, he, hl, hr, halt⟩ := alter_split h k
  rw [halt f]
  rw [he] at h
  obtain ⟨hpre, hmid, -⟩ := List.pairwise_append.mp h
  obtain ⟨-, hpost, -⟩ := List.pairwise_append.mp hmid
  refine List.pairwise_append.mpr ⟨hpre, List.pairwise_append.mpr ⟨?_, hpost, ?_⟩, ?_⟩
  · cases f (find key k l) <;> simp
  · intro a ha b hb
    rw [hf a (by simpa using ha)]
    exact hr b hb
  · intro a ha b hb
    obtain hb | hb := List.mem_append.mp hb
    · rw [hf b (by simpa using hb)]
      exact hl a ha
    · exact (hl a ha).trans (hr b hb)

theorem mem_alter {l : List α} (h : Sorted key l) {k : K} {f : Option α → Option α} {a : α}
    (ha : a ∈ alter key k f l) : a ∈ l ∨ a ∈ f (find key k l) := by
  obtain ⟨pre, post, he, -, -, halt⟩ := alter_split h k
  rw [halt f] at ha
  simp only [List.mem_append, Option.mem_toList] at ha
  obtain ha | ha | ha := ha
  · exact Or.inl (he ▸ List.mem_append_left _ ha)
  · exact Or.inr ha
  · exact Or.inl (he ▸ List.mem_append_right _ (List.mem_append_right _ ha))

theorem forall_alter {P : α → Prop} {k : K} {f : Option α → Option α}
    (hf : ∀ o, (∀ a ∈ o, P a) → ∀ a ∈ f o, P a) {l : List α} (h : ∀ a ∈ l, P a) :
    ∀ a ∈ alter key k f l, P a := by
  have hnone : ∀ a ∈ f none, P a := hf none nofun
  induction l with
  | nil => simpa [alter] using hnone
  | cons b l ih =>
    obtain ⟨hb, hl⟩ := List.forall_mem_cons.mp h
    unfold alter
    split
    · exact List.forall_mem_cons.mpr ⟨hb, ih hl⟩
    · split
      · have hsome : ∀ a ∈ f (some b), P a := hf (some b) (by simpa using hb)
        simpa [List.forall_mem_append, or_imp, forall_and] using ⟨hsome, hl⟩
      · simpa [List.forall_mem_append, or_imp, forall_and] using ⟨hnone, hb, hl⟩

theorem sorted_insert {l : List α} (h : Sorted key l) (a : α) : Sorted key (insert key a l) :=
  sorted_alter h fun b hb => by rw [Option.mem_some_iff.mp hb]

theorem find_insert_self (a : α) (l : List α) : find key (key a) (insert key a l) = some a := by
  induction l with
  | nil => simp [insert, alter, find]
  | cons b l ih =>
    unfold insert alter
    split
    · simp only [find, *, if_true]
      exact ih
    · split <;> simp [find]

theorem find_insert_of_ne {a : α} {k : K} (h : k ≠ key a) (l : List α) :
    find key k (insert key a l) = find key k l := by
  induction l with
  | nil => simp [insert, alter, find, Ne.symm h]
  | cons b l ih =>
    unfold insert alter
    split
    · simp only [find]
      rw [← ih]
      rfl
    · split
      · rename_i heq
        simp [find, heq, Ne.symm h]
      · rename_i hlt heq
        have hgt : key a < key b := lt_of_le_of_ne (not_lt.mp hlt) (Ne.symm heq)
        by_cases hk : key a < k
        · simp [find, hk]
        · have hkb : k < key b := lt_of_le_of_lt (not_lt.mp hk) hgt
          simp [find, hk, Ne.symm h, hkb.not_gt, hkb.ne']

theorem map_alter {key' : β → K} {g : α → β} (hk : ∀ a, key' (g a) = key a) {k : K}
    {f : Option α → Option α} {f' : Option β → Option β}
    (hf : ∀ o, (f o).map g = f' (o.map g)) (l : List α) :
    (alter key k f l).map g = alter key' k f' (l.map g) := by
  have hl : ∀ o, (f o).toList.map g = (f' (o.map g)).toList := fun o => by
    rw [← hf o, Option.toList_map]
  induction l with
  | nil => simpa [alter] using hl none
  | cons a l ih =>
    simp only [alter, List.map_cons, hk]
    split
    · simp [ih]
    · split
      · simpa using hl (some a)
      · simpa using hl none

theorem find_map {key' : β → K} {g : α → β} (hk : ∀ a, key' (g a) = key a) (k : K) (l : List α) :
    find key' k (l.map g) = (find key k l).map g := by
  induction l with
  | nil => rfl
  | cons a l ih =>
    simp only [find, List.map_cons, hk]
    split
    · exact ih
    · split <;> rfl

end OrderMatching.KeyedList
