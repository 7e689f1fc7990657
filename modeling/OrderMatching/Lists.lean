import Mathlib.Data.List.Basic
import Mathlib.Data.List.Perm.Basic
import Mathlib.Data.List.TakeWhile
import Mathlib.Order.Lattice

namespace OrderMatching.Lists

variable {α β : Type}

theorem split_at {l : List α} {i : Nat} {a : α} (hi : l[i]? = some a) :
    l = l.take i ++ a :: l.drop (i + 1) := by
  obtain ⟨hlen, rfl⟩ := List.getElem?_eq_some_iff.mp hi
  rw [← List.drop_eq_getElem_cons hlen, List.take_append_drop]

theorem mem_drop_at {l : List α} {i : Nat} {a b : α} (hi : l[i]? = some a) (hb : b ∈ l.drop i) :
    b = a ∨ b ∈ l.drop (i + 1) := by
  obtain ⟨hlen, rfl⟩ := List.getElem?_eq_some_iff.mp hi
  rw [List.drop_eq_getElem_cons hlen] at hb
  exact List.mem_cons.mp hb

theorem drop_eraseIdx {l : List α} {i : Nat} (hi : i < l.length) :
    (l.eraseIdx i).drop i = l.drop (i + 1) := by
  rw [List.eraseIdx_eq_take_drop_succ, List.drop_left' (List.length_take_of_le hi.le)]

theorem concat_split {l pre post : List α} {a b : α} (h : l ++ [a] = pre ++ b :: post) :
    (pre = l ∧ b = a) ∨ ∃ post', l = pre ++ b :: post' := by
  obtain rfl | ⟨post', c, rfl⟩ := List.eq_nil_or_concat post
  · obtain ⟨hpre, hlast⟩ := List.append_inj' h rfl
    exact Or.inl ⟨hpre.symm, (List.cons.inj hlast).1.symm⟩
  · rw [List.concat_eq_append, ← List.cons_append, ← List.append_assoc] at h
    exact Or.inr ⟨post', (List.append_inj' h rfl).1⟩

theorem filter_split {p : α → Bool} {l pre post : List α} {a : α}
    (h : l.filter p = pre ++ a :: post) :
    ∃ pre' post', l = pre' ++ a :: post' ∧ pre'.filter p = pre := by
  obtain ⟨l₁, l₂, rfl, h₁, h₂⟩ := List.filter_eq_append_iff.mp h
  obtain ⟨m₁, m₂, rfl, hm, -, -⟩ := List.filter_eq_cons_iff.mp h₂
  refine ⟨l₁ ++ m₁, m₂, by simp, ?_⟩
  rw [List.filter_append, h₁, List.filter_eq_nil_iff.mpr hm, List.append_nil]

theorem mapM_length {g : α → Option β} {as : List α} {bs : List β} (h : as.mapM g = some bs) :
    bs.length = as.length ∧ ∀ b ∈ bs, ∃ a ∈ as, g a = some b := by
  induction as generalizing bs with
  | nil =>
    obtain rfl : [] = bs := by simpa using h
    simp
  | cons a as ih =>
    rw [List.mapM_cons] at h
    obtain ⟨b, hb, h⟩ := Option.bind_eq_some_iff.mp h
    obtain ⟨bs', hbs', h⟩ := Option.bind_eq_some_iff.mp h
    obtain rfl := Option.some.inj h
    obtain ⟨hlen, hmem⟩ := ih hbs'
    refine ⟨by simp [hlen], fun c hc => ?_⟩
    obtain rfl | hc := List.mem_cons.mp hc
    · exact ⟨a, by simp, hb⟩
    · obtain ⟨a', ha', hg⟩ := hmem c hc
      exact ⟨a', List.mem_cons_of_mem a ha', hg⟩

theorem takeWhile_ne_self [DecidableEq α] {l : List α} {d : α} (h : d ∉ l) :
    l.takeWhile (· ≠ d) = l :=
  List.takeWhile_eq_self_iff.mpr fun _ ha => decide_eq_true fun heq => h (heq ▸ ha)

theorem takeWhile_ne_append [DecidableEq α] {l : List α} {d : α} (h : d ∉ l) (rest : List α) :
    (l ++ d :: rest).takeWhile (· ≠ d) = l ∧ (l ++ d :: rest).dropWhile (· ≠ d) = d :: rest := by
  induction l with
  | nil => simp
  | cons a l ih =>
    have hne : a ≠ d := fun heq => h (heq ▸ List.mem_cons_self)
    obtain ⟨htake, hdrop⟩ := ih fun hmem => h (List.mem_cons_of_mem a hmem)
    refine ⟨?_, ?_⟩
    · rw [List.cons_append, List.takeWhile_cons_of_pos (by simpa using hne), htake]
    · rw [List.cons_append, List.dropWhile_cons_of_pos (by simpa using hne), hdrop]

theorem perm_cons_filter [DecidableEq α] {l : List (α × β)} (hnodup : (l.map Prod.fst).Nodup)
    {e : α × β} (he : e ∈ l) : l.Perm (e :: l.filter (fun x => x.1 ≠ e.1)) := by
  induction l with
  | nil => cases he
  | cons a l ih =>
    obtain ⟨hnew, hrest⟩ := List.nodup_cons.mp hnodup
    obtain rfl | he := List.mem_cons.mp he
    · have hall : l.filter (fun x => x.1 ≠ e.1) = l := by
        apply List.filter_eq_self.mpr
        intro x hx
        exact decide_eq_true fun heq => hnew (heq ▸ List.mem_map_of_mem hx)
      rw [List.filter_cons_of_neg (by simp), hall]
    · have hne : a.1 ≠ e.1 := fun heq => hnew (heq ▸ List.mem_map_of_mem he)
      rw [List.filter_cons_of_pos (by simpa using hne)]
      exact ((ih hrest he).cons a).trans (.swap ..)

/-- Removes the element at a position of a vector whose order does not matter:
the last element takes its place. -/
def swapRemove (l : List α) (i : Nat) : List α :=
  match l.getLast? with
  | none => l
  | some x => (l.set i x).dropLast

section Order

variable {K : Type} [LinearOrder K] {l : List K} {i : Nat} {a b : K}

theorem lt_of_mem_take (h : l.Pairwise (· < ·)) (hi : l[i]? = some a) (hb : b ∈ l.take i) :
    b < a := by
  rw [split_at hi] at h
  exact (List.pairwise_append.mp h).2.2 b hb a List.mem_cons_self

theorem lt_of_mem_drop (h : l.Pairwise (· < ·)) (hi : l[i]? = some a) (hb : b ∈ l.drop (i + 1)) :
    a < b := by
  rw [split_at hi] at h
  exact (List.pairwise_cons.mp (List.pairwise_append.mp h).2.1).1 b hb

theorem not_mem_drop (h : l.Pairwise (· < ·)) (hi : l[i]? = some a) : a ∉ l.drop (i + 1) :=
  fun hmem => lt_irrefl a (lt_of_mem_drop h hi hmem)

theorem mem_eraseIdx (h : l.Pairwise (· < ·)) (hi : l[i]? = some a) (b : K) :
    b ∈ l.eraseIdx i ↔ b ∈ l ∧ b ≠ a := by
  have hmem : b ∈ l ↔ b ∈ l.take i ∨ b = a ∨ b ∈ l.drop (i + 1) := by
    conv_lhs => rw [split_at hi]
    simp
  rw [List.eraseIdx_eq_take_drop_succ, List.mem_append, hmem]
  constructor
  · rintro (hb | hb)
    · exact ⟨Or.inl hb, (lt_of_mem_take h hi hb).ne⟩
    · exact ⟨Or.inr (Or.inr hb), (lt_of_mem_drop h hi hb).ne'⟩
  · rintro ⟨hb | hb | hb, hne⟩
    · exact Or.inl hb
    · exact absurd hb hne
    · exact Or.inr hb

/-- The first `n` members of a set, in order: all of them if there are fewer. -/
structure IsTop (n : Nat) (S : K → Prop) (xs : List K) : Prop where
  sorted : xs.Pairwise (· < ·)
  mem : ∀ x ∈ xs, S x
  short : xs.length ≤ n
  first : ∀ y, S y → y ∉ xs → xs.length = n ∧ ∀ x ∈ xs, x < y

theorem IsTop.tail {n : Nat} {S : K → Prop} {x : K} {xs : List K} (h : IsTop (n + 1) S (x :: xs)) :
    IsTop n (fun y => S y ∧ y ≠ x) xs where
  sorted := (List.pairwise_cons.mp h.sorted).2
  mem y hy := ⟨h.mem y (List.mem_cons_of_mem x hy), ((List.pairwise_cons.mp h.sorted).1 y hy).ne'⟩
  short := Nat.le_of_succ_le_succ h.short
  first y hy hne := by
    obtain ⟨hlen, hlt⟩ := h.first y hy.1 (by simp [hy.2, hne])
    exact ⟨Nat.succ.inj hlen, fun z hz => hlt z (List.mem_cons_of_mem x hz)⟩

theorem IsTop.le {n : Nat} {S : K → Prop} {x : K} {xs : List K} (h : IsTop n S (x :: xs)) {y : K}
    (hy : S y) :
    x ≤ y := by
  by_cases hmem : y ∈ x :: xs
  · obtain rfl | hmem := List.mem_cons.mp hmem
    · exact le_refl _
    · exact ((List.pairwise_cons.mp h.sorted).1 y hmem).le
  · exact ((h.first y hy hmem).2 x (by simp)).le

theorem IsTop.nil {n : Nat} {S : K → Prop} (h : IsTop n S []) {ys : List K} (hys : IsTop n S ys) :
    ys = [] := by
  cases ys with
  | nil => rfl
  | cons y ys =>
    obtain ⟨hlen, -⟩ := h.first y (hys.mem y (by simp)) (by simp)
    have hshort := hys.short
    simp only [List.length_nil] at hlen
    simp [← hlen] at hshort

/-- There is only one such list. -/
theorem IsTop.unique {n : Nat} {S : K → Prop} {xs ys : List K} (hxs : IsTop n S xs)
    (hys : IsTop n S ys) :
    xs = ys := by
  induction xs generalizing n S ys with
  | nil => exact (hxs.nil hys).symm
  | cons x xs ih =>
    cases ys with
    | nil => exact absurd (hys.nil hxs) (List.cons_ne_nil x xs)
    | cons y ys =>
      have hle : x ≤ y := hxs.le (hys.mem y (by simp))
      obtain rfl : x = y := le_antisymm hle (hys.le (hxs.mem x (by simp)))
      obtain ⟨m, rfl⟩ : ∃ m, n = m + 1 := Nat.exists_eq_succ_of_ne_zero fun hz => by
        have hshort := hxs.short
        simp [hz] at hshort
      rw [ih hxs.tail hys.tail]

theorem isTop_take {S : K → Prop} {xs : List K} (hsorted : xs.Pairwise (· < ·))
    (hmem : ∀ x, x ∈ xs ↔ S x) (n : Nat) :
    IsTop n S (xs.take n) where
  sorted := hsorted.sublist (List.take_sublist n xs)
  mem x hx := (hmem x).mp (List.mem_of_mem_take hx)
  short := List.length_take_le n xs
  first y hy hne := by
    have hmem := (hmem y).mpr hy
    rw [← List.take_append_drop n xs] at hmem hsorted
    obtain hmem | hmem := List.mem_append.mp hmem
    · exact absurd hmem hne
    · refine ⟨?_, fun x hx => (List.pairwise_append.mp hsorted).2.2 x hx y hmem⟩
      rw [List.length_take]
      have hlen : 0 < (xs.drop n).length := List.length_pos_of_mem hmem
      rw [List.length_drop] at hlen
      omega
end Order

end OrderMatching.Lists
