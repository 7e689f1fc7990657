import Mathlib.Data.List.Basic

namespace OrderMatching.Delimited

variable {α : Type} [DecidableEq α] (d : α)

/-- The pieces that repeated calls of `std::getline` take from a text. A
delimiter at the very end starts no further piece. -/
def pieces : List α → List (List α)
  | [] => []
  | c :: cs =>
    if c = d then [] :: pieces cs
    else
      match pieces cs with
      | [] => [[c]]
      | p :: ps => (c :: p) :: ps

variable {d}

theorem pieces_append {p : List α} (hp : d ∉ p) (rest : List α) :
    pieces d (p ++ d :: rest) = p :: pieces d rest := by
  induction p with
  | nil => simp [pieces]
  | cons c p ih =>
    obtain ⟨hc, hp⟩ := not_or.mp (mt List.mem_cons.mpr hp)
    rw [List.cons_append, pieces, if_neg (Ne.symm hc), ih hp]

theorem pieces_single {p : List α} (hp : d ∉ p) (hne : p ≠ []) : pieces d p = [p] := by
  induction p with
  | nil => exact absurd rfl hne
  | cons c p ih =>
    obtain ⟨hc, hp⟩ := not_or.mp (mt List.mem_cons.mpr hp)
    rw [pieces, if_neg (Ne.symm hc)]
    cases p with
    | nil => rfl
    | cons b p => rw [ih hp (List.cons_ne_nil b p)]

theorem pieces_terminated {ps : List (List α)} (h : ∀ p ∈ ps, d ∉ p) :
    pieces d (ps.flatMap (· ++ [d])) = ps := by
  induction ps with
  | nil => rfl
  | cons p ps ih =>
    rw [List.flatMap_cons, List.append_assoc, List.singleton_append, pieces_append (h p (by simp)),
      ih fun q hq => h q (by simp [hq])]

/-- Fields with the delimiter between them come back as they were, unless the
last one is empty. -/
theorem pieces_intercalate {ps : List (List α)} (h : ∀ p ∈ ps, d ∉ p)
    (hlast : ∀ p ∈ ps.getLast?, p ≠ []) :
    pieces d ([d].intercalate ps) = ps := by
  induction ps with
  | nil => rfl
  | cons p ps ih =>
    cases ps with
    | nil =>
      rw [List.intercalate_singleton]
      exact pieces_single (h p (by simp)) (hlast p rfl)
    | cons q qs =>
      rw [List.intercalate_cons_cons, List.append_assoc, List.singleton_append,
        pieces_append (h p (by simp)), ih (fun r hr => h r (by simp [hr])) hlast]

omit [DecidableEq α] in
theorem mem_intercalate {c : α} {p : List α} {ps : List (List α)} (hp : p ∈ ps) (hc : c ∈ p) :
    c ∈ [d].intercalate ps := by
  induction ps with
  | nil => cases hp
  | cons q ps ih =>
    cases ps with
    | nil =>
      obtain rfl := List.mem_singleton.mp hp
      rwa [List.intercalate_singleton]
    | cons r rs =>
      rw [List.intercalate_cons_cons]
      obtain rfl | hp := List.mem_cons.mp hp
      · simp [hc]
      · exact List.mem_append_right _ (ih hp)

omit [DecidableEq α] in
theorem not_mem_intercalate {e : α} {ps : List (List α)} (hd : e ≠ d) (h : ∀ p ∈ ps, e ∉ p) :
    e ∉ [d].intercalate ps := by
  induction ps with
  | nil => simp
  | cons p ps ih =>
    cases ps with
    | nil =>
      rw [List.intercalate_singleton]
      exact h p (by simp)
    | cons q qs =>
      have hrest := ih fun r hr => h r (by simp [hr])
      rw [List.intercalate_cons_cons]
      simp [h p (by simp), hd, hrest]

end OrderMatching.Delimited
