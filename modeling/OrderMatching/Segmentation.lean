import Mathlib.Data.List.Basic

namespace OrderMatching.Segmentation

variable {α φ : Type}

/-- What a stream begins with: a piece of so many symbols, nothing whole yet, or
something that no further symbol can mend. -/
inductive Head (φ : Type) where
  | piece (f : φ) (size : Nat)
  | more
  | broken

/-- A way to cut a stream into pieces that never takes back what it found: what
follows a piece, or a broken place, does not matter to it. -/
structure Cutter (α φ : Type) where
  head : List α → Head φ
  size_pos : ∀ {s f n}, head s = .piece f n → 0 < n ∧ n ≤ s.length
  piece_append : ∀ {s f n}, head s = .piece f n → ∀ t, head (s ++ t) = .piece f n
  broken_append : ∀ {s}, head s = .broken → ∀ t, head (s ++ t) = .broken

/-- A stream taken apart: its pieces, whether it is broken, and what no piece
holds. -/
structure Parsed (α φ : Type) where
  pieces : List φ
  broken : Bool
  rest : List α

def Parsed.after (f : φ) (p : Parsed α φ) : Parsed α φ := { p with pieces := f :: p.pieces }

namespace Cutter

variable (c : Cutter α φ)

def parse (s : List α) : Parsed α φ :=
  match _hs : c.head s with
  | .more => ⟨[], false, s⟩
  | .broken => ⟨[], true, s⟩
  | .piece f n => (parse (s.drop n)).after f
termination_by s.length
decreasing_by
  have := c.size_pos _hs
  rw [List.length_drop]
  omega

variable {c}

theorem parse_more {s : List α} (h : c.head s = .more) : c.parse s = ⟨[], false, s⟩ := by
  rw [parse]
  split <;> simp_all

theorem parse_broken {s : List α} (h : c.head s = .broken) : c.parse s = ⟨[], true, s⟩ := by
  rw [parse]
  split <;> simp_all

theorem parse_piece {s : List α} {f : φ} {n : Nat} (h : c.head s = .piece f n) :
    c.parse s = (c.parse (s.drop n)).after f := by
  rw [parse]
  split <;> simp_all

variable (c)

/-- A stream is taken apart piece by piece: the induction that follows
`parse`. -/
theorem parse_induction {P : List α → Prop} (hmore : ∀ s, c.head s = .more → P s)
    (hbroken : ∀ s, c.head s = .broken → P s)
    (hpiece : ∀ s f n, c.head s = .piece f n → P (s.drop n) → P s) (s : List α) : P s := by
  induction hl : s.length using Nat.strongRecOn generalizing s with
  | ind l ih =>
    cases h : c.head s with
    | more => exact hmore s h
    | broken => exact hbroken s h
    | piece f n =>
      have hn := c.size_pos h
      apply hpiece s f n h
      exact ih (s.drop n).length (by rw [List.length_drop]; omega) _ rfl

theorem head_rest (s : List α) :
    c.head (c.parse s).rest = if (c.parse s).broken then .broken else .more := by
  induction s using c.parse_induction with
  | hmore s h => simp [parse_more h, h]
  | hbroken s h => simp [parse_broken h, h]
  | hpiece s f n h ih =>
    rw [parse_piece h]
    exact ih

theorem rest_suffix (s : List α) : (c.parse s).rest <:+ s := by
  induction s using c.parse_induction with
  | hmore s h => simp [parse_more h]
  | hbroken s h => simp [parse_broken h]
  | hpiece s f n h ih =>
    rw [parse_piece h]
    exact ih.trans (List.drop_suffix n s)

/-- More of a stream: the pieces stay, and the rest of what was there goes on
with what comes. -/
theorem parse_append {s : List α} (hs : (c.parse s).broken = false) (t : List α) :
    c.parse (s ++ t) =
      ⟨(c.parse s).pieces ++ (c.parse ((c.parse s).rest ++ t)).pieces,
        (c.parse ((c.parse s).rest ++ t)).broken, (c.parse ((c.parse s).rest ++ t)).rest⟩ := by
  induction s using c.parse_induction with
  | hmore s h => simp [parse_more h]
  | hbroken s h => simp [parse_broken h] at hs
  | hpiece s f n h ih =>
    rw [parse_piece h] at hs
    rw [parse_piece (c.piece_append h t), parse_piece h,
      List.drop_append_of_le_length (c.size_pos h).2, ih hs]
    rfl

theorem parse_append_of_broken {s : List α} (hs : (c.parse s).broken = true) (t : List α) :
    (c.parse (s ++ t)).pieces = (c.parse s).pieces ∧ (c.parse (s ++ t)).broken = true := by
  induction s using c.parse_induction with
  | hmore s h => simp [parse_more h] at hs
  | hbroken s h => simp [parse_broken h, parse_broken (c.broken_append h t)]
  | hpiece s f n h ih =>
    rw [parse_piece h] at hs
    rw [parse_piece (c.piece_append h t), parse_piece h,
      List.drop_append_of_le_length (c.size_pos h).2]
    exact ⟨congrArg (f :: ·) (ih hs).1, (ih hs).2⟩

theorem not_broken_of_prefix {s t : List α} (hst : s <+: t) (ht : (c.parse t).broken = false) :
    (c.parse s).broken = false := by
  obtain ⟨u, rfl⟩ := hst
  by_contra hs
  have hbroken := (c.parse_append_of_broken (by simpa using hs) u).2
  rw [ht] at hbroken
  exact Bool.false_ne_true hbroken

theorem parse_flatMap {β : Type} {enc : β → List α} {piece : β → φ} {bs : List β}
    (hhead : ∀ b ∈ bs, c.head (enc b) = .piece (piece b) (enc b).length)
    (hnil : c.head [] = .more) :
    c.parse (bs.flatMap enc) = ⟨bs.map piece, false, []⟩ := by
  induction bs with
  | nil => exact parse_more hnil
  | cons b bs ih =>
    have hb := c.piece_append (hhead b List.mem_cons_self) (bs.flatMap enc)
    rw [List.flatMap_cons, parse_piece hb, List.drop_left,
      ih fun b' hb' => hhead b' (List.mem_cons_of_mem b hb')]
    rfl

inductive Left (c : Cutter α φ) : List α → List φ → List α → Prop where
  | all (s : List α) : c.Left s [] s
  | piece {s u : List α} {f : φ} {n : Nat} {fs : List φ} (h : c.head s = .piece f n)
      (hrest : c.Left (s.drop n) fs u) :
    c.Left s (f :: fs) u

variable {c} {s u : List α} {fs : List φ}

theorem Left.append (h : c.Left s fs u) (t : List α) : c.Left (s ++ t) fs (u ++ t) := by
  induction h with
  | all s => exact .all (s ++ t)
  | piece h hrest ih =>
    refine .piece (c.piece_append h t) ?_
    rwa [List.drop_append_of_le_length (c.size_pos h).2]

theorem Left.next (h : c.Left s fs u) {f : φ} {n : Nat} (hu : c.head u = .piece f n) :
    c.Left s (fs ++ [f]) (u.drop n) := by
  induction h with
  | all s => exact .piece hu (.all _)
  | piece h hrest ih => exact .piece h (ih hu)

theorem Left.parse (h : c.Left s fs u) :
    (c.parse s).pieces = fs ++ (c.parse u).pieces ∧ (c.parse s).broken = (c.parse u).broken := by
  induction h with
  | all s => exact ⟨rfl, rfl⟩
  | piece h hrest ih =>
    rw [parse_piece h]
    exact ⟨congrArg (_ :: ·) ih.1, ih.2⟩

end Cutter

end OrderMatching.Segmentation
