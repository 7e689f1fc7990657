import Mathlib.Data.List.Basic
import Mathlib.Logic.Function.Iterate

namespace OrderMatching.ShiftRegister

variable {w : Nat}

/-- One step of a shift register: to the right, with the taps put in when a one
falls out. -/
def shift (taps c : BitVec w) : BitVec w := if c.getLsbD 0 then (c >>> 1) ^^^ taps else c >>> 1

theorem getLsbD_shift (taps c : BitVec w) (i : Nat) :
    (shift taps c).getLsbD i = (c.getLsbD (i + 1) ^^ (c.getLsbD 0 && taps.getLsbD i)) := by
  unfold shift
  split
  · rename_i h
    simp [h, Nat.add_comm 1]
  · rename_i h
    simp [h, Nat.add_comm 1]

theorem shift_xor (taps a b : BitVec w) : shift taps (a ^^^ b) = shift taps a ^^^ shift taps b := by
  apply BitVec.eq_of_getLsbD_eq
  intro i _
  simp only [getLsbD_shift, BitVec.getLsbD_xor]
  cases a.getLsbD 0 <;> cases b.getLsbD 0 <;> cases a.getLsbD (i + 1) <;>
    cases b.getLsbD (i + 1) <;>
    cases taps.getLsbD i <;> rfl

theorem shift_iterate_xor (taps a b : BitVec w) (n : Nat) :
    (shift taps)^[n] (a ^^^ b) = (shift taps)^[n] a ^^^ (shift taps)^[n] b := by
  induction n generalizing a b with
  | zero => rfl
  | succ n ih => rw [Function.iterate_succ_apply, shift_xor, ih]; rfl

theorem eq_zero_of_shift {taps c : BitVec w} (htaps : taps.getLsbD (w - 1) = true)
    (h : shift taps c = 0#w) :
    c = 0#w := by
  have hbit : ∀ i, (c.getLsbD (i + 1) ^^ (c.getLsbD 0 && taps.getLsbD i)) = false := by
    intro i
    rw [← getLsbD_shift, h, BitVec.getLsbD_zero]
  have hlow : c.getLsbD 0 = false := by
    have htop : c.getLsbD (w - 1 + 1) = false := BitVec.getLsbD_of_ge _ _ (by omega)
    simpa [htaps, htop] using hbit (w - 1)
  apply BitVec.eq_of_getLsbD_eq
  intro i _
  rw [BitVec.getLsbD_zero]
  cases i with
  | zero => exact hlow
  | succ i => simpa [hlow] using hbit i

theorem shift_injective {taps : BitVec w} (htaps : taps.getLsbD (w - 1) = true) :
    Function.Injective (shift taps) := by
  intro a b h
  have hzero : shift taps (a ^^^ b) = 0#w := by rw [shift_xor, h, BitVec.xor_self]
  exact BitVec.xor_eq_zero_iff.mp (eq_zero_of_shift htaps hzero)

theorem shift_iterate_high (taps : BitVec w) {v : BitVec w} {k : Nat}
    (h : ∀ i < k, v.getLsbD i = false) :
    (shift taps)^[k] v = v >>> k := by
  induction k with
  | zero => simp
  | succ k ih =>
    rw [Function.iterate_succ_apply', ih fun i hi => h i (by omega)]
    apply BitVec.eq_of_getLsbD_eq
    intro i _
    rw [getLsbD_shift]
    simp [h k (by omega), Nat.add_comm 1, Nat.add_assoc]

def lowBit (b : Bool) : BitVec w := if b then 1#w else 0#w

def feed (taps c : BitVec w) (b : Bool) : BitVec w := shift taps (c ^^^ lowBit b)

def run (taps c : BitVec w) (bits : List Bool) : BitVec w := bits.foldl (feed taps) c

theorem run_append (taps c : BitVec w) (xs ys : List Bool) :
    run taps c (xs ++ ys) = run taps (run taps c xs) ys :=
  List.foldl_append

def word : List Bool → BitVec w
  | [] => 0#w
  | b :: bits => lowBit b ^^^ (word bits <<< 1)

theorem getLsbD_lowBit (b : Bool) (i : Nat) :
    (lowBit b : BitVec w).getLsbD i = (decide (i = 0 ∧ 0 < w) && b) := by
  cases b
  · simp [lowBit]
  · simp [lowBit, BitVec.getLsbD_one]
    grind

theorem getLsbD_word (bits : List Bool) (i : Nat) :
    (word bits : BitVec w).getLsbD i = (decide (i < w) && bits.getD i false) := by
  induction bits generalizing i with
  | nil => simp [word]
  | cons b bits ih =>
    rw [word, BitVec.getLsbD_xor, BitVec.getLsbD_shiftLeft, getLsbD_lowBit, ih]
    cases i with
    | zero => simp
    | succ i =>
      have hsub : i + 1 - 1 = i := rfl
      simp [hsub]
      grind

theorem word_injective {xs ys : List Bool} (hlen : xs.length = ys.length) (hw : xs.length ≤ w)
    (h : (word xs : BitVec w) = word ys) : xs = ys := by
  refine List.ext_getElem hlen fun i hx hy => ?_
  have hbit := congrArg (fun v => v.getLsbD i) h
  simp only [getLsbD_word] at hbit
  simpa [hx, hy, show i < w by omega] using hbit

/-- Bits that fit into the register can be put in all at once. -/
theorem run_word (taps c : BitVec w) {bits : List Bool} (h : bits.length ≤ w) :
    run taps c bits = (shift taps)^[bits.length] (c ^^^ word bits) := by
  induction bits generalizing c with
  | nil => simp [run, word]
  | cons b bits ih =>
    rw [List.length_cons] at h
    have hword : shift taps (word bits <<< 1) = word bits := by
      apply BitVec.eq_of_getLsbD_eq
      intro i hi
      have hnone : i + 1 = w → bits[i]? = none := fun hlast => List.getElem?_eq_none (by omega)
      simp only [getLsbD_shift, BitVec.getLsbD_shiftLeft, getLsbD_word]
      grind
    have hfeed : feed taps c b ^^^ word bits = shift taps (c ^^^ word (b :: bits)) := by
      rw [word, ← BitVec.xor_assoc, shift_xor taps (c ^^^ lowBit b), hword]
      rfl
    change run taps (feed taps c b) bits = _
    rw [ih _ (by omega), hfeed]
    rfl

theorem run_injective {taps : BitVec w} (htaps : taps.getLsbD (w - 1) = true) (bits : List Bool) :
    Function.Injective fun c => run taps c bits := by
  induction bits with
  | nil => exact fun _ _ h => h
  | cons b bits ih =>
    intro a c h
    have hfeed : feed taps a b = feed taps c b := ih h
    exact (BitVec.xor_left_inj _).mp (shift_injective htaps hfeed)

/-- Two strings of bits that agree outside of `m` consecutive places. -/
structure Confined (m : Nat) (xs ys : List Bool) : Prop where
  length : xs.length = ys.length
  window : ∃ start, ∀ i, xs[i]? ≠ ys[i]? → start ≤ i ∧ i < start + m

theorem Confined.drop {m : Nat} {xs ys : List Bool} (h : Confined m xs ys) (k : Nat) :
    Confined m (xs.drop k) (ys.drop k) := by
  obtain ⟨start, hwindow⟩ := h.window
  refine ⟨by rw [List.length_drop, List.length_drop, h.length], start - k, fun i hi => ?_⟩
  rw [List.getElem?_drop, List.getElem?_drop] at hi
  have hin := hwindow (k + i) hi
  omega

theorem Confined.take {m : Nat} {xs ys : List Bool} (h : Confined m xs ys) (k : Nat) :
    Confined m (xs.take k) (ys.take k) := by
  obtain ⟨start, hwindow⟩ := h.window
  refine ⟨by rw [List.length_take, List.length_take, h.length], start,
    fun i hi => hwindow i fun hsame => hi ?_⟩
  rw [List.getElem?_take, List.getElem?_take, hsame]

theorem Confined.take_eq {m k : Nat} {xs ys : List Bool} (h : Confined m xs ys)
    (hne : xs.drop (k + m) ≠ ys.drop (k + m)) :
    xs.take k = ys.take k := by
  obtain ⟨start, hwindow⟩ := h.window
  obtain ⟨i, hi⟩ : ∃ i, (xs.drop (k + m))[i]? ≠ (ys.drop (k + m))[i]? := by
    by_contra hnone
    simp only [ne_eq, not_exists, not_not] at hnone
    exact hne (List.ext_getElem? hnone)
  rw [List.getElem?_drop, List.getElem?_drop] at hi
  have hin := hwindow (k + m + i) hi
  apply List.ext_getElem?
  intro j
  by_cases hj : j < k
  · rw [List.getElem?_take_of_lt hj, List.getElem?_take_of_lt hj]
    by_contra hdiff
    have hin' := hwindow j hdiff
    omega
  · rw [List.getElem?_eq_none (by rw [List.length_take]; omega),
      List.getElem?_eq_none (by rw [List.length_take]; omega)]

theorem Confined.split {m : Nat} {xs ys : List Bool} (h : Confined m xs ys) :
    ∃ before xs' ys' after, xs = before ++ (xs' ++ after) ∧ ys = before ++ (ys' ++ after) ∧
      xs'.length = ys'.length ∧ xs'.length ≤ m := by
  obtain ⟨start, hwindow⟩ := h.window
  have hsame : ∀ i, i < start ∨ start + m ≤ i → xs[i]? = ys[i]? := by
    intro i hi
    by_contra hdiff
    have hin := hwindow i hdiff
    omega
  have hbefore : ys.take start = xs.take start := by
    apply List.ext_getElem?
    intro i
    rw [List.getElem?_take, List.getElem?_take]
    split
    · exact (hsame i (Or.inl ‹_›)).symm
    · rfl
  have hafter : ys.drop (start + m) = xs.drop (start + m) := by
    apply List.ext_getElem?
    intro i
    rw [List.getElem?_drop, List.getElem?_drop, hsame (start + m + i) (Or.inr (by omega))]
  have hparts : ∀ zs : List Bool,
      zs = zs.take start ++ ((zs.drop start).take m ++ zs.drop (start + m)) := by
    intro zs
    rw [← List.drop_drop, List.take_append_drop, List.take_append_drop]
  refine ⟨xs.take start, (xs.drop start).take m, (ys.drop start).take m, xs.drop (start + m),
    hparts xs, ?_, ?_, ?_⟩
  · rw [← hbefore, ← hafter]
    exact hparts ys
  · simp [h.length]
  · exact List.length_take_le _ _

/-- A register tells strings apart that differ in no more places than it has. -/
theorem run_ne {taps : BitVec w} (htaps : taps.getLsbD (w - 1) = true) {xs ys : List Bool}
    (h : Confined w xs ys) (hne : xs ≠ ys) (c : BitVec w) : run taps c xs ≠ run taps c ys := by
  intro hrun
  obtain ⟨before, xs', ys', after, rfl, rfl, hlen, hm⟩ := h.split
  rw [run_append, run_append, run_append, run_append] at hrun
  have hmiddle := run_injective htaps after hrun
  simp only [run_word taps _ hm, run_word taps _ (hlen ▸ hm), ← hlen] at hmiddle
  have hword := (BitVec.xor_right_inj _).mp ((shift_injective htaps).iterate _ hmiddle)
  exact hne (by rw [word_injective hlen hm hword])

end OrderMatching.ShiftRegister
