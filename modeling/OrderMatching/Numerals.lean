import Mathlib.Algebra.Order.Ring.Int
import Mathlib.Data.List.Induction
import Mathlib.Data.List.TakeWhile
import Mathlib.Data.Nat.Digits.Defs

namespace OrderMatching.Numerals

/-- `std::isspace` in the C locale. -/
def isSpace (c : Char) : Bool := c = ' ' || (9 ≤ c.toNat && c.toNat ≤ 13)

def value (cs : List Char) : Nat := cs.foldl (fun n c => 10 * n + (c.toNat - '0'.toNat)) 0

def digits (n : Nat) : List Char := Nat.toDigits 10 n

def decimal : Int → List Char
  | .ofNat n => digits n
  | .negSucc n => '-' :: digits (n + 1)

theorem digits_eq (n : Nat) :
    digits n = if n < 10 then [n.digitChar] else digits (n / 10) ++ [(n % 10).digitChar] :=
  Nat.toDigits_eq_if (by decide)

theorem digitChar_val {d : Nat} (h : d < 10) : d.digitChar.toNat - '0'.toNat = d := by
  have hall : ∀ d : Fin 10, d.val.digitChar.toNat - '0'.toNat = d := by decide
  exact hall ⟨d, h⟩

theorem value_concat (cs : List Char) (c : Char) :
    value (cs ++ [c]) = 10 * value cs + (c.toNat - '0'.toNat) := by
  simp [value]

theorem value_digits (n : Nat) : value (digits n) = n := by
  induction n using Nat.strongRecOn with
  | ind n ih =>
    rw [digits_eq]
    split
    · rename_i h
      simpa [value] using digitChar_val h
    · rename_i h
      rw [value_concat, ih (n / 10) (Nat.div_lt_self (by omega) (by decide)),
        digitChar_val (Nat.mod_lt n (by decide))]
      exact Nat.div_add_mod n 10

theorem value_append (cs ds : List Char) :
    value (cs ++ ds) = value cs * 10 ^ ds.length + value ds := by
  induction ds using List.reverseRecOn with
  | nil => simp [value]
  | append_singleton ds d ih =>
    rw [← List.append_assoc, value_concat, ih, value_concat, List.length_append,
      List.length_singleton, pow_succ]
    ring

/-- The last `k` digits of a number, with leading zeros. -/
def padded : Nat → Nat → List Char
  | 0, _ => []
  | k + 1, n => padded k (n / 10) ++ [(n % 10).digitChar]

@[simp] theorem length_padded (k n : Nat) : (padded k n).length = k := by
  induction k generalizing n with
  | zero => rfl
  | succ k ih => simp [padded, ih]

theorem value_padded (k n : Nat) : value (padded k n) = n % 10 ^ k := by
  induction k generalizing n with
  | zero => rw [pow_zero, Nat.mod_one]; rfl
  | succ k ih =>
    rw [padded, value_concat, ih, digitChar_val (Nat.mod_lt n (by decide)), pow_succ', Nat.mod_mul]
    omega

theorem isDigit_padded {k n : Nat} {c : Char} (h : c ∈ padded k n) : c.isDigit = true := by
  induction k generalizing n with
  | zero => cases h
  | succ k ih =>
    obtain h | h := List.mem_append.mp h
    · exact ih h
    · rw [List.mem_singleton.mp h]
      have hall : ∀ d : Fin 10, d.val.digitChar.isDigit = true := by decide
      exact hall ⟨n % 10, Nat.mod_lt n (by decide)⟩

theorem digits_injective : Function.Injective digits := by
  intro m n h
  rw [← value_digits m, h, value_digits]

theorem isDigit_digits {n : Nat} {c : Char} (h : c ∈ digits n) : c.isDigit = true :=
  Nat.isDigit_of_mem_toDigits (by decide) (by decide) h

theorem digits_ne_nil (n : Nat) : digits n ≠ [] := by
  rw [digits_eq]
  split <;> simp

theorem not_isSpace_of_isDigit {c : Char} (h : c.isDigit = true) : isSpace c = false := by
  have hle : 48 ≤ c.toNat := by
    simp only [Char.isDigit, Bool.and_eq_true, decide_eq_true_eq] at h
    exact h.1
  have hne : c ≠ ' ' := by
    rintro rfl
    cases h
  simp only [isSpace, hne, decide_false, Bool.false_or, Bool.and_eq_false_iff,
    decide_eq_false_iff_not]
  omega

def isNumeric (c : Char) : Bool := c.isDigit || c = '-'

theorem numeric_decimal {z : Int} {c : Char} (h : c ∈ decimal z) : isNumeric c = true := by
  cases z with
  | ofNat n => simp [isNumeric, isDigit_digits h]
  | negSucc n =>
    obtain rfl | h := List.mem_cons.mp h
    · rfl
    · simp [isNumeric, isDigit_digits h]

theorem decimal_ne_nil (z : Int) : decimal z ≠ [] := by
  cases z with
  | ofNat n => exact digits_ne_nil n
  | negSucc n => exact List.cons_ne_nil _ _

theorem not_isSpace_of_isNumeric {c : Char} (h : isNumeric c = true) : isSpace c = false := by
  obtain h | h := Bool.or_eq_true_iff.mp h
  · exact not_isSpace_of_isDigit h
  · obtain rfl := of_decide_eq_true h
    rfl

def readDigits (cs : List Char) : Option Nat :=
  if cs.takeWhile Char.isDigit = [] then none else some (value (cs.takeWhile Char.isDigit))

/-- The common part of the `strto` functions in base ten: white space, a sign,
and as many digits as there are. What follows is ignored. -/
def scan (cs : List Char) : Option (Bool × Nat) :=
  match cs.dropWhile isSpace with
  | [] => none
  | c :: ds =>
    if c = '-' then (readDigits ds).map (Prod.mk true)
    else if c = '+' then (readDigits ds).map (Prod.mk false)
    else (readDigits (c :: ds)).map (Prod.mk false)

/-- `std::stoull`, with no value where it throws. A minus sign negates modulo
the width. -/
def stoull (cs : List Char) : Option Nat :=
  match scan cs with
  | none => none
  | some (negative, n) =>
    if n < 2 ^ 64 then some (if negative then (2 ^ 64 - n) % 2 ^ 64 else n) else none

/-- `std::stoll` and `std::stoi` by the number of value bits. -/
def stoSigned (bits : Nat) (cs : List Char) : Option Int :=
  match scan cs with
  | none => none
  | some (true, n) => if n ≤ 2 ^ bits then some (-n) else none
  | some (false, n) => if n < 2 ^ bits then some n else none

def stoll (cs : List Char) : Option Int := stoSigned 63 cs

def stoi (cs : List Char) : Option Int := stoSigned 31 cs

def Ends (cs : List Char) : Prop := ∀ c ∈ cs.head?, c.isDigit = false

theorem takeWhile_digits (n : Nat) {rest : List Char} (h : Ends rest) :
    (digits n ++ rest).takeWhile Char.isDigit = digits n := by
  rw [List.takeWhile_append_of_pos fun c hc => isDigit_digits hc]
  cases rest with
  | nil => simp
  | cons c rest => simp [h c rfl]

theorem readDigits_digits (n : Nat) {rest : List Char} (h : Ends rest) :
    readDigits (digits n ++ rest) = some n := by
  rw [readDigits, takeWhile_digits n h, if_neg (digits_ne_nil n), value_digits]

theorem scan_digits (n : Nat) {rest : List Char} (h : Ends rest) :
    scan (digits n ++ rest) = some (false, n) := by
  have hread := readDigits_digits n h
  obtain ⟨c, cs, hcs⟩ := List.exists_cons_of_ne_nil (digits_ne_nil n)
  have hc : c.isDigit = true := isDigit_digits (n := n) (by simp [hcs])
  have hminus : c ≠ '-' := by
    rintro rfl
    cases hc
  have hplus : c ≠ '+' := by
    rintro rfl
    cases hc
  rw [hcs, List.cons_append] at hread ⊢
  rw [scan, List.dropWhile_cons_of_neg (by simp [not_isSpace_of_isDigit hc])]
  dsimp only
  rw [if_neg hminus, if_neg hplus, hread]
  rfl

theorem scan_decimal (z : Int) {rest : List Char} (h : Ends rest) :
    scan (decimal z ++ rest) = some (decide (z < 0), z.natAbs) := by
  cases z with
  | ofNat n => exact scan_digits n h
  | negSucc n =>
    rw [scan, decimal, List.cons_append, List.dropWhile_cons_of_neg (by decide)]
    dsimp only
    rw [if_pos rfl, readDigits_digits (n + 1) h]
    simp [Int.negSucc_lt_zero]

theorem stoull_digits {n : Nat} (hn : n < 2 ^ 64) {rest : List Char} (h : Ends rest) :
    stoull (digits n ++ rest) = some n := by
  rw [stoull, scan_digits n h]
  exact if_pos hn

theorem stoSigned_decimal {bits : Nat} {z : Int} (hlo : -2 ^ bits ≤ z) (hhi : z < 2 ^ bits)
    {rest : List Char} (h : Ends rest) : stoSigned bits (decimal z ++ rest) = some z := by
  have hpow : ((2 ^ bits : Nat) : Int) = 2 ^ bits := by norm_cast
  rw [stoSigned, scan_decimal z h]
  by_cases hz : z < 0
  · simp only [hz, decide_true]
    rw [if_pos (by omega)]
    congr 1
    omega
  · simp only [hz, decide_false]
    rw [if_pos (by omega)]
    congr 1
    omega

theorem stoull_lt {cs : List Char} {n : Nat} (h : stoull cs = some n) : n < 2 ^ 64 := by
  unfold stoull at h
  split at h
  · cases h
  · split at h
    · obtain rfl := Option.some.inj h
      split
      · exact Nat.mod_lt _ (by decide)
      · assumption
    · cases h

theorem stoSigned_bounds {bits : Nat} {cs : List Char} {z : Int} (h : stoSigned bits cs = some z) :
    -2 ^ bits ≤ z ∧ z < 2 ^ bits := by
  have hpow : ((2 ^ bits : Nat) : Int) = 2 ^ bits := by norm_cast
  have hpos : (0 : Int) < 2 ^ bits := by positivity
  unfold stoSigned at h
  split at h
  · cases h
  · split at h
    · obtain rfl := Option.some.inj h
      omega
    · cases h
  · split at h
    · obtain rfl := Option.some.inj h
      omega
    · cases h

end OrderMatching.Numerals
