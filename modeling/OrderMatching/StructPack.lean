import Mathlib.Tactic.Zify
import OrderMatching.LittleEndian

namespace OrderMatching.StructPack

open OrderMatching.LittleEndian

structure Field where
  width : Nat
  signed : Bool

def Field.unsigned (width : Nat) : Field := ⟨width, false⟩

def Field.twos (width : Nat) : Field := ⟨width, true⟩

def Field.Holds (f : Field) (z : Int) : Prop :=
  if f.signed then -256 ^ f.width ≤ 2 * z ∧ 2 * z < 256 ^ f.width else 0 ≤ z ∧ z < 256 ^ f.width

instance (f : Field) (z : Int) : Decidable (f.Holds z) := by
  dsimp only [Field.Holds]
  infer_instance

def Field.put (f : Field) (z : Int) : List UInt8 := bytes f.width (z % 256 ^ f.width).toNat

def Field.get (f : Field) (bs : List UInt8) : Int :=
  if f.signed ∧ 256 ^ f.width ≤ 2 * value bs then value bs - 256 ^ f.width else value bs

def size (fs : List Field) : Nat := (fs.map Field.width).sum

/-- `none` is an error: a value that its field cannot hold, or a wrong number of
values. -/
def pack : List Field → List Int → Option (List UInt8)
  | [], [] => some []
  | f :: fs, z :: zs => if f.Holds z then (pack fs zs).map (f.put z ++ ·) else none
  | _, _ => none

def unpackFrom : List Field → List UInt8 → Option (List Int)
  | [], _ => some []
  | f :: fs, bs =>
    if f.width ≤ bs.length then
      (unpackFrom fs (bs.drop f.width)).map (f.get (bs.take f.width) :: ·)
    else none

def unpack (fs : List Field) (bs : List UInt8) : Option (List Int) :=
  if bs.length = size fs then unpackFrom fs bs else none

variable {f : Field} {fs : List Field} {z : Int} {zs : List Int} {bs : List UInt8}

@[simp] theorem length_put (f : Field) (z : Int) : (f.put z).length = f.width := length_bytes _ _

theorem value_put (f : Field) (z : Int) : (value (f.put z) : Int) = z % 256 ^ f.width := by
  have hpos : (0 : Int) < 256 ^ f.width := Int.pow_pos (by decide)
  have hnonneg := Int.emod_nonneg z hpos.ne'
  have hlt := Int.emod_lt_of_pos z hpos
  have hnat : (z % 256 ^ f.width).toNat < 256 ^ f.width := by
    zify
    rwa [Int.toNat_of_nonneg hnonneg]
  rw [Field.put, value_bytes_of_lt hnat, Int.toNat_of_nonneg hnonneg]

theorem get_put (h : f.Holds z) : f.get (f.put z) = z := by
  have hvalue := value_put f z
  have hpos : (0 : Int) < 256 ^ f.width := Int.pow_pos (by decide)
  generalize hw : (256 : Int) ^ f.width = w at hvalue hpos
  simp only [Field.Holds, hw] at h
  simp only [Field.get, hw]
  zify
  rw [hw, hvalue]
  cases hs : f.signed with
  | false =>
    simp only [hs, Bool.false_eq_true, if_false, false_and] at h ⊢
    exact Int.emod_eq_of_lt h.1 h.2
  | true =>
    simp only [hs, if_true, true_and] at h ⊢
    obtain hneg | hnonneg := Int.lt_or_le z 0
    · have hmod : z % w = z + w := by
        rw [← Int.add_emod_right]
        exact Int.emod_eq_of_lt (by omega) (by omega)
      rw [hmod, if_pos (by omega)]
      omega
    · rw [Int.emod_eq_of_lt hnonneg (by omega), if_neg (by omega)]

theorem put_get (h : bs.length = f.width) : f.put (f.get bs) = bs := by
  have hlt := value_lt bs
  rw [h] at hlt
  have hmod : (f.get bs) % 256 ^ f.width = value bs := by
    have hlt' : (value bs : Int) < 256 ^ f.width := by exact_mod_cast hlt
    rw [Field.get]
    split
    · rw [Int.sub_emod_right]
      exact Int.emod_eq_of_lt (by omega) hlt'
    · exact Int.emod_eq_of_lt (by omega) hlt'
  rw [Field.put, hmod, Int.toNat_natCast, ← h]
  exact bytes_value bs

theorem holds_get (h : bs.length = f.width) : f.Holds (f.get bs) := by
  have hlt := value_lt bs
  rw [h] at hlt
  zify at hlt
  unfold Field.Holds Field.get
  zify
  generalize (256 : Int) ^ f.width = w at hlt ⊢
  cases f.signed with
  | false => simp [hlt]
  | true =>
    simp only [if_true, true_and]
    split <;> omega

theorem put_natCast {w n : Nat} (h : n < 256 ^ w) : (Field.unsigned w).put n = bytes w n := by
  have hmod : (n : Int) % 256 ^ w = n := Int.emod_eq_of_lt (by omega) (by exact_mod_cast h)
  rw [Field.put, Field.unsigned, hmod, Int.toNat_natCast]

theorem holds_natCast {w n : Nat} (h : n < 256 ^ w) : (Field.unsigned w).Holds n := by
  refine ⟨by omega, ?_⟩
  exact_mod_cast h

theorem unpackFrom_put (h : f.Holds z) (rest : List UInt8) :
    unpackFrom (f :: fs) (f.put z ++ rest) = (unpackFrom fs rest).map (z :: ·) := by
  have hlen : f.width ≤ (f.put z ++ rest).length := by simp
  rw [unpackFrom, if_pos hlen, List.drop_left' (length_put f z),
    List.take_left' (length_put f z), get_put h]

theorem unpackFrom_last (h : f.Holds z) : unpackFrom [f] (f.put z) = some [z] := by
  have hfront := @unpackFrom_put f [] z h []
  rwa [List.append_nil] at hfront

theorem pack_cons (h : f.Holds z) : pack (f :: fs) (z :: zs) = (pack fs zs).map (f.put z ++ ·) :=
  if_pos h

theorem unpackFrom_cons (h : unpackFrom (f :: fs) bs = some (z :: zs)) :
    ∃ rest, bs = f.put z ++ rest ∧ f.Holds z ∧ unpackFrom fs rest = some zs := by
  rw [unpackFrom] at h
  split at h
  · rename_i hlen
    obtain ⟨ws, hws, hcons⟩ := Option.map_eq_some_iff.mp h
    obtain ⟨rfl, rfl⟩ := List.cons.inj hcons
    have htake := List.length_take_of_le hlen
    refine ⟨bs.drop f.width, ?_, holds_get htake, hws⟩
    rw [put_get htake, List.take_append_drop]
  · exact absurd h (Option.some_ne_none _).symm

end OrderMatching.StructPack
