import Mathlib.Logic.Function.Iterate
import OrderMatching.LittleEndian

namespace OrderMatching.Codec

open OrderMatching.LittleEndian

def putU8 (v : UInt8) : List UInt8 := [v]

def putU16 (v : UInt16) : List UInt8 := bytes 2 v.toNat

def putU32 (v : UInt32) : List UInt8 := bytes 4 v.toNat

def putU64 (v : UInt64) : List UInt8 := bytes 8 v.toNat

def putI64 (v : Int64) : List UInt8 := putU64 v.toUInt64

structure Reader where
  data : List UInt8
  ok : Bool

def Reader.remaining (r : Reader) : Nat := if r.ok then r.data.length else 0

/-- A bounds-checked read of `n` bytes: zero, and never ok again, when fewer
are left. -/
def Reader.read (n : Nat) (r : Reader) : Nat × Reader :=
  if r.ok = true ∧ n ≤ r.data.length then (value (r.data.take n), ⟨r.data.drop n, true⟩)
  else (0, ⟨r.data, false⟩)

def Reader.u8 (r : Reader) : UInt8 × Reader := (UInt8.ofNat (r.read 1).1, (r.read 1).2)

def Reader.u16 (r : Reader) : UInt16 × Reader := (UInt16.ofNat (r.read 2).1, (r.read 2).2)

def Reader.u32 (r : Reader) : UInt32 × Reader := (UInt32.ofNat (r.read 4).1, (r.read 4).2)

def Reader.u64 (r : Reader) : UInt64 × Reader := (UInt64.ofNat (r.read 8).1, (r.read 8).2)

def Reader.i64 (r : Reader) : Int64 × Reader := (r.u64.1.toInt64, r.u64.2)

@[simp] theorem length_putU8 (v : UInt8) : (putU8 v).length = 1 := rfl

@[simp] theorem length_putU16 (v : UInt16) : (putU16 v).length = 2 := length_bytes 2 _

@[simp] theorem length_putU32 (v : UInt32) : (putU32 v).length = 4 := length_bytes 4 _

@[simp] theorem length_putU64 (v : UInt64) : (putU64 v).length = 8 := length_bytes 8 _

@[simp] theorem length_putI64 (v : Int64) : (putI64 v).length = 8 := length_bytes 8 _

theorem read_bytes {n v : Nat} (hv : v < 256 ^ n) (rest : List UInt8) :
    Reader.read n ⟨bytes n v ++ rest, true⟩ = (v, ⟨rest, true⟩) := by
  have ht : (bytes n v ++ rest).take n = bytes n v := List.take_left' (length_bytes n v)
  have hd : (bytes n v ++ rest).drop n = rest := List.drop_left' (length_bytes n v)
  simp [Reader.read, ht, hd, value_bytes_of_lt hv]

@[simp] theorem u8_putU8 (v : UInt8) (rest : List UInt8) :
    Reader.u8 ⟨putU8 v ++ rest, true⟩ = (v, ⟨rest, true⟩) := by
  simp [Reader.u8, Reader.read, putU8, value]

@[simp] theorem u16_putU16 (v : UInt16) (rest : List UInt8) :
    Reader.u16 ⟨putU16 v ++ rest, true⟩ = (v, ⟨rest, true⟩) := by
  have hv : v.toNat < 256 ^ 2 := v.toNat_lt
  simp [Reader.u16, putU16, read_bytes hv]

@[simp] theorem u32_putU32 (v : UInt32) (rest : List UInt8) :
    Reader.u32 ⟨putU32 v ++ rest, true⟩ = (v, ⟨rest, true⟩) := by
  have hv : v.toNat < 256 ^ 4 := v.toNat_lt
  simp [Reader.u32, putU32, read_bytes hv]

@[simp] theorem u64_putU64 (v : UInt64) (rest : List UInt8) :
    Reader.u64 ⟨putU64 v ++ rest, true⟩ = (v, ⟨rest, true⟩) := by
  have hv : v.toNat < 256 ^ 8 := v.toNat_lt
  simp [Reader.u64, putU64, read_bytes hv]

@[simp] theorem i64_putI64 (v : Int64) (rest : List UInt8) :
    Reader.i64 ⟨putI64 v ++ rest, true⟩ = (v, ⟨rest, true⟩) := by
  simp [Reader.i64, putI64]

/-- What a read that had enough found stands in front of what it left. -/
theorem read_ok {n : Nat} {r : Reader} (h : (r.read n).2.ok = true) :
    r.ok = true ∧ r.data = bytes n (r.read n).1 ++ (r.read n).2.data ∧ (r.read n).1 < 256 ^ n := by
  by_cases hr : r.ok = true ∧ n ≤ r.data.length
  · have hread : r.read n = (value (r.data.take n), ⟨r.data.drop n, true⟩) := if_pos hr
    have hlen : (r.data.take n).length = n := List.length_take_of_le hr.2
    have hbytes := bytes_value (r.data.take n)
    have hlt := value_lt (r.data.take n)
    rw [hlen] at hbytes hlt
    rw [hread]
    refine ⟨hr.1, ?_, hlt⟩
    rw [hbytes, List.take_append_drop]
  · have hread : r.read n = (0, ⟨r.data, false⟩) := if_neg hr
    rw [hread] at h
    exact absurd h Bool.false_ne_true

def Reads {α : Type} (put : α → List UInt8) (r : Reader) (found : α) (r' : Reader) : Prop :=
  r'.ok = true → r.ok = true ∧ r.data = put found ++ r'.data

theorem reads_u8 (r : Reader) : Reads putU8 r r.u8.1 r.u8.2 := by
  intro h
  obtain ⟨hr, hdata, -⟩ := read_ok (n := 1) h
  exact ⟨hr, hdata⟩

theorem reads_u16 (r : Reader) : Reads putU16 r r.u16.1 r.u16.2 := by
  intro h
  obtain ⟨hr, hdata, hlt⟩ := read_ok (n := 2) h
  have hval : r.u16.1.toNat = (r.read 2).1 := UInt16.toNat_ofNat_of_lt' hlt
  rw [putU16, hval]
  exact ⟨hr, hdata⟩

theorem reads_u32 (r : Reader) : Reads putU32 r r.u32.1 r.u32.2 := by
  intro h
  obtain ⟨hr, hdata, hlt⟩ := read_ok (n := 4) h
  have hval : r.u32.1.toNat = (r.read 4).1 := UInt32.toNat_ofNat_of_lt' hlt
  rw [putU32, hval]
  exact ⟨hr, hdata⟩

theorem reads_u64 (r : Reader) : Reads putU64 r r.u64.1 r.u64.2 := by
  intro h
  obtain ⟨hr, hdata, hlt⟩ := read_ok (n := 8) h
  have hval : r.u64.1.toNat = (r.read 8).1 := UInt64.toNat_ofNat_of_lt' hlt
  rw [putU64, hval]
  exact ⟨hr, hdata⟩

theorem reads_i64 (r : Reader) : Reads putI64 r r.i64.1 r.i64.2 := by
  intro h
  obtain ⟨hr, hdata⟩ := reads_u64 r h
  have hval : r.i64.1.toUInt64 = r.u64.1 := UInt64.toUInt64_toInt64 r.u64.1
  rw [putI64, hval]
  exact ⟨hr, hdata⟩

/-- The reads of a whole payload: the last one left nothing, so the bytes of all
that was found, in order, are the payload. -/
theorem Reads.last {α : Type} {put : α → List UInt8} {r r' : Reader} {v : α} (h : Reads put r v r')
    (hok : r'.ok = true) (hnil : r'.data = []) : r.ok = true ∧ r.data = put v := by
  obtain ⟨hr, hdata⟩ := h hok
  rw [hnil, List.append_nil] at hdata
  exact ⟨hr, hdata⟩

theorem Reads.before {α : Type} {put : α → List UInt8} {r r' : Reader} {v : α}
    (h : Reads put r v r') {rest : List UInt8} (hrest : r'.ok = true ∧ r'.data = rest) :
    r.ok = true ∧ r.data = put v ++ rest := by
  obtain ⟨hok, rfl⟩ := hrest
  exact h hok

theorem u64_last (v : UInt64) : Reader.u64 ⟨putU64 v, true⟩ = (v, ⟨[], true⟩) := by
  simpa using u64_putU64 v []

theorem u32_last (v : UInt32) : Reader.u32 ⟨putU32 v, true⟩ = (v, ⟨[], true⟩) := by
  simpa using u32_putU32 v []

theorem u8_last (v : UInt8) : Reader.u8 ⟨putU8 v, true⟩ = (v, ⟨[], true⟩) := by
  simpa using u8_putU8 v []

theorem u16_last (v : UInt16) : Reader.u16 ⟨putU16 v, true⟩ = (v, ⟨[], true⟩) := by
  simpa using u16_putU16 v []

theorem of_checked {α : Type} {r : Reader} {m : α} {o : Option α}
    (h : (if r.ok = false ∨ r.remaining ≠ 0 then none else o) = some m) :
    r.ok = true ∧ r.data = [] ∧ o = some m := by
  by_cases hr : r.ok = false ∨ r.remaining ≠ 0
  · rw [if_pos hr] at h
    exact absurd h (by simp)
  · rw [if_neg hr] at h
    obtain ⟨hok, hrem⟩ := not_or.mp hr
    rw [Bool.not_eq_false] at hok
    rw [not_not, Reader.remaining, if_pos hok] at hrem
    exact ⟨hok, List.eq_nil_of_length_eq_zero hrem, h⟩

theorem of_guarded {α : Type} {r : Reader} {m m' : α}
    (h : (if r.ok = false ∨ r.remaining ≠ 0 then none else some m') = some m) :
    r.ok = true ∧ r.data = [] ∧ m' = m := by
  obtain ⟨hok, hnil, hm⟩ := of_checked h
  exact ⟨hok, hnil, Option.some.inj hm⟩

def crcBit (c : UInt32) : UInt32 :=
  if c &&& 1 ≠ 0 then (0xEDB88320 : UInt32) ^^^ (c >>> 1) else c >>> 1

def makeCrc32Table (i : UInt8) : UInt32 := crcBit^[8] i.toUInt32

def crcByte (c : UInt32) (b : UInt8) : UInt32 :=
  makeCrc32Table (c ^^^ b.toUInt32).toUInt8 ^^^ (c >>> 8)

def crc32 (data : List UInt8) (crc : UInt32) : UInt32 := ~~~(data.foldl crcByte (~~~crc))

end OrderMatching.Codec
