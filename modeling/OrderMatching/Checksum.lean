import OrderMatching.Corruption

namespace OrderMatching.Checksum

open OrderMatching.Codec OrderMatching.ShiftRegister OrderMatching.Corruption

/-- The array that `make_crc32_table` fills, entry by entry. -/
def crc32Table : Array UInt32 :=
  (List.range 256).foldl (fun table i => table.set! i (crcBit^[8] (UInt32.ofNat i)))
    (Array.replicate 256 0)

def tableByte (c : UInt32) (b : UInt8) : UInt32 :=
  crc32Table.getD ((c ^^^ b.toUInt32) &&& 0xFF).toNat 0 ^^^ (c >>> 8)

def tableCrc32 (data : List UInt8) (crc : UInt32) : UInt32 := ~~~(data.foldl tableByte (~~~crc))

theorem getD_fill (f : Nat → UInt32) (n : Nat) (table : Array UInt32) (hn : n ≤ table.size) :
    let filled := (List.range n).foldl (fun table i => table.set! i (f i)) table
    filled.size = table.size ∧ ∀ i < n, filled.getD i 0 = f i := by
  induction n with
  | zero => exact ⟨rfl, fun i hi => absurd hi (Nat.not_lt_zero i)⟩
  | succ n ih =>
    obtain ⟨hsize, hget⟩ := ih (by omega)
    simp only [List.range_succ, List.foldl_append, List.foldl_cons, List.foldl_nil]
    generalize (List.range n).foldl (fun table i => table.set! i (f i)) table = filled at hsize hget
    refine ⟨by simpa using hsize, fun i hi => ?_⟩
    by_cases hlast : i = n
    · subst hlast
      simp [Array.getD_eq_getD_getElem?, show i < filled.size by omega]
    · have hother : n ≠ i := Ne.symm hlast
      simpa [Array.getD_eq_getD_getElem?, hother] using hget i (by omega)

theorem getD_crc32Table {i : Nat} (hi : i < 256) :
    crc32Table.getD i 0 = crcBit^[8] (UInt32.ofNat i) :=
  (getD_fill (fun i => crcBit^[8] (UInt32.ofNat i)) 256 (Array.replicate 256 0) (by simp)).2 i hi

theorem tableByte_eq (c : UInt32) (b : UInt8) : tableByte c b = crcByte c b := by
  rw [tableByte, crcByte, makeCrc32Table]
  generalize c ^^^ b.toUInt32 = x
  have hindex : (x &&& 0xFF).toNat = x.toUInt8.toNat := by
    rw [UInt32.toNat_and, UInt32.toNat_toUInt8]
    exact Nat.and_two_pow_sub_one_eq_mod _ 8
  rw [hindex, getD_crc32Table x.toUInt8.toNat_lt, ← UInt32.ofNat_uInt8ToNat]

/-- The checksum of the rest of this development is the one with the array. -/
theorem tableCrc32_eq : tableCrc32 = crc32 := by
  have hbyte : tableByte = crcByte := by
    funext c b
    exact tableByte_eq c b
  funext data crc
  rw [tableCrc32, crc32, hbyte]

def bitStep (c : UInt32) (b : Bool) : UInt32 :=
  if (decide (c &&& 1 ≠ 0) ^^ b) = true then (c >>> 1) ^^^ 0xEDB88320 else c >>> 1

/-- The reflected CRC-32 of a string by definition, with all ones to begin with
and an inversion at the end. -/
def bitwiseCrc32 (data : List UInt8) : UInt32 := ~~~((bits data).foldl bitStep 0xFFFFFFFF)

theorem bitStep_feed (c : UInt32) (b : Bool) : (bitStep c b).toBitVec = feed taps c.toBitVec b := by
  have hout : (c.toBitVec ^^^ lowBit b).getLsbD 0 = (c.toBitVec.getLsbD 0 ^^ b) := by
    rw [BitVec.getLsbD_xor, getLsbD_lowBit]
    simp
  have hrest : (c.toBitVec ^^^ lowBit b) >>> 1 = c.toBitVec >>> 1 := by
    apply BitVec.eq_of_getLsbD_eq
    intro i _
    rw [BitVec.getLsbD_ushiftRight, BitVec.getLsbD_ushiftRight, BitVec.getLsbD_xor, getLsbD_lowBit]
    simp
  have hlow : decide (c &&& 1 ≠ 0) = c.toBitVec.getLsbD 0 := by
    rw [Bool.eq_iff_iff, decide_eq_true_iff]
    exact low_and_one c
  rw [bitStep, feed, shift, hout, hrest, hlow]
  split
  · rw [UInt32.toBitVec_xor, UInt32.toBitVec_shiftRight]
    rfl
  · rw [UInt32.toBitVec_shiftRight]
    rfl

theorem bitSteps_run (bs : List Bool) (c : UInt32) :
    (bs.foldl bitStep c).toBitVec = run taps c.toBitVec bs := by
  induction bs generalizing c with
  | nil => rfl
  | cons b bs ih => rw [List.foldl_cons, ih, bitStep_feed]; rfl

theorem crc32_bitwise (data : List UInt8) : crc32 data 0 = bitwiseCrc32 data := by
  have hones : ~~~(0 : UInt32) = 0xFFFFFFFF := by decide
  have hfold : data.foldl crcByte 0xFFFFFFFF = (bits data).foldl bitStep 0xFFFFFFFF := by
    apply UInt32.toBitVec_inj.mp
    rw [crcBytes_run, bitSteps_run]
  rw [crc32, bitwiseCrc32, hones, hfold]

theorem crc32_append (xs ys : List UInt8) (crc : UInt32) :
    crc32 (xs ++ ys) crc = crc32 ys (crc32 xs crc) := by
  rw [crc32, crc32, crc32, List.foldl_append, UInt32.not_not]

theorem crc32_pieces (pieces : List (List UInt8)) (crc : UInt32) :
    pieces.foldl (fun crc piece => crc32 piece crc) crc = crc32 pieces.flatten crc := by
  induction pieces generalizing crc with
  | nil => rw [List.foldl_nil, List.flatten_nil, crc32, List.foldl_nil, UInt32.not_not]
  | cons piece pieces ih => rw [List.foldl_cons, ih, List.flatten_cons, crc32_append]

/-- The table gives the checksum that the division bit by bit defines, and it
does not matter in how many pieces the string arrives. -/
theorem tableCrc32_streams :
    (∀ data, tableCrc32 data 0 = bitwiseCrc32 data) ∧
      ∀ pieces : List (List UInt8),
        pieces.foldl (fun crc piece => tableCrc32 piece crc) 0 = tableCrc32 pieces.flatten 0 := by
  rw [tableCrc32_eq]
  exact ⟨crc32_bitwise, fun pieces => crc32_pieces pieces 0⟩

/-- All the bits in which two strings differ lie within `m` consecutive places. -/
def Burst (m : Nat) (xs ys : List UInt8) : Prop :=
  ∃ start, ∀ i, (bits xs)[i]? ≠ (bits ys)[i]? → start ≤ i ∧ i < start + m

theorem confined_of_burst {m : Nat} {xs ys : List UInt8} (hlen : xs.length = ys.length)
    (h : Burst m xs ys) :
    Confined m (bits xs) (bits ys) :=
  ⟨by rw [length_bits, length_bits, hlen], h⟩

/-- No burst of up to 32 bits goes undetected, at any place of a string of any
length and whatever the checksum starts from. -/
theorem tableCrc32_detects {xs ys : List UInt8} (hlen : xs.length = ys.length) (hne : xs ≠ ys)
    (hburst : Burst 32 xs ys) (crc : UInt32) : tableCrc32 xs crc ≠ tableCrc32 ys crc := by
  rw [tableCrc32_eq]
  exact crc32_apart (confined_of_burst hlen hburst) hne crc

theorem tableCrc32_detects_unaligned :
    Burst 32 [0, 0, 0, 0, 0] [0x10, 0, 0, 0, 0x08] ∧
      tableCrc32 [0, 0, 0, 0, 0] 0 ≠ tableCrc32 [0x10, 0, 0, 0, 0x08] 0 := by
  have hburst : Burst 32 [0, 0, 0, 0, 0] [0x10, 0, 0, 0, 0x08] := by
    have hwithin : ∀ i < 40, (bits [0, 0, 0, 0, 0])[i]? ≠ (bits [0x10, 0, 0, 0, 0x08])[i]? →
        4 ≤ i ∧ i < 4 + 32 := by
      decide +kernel
    refine ⟨4, fun i hi => ?_⟩
    obtain hlt | hge := Nat.lt_or_ge i 40
    · exact hwithin i hlt hi
    · rw [List.getElem?_eq_none (by simpa using hge),
        List.getElem?_eq_none (by simpa using hge)] at hi
      exact absurd rfl hi
  have hne : ([0, 0, 0, 0, 0] : List UInt8) ≠ [0x10, 0, 0, 0, 0x08] := by decide
  exact ⟨hburst, tableCrc32_detects (by rfl) hne hburst 0⟩

end OrderMatching.Checksum
