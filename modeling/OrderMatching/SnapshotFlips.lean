import Mathlib.Data.Nat.Bitwise
import OrderMatching.SnapshotFormat

namespace OrderMatching.SnapshotFlips

open OrderMatching.LittleEndian OrderMatching.Codec OrderMatching.SnapshotFile
open OrderMatching.ShiftRegister OrderMatching.Corruption OrderMatching.SnapshotFormat

def flipBit (file : List UInt8) (i : Nat) : List UInt8 :=
  file.modify (i / 8) (· ^^^ 1 <<< UInt8.ofNat (i % 8))

@[simp] theorem length_flipBit (file : List UInt8) (i : Nat) :
    (flipBit file i).length = file.length :=
  List.length_modify ..

theorem getElem?_bits (bs : List UInt8) (i : Nat) :
    (bits bs)[i]? = bs[i / 8]?.map fun b => b.toBitVec.getLsbD (i % 8) := by
  induction bs generalizing i with
  | nil => rfl
  | cons b bs ih =>
    rw [bits, List.flatMap_cons, ← bits]
    by_cases hi : i < 8
    · rw [List.getElem?_append_left (by simpa using hi), Nat.div_eq_of_lt hi, Nat.mod_eq_of_lt hi]
      simp [byteBits, hi]
    · obtain ⟨j, rfl⟩ := Nat.exists_eq_add_of_le (Nat.not_lt.mp hi)
      rw [List.getElem?_append_right (by simp), length_byteBits, Nat.add_sub_cancel_left, ih,
        show (8 + j) / 8 = j / 8 + 1 by omega, Nat.add_mod_left]
      rfl

theorem getLsbD_flip (b : UInt8) {j k : Nat} (hj : j < 8) (hk : k < 8) :
    (b ^^^ 1 <<< UInt8.ofNat j).toBitVec.getLsbD k = (b.toBitVec.getLsbD k ^^ decide (j = k)) := by
  have hone : ∀ j < 8, ∀ k < 8,
      ((1 : UInt8) <<< UInt8.ofNat j).toBitVec.getLsbD k = decide (j = k) := by decide
  rw [UInt8.toBitVec_xor, BitVec.getLsbD_xor, hone j hj k hk]

theorem getElem?_flipBit (file : List UInt8) (i j : Nat) :
    (bits (flipBit file i))[j]? = (bits file)[j]?.map fun b => b ^^ decide (i = j) := by
  rw [getElem?_bits, getElem?_bits, flipBit, List.getElem?_modify]
  cases hbyte : file[j / 8]? with
  | none => rfl
  | some b =>
    have hmod := Nat.mod_lt j (show 0 < 8 by decide)
    simp only [Option.map_eq_map, Option.map_some, Option.some.injEq]
    by_cases hsame : i / 8 = j / 8
    · have hij : i % 8 = j % 8 ↔ i = j := by omega
      rw [if_pos hsame, getLsbD_flip b (Nat.mod_lt i (by decide)) hmod, decide_eq_decide.mpr hij]
    · have hij : i ≠ j := fun h => hsame (by rw [h])
      rw [if_neg hsame, decide_eq_false hij, Bool.xor_false]

theorem confined_flipBit (file : List UInt8) (i : Nat) :
    Confined 32 (bits file) (bits (flipBit file i)) := by
  refine ⟨by simp, i, fun j hj => ?_⟩
  by_cases hij : i = j
  · omega
  · rw [getElem?_flipBit] at hj
    simp [hij] at hj

theorem testBit_value (bs : List UInt8) (i : Nat) :
    (value bs).testBit i = (bits bs)[i]?.getD false := by
  induction bs generalizing i with
  | nil => simp [value, bits]
  | cons b bs ih =>
    have hb : b.toNat < 2 ^ 8 := b.toNat_lt
    rw [value, Nat.add_comm, show 256 = 2 ^ 8 from rfl, Nat.testBit_two_pow_mul_add _ hb, ih,
      getElem?_bits, getElem?_bits]
    by_cases hi : i < 8
    · rw [if_pos hi, Nat.div_eq_of_lt hi, Nat.mod_eq_of_lt hi]
      rfl
    · obtain ⟨j, rfl⟩ := Nat.exists_eq_add_of_le (Nat.not_lt.mp hi)
      rw [if_neg hi, Nat.add_sub_cancel_left, show (8 + j) / 8 = j / 8 + 1 by omega,
        Nat.add_mod_left]
      rfl

theorem testBit_field (file : List UInt8) (place n j : Nat) :
    (value (field file place n)).testBit j =
      if j < 8 * n then (bits file)[8 * place + j]?.getD false else false := by
  rw [testBit_value, field, bits_take, bits_drop, List.getElem?_take]
  split
  · rw [List.getElem?_drop]
  · rfl

theorem value_field_flipBit {file : List UInt8} {place n : Nat} (hfile : place + n ≤ file.length)
    (i : Nat) :
    value (field (flipBit file i) place n) =
      if 8 * place ≤ i ∧ i < 8 * (place + n) then value (field file place n) ^^^ 2 ^ (i - 8 * place)
      else value (field file place n) := by
  apply Nat.eq_of_testBit_eq
  intro j
  have hbit : ∀ j < 8 * n, ∃ b, (bits file)[8 * place + j]? = some b := by
    intro j hj
    exact ⟨_, List.getElem?_eq_getElem (by rw [length_bits]; omega)⟩
  rw [testBit_field]
  split
  · rename_i hj
    obtain ⟨b, hb⟩ := hbit j hj
    split
    · rw [getElem?_flipBit, hb, Nat.testBit_xor, testBit_field, if_pos hj, hb, Nat.testBit_two_pow]
      have hij : i = 8 * place + j ↔ i - 8 * place = j := by omega
      simp [hij]
    · have hij : i ≠ 8 * place + j := by omega
      rw [getElem?_flipBit, hb, testBit_field, if_pos hj, hb]
      simp [hij]
  · rename_i hj
    split
    · rw [Nat.testBit_xor, testBit_field, if_neg hj, Nat.testBit_two_pow]
      have hij : i - 8 * place ≠ j := by omega
      simp [hij]
    · rw [testBit_field, if_neg hj]

theorem value_field_lt (file : List UInt8) (place n : Nat) : value (field file place n) < 256 ^ n :=
  (value_lt _).trans_le (Nat.pow_le_pow_right (by decide) (List.length_take_le _ _))

theorem outside_of_value_eq {file : List UInt8} {place n i : Nat} (hfile : place + n ≤ file.length)
    (h : value (field (flipBit file i) place n) = value (field file place n)) :
    ¬(8 * place ≤ i ∧ i < 8 * (place + n)) := by
  intro hin
  rw [value_field_flipBit hfile, if_pos hin] at h
  have hbit := congrArg (fun v => v.testBit (i - 8 * place)) h
  simp [Nat.testBit_xor] at hbit

theorem value_eq_outside {file : List UInt8} {place n i : Nat} (hfile : place + n ≤ file.length)
    (hout : ¬(8 * place ≤ i ∧ i < 8 * (place + n))) :
    value (field (flipBit file i) place n) = value (field file place n) := by
  rw [value_field_flipBit hfile, if_neg hout]

theorem outside_of_u32_eq {file : List UInt8} {place i : Nat} (hfile : place + 4 ≤ file.length)
    (h : UInt32.ofNat (value (field (flipBit file i) place 4)) =
      UInt32.ofNat (value (field file place 4))) :
    ¬(8 * place ≤ i ∧ i < 8 * (place + 4)) := by
  apply outside_of_value_eq hfile
  have hval := congrArg UInt32.toNat h
  rwa [UInt32.toNat_ofNat_of_lt' (value_field_lt ..),
    UInt32.toNat_ofNat_of_lt' (value_field_lt ..)] at hval

theorem outside_of_u64_eq {file : List UInt8} {place i : Nat} (hfile : place + 8 ≤ file.length)
    (h : UInt64.ofNat (value (field (flipBit file i) place 8)) =
      UInt64.ofNat (value (field file place 8))) :
    ¬(8 * place ≤ i ∧ i < 8 * (place + 8)) := by
  apply outside_of_value_eq hfile
  have hval := congrArg UInt64.toNat h
  rwa [UInt64.toNat_ofNat_of_lt' (value_field_lt ..),
    UInt64.toNat_ofNat_of_lt' (value_field_lt ..)] at hval

/-- What a file must have for `read_snapshot` to accept it, and what it then
returns. -/
structure Accepted (buf : List UInt8) (img : Image) : Prop where
  long : snapshotHeaderSize ≤ buf.length
  magic : (header buf).magic = snapshotMagic
  version : (header buf).version = snapshotVersion
  count : (header buf).count.toNat ≤ (buf.drop snapshotHeaderSize).length / orderSize
  crc : crc32 (buf.drop snapshotHeaderSize) 0 = (header buf).wantCrc
  orders : readOrders (header buf).count.toNat ⟨buf.drop snapshotHeaderSize, true⟩ [] =
    (.ok (), img.orders)
  stored : (header buf).store img = img

theorem accepted_of_read {path : String} {buf : List UInt8} {out img : Image}
    (h : readSnapshot path (.ok buf) out = (.ok (), img)) : Accepted buf img := by
  by_cases hlong : buf.length < snapshotHeaderSize
  · simp [readSnapshot, hlong] at h
  have hlong := Nat.not_lt.mp hlong
  rw [readSnapshot_eq path hlong] at h
  split at h
  · cases h
  rename_i hmagic
  split at h
  · cases h
  rename_i hversion
  split at h
  · cases h
  rename_i hcount
  split at h
  · cases h
  rename_i hcrc
  obtain ⟨hok, himg⟩ := Prod.mk.inj h
  refine ⟨hlong, not_not.mp hmagic, not_not.mp hversion, Nat.not_lt.mp hcount,
    not_not.mp hcrc, ?_, ?_⟩
  · rw [← himg]
    exact Prod.ext hok rfl
  · rw [← himg]
    rfl

theorem Accepted.read {buf : List UInt8} {img : Image} (h : Accepted buf img) (path : String)
    (out : Image) :
    readSnapshot path (.ok buf) out = (.ok (), img) := by
  have himg : { (header buf).store out with orders := img.orders } = img := by
    conv => rhs; rw [← h.stored]
    rfl
  rw [readSnapshot_eq path h.long, if_neg (not_not.mpr h.magic), if_neg (not_not.mpr h.version),
    if_neg (Nat.not_lt.mpr h.count), if_neg (not_not.mpr h.crc), h.orders]
  exact Prod.ext rfl himg

theorem side_of_readOrders {os : List OrderImage} {n : Nat} (hn : n ≤ os.length)
    {orders : List OrderImage}
    (h : (readOrders n ⟨os.flatMap encodeOrder, true⟩ orders).1 = .ok ()) :
    ∀ o ∈ os.take n, o.side ≤ 1 := by
  induction os generalizing n orders with
  | nil => simp
  | cons o os ih =>
    cases n with
    | zero => simp
    | succ n =>
      rw [List.flatMap_cons, readOrders, readOrder_encodeOrder] at h
      dsimp only at h
      split at h
      · cases h
      · rename_i hgood
        have hside : o.side ≤ 1 := UInt8.not_lt.mp fun hlt => hgood (Or.inr hlt)
        intro x hx
        rw [List.take_succ_cons, List.mem_cons] at hx
        obtain rfl | hx := hx
        · exact hside
        · exact ih (by simpa using hn) h x hx

theorem drop_writeSnapshot (d : Image) : (writeSnapshot d).drop snapshotHeaderSize = body d :=
  List.drop_left' (length_encodeHeader d (body d))

theorem length_body_div (d : Image) : (body d).length / orderSize = d.orders.length := by
  rw [body, length_body, Nat.mul_div_cancel_left _ (by decide)]

theorem drop_flipBit (file : List UInt8) {i : Nat} (hi : i < 352) :
    (flipBit file i).drop snapshotHeaderSize = file.drop snapshotHeaderSize :=
  List.drop_modify_of_lt _ _ _ _ (by rw [snapshotHeaderSize]; omega)

theorem crc32_drop_flipBit {file : List UInt8} {i : Nat} (hi : 352 ≤ i)
    (hfile : i < 8 * file.length) :
    crc32 ((flipBit file i).drop snapshotHeaderSize) 0 ≠
      crc32 (file.drop snapshotHeaderSize) 0 := by
  have hconfined := (confined_flipBit file i).drop (8 * snapshotHeaderSize)
  rw [← bits_drop, ← bits_drop] at hconfined
  refine (crc32_ne hconfined fun hsame => ?_).symm
  have hplace : ∀ bs : List UInt8,
      (bits (bs.drop snapshotHeaderSize))[i - 352]? = (bits bs)[i]? := by
    intro bs
    rw [bits_drop, List.getElem?_drop, snapshotHeaderSize, show 8 * 44 + (i - 352) = i by omega]
  have hbit := getElem?_flipBit file i i
  rw [← hplace, ← hsame, hplace,
    List.getElem?_eq_getElem (by rw [length_bits]; exact hfile)] at hbit
  simp at hbit

/-- The bits of a snapshot file that no check covers: those of the sequence
number, of the last trade price and of the next id, and those of the count whose
loss only makes it smaller. -/
def Exposed (d : Image) (i : Nat) : Prop :=
  ((64 ≤ i ∧ i < 128 ∨ 192 ≤ i ∧ i < 320) ∧ ∀ o ∈ d.orders, o.side ≤ 1) ∨
    (128 ≤ i ∧ i < 192) ∧ d.orders.length.testBit (i - 128) = true ∧
      ∀ o ∈ d.orders.take (d.orders.length ^^^ 2 ^ (i - 128)), o.side ≤ 1

theorem xor_lt_iff (m k : Nat) : m ^^^ 2 ^ k < m ↔ m.testBit k = true := by
  have hk : (m ^^^ 2 ^ k).testBit k = !m.testBit k := by simp [Nat.testBit_xor]
  have hother : ∀ j, k < j → (m ^^^ 2 ^ k).testBit j = m.testBit j := by
    intro j hj
    simp [Nat.testBit_xor, hj.ne]
  cases hbit : m.testBit k with
  | true =>
    rw [hbit] at hk
    simpa using Nat.lt_of_testBit k hk hbit hother
  | false =>
    rw [hbit] at hk
    have hlt := Nat.lt_of_testBit k hbit hk fun j hj => (hother j hj).symm
    simp only [Bool.false_eq_true, iff_false]
    omega

section Flipped

variable (d : Stored) {i : Nat}

theorem value_header :
    header (writeSnapshot d.image) = ⟨snapshotMagic, snapshotVersion, d.image.lastSeq,
      UInt64.ofNat d.image.orders.length, d.image.lastTradeTicks, d.image.nextExchangeId,
      crc32 (body d.image) 0⟩ :=
  header_encodeHeader d.image (body d.image) (body d.image)

theorem header_fits {n : Nat} (hn : n ≤ snapshotHeaderSize) :
    n ≤ (writeSnapshot d.image).length := by
  rw [length_writeSnapshot]
  exact hn.trans (Nat.le_add_right _ _)

theorem count_flipBit (hi : 128 ≤ i ∧ i < 192) :
    (header (flipBit (writeSnapshot d.image) i)).count.toNat =
      d.image.orders.length ^^^ 2 ^ (i - 128) := by
  have hfits : 16 + 8 ≤ (writeSnapshot d.image).length := header_fits d (by decide)
  have hcount : value (field (writeSnapshot d.image) 16 8) = d.image.orders.length := by
    have hvalue := congrArg (fun h => h.count.toNat) (value_header d)
    rw [d.count] at hvalue
    rw [← hvalue]
    exact (UInt64.toNat_ofNat_of_lt' (value_field_lt _ 16 8)).symm
  have hflipped := value_field_flipBit hfits i
  rw [if_pos (by omega), hcount] at hflipped
  have hlt := value_field_lt (flipBit (writeSnapshot d.image) i) 16 8
  calc (header (flipBit (writeSnapshot d.image) i)).count.toNat
      = value (field (flipBit (writeSnapshot d.image) i) 16 8) := UInt64.toNat_ofNat_of_lt' hlt
    _ = d.image.orders.length ^^^ 2 ^ (i - 128) := hflipped

theorem count_flipBit_outside (hi : ¬(128 ≤ i ∧ i < 192)) :
    (header (flipBit (writeSnapshot d.image) i)).count.toNat = d.image.orders.length := by
  have hfits : 16 + 8 ≤ (writeSnapshot d.image).length := header_fits d (by decide)
  have hvalue := value_eq_outside (i := i) hfits (by omega)
  have hcount := congrArg (fun h => h.count.toNat) (value_header d)
  rw [d.count] at hcount
  rw [← hcount]
  exact congrArg (fun v => (UInt64.ofNat v).toNat) hvalue

theorem exposed_of_accepted (hi : i < 8 * (writeSnapshot d.image).length) {img : Image}
    (h : Accepted (flipBit (writeSnapshot d.image) i) img) : Exposed d.image i := by
  have hheader := value_header d
  have hmagic : ¬(8 * 0 ≤ i ∧ i < 8 * (0 + 4)) := by
    apply outside_of_u32_eq (header_fits d (by decide))
    exact h.magic.trans (congrArg Header.magic hheader).symm
  have hversion : ¬(8 * 4 ≤ i ∧ i < 8 * (4 + 4)) := by
    apply outside_of_u32_eq (header_fits d (by decide))
    exact h.version.trans (congrArg Header.version hheader).symm
  have hsum : (header (writeSnapshot d.image)).wantCrc =
      crc32 ((writeSnapshot d.image).drop snapshotHeaderSize) 0 := by
    rw [drop_writeSnapshot, hheader]
  have hbody : i < 352 := by
    by_contra hbody
    have hwant : (header (flipBit (writeSnapshot d.image) i)).wantCrc =
        (header (writeSnapshot d.image)).wantCrc :=
      congrArg UInt32.ofNat (value_eq_outside (header_fits d (by decide)) (by omega))
    exact crc32_drop_flipBit (Nat.not_lt.mp hbody) hi (h.crc.trans (hwant.trans hsum))
  have hsame := drop_flipBit (writeSnapshot d.image) hbody
  have hcrc : ¬(8 * 40 ≤ i ∧ i < 8 * (40 + 4)) := by
    apply outside_of_u32_eq (header_fits d (by decide))
    have hwant := h.crc
    rw [hsame] at hwant
    exact hwant.symm.trans hsum.symm
  have hcount := h.count
  have horders := congrArg Prod.fst h.orders
  rw [hsame, drop_writeSnapshot] at hcount horders
  rw [length_body_div] at hcount
  by_cases hin : 128 ≤ i ∧ i < 192
  · rw [count_flipBit d hin] at hcount horders
    refine Or.inr ⟨hin, ?_, side_of_readOrders hcount horders⟩
    apply (xor_lt_iff _ _).mp
    apply Nat.lt_of_le_of_ne hcount
    intro heq
    have hbit := congrArg (fun v => v.testBit (i - 128)) heq
    simp [Nat.testBit_xor] at hbit
  · rw [count_flipBit_outside d hin] at hcount horders
    have hside := side_of_readOrders hcount horders
    rw [List.take_length] at hside
    exact Or.inl ⟨by omega, hside⟩

/-- A flip outside of what the checks cover: the header is stored as it is, with
as many orders as the count says. -/
theorem accepted_flipBit (hi : 64 ≤ i ∧ i < 320) {n : Nat}
    (hcount : (header (flipBit (writeSnapshot d.image) i)).count.toNat = n)
    (hn : n ≤ d.image.orders.length) (hside : ∀ o ∈ d.image.orders.take n, o.side ≤ 1) :
    Accepted (flipBit (writeSnapshot d.image) i)
      ((header (flipBit (writeSnapshot d.image) i)).store { d.image with
        orders := d.image.orders.take n }) := by
  have hheader := value_header d
  have hsame := drop_flipBit (writeSnapshot d.image) (i := i) (by omega)
  rw [drop_writeSnapshot] at hsame
  have hkept : ∀ place, place + 4 ≤ snapshotHeaderSize → ¬(8 * place ≤ i ∧ i < 8 * (place + 4)) →
      UInt32.ofNat (value (field (flipBit (writeSnapshot d.image) i) place 4)) =
        UInt32.ofNat (value (field (writeSnapshot d.image) place 4)) :=
    fun place hplace hout => congrArg UInt32.ofNat (value_eq_outside (header_fits d hplace) hout)
  refine ⟨?_, ?_, ?_, ?_, ?_, ?_, rfl⟩
  · rw [length_flipBit]
    exact header_fits d (Nat.le_refl _)
  · exact (hkept 0 (by decide) (by omega)).trans (congrArg Header.magic hheader)
  · exact (hkept 4 (by decide) (by omega)).trans (congrArg Header.version hheader)
  · rw [hcount, hsame, length_body_div]
    exact hn
  · rw [hsame]
    exact ((hkept 40 (by decide) (by omega)).trans (congrArg Header.wantCrc hheader)).symm
  · rw [hcount, hsame, body, readOrders_encodeOrder n hside hn]
    rfl

theorem accepted_of_exposed (h : Exposed d.image i) :
    ∃ img, img ≠ d.image ∧ Accepted (flipBit (writeSnapshot d.image) i) img := by
  obtain ⟨hin, hside⟩ | ⟨hin, hbit, hside⟩ := h
  · have hcount := count_flipBit_outside d (i := i) (by omega)
    rw [← List.take_length (l := d.image.orders)] at hside
    refine ⟨_, fun hsame => ?_, accepted_flipBit d (by omega) hcount (Nat.le_refl _) hside⟩
    -- the stored fields are those of the header, and one of them has changed
    have hstored := value_header d
    have hseq : ¬(8 * 8 ≤ i ∧ i < 8 * (8 + 8)) := by
      apply outside_of_u64_eq (header_fits d (by decide))
      exact (congrArg Image.lastSeq hsame).trans (congrArg Header.lastSeq hstored).symm
    have htrade : ¬(8 * 24 ≤ i ∧ i < 8 * (24 + 8)) := by
      apply outside_of_u64_eq (header_fits d (by decide))
      have hticks :=
        (congrArg Image.lastTradeTicks hsame).trans (congrArg Header.lastTradeTicks hstored).symm
      exact congrArg Int64.toUInt64 hticks
    have hnext : ¬(8 * 32 ≤ i ∧ i < 8 * (32 + 8)) := by
      apply outside_of_u64_eq (header_fits d (by decide))
      exact (congrArg Image.nextExchangeId hsame).trans
        (congrArg Header.nextExchangeId hstored).symm
    omega
  · have hless := (xor_lt_iff _ _).mpr hbit
    refine ⟨_, fun hsame => ?_, accepted_flipBit d (by omega) (count_flipBit d hin) hless.le hside⟩
    have hlen := congrArg (fun img => img.orders.length) hsame
    simp only [Header.store, List.length_take] at hlen
    omega

/-- A single flipped bit of a snapshot file is detected if and only if a check
covers it. -/
theorem detected_iff (hi : i < 8 * (writeSnapshot d.image).length) :
    (∀ path out img, readSnapshot path (.ok (flipBit (writeSnapshot d.image) i)) out =
      (.ok (), img) → img = d.image) ↔
      ¬Exposed d.image i := by
  refine ⟨fun hdetected hexposed => ?_, fun hcovered path out img hread => ?_⟩
  · obtain ⟨img, hne, haccepted⟩ := accepted_of_exposed d hexposed
    exact hne (hdetected "" .blank img (haccepted.read "" .blank))
  · exact absurd (exposed_of_accepted d hi (accepted_of_read hread)) hcovered

end Flipped

theorem detected_body : 400 < 8 * (writeSnapshot twoSided.image).length ∧
    ∀ path out img, readSnapshot path (.ok (flipBit (writeSnapshot twoSided.image) 400)) out =
      (.ok (), img) →
      img = twoSided.image := by
  have hi : 400 < 8 * (writeSnapshot twoSided.image).length := by
    rw [length_writeSnapshot]
    decide
  have hcovered : ¬Exposed twoSided.image 400 := by
    rintro (⟨hin, -⟩ | ⟨hin, -⟩)
    · omega
    · omega
  exact ⟨hi, (detected_iff twoSided hi).mpr hcovered⟩

/-- The lowest bit of the sequence number of a snapshot without orders. -/
theorem flipped_lastSeq_accepted :
    ¬∀ (d : Stored) (i : Nat), i < 8 * (writeSnapshot d.image).length → ∀ path out img,
      readSnapshot path (.ok (flipBit (writeSnapshot d.image) i)) out = (.ok (), img) →
        img = d.image := by
  intro h
  let d : Stored := ⟨⟨5, 100, 7, []⟩, by decide⟩
  have hlen : 64 < 8 * (writeSnapshot d.image).length := by decide
  have hread : readSnapshot "snap" (.ok (flipBit (writeSnapshot d.image) 64)) .blank =
      (.ok (), ⟨4, 100, 7, []⟩) := by
    decide +kernel
  exact absurd (h d 64 hlen "snap" .blank _ hread) (by decide)

end OrderMatching.SnapshotFlips
