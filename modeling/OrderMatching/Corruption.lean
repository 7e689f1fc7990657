import OrderMatching.Durability
import OrderMatching.ShiftRegister

namespace OrderMatching.Corruption

open OrderMatching.LittleEndian OrderMatching.Commands OrderMatching.Codec OrderMatching.Log
open OrderMatching.LogRead
open OrderMatching.Durability OrderMatching.ShiftRegister

def byteBits (b : UInt8) : List Bool := (List.range 8).map b.toBitVec.getLsbD

def bits (bs : List UInt8) : List Bool := bs.flatMap byteBits

@[simp] theorem length_byteBits (b : UInt8) : (byteBits b).length = 8 := by simp [byteBits]

@[simp] theorem length_bits (bs : List UInt8) : (bits bs).length = 8 * bs.length := by
  induction bs with
  | nil => rfl
  | cons b bs ih =>
    rw [bits, List.flatMap_cons, List.length_append, length_byteBits, ← bits, ih, List.length_cons]
    omega

theorem bits_append (as bs : List UInt8) : bits (as ++ bs) = bits as ++ bits bs :=
  List.flatMap_append

theorem bits_drop (bs : List UInt8) (k : Nat) : bits (bs.drop k) = (bits bs).drop (8 * k) := by
  by_cases hk : k ≤ bs.length
  · have hlen : (bits (bs.take k)).length = 8 * k := by
      rw [length_bits, List.length_take, Nat.min_eq_left hk]
    have hdrop : (bits (bs.take k) ++ bits (bs.drop k)).drop (8 * k) = bits (bs.drop k) :=
      List.drop_left' hlen
    rw [← hdrop, ← bits_append, List.take_append_drop]
  · rw [List.drop_eq_nil_of_le (by omega), List.drop_eq_nil_of_le (by rw [length_bits]; omega)]
    rfl

theorem bits_take (bs : List UInt8) (k : Nat) : bits (bs.take k) = (bits bs).take (8 * k) := by
  by_cases hk : k ≤ bs.length
  · have hlen : (bits (bs.take k)).length = 8 * k := by
      rw [length_bits, List.length_take, Nat.min_eq_left hk]
    have htake : (bits (bs.take k) ++ bits (bs.drop k)).take (8 * k) = bits (bs.take k) :=
      List.take_left' hlen
    rw [← htake, ← bits_append, List.take_append_drop]
  · rw [List.take_of_length_le (by omega), List.take_of_length_le (by rw [length_bits]; omega)]

theorem byteBits_injective {a b : UInt8} (h : byteBits a = byteBits b) : a = b := by
  apply UInt8.toBitVec_inj.mp
  apply BitVec.eq_of_getLsbD_eq
  intro i hi
  have hbit := congrArg (fun bs => bs[i]?) h
  simpa [byteBits, hi] using hbit

theorem bits_injective {as bs : List UInt8} (h : bits as = bits bs) : as = bs := by
  have hlen : as.length = bs.length := by
    have := congrArg List.length h
    simp only [length_bits] at this
    omega
  induction as generalizing bs with
  | nil => exact (List.eq_nil_of_length_eq_zero hlen.symm).symm
  | cons a as ih =>
    cases bs with
    | nil => cases hlen
    | cons b bs =>
      obtain ⟨hhead, htail⟩ := List.append_inj h (by simp)
      rw [byteBits_injective hhead, ih htail (by simpa using hlen)]

theorem confined_set (bs : List UInt8) (k : Nat) (b : UInt8) {w : Nat} (hw : 8 ≤ w) :
    Confined w (bits bs) (bits (bs.set k b)) := by
  have hlen : (bits bs).length = (bits (bs.set k b)).length := by
    rw [length_bits, length_bits, List.length_set]
  refine ⟨hlen, 8 * k, fun i hi => ?_⟩
  by_contra houtside
  refine hi ?_
  obtain hbelow | habove : i < 8 * k ∨ 8 * (k + 1) ≤ i := by omega
  · have htake : (bits bs).take (8 * k) = (bits (bs.set k b)).take (8 * k) := by
      rw [← bits_take, ← bits_take, List.take_set_of_le (Nat.le_refl k)]
    rw [← List.getElem?_take_of_lt hbelow, htake, List.getElem?_take_of_lt hbelow]
  · have hdrop : (bits bs).drop (8 * (k + 1)) = (bits (bs.set k b)).drop (8 * (k + 1)) := by
      rw [← bits_drop, ← bits_drop, List.drop_set_of_lt (Nat.lt_succ_self k)]
    obtain ⟨j, rfl⟩ := Nat.exists_eq_add_of_le habove
    rw [← List.getElem?_drop, hdrop, List.getElem?_drop]

def taps : BitVec 32 := 0xEDB88320#32

theorem low_and_one (c : UInt32) : c &&& 1 ≠ 0 ↔ c.toBitVec.getLsbD 0 = true := by
  have hand : (c &&& 1).toBitVec = (BitVec.ofBool (c.toBitVec.getLsbD 0)).setWidth 32 := by
    rw [UInt32.toBitVec_and]
    exact BitVec.and_one_eq_setWidth_ofBool_getLsbD
  rw [ne_eq, ← UInt32.toBitVec_inj, hand]
  cases c.toBitVec.getLsbD 0 <;> decide

theorem crcBit_shift (c : UInt32) : (crcBit c).toBitVec = shift taps c.toBitVec := by
  unfold crcBit shift
  simp only [low_and_one]
  split
  · rw [UInt32.toBitVec_xor, UInt32.toBitVec_shiftRight, BitVec.xor_comm]
    rfl
  · rw [UInt32.toBitVec_shiftRight]
    rfl

theorem crcBit_iterate (c : UInt32) (n : Nat) :
    (crcBit^[n] c).toBitVec = (shift taps)^[n] c.toBitVec := by
  induction n generalizing c with
  | zero => rfl
  | succ n ih => rw [Function.iterate_succ_apply, ih, crcBit_shift]; rfl

theorem word_byteBits (b : UInt8) : word (byteBits b) = b.toBitVec.setWidth 32 := by
  apply BitVec.eq_of_getLsbD_eq
  intro i hi
  rw [getLsbD_word, BitVec.getLsbD_setWidth]
  by_cases h : i < 8
  · simp [byteBits, hi, h]
  · simp [byteBits, h, BitVec.getLsbD_of_ge b.toBitVec i (by omega)]

/-- Eight steps split into those of the low byte, which the table has, and the
rest moving down. -/
theorem shift_eight (x : BitVec 32) :
    (shift taps)^[8] x = (shift taps)^[8] ((x.setWidth 8).setWidth 32) ^^^ (x >>> 8) := by
  let high := x ^^^ (x.setWidth 8).setWidth 32
  have hbit : ∀ i, high.getLsbD i = (x.getLsbD i ^^ (decide (i < 8) && x.getLsbD i)) := by
    intro i
    simp only [high, BitVec.getLsbD_xor, BitVec.getLsbD_setWidth]
    by_cases hi : i < 32
    · simp [hi]
    · simp [BitVec.getLsbD_of_ge x i (by omega)]
  have hclear : ∀ i < 8, high.getLsbD i = false := by
    intro i hi
    simp [hbit, hi]
  have hsplit : x = (x.setWidth 8).setWidth 32 ^^^ high := by
    change x = _ ^^^ (x ^^^ _)
    rw [BitVec.xor_comm x, ← BitVec.xor_assoc, BitVec.xor_self, BitVec.zero_xor]
  have hmove : high >>> 8 = x >>> 8 := by
    apply BitVec.eq_of_getLsbD_eq
    intro i _
    simp [hbit]
  conv => lhs; rw [hsplit]
  rw [shift_iterate_xor, shift_iterate_high taps hclear, hmove]

/-- The table-driven step is a run of the register over the bits of a byte. -/
theorem crcByte_run (c : UInt32) (b : UInt8) :
    (crcByte c b).toBitVec = run taps c.toBitVec (byteBits b) := by
  have hx : (c ^^^ b.toUInt32).toBitVec = c.toBitVec ^^^ b.toBitVec.setWidth 32 := by
    rw [UInt32.toBitVec_xor]
    rfl
  have hlow : ((c ^^^ b.toUInt32).toUInt8.toUInt32).toBitVec =
      (((c ^^^ b.toUInt32).toBitVec).setWidth 8).setWidth 32 := rfl
  have hmove : (c.toBitVec ^^^ b.toBitVec.setWidth 32) >>> 8 = c.toBitVec >>> 8 := by
    apply BitVec.eq_of_getLsbD_eq
    intro i _
    simp
  rw [run_word taps _ (by simp), word_byteBits, length_byteBits, shift_eight, hmove, crcByte,
    makeCrc32Table, UInt32.toBitVec_xor, crcBit_iterate, hlow, hx, UInt32.toBitVec_shiftRight]
  rfl

theorem crcBytes_run (bs : List UInt8) (c : UInt32) :
    (bs.foldl crcByte c).toBitVec = run taps c.toBitVec (bits bs) := by
  induction bs generalizing c with
  | nil => rfl
  | cons b bs ih => rw [List.foldl_cons, ih, crcByte_run, ← run_append]; rfl

/-- The checksum tells buffers apart that differ within 32 consecutive bits,
wherever it starts from. -/
theorem crc32_apart {as bs : List UInt8} (h : Confined 32 (bits as) (bits bs)) (hne : as ≠ bs)
    (crc : UInt32) :
    crc32 as crc ≠ crc32 bs crc := by
  intro hcrc
  have hfold : as.foldl crcByte (~~~crc) = bs.foldl crcByte (~~~crc) := by
    have := congrArg (~~~·) hcrc
    simpa [crc32] using this
  have hrun := congrArg UInt32.toBitVec hfold
  rw [crcBytes_run, crcBytes_run] at hrun
  exact run_ne (by decide) h (fun hbits => hne (bits_injective hbits)) _ hrun

theorem crc32_ne {as bs : List UInt8} (h : Confined 32 (bits as) (bits bs)) (hne : as ≠ bs) :
    crc32 as 0 ≠ crc32 bs 0 := crc32_apart h hne 0

theorem length_of_decodeCommand {data : List UInt8} {c : OrderCommand}
    (h : decodeCommand data = some c) : data.length = 31 := by
  have htype := reads_u8 ⟨data, true⟩
  have hsession := reads_u64 (Reader.u8 ⟨data, true⟩).2
  have hid := reads_u64 (Reader.u8 ⟨data, true⟩).2.u64.2
  have hprice := reads_i64 (Reader.u8 ⟨data, true⟩).2.u64.2.u64.2
  have hquantity := reads_u32 (Reader.u8 ⟨data, true⟩).2.u64.2.u64.2.i64.2
  have hside := reads_u8 (Reader.u8 ⟨data, true⟩).2.u64.2.u64.2.i64.2.u32.2
  have horder := reads_u8 (Reader.u8 ⟨data, true⟩).2.u64.2.u64.2.i64.2.u32.2.u8.2
  unfold decodeCommand at h
  dsimp only at h
  obtain ⟨hok, hnil, -⟩ := of_checked h
  have hdata := (htype.before (hsession.before (hid.before (hprice.before (hquantity.before
    (hside.before (horder.last hok hnil))))))).2
  rw [show data.length = _ from congrArg List.length hdata]
  simp

theorem read_take {n k : Nat} (data : List UInt8) (hn : n ≤ k) (hk : k ≤ data.length) :
    Reader.read n ⟨data.take k, true⟩ =
      (value (data.take n), ⟨(data.drop n).take (k - n), true⟩) := by
  have hroom : n ≤ (data.take k).length := by
    rw [List.length_take]
    omega
  rw [Reader.read, if_pos ⟨rfl, hroom⟩, List.take_take, Nat.min_eq_left hn, List.drop_take]

theorem nextRecord_eq {rest : List UInt8} (h : walHeaderSize ≤ rest.length) :
    let len := UInt32.ofNat (value (rest.take 4))
    let payload := (rest.drop walHeaderSize).take len.toNat
    nextRecord rest =
      if len > walMaxPayload then .torn
      else if walHeaderSize + len.toNat > rest.length then .torn
      else if crc32 payload 0 ≠ UInt32.ofNat (value ((rest.drop 4).take 4)) then .torn
      else
        match decodeCommand payload with
        | none => .torn
        | some c => .record (UInt64.ofNat (value ((rest.drop 8).take 8))) c
            (rest.drop (walHeaderSize + len.toNat)) := by
  have hlen : 16 ≤ rest.length := h
  have h₁ := read_take (n := 4) (k := 16) rest (by decide) hlen
  have h₂ := read_take (n := 4) (k := 12) (rest.drop 4) (by decide)
    (by rw [List.length_drop]; omega)
  have h₃ := read_take (n := 8) (k := 8) ((rest.drop 4).drop 4) (by decide)
    (by simp only [List.length_drop]; omega)
  rw [List.drop_drop] at h₂ h₃
  simp only [Nat.reduceSub, Nat.reduceAdd] at h₁ h₂ h₃
  simp only [nextRecord, walHeaderSize, Reader.u32, Reader.u64, h₁, h₂, h₃]
  rfl

theorem record_fields (seq : UInt64) (c : OrderCommand) (rest : List UInt8) :
    ((record seq c ++ rest).drop 4).take 4 = putU32 (crc32 (encodeCommand c) 0) ∧
      ((record seq c ++ rest).drop 16).take 31 = encodeCommand c ∧
      (record seq c ++ rest).drop 47 = rest := by
  have hsplit : record seq c ++ rest =
      putU32 31 ++ (putU32 (crc32 (encodeCommand c) 0) ++
        (putU64 seq ++ (encodeCommand c ++ rest))) := by
    simp [record]
  have hhead : (putU32 31 ++ (putU32 (crc32 (encodeCommand c) 0) ++ putU64 seq)).length = 16 := by
    simp
  refine ⟨?_, ?_, List.drop_left' (by simp)⟩
  · rw [hsplit, List.drop_left' (by simp), List.take_left' (by simp)]
  · rw [hsplit, ← List.append_assoc (putU32 _) (putU64 seq), ← List.append_assoc (putU32 31),
      List.drop_left' hhead, List.take_left' (by simp)]

theorem payload_eq {seq : UInt64} {c : OrderCommand} {rest file : List UInt8}
    (h : Confined 32 (bits (record seq c ++ rest)) (bits file))
    (hcrc : crc32 ((file.drop 16).take 31) 0 = UInt32.ofNat (value ((file.drop 4).take 4))) :
    (file.drop 16).take 31 = encodeCommand c := by
  obtain ⟨hwant, hpayload, -⟩ := record_fields seq c rest
  by_contra hne
  -- the error is in the payload, so it does not reach back to the checksum
  have hdiff : (bits (record seq c ++ rest)).drop (96 + 32) ≠ (bits file).drop (96 + 32) := by
    intro hsame
    have hbytes : (record seq c ++ rest).drop 16 = file.drop 16 := by
      apply bits_injective
      rw [bits_drop, bits_drop]
      exact hsame
    exact hne (by rw [← hbytes, hpayload])
  have hhead : (record seq c ++ rest).take 12 = file.take 12 := by
    apply bits_injective
    rw [bits_take, bits_take]
    exact h.take_eq hdiff
  have hfield : ∀ bs : List UInt8, (bs.drop 4).take 4 = ((bs.take 12).drop 4).take 4 := by
    intro bs
    rw [List.drop_take, List.take_take]
    rfl
  have hsum : UInt32.ofNat (value ((file.drop 4).take 4)) = crc32 (encodeCommand c) 0 := by
    rw [hfield file, ← hhead, ← hfield, hwant, putU32, value_bytes_of_lt (UInt32.toNat_lt _),
      UInt32.ofNat_toNat]
  have hconfined : Confined 32 (bits (encodeCommand c)) (bits ((file.drop 16).take 31)) := by
    rw [← hpayload, bits_take, bits_drop, bits_take, bits_drop]
    exact (h.drop 128).take 248
  exact crc32_ne hconfined (Ne.symm hne) (hcrc.trans hsum).symm

/-- At a record with an error in it the reader stops, or it finds the command
that was written there. -/
theorem nextRecord_confined {seq : UInt64} {c : OrderCommand} {rest file : List UInt8}
    (h : Confined 32 (bits (record seq c ++ rest)) (bits file)) :
    nextRecord file = .torn ∨ ∃ seq' rest', nextRecord file = .record seq' (detached c) rest' ∧
      Confined 32 (bits rest) (bits rest') := by
  have hlen : file.length = 47 + rest.length := by
    have hbits := h.length
    rw [length_bits, length_bits, List.length_append, length_record] at hbits
    omega
  have hheader : walHeaderSize ≤ file.length := by
    rw [walHeaderSize]
    omega
  rw [nextRecord_eq hheader]
  generalize UInt32.ofNat (value (file.take 4)) = len
  split
  · exact Or.inl rfl
  · split
    · exact Or.inl rfl
    · rename_i hroom
      split
      · exact Or.inl rfl
      · rename_i hcrc
        cases hdecode : decodeCommand ((file.drop walHeaderSize).take len.toNat) with
        | none => exact Or.inl rfl
        | some c' =>
          have hsize := length_of_decodeCommand hdecode
          rw [List.length_take, List.length_drop, walHeaderSize] at hsize
          rw [walHeaderSize] at hroom hcrc hdecode
          have hlen' : len.toNat = 31 := by omega
          rw [hlen'] at hcrc hdecode
          rw [payload_eq h (not_not.mp hcrc), decodeCommand_encodeCommand,
            Option.some.injEq] at hdecode
          refine Or.inr ⟨_, _, by rw [hdecode], ?_⟩
          rw [hlen', bits_drop]
          have hdrop := h.drop (8 * 47)
          rw [← bits_drop, (record_fields seq c rest).2.2] at hdrop
          exact hdrop

theorem nothing_read {r r' : WalReadResult} (hr : r'.commands = r.commands)
    (cs : List OrderCommand) :
    ∃ ds, ds <+: cs ∧ r'.commands = r.commands ++ ds :=
  ⟨[], List.nil_prefix, by rw [hr, List.append_nil]⟩

theorem readLoop_confined (cs : List OrderCommand) (seq : UInt64) {file : List UInt8}
    (h : Confined 32 (bits (records seq cs)) (bits file)) (n : Nat) (r : WalReadResult) :
    ∃ ds, ds <+: cs.map detached ∧ (readLoop n file r).commands = r.commands ++ ds := by
  induction cs generalizing seq file n r with
  | nil =>
    have hnil : file = [] := by
      have hbits := h.length
      rw [length_bits, length_bits, records, List.length_nil] at hbits
      exact List.eq_nil_of_length_eq_zero (by omega)
    rw [hnil, readLoop_torn torn_nil]
    exact nothing_read rfl _
  | cons c cs ih =>
    cases n with
    | zero => exact nothing_read rfl _
    | succ n =>
      rw [readLoop]
      split
      · obtain htorn | ⟨seq', rest', hnext, hrest⟩ := nextRecord_confined h
        · rw [htorn]
          exact nothing_read rfl _
        · rw [hnext]
          dsimp only
          split
          · exact nothing_read rfl _
          · obtain ⟨ds, hds, hread⟩ := ih (seq + 1) hrest n _
            refine ⟨detached c :: ds, ?_, ?_⟩
            · rw [List.map_cons, List.prefix_cons_inj]
              exact hds
            · rw [hread, List.append_assoc]
              rfl
      · exact nothing_read rfl _

/-- An error within 32 consecutive bits of a log, wherever it lies, leaves the
reader with commands that were appended, from the first one on. -/
theorem readWal_corrupted (path : String) (nowNs startSeq : UInt64) (cfg : WalConfig)
    (cs : List (OrderCommand × UInt64)) {file : List UInt8}
    (h : Confined 32 (bits (written path nowNs startSeq cfg cs)) (bits file)) :
    (readWal path (.ok file)).commands <+: (cs.map Prod.fst).map detached := by
  rw [written_eq] at h
  obtain ⟨ds, hds, hread⟩ := readLoop_confined _ _ h file.length .empty
  rw [readWal, hread]
  exact hds

def twoOrders : List (OrderCommand × UInt64) :=
  [(.newOrder 1 1 100 5 .ask .limit, 1), (.newOrder 1 2 101 5 .ask .limit, 2)]

def overwritten : List UInt8 := (written "wal" 0 0 .default twoOrders).set 70 255

theorem overwritten_prefix :
    (readWal "wal" (.ok overwritten)).commands <+: (twoOrders.map Prod.fst).map detached :=
  readWal_corrupted "wal" 0 0 .default twoOrders (confined_set _ 70 255 (by omega))

end OrderMatching.Corruption
