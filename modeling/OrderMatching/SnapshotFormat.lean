import OrderMatching.Corruption
import OrderMatching.SnapshotFile

namespace OrderMatching.SnapshotFormat

open OrderMatching.LittleEndian OrderMatching.Codec OrderMatching.SnapshotFile
open OrderMatching.Corruption

/-- The `n` bytes of a file from a place on. -/
def field (buf : List UInt8) (place n : Nat) : List UInt8 := (buf.drop place).take n

structure Header where
  magic : UInt32
  version : UInt32
  lastSeq : UInt64
  count : UInt64
  lastTradeTicks : Int64
  nextExchangeId : UInt64
  wantCrc : UInt32

def header (buf : List UInt8) : Header where
  magic := UInt32.ofNat (value (field buf 0 4))
  version := UInt32.ofNat (value (field buf 4 4))
  lastSeq := UInt64.ofNat (value (field buf 8 8))
  count := UInt64.ofNat (value (field buf 16 8))
  lastTradeTicks := (UInt64.ofNat (value (field buf 24 8))).toInt64
  nextExchangeId := UInt64.ofNat (value (field buf 32 8))
  wantCrc := UInt32.ofNat (value (field buf 40 4))

def Header.store (h : Header) (out : Image) : Image :=
  { out with
    lastSeq := h.lastSeq, lastTradeTicks := h.lastTradeTicks, nextExchangeId := h.nextExchangeId }

theorem read_field (buf : List UInt8) (place n k : Nat) (hn : n ≤ k) (hk : place + k ≤ buf.length) :
    Reader.read n ⟨field buf place k, true⟩ =
      (value (field buf place n), ⟨field buf (place + n) (k - n), true⟩) := by
  have hread := read_take (n := n) (k := k) (buf.drop place) hn (by rw [List.length_drop]; omega)
  rw [List.drop_drop] at hread
  exact hread

/-- `read_snapshot` as a sequence of checks on the header and the body. -/
theorem readSnapshot_eq (path : String) {buf : List UInt8} (hlen : snapshotHeaderSize ≤ buf.length)
    (out : Image) :
    readSnapshot path (.ok buf) out =
      if (header buf).magic ≠ snapshotMagic then (.error "not a snapshot file", out)
      else if (header buf).version ≠ snapshotVersion then
        (.error "unsupported snapshot version", out)
      else if (header buf).count.toNat > (buf.drop snapshotHeaderSize).length / orderSize then
        (.error "snapshot order count exceeds file size", (header buf).store out)
      else if crc32 (buf.drop snapshotHeaderSize) 0 ≠ (header buf).wantCrc then
        (.error "snapshot checksum mismatch", (header buf).store out)
      else
        ((readOrders (header buf).count.toNat ⟨buf.drop snapshotHeaderSize, true⟩ []).1,
          { (header buf).store out with
            orders :=
              (readOrders (header buf).count.toNat
                ⟨buf.drop snapshotHeaderSize, true⟩ []).2 }) := by
  have hsize : 44 ≤ buf.length := hlen
  have h₀ := read_field buf 0 4 44 (by decide) (by omega)
  have h₁ := read_field buf 4 4 40 (by decide) (by omega)
  have h₂ := read_field buf 8 8 36 (by decide) (by omega)
  have h₃ := read_field buf 16 8 28 (by decide) (by omega)
  have h₄ := read_field buf 24 8 20 (by decide) (by omega)
  have h₅ := read_field buf 32 8 12 (by decide) (by omega)
  have h₆ := read_field buf 40 4 4 (by decide) (by omega)
  simp only [Nat.reduceAdd, Nat.reduceSub] at h₀ h₁ h₂ h₃ h₄ h₅ h₆
  have hwhole : buf.take snapshotHeaderSize = field buf 0 44 := rfl
  simp only [readSnapshot, if_neg (Nat.not_lt.mpr hlen), hwhole, Reader.u32, Reader.u64, Reader.i64,
    h₀, h₁, h₂, h₃, h₄, h₅, h₆, Bool.true_eq_false, if_false]
  rfl

theorem header_take (buf : List UInt8) {k : Nat} (hk : snapshotHeaderSize ≤ k) :
    header (buf.take k) = header buf := by
  have hsize : 44 ≤ k := hk
  have hfield : ∀ place n, place + n ≤ 44 → field (buf.take k) place n = field buf place n := by
    intro place n hn
    rw [field, field, List.drop_take, List.take_take, Nat.min_eq_left (by omega)]
  simp only [header, hfield 0 4 (by decide), hfield 4 4 (by decide), hfield 8 8 (by decide),
    hfield 16 8 (by decide), hfield 24 8 (by decide), hfield 32 8 (by decide),
    hfield 40 4 (by decide)]

theorem field_here {xs : List UInt8} {n : Nat} (h : xs.length = n) (ys : List UInt8) :
    field (xs ++ ys) 0 n = xs := by
  rw [field, List.drop_zero, List.take_left' h]

theorem field_skip {xs : List UInt8} {k : Nat} (h : xs.length = k) (ys : List UInt8)
    (place n : Nat) :
    field (xs ++ ys) (k + place) n = field ys place n := by
  rw [field, field, ← List.drop_drop, List.drop_left' h]

theorem value_putU32 (v : UInt32) : UInt32.ofNat (value (putU32 v)) = v := by
  rw [putU32, value_bytes_of_lt v.toNat_lt, UInt32.ofNat_toNat]

theorem value_putU64 (v : UInt64) : UInt64.ofNat (value (putU64 v)) = v := by
  rw [putU64, value_bytes_of_lt v.toNat_lt, UInt64.ofNat_toNat]

theorem value_putI64 (v : Int64) : (UInt64.ofNat (value (putI64 v))).toInt64 = v := by
  rw [putI64, value_putU64]
  rfl

theorem header_encodeHeader (d : Image) (body rest : List UInt8) :
    header (encodeHeader d body ++ rest) =
      ⟨snapshotMagic, snapshotVersion, d.lastSeq, UInt64.ofNat d.orders.length, d.lastTradeTicks,
        d.nextExchangeId, crc32 body 0⟩ := by
  have hsplit : encodeHeader d body ++ rest =
      putU32 snapshotMagic ++ (putU32 snapshotVersion ++ (putU64 d.lastSeq ++
      (putU64 (UInt64.ofNat d.orders.length) ++
        (putI64 d.lastTradeTicks ++ (putU64 d.nextExchangeId ++
        (putU32 (crc32 body 0) ++ rest)))))) := by
    simp only [encodeHeader, List.append_assoc]
  -- the fields of the file from each of them on
  let fromCrc := putU32 (crc32 body 0) ++ rest
  let fromNext := putU64 d.nextExchangeId ++ fromCrc
  let fromTrade := putI64 d.lastTradeTicks ++ fromNext
  let fromCount := putU64 (UInt64.ofNat d.orders.length) ++ fromTrade
  let fromSeq := putU64 d.lastSeq ++ fromCount
  let fromVersion := putU32 snapshotVersion ++ fromSeq
  let buf := putU32 snapshotMagic ++ fromVersion
  have hversion : ∀ place n, field buf (4 + place) n = field fromVersion place n :=
    field_skip (by simp) _
  have hseq : ∀ place n, field buf (8 + place) n = field fromSeq place n := by
    intro place n
    rw [show 8 + place = 4 + (4 + place) by omega, hversion, field_skip (by simp)]
  have hcount : ∀ place n, field buf (16 + place) n = field fromCount place n := by
    intro place n
    rw [show 16 + place = 8 + (8 + place) by omega, hseq, field_skip (by simp)]
  have htrade : ∀ place n, field buf (24 + place) n = field fromTrade place n := by
    intro place n
    rw [show 24 + place = 16 + (8 + place) by omega, hcount, field_skip (by simp)]
  have hnext : ∀ place n, field buf (32 + place) n = field fromNext place n := by
    intro place n
    rw [show 32 + place = 24 + (8 + place) by omega, htrade, field_skip (by simp)]
  have hcrc : ∀ place n, field buf (40 + place) n = field fromCrc place n := by
    intro place n
    rw [show 40 + place = 32 + (8 + place) by omega, hnext, field_skip (by simp)]
  have hwhole : encodeHeader d body ++ rest = buf := hsplit
  rw [hwhole, header, field_here (by simp), hversion 0, field_here (by simp), hseq 0,
    field_here (by simp), hcount 0, field_here (by simp), htrade 0, field_here (by simp), hnext 0,
    field_here (by simp), hcrc 0, field_here (by simp)]
  simp only [value_putU32, value_putU64, value_putI64]

/-- A snapshot as memory can hold it: the size of a vector is a `size_t`. -/
structure Stored where
  image : Image
  size : image.orders.length < 2 ^ 64

theorem Stored.count (d : Stored) :
    (UInt64.ofNat d.image.orders.length).toNat = d.image.orders.length :=
  UInt64.toNat_ofNat_of_lt' d.size

def body (d : Image) : List UInt8 := d.orders.flatMap encodeOrder

theorem writeSnapshot_eq (d : Image) : writeSnapshot d = encodeHeader d (body d) ++ body d := rfl

theorem length_writeSnapshot (d : Image) :
    (writeSnapshot d).length = snapshotHeaderSize + orderSize * d.orders.length := by
  rw [writeSnapshot, List.length_append, length_encodeHeader, length_body]

theorem readSnapshot_take (path : String) (d : Stored) {k : Nat}
    (hk : k < (writeSnapshot d.image).length) (out : Image) :
    ∃ e, (readSnapshot path (.ok ((writeSnapshot d.image).take k)) out).1 = .error e := by
  have hlen : ((writeSnapshot d.image).take k).length = k := List.length_take_of_le hk.le
  rw [length_writeSnapshot] at hk
  by_cases hshort : k < snapshotHeaderSize
  · refine ⟨"snapshot too short", ?_⟩
    simp only [readSnapshot, hlen, if_pos hshort]
  · have hheader : header ((writeSnapshot d.image).take k) = header (writeSnapshot d.image) :=
      header_take _ (Nat.not_lt.mp hshort)
    have hcount : (header (writeSnapshot d.image)).count.toNat = d.image.orders.length := by
      rw [writeSnapshot_eq, header_encodeHeader, d.count]
    have hmore : (((writeSnapshot d.image).take k).drop snapshotHeaderSize).length / orderSize <
        d.image.orders.length := by
      rw [List.length_drop, hlen]
      apply Nat.div_lt_of_lt_mul
      omega
    rw [readSnapshot_eq path (by rw [hlen]; exact Nat.not_lt.mp hshort), hheader, hcount,
      if_pos hmore]
    split
    · exact ⟨_, rfl⟩
    · split
      · exact ⟨_, rfl⟩
      · exact ⟨_, rfl⟩

/-- What is written is read back as it was, and no proper part of it from the
start passes for a snapshot. -/
theorem readSnapshot_roundTrip (path : String) (d : Stored)
    (hside : ∀ o ∈ d.image.orders, o.side ≤ 1) (out : Image) :
    readSnapshot path (.ok (writeSnapshot d.image)) out = (.ok (), d.image) ∧
      ∀ cut, cut <+: writeSnapshot d.image → cut ≠ writeSnapshot d.image →
        ∃ e, (readSnapshot path (.ok cut) out).1 = .error e := by
  refine ⟨?_, fun cut hcut hne => ?_⟩
  · rw [readSnapshot_writeSnapshot path hside, d.count, List.take_length]
  · rw [List.prefix_iff_eq_take.mp hcut]
    apply readSnapshot_take
    have hle := hcut.length_le
    have hlen : cut.length ≠ (writeSnapshot d.image).length :=
      fun hlen => hne (hcut.eq_of_length hlen)
    omega

def twoSided : Stored :=
  ⟨⟨7, -9223372036854775808, 3,
    [⟨1, 1, 10, -5, 4294967295, 0, 0⟩, ⟨2, 2, 20, 9223372036854775807, 1, 1, 9⟩]⟩,
    by decide⟩

theorem readSnapshot_roundTrip_twoSided :
    (∀ o ∈ twoSided.image.orders, o.side ≤ 1) ∧
      readSnapshot "snap" (.ok (writeSnapshot twoSided.image)) .blank = (.ok (), twoSided.image) ∧
      ∀ cut, cut <+: writeSnapshot twoSided.image → cut ≠ writeSnapshot twoSided.image →
        ∃ e, (readSnapshot "snap" (.ok cut) .blank).1 = .error e :=
  ⟨by decide, readSnapshot_roundTrip "snap" twoSided (by decide) .blank⟩

end OrderMatching.SnapshotFormat
