import OrderMatching.MatchingThread

namespace OrderMatching.Protocol

open OrderMatching.Codec OrderMatching.MatchingThread

def version : UInt16 := 1

def maxPayloadSize : UInt32 := 64 * 1024

def headerSize : Nat := 8

structure MessageHeader where
  length : UInt32
  type : UInt16
  version : UInt16
  deriving DecidableEq

structure BookLevel where
  priceTicks : Int64
  quantity : UInt64
  deriving DecidableEq

structure BookUpdate where
  seq : UInt64
  bids : List BookLevel
  asks : List BookLevel
  deriving DecidableEq

def bookUpdateType : UInt16 := 13

def encodeHeader (h : MessageHeader) : List UInt8 :=
  putU32 h.length ++ (putU16 h.type ++ putU16 h.version)

def decodeHeader (data : List UInt8) : Option MessageHeader :=
  if data.length < headerSize then none
  else
    let (length, r) := Reader.u32 ⟨data, true⟩
    let (type, r) := r.u16
    let (version, r) := r.u16
    if r.ok = false ∨ length > maxPayloadSize then none else some ⟨length, type, version⟩

def encodeLevel (l : BookLevel) : List UInt8 := putI64 l.priceTicks ++ putU64 l.quantity

/-- The depth cap is enforced: what is beyond it is not sent. -/
def encodeBookUpdate (m : BookUpdate) : List UInt8 :=
  let nb := min m.bids.length maxBookDepth
  let na := min m.asks.length maxBookDepth
  putU64 m.seq ++ (putU8 (UInt8.ofNat nb) ++ (putU8 (UInt8.ofNat na) ++
    ((m.bids.take nb).flatMap encodeLevel ++ (m.asks.take na).flatMap encodeLevel)))

def readLevels : Nat → Reader → List BookLevel × Reader
  | 0, r => ([], r)
  | n + 1, r =>
    let (priceTicks, r) := r.i64
    let (quantity, r) := r.u64
    let (ls, r) := readLevels n r
    (⟨priceTicks, quantity⟩ :: ls, r)

def decodeBookUpdate (data : List UInt8) : Option BookUpdate :=
  let (seq, r) := Reader.u64 ⟨data, true⟩
  let (nb, r) := r.u8
  let (na, r) := r.u8
  if r.ok = false then none
  else if nb.toNat > maxBookDepth ∨ na.toNat > maxBookDepth then none
  else
    let (bids, r) := readLevels nb.toNat r
    let (asks, r) := readLevels na.toNat r
    if r.ok = false ∨ r.remaining ≠ 0 then none else some ⟨seq, bids, asks⟩

/-- `encode_frame`: the header, with the length of the encoded payload, and the
payload. -/
def encodeFrame (type : UInt16) (payload : List UInt8) : List UInt8 :=
  encodeHeader ⟨UInt32.ofNat payload.length, type, version⟩ ++ payload

@[simp] theorem length_encodeLevel (l : BookLevel) : (encodeLevel l).length = 16 := by
  simp [encodeLevel]

theorem length_levels (ls : List BookLevel) : (ls.flatMap encodeLevel).length = 16 * ls.length := by
  induction ls with
  | nil => rfl
  | cons l ls ih =>
    rw [List.flatMap_cons, List.length_append, ih, length_encodeLevel, List.length_cons]
    omega

theorem readLevels_encodeLevel (ls : List BookLevel) (rest : List UInt8) :
    readLevels ls.length ⟨ls.flatMap encodeLevel ++ rest, true⟩ = (ls, ⟨rest, true⟩) := by
  induction ls with
  | nil => rfl
  | cons l ls ih =>
    simp only [List.flatMap_cons, encodeLevel, List.append_assoc, List.length_cons, readLevels,
      i64_putI64, u64_putU64]
    rw [ih]

theorem toNat_count {n : Nat} (h : n ≤ maxBookDepth) : (UInt8.ofNat n).toNat = n := by
  rw [UInt8.toNat_ofNat']
  exact Nat.mod_eq_of_lt (by simp only [maxBookDepth] at h; omega)

theorem decodeBookUpdate_encode (m : BookUpdate) :
    decodeBookUpdate (encodeBookUpdate m) =
      some ⟨m.seq, m.bids.take maxBookDepth, m.asks.take maxBookDepth⟩ := by
  have hcut : ∀ ls : List BookLevel,
      (ls.take (min ls.length maxBookDepth)) = ls.take maxBookDepth := by
    intro ls
    rw [Nat.min_comm, ← List.take_take, List.take_length]
  have hlen : ∀ ls : List BookLevel,
      min ls.length maxBookDepth = (ls.take maxBookDepth).length := by
    intro ls
    rw [List.length_take, Nat.min_comm]
  have hcount : ∀ ls : List BookLevel, (UInt8.ofNat (min ls.length maxBookDepth)).toNat =
      (ls.take maxBookDepth).length := by
    intro ls
    rw [toNat_count (Nat.min_le_right _ _), hlen]
  have hsmall : ∀ ls : List BookLevel, ¬(ls.take maxBookDepth).length > maxBookDepth := by
    intro ls
    rw [List.length_take]
    omega
  have hasks := readLevels_encodeLevel (m.asks.take maxBookDepth) []
  rw [List.append_nil] at hasks
  simp only [decodeBookUpdate, encodeBookUpdate, u64_putU64, u8_putU8, hcount, hcut, hsmall,
    or_self, if_false, readLevels_encodeLevel, hasks, Bool.true_eq_false, Reader.remaining, if_true,
    List.length_nil, ne_eq, not_true_eq_false]

theorem length_encodeBookUpdate (m : BookUpdate) :
    (encodeBookUpdate m).length =
      10 + 16 * (min m.bids.length maxBookDepth + min m.asks.length maxBookDepth) := by
  simp only [encodeBookUpdate, List.length_append, length_putU64, length_putU8, length_levels,
    List.length_take]
  omega

theorem decodeHeader_encodeFrame {payload : List UInt8} (h : payload.length ≤ maxPayloadSize.toNat)
    (type : UInt16) :
    decodeHeader ((encodeFrame type payload).take headerSize) =
        some ⟨UInt32.ofNat payload.length, type, version⟩ ∧
      (encodeFrame type payload).drop headerSize = payload := by
  let hd : MessageHeader := ⟨UInt32.ofNat payload.length, type, version⟩
  have hlen : (encodeHeader hd).length = headerSize := by simp [encodeHeader, headerSize]
  have hfit : ¬hd.length > maxPayloadSize := by
    have hmax : maxPayloadSize.toNat = 65536 := rfl
    rw [gt_iff_lt, UInt32.lt_iff_toNat_lt, UInt32.toNat_ofNat']
    omega
  refine ⟨?_, List.drop_left' hlen⟩
  have hlast : Reader.u16 ⟨putU16 hd.version, true⟩ = (hd.version, ⟨[], true⟩) := by
    simpa using u16_putU16 hd.version []
  rw [encodeFrame, List.take_left' hlen, decodeHeader, if_neg (by rw [hlen]; exact Nat.lt_irrefl _)]
  simp only [encodeHeader, u32_putU32, u16_putU16, hlast, Bool.true_eq_false, false_or]
  exact if_neg hfit

end OrderMatching.Protocol
