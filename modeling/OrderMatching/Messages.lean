import OrderMatching.Log
import OrderMatching.Network
import OrderMatching.Protocol

namespace OrderMatching.Messages

open OrderMatching.Orders OrderMatching.Codec OrderMatching.Commands OrderMatching.Log
open OrderMatching.Protocol OrderMatching.MatchingThread

structure NewOrder where
  clientOrderId : UInt64
  priceTicks : Int64
  quantity : UInt32
  side : Side
  orderType : Commands.OrderType

structure Cancel where
  clientOrderId : UInt64

structure Modify where
  clientOrderId : UInt64
  newPriceTicks : Int64
  newQuantity : UInt32

structure Subscribe where
  depth : UInt8

structure Ack where
  clientOrderId : UInt64
  exchangeOrderId : UInt64

/-- The reason is any number: a newer server may send one that this build does
not know. -/
structure Reject where
  clientOrderId : UInt64
  reason : UInt16

structure Fill where
  exchangeOrderId : UInt64
  priceTicks : Int64
  quantity : UInt32
  remainingQuantity : UInt32

structure Heartbeat where
  timestampNs : UInt64

def NewOrder.encode (m : NewOrder) : List UInt8 :=
  putU64 m.clientOrderId ++ (putI64 m.priceTicks ++ (putU32 m.quantity ++
    (putU8 (sideCode m.side) ++ putU8 (orderTypeCode m.orderType))))

def Cancel.encode (m : Cancel) : List UInt8 := putU64 m.clientOrderId

def Modify.encode (m : Modify) : List UInt8 :=
  putU64 m.clientOrderId ++ (putI64 m.newPriceTicks ++ putU32 m.newQuantity)

def Subscribe.encode (m : Subscribe) : List UInt8 := putU8 m.depth

def Ack.encode (m : Ack) : List UInt8 := putU64 m.clientOrderId ++ putU64 m.exchangeOrderId

def Reject.encode (m : Reject) : List UInt8 := putU64 m.clientOrderId ++ putU16 m.reason

def Fill.encode (m : Fill) : List UInt8 :=
  putU64 m.exchangeOrderId ++
    (putI64 m.priceTicks ++ (putU32 m.quantity ++ putU32 m.remainingQuantity))

def Heartbeat.encode (m : Heartbeat) : List UInt8 := putU64 m.timestampNs

def NewOrder.decode (data : List UInt8) : Option NewOrder :=
  let (clientOrderId, r) := Reader.u64 ⟨data, true⟩
  let (priceTicks, r) := r.i64
  let (quantity, r) := r.u32
  let (side, r) := r.u8
  let (type, r) := r.u8
  if r.ok = false ∨ r.remaining ≠ 0 then none
  else
    match knownSide side, knownOrderType type with
    | some s, some o => some ⟨clientOrderId, priceTicks, quantity, s, o⟩
    | _, _ => none

def Cancel.decode (data : List UInt8) : Option Cancel :=
  let (clientOrderId, r) := Reader.u64 ⟨data, true⟩
  if r.ok = false ∨ r.remaining ≠ 0 then none else some ⟨clientOrderId⟩

def Modify.decode (data : List UInt8) : Option Modify :=
  let (clientOrderId, r) := Reader.u64 ⟨data, true⟩
  let (newPriceTicks, r) := r.i64
  let (newQuantity, r) := r.u32
  if r.ok = false ∨ r.remaining ≠ 0 then none else some ⟨clientOrderId, newPriceTicks, newQuantity⟩

def Subscribe.decode (data : List UInt8) : Option Subscribe :=
  let (depth, r) := Reader.u8 ⟨data, true⟩
  if r.ok = false ∨ r.remaining ≠ 0 then none else some ⟨depth⟩

def Ack.decode (data : List UInt8) : Option Ack :=
  let (clientOrderId, r) := Reader.u64 ⟨data, true⟩
  let (exchangeOrderId, r) := r.u64
  if r.ok = false ∨ r.remaining ≠ 0 then none else some ⟨clientOrderId, exchangeOrderId⟩

def Reject.decode (data : List UInt8) : Option Reject :=
  let (clientOrderId, r) := Reader.u64 ⟨data, true⟩
  let (reason, r) := r.u16
  if r.ok = false ∨ r.remaining ≠ 0 then none else some ⟨clientOrderId, reason⟩

def Fill.decode (data : List UInt8) : Option Fill :=
  let (exchangeOrderId, r) := Reader.u64 ⟨data, true⟩
  let (priceTicks, r) := r.i64
  let (quantity, r) := r.u32
  let (remainingQuantity, r) := r.u32
  if r.ok = false ∨ r.remaining ≠ 0 then none
  else some ⟨exchangeOrderId, priceTicks, quantity, remainingQuantity⟩

def Heartbeat.decode (data : List UInt8) : Option Heartbeat :=
  let (timestampNs, r) := Reader.u64 ⟨data, true⟩
  if r.ok = false ∨ r.remaining ≠ 0 then none else some ⟨timestampNs⟩

/-- The frame that a decoded request is for `dispatch`. -/
def NewOrder.frame (m : NewOrder) : Network.Frame :=
  .newOrder m.clientOrderId m.priceTicks m.quantity m.side m.orderType

def Cancel.frame (m : Cancel) : Network.Frame := .cancel m.clientOrderId

def Modify.frame (m : Modify) : Network.Frame :=
  .modify m.clientOrderId m.newPriceTicks m.newQuantity

def Subscribe.frame (m : Subscribe) : Network.Frame := .subscribe m.depth

/-- Encoder and decoder undo each other, up to what the encoder leaves out; what
is decoded has one encoding, and nothing shorter or longer is a message. -/
structure Inverse {α : Type} (encode : α → List UInt8) (decode : List UInt8 → Option α)
    (cut : α → α) : Prop where
  decode_encode : ∀ m, decode (encode m) = some (cut m)
  encode_decode : ∀ b m, decode b = some m → encode m = b
  exact_length : ∀ b m, decode b = some m → ∀ b', (b' <+: b ∨ b <+: b') → b' ≠ b → decode b' = none

/-- Where no encoding is a beginning of another, nothing shorter or longer is a
message. -/
theorem inverse_of_prefixFree {α : Type} {encode : α → List UInt8} {decode : List UInt8 → Option α}
    {cut : α → α} (hback : ∀ m, decode (encode m) = some (cut m))
    (hforth : ∀ b m, decode b = some m → encode m = b)
    (hfree : ∀ m m', encode m <+: encode m' → encode m = encode m') :
    Inverse encode decode cut where
  decode_encode := hback
  encode_decode := hforth
  exact_length b m hm b' hb hne := by
    by_contra hsome
    obtain ⟨m', hm'⟩ := Option.ne_none_iff_exists'.mp hsome
    rw [← hforth b m hm, ← hforth b' m' hm'] at hb hne
    obtain hb | hb := hb
    · exact hne (hfree m' m hb)
    · exact hne (hfree m m' hb).symm

theorem inverse_of_length {α : Type} {encode : α → List UInt8} {decode : List UInt8 → Option α}
    (n : Nat) (hlen : ∀ m, (encode m).length = n) (hback : ∀ m, decode (encode m) = some m)
    (hforth : ∀ b m, decode b = some m → encode m = b) : Inverse encode decode id :=
  inverse_of_prefixFree hback hforth fun m m' h => h.eq_of_length (by rw [hlen, hlen])

theorem of_known {α : Type} {s : Option Side} {o : Option Commands.OrderType}
    {f : Side → Commands.OrderType → α} {m : α} (h : (match s, o with
      | some s, some o => some (f s o)
      | _, _ => none) = some m) : ∃ s' o', s = some s' ∧ o = some o' ∧ f s' o' = m := by
  cases s with
  | none => exact absurd h (by simp)
  | some s =>
    cases o with
    | none => exact absurd h (by simp)
    | some o => exact ⟨s, o, rfl, rfl, Option.some.inj h⟩

theorem zero_or_one {t : UInt8} (h : ¬t > 1) : t = 0 ∨ t = 1 := by
  rw [gt_iff_lt, UInt8.lt_iff_toNat_lt] at h
  have hone : (1 : UInt8).toNat = 1 := rfl
  have hzero : (0 : UInt8).toNat = 0 := rfl
  rw [← UInt8.toNat_inj, ← UInt8.toNat_inj]
  omega

theorem sideCode_of_known {t : UInt8} {s : Side} (h : knownSide t = some s) : sideCode s = t := by
  by_cases ht : t > 1
  · simp [knownSide, ht] at h
  · obtain rfl | rfl := zero_or_one ht
    · cases h
      rfl
    · cases h
      rfl

theorem orderTypeCode_of_known {t : UInt8} {o : Commands.OrderType}
    (h : knownOrderType t = some o) :
    orderTypeCode o = t := by
  by_cases ht : t > 1
  · simp [knownOrderType, ht] at h
  · obtain rfl | rfl := zero_or_one ht
    · cases h
      rfl
    · cases h
      rfl

theorem newOrder_inverse : Inverse NewOrder.encode NewOrder.decode id := by
  apply inverse_of_length 22
  · intro m
    simp [NewOrder.encode]
  · intro m
    have hside : knownSide (sideCode m.side) = some m.side := by cases m.side <;> rfl
    have htype : knownOrderType (orderTypeCode m.orderType) = some m.orderType := by
      cases m.orderType <;> rfl
    simp [NewOrder.encode, NewOrder.decode, u8_last, hside, htype, Reader.remaining]
  · intro b m h
    have hid := reads_u64 ⟨b, true⟩
    have hprice := reads_i64 (Reader.u64 ⟨b, true⟩).2
    have hquantity := reads_u32 (Reader.u64 ⟨b, true⟩).2.i64.2
    have hside := reads_u8 (Reader.u64 ⟨b, true⟩).2.i64.2.u32.2
    have htype := reads_u8 (Reader.u64 ⟨b, true⟩).2.i64.2.u32.2.u8.2
    unfold NewOrder.decode at h
    dsimp only at h
    obtain ⟨hok, hnil, h⟩ := of_checked h
    obtain ⟨s, o, hs, ho, rfl⟩ := of_known h
    rw [← sideCode_of_known hs] at hside
    rw [← orderTypeCode_of_known ho] at htype
    exact (hid.before
      (hprice.before (hquantity.before (hside.before (htype.last hok hnil))))).2.symm

theorem cancel_inverse : Inverse Cancel.encode Cancel.decode id := by
  apply inverse_of_length 8
  · intro m
    simp [Cancel.encode]
  · intro m
    simp [Cancel.encode, Cancel.decode, u64_last, Reader.remaining]
  · intro b m h
    have hid := reads_u64 ⟨b, true⟩
    unfold Cancel.decode at h
    dsimp only at h
    obtain ⟨hok, hnil, rfl⟩ := of_guarded h
    exact (hid.last hok hnil).2.symm

theorem modify_inverse : Inverse Modify.encode Modify.decode id := by
  apply inverse_of_length 20
  · intro m
    simp [Modify.encode]
  · intro m
    simp [Modify.encode, Modify.decode, u32_last, Reader.remaining]
  · intro b m h
    have hid := reads_u64 ⟨b, true⟩
    have hprice := reads_i64 (Reader.u64 ⟨b, true⟩).2
    have hquantity := reads_u32 (Reader.u64 ⟨b, true⟩).2.i64.2
    unfold Modify.decode at h
    dsimp only at h
    obtain ⟨hok, hnil, rfl⟩ := of_guarded h
    exact (hid.before (hprice.before (hquantity.last hok hnil))).2.symm

theorem subscribe_inverse : Inverse Subscribe.encode Subscribe.decode id := by
  apply inverse_of_length 1
  · intro m
    simp [Subscribe.encode]
  · intro m
    simp [Subscribe.encode, Subscribe.decode, u8_last, Reader.remaining]
  · intro b m h
    have hdepth := reads_u8 ⟨b, true⟩
    unfold Subscribe.decode at h
    dsimp only at h
    obtain ⟨hok, hnil, rfl⟩ := of_guarded h
    exact (hdepth.last hok hnil).2.symm

theorem ack_inverse : Inverse Ack.encode Ack.decode id := by
  apply inverse_of_length 16
  · intro m
    simp [Ack.encode]
  · intro m
    simp [Ack.encode, Ack.decode, u64_last, Reader.remaining]
  · intro b m h
    have hid := reads_u64 ⟨b, true⟩
    have hexchange := reads_u64 (Reader.u64 ⟨b, true⟩).2
    unfold Ack.decode at h
    dsimp only at h
    obtain ⟨hok, hnil, rfl⟩ := of_guarded h
    exact (hid.before (hexchange.last hok hnil)).2.symm

theorem reject_inverse : Inverse Reject.encode Reject.decode id := by
  apply inverse_of_length 10
  · intro m
    simp [Reject.encode]
  · intro m
    simp [Reject.encode, Reject.decode, u16_last, Reader.remaining]
  · intro b m h
    have hid := reads_u64 ⟨b, true⟩
    have hreason := reads_u16 (Reader.u64 ⟨b, true⟩).2
    unfold Reject.decode at h
    dsimp only at h
    obtain ⟨hok, hnil, rfl⟩ := of_guarded h
    exact (hid.before (hreason.last hok hnil)).2.symm

theorem fill_inverse : Inverse Fill.encode Fill.decode id := by
  apply inverse_of_length 24
  · intro m
    simp [Fill.encode]
  · intro m
    simp [Fill.encode, Fill.decode, u32_last, Reader.remaining]
  · intro b m h
    have hid := reads_u64 ⟨b, true⟩
    have hprice := reads_i64 (Reader.u64 ⟨b, true⟩).2
    have hquantity := reads_u32 (Reader.u64 ⟨b, true⟩).2.i64.2
    have hremaining := reads_u32 (Reader.u64 ⟨b, true⟩).2.i64.2.u32.2
    unfold Fill.decode at h
    dsimp only at h
    obtain ⟨hok, hnil, rfl⟩ := of_guarded h
    exact (hid.before (hprice.before (hquantity.before (hremaining.last hok hnil)))).2.symm

theorem heartbeat_inverse : Inverse Heartbeat.encode Heartbeat.decode id := by
  apply inverse_of_length 8
  · intro m
    simp [Heartbeat.encode]
  · intro m
    simp [Heartbeat.encode, Heartbeat.decode, u64_last, Reader.remaining]
  · intro b m h
    have htime := reads_u64 ⟨b, true⟩
    unfold Heartbeat.decode at h
    dsimp only at h
    obtain ⟨hok, hnil, rfl⟩ := of_guarded h
    exact (htime.last hok hnil).2.symm

theorem reads_levels (n : Nat) (r : Reader) :
    Reads (fun ls : List BookLevel => ls.flatMap encodeLevel) r (readLevels n r).1
      (readLevels n r).2 := by
  induction n generalizing r with
  | zero => exact fun h => ⟨h, rfl⟩
  | succ n ih =>
    intro h
    have hprice := reads_i64 r
    have hquantity := reads_u64 r.i64.2
    have hlevels := hprice.before (hquantity.before (ih r.i64.2.u64.2 h))
    simpa only [readLevels, List.flatMap_cons, encodeLevel, List.append_assoc] using hlevels

theorem length_readLevels (n : Nat) (r : Reader) : (readLevels n r).1.length = n := by
  induction n generalizing r with
  | zero => rfl
  | succ n ih => exact congrArg (· + 1) (ih _)

def shortened (m : BookUpdate) : BookUpdate :=
  ⟨m.seq, m.bids.take maxBookDepth, m.asks.take maxBookDepth⟩

theorem encodeBookUpdate_eq {m : BookUpdate} {nb na : UInt8} (hb : m.bids.length = nb.toNat)
    (ha : m.asks.length = na.toNat) (hnb : nb.toNat ≤ maxBookDepth)
    (hna : na.toNat ≤ maxBookDepth) :
    encodeBookUpdate m =
      putU64 m.seq ++
        (putU8 nb ++ (putU8 na ++ (m.bids.flatMap encodeLevel ++ m.asks.flatMap encodeLevel))) := by
  have hmin : ∀ {ls : List BookLevel} {n : UInt8}, ls.length = n.toNat → n.toNat ≤ maxBookDepth →
      min ls.length maxBookDepth = n.toNat := by
    intro ls n hl hn
    rw [hl, Nat.min_eq_left hn]
  simp only [encodeBookUpdate, hmin hb hnb, hmin ha hna, UInt8.ofNat_toNat]
  rw [← hb, ← ha, List.take_length, List.take_length]

theorem encode_decodeBookUpdate (b : List UInt8) (m : BookUpdate)
    (h : decodeBookUpdate b = some m) :
    encodeBookUpdate m = b := by
  have hseq := reads_u64 ⟨b, true⟩
  have hnb := reads_u8 (Reader.u64 ⟨b, true⟩).2
  have hna := reads_u8 (Reader.u64 ⟨b, true⟩).2.u8.2
  obtain ⟨r, hr⟩ : ∃ r, (Reader.u64 ⟨b, true⟩).2.u8.2.u8.2 = r := ⟨_, rfl⟩
  unfold decodeBookUpdate at h
  dsimp only at h
  rw [hr] at h hna
  obtain ⟨nb, hcb⟩ : ∃ nb, (Reader.u64 ⟨b, true⟩).2.u8.1 = nb := ⟨_, rfl⟩
  obtain ⟨na, hca⟩ : ∃ na, (Reader.u64 ⟨b, true⟩).2.u8.2.u8.1 = na := ⟨_, rfl⟩
  rw [hcb] at h hnb
  rw [hca] at h hna
  split at h
  · exact absurd h (by simp)
  split at h
  · exact absurd h (by simp)
  · next hdepth =>
    have hbids := reads_levels nb.toNat r
    have hasks := reads_levels na.toNat (readLevels nb.toNat r).2
    obtain ⟨hok, hnil, rfl⟩ := of_guarded h
    rw [encodeBookUpdate_eq (length_readLevels _ _) (length_readLevels _ _) (by omega) (by omega)]
    exact (hseq.before (hnb.before (hna.before (hbids.before (hasks.last hok hnil))))).2.symm

/-- The counts fix the length, so no update is the beginning of another. -/
theorem bookUpdate_prefixFree (m m' : BookUpdate) (h : encodeBookUpdate m <+: encodeBookUpdate m') :
    encodeBookUpdate m = encodeBookUpdate m' := by
  obtain ⟨t, ht⟩ := h
  have hcount : ∀ {x y : List BookLevel}, putU8 (UInt8.ofNat (min x.length maxBookDepth)) =
      putU8 (UInt8.ofNat (min y.length maxBookDepth)) →
        min x.length maxBookDepth = min y.length maxBookDepth := by
    intro x y hxy
    rw [← toNat_count (Nat.min_le_right x.length maxBookDepth),
      ← toNat_count (Nat.min_le_right y.length maxBookDepth), List.singleton_inj.mp hxy]
  have hfields := ht
  simp only [encodeBookUpdate, List.append_assoc] at hfields
  obtain ⟨-, hfields⟩ := List.append_inj hfields (by simp)
  obtain ⟨hbids, hfields⟩ := List.append_inj hfields (by simp)
  obtain ⟨hasks, -⟩ := List.append_inj hfields (by simp)
  have hlen : (encodeBookUpdate m).length = (encodeBookUpdate m').length := by
    rw [length_encodeBookUpdate, length_encodeBookUpdate, hcount hbids, hcount hasks]
  exact List.IsPrefix.eq_of_length ⟨t, ht⟩ hlen

theorem bookUpdate_inverse : Inverse encodeBookUpdate decodeBookUpdate shortened :=
  inverse_of_prefixFree decodeBookUpdate_encode encode_decodeBookUpdate bookUpdate_prefixFree

/-- Every message of the protocol has one encoding, which is decoded as it, and
nothing else is. -/
theorem codec_inverse :
    Inverse NewOrder.encode NewOrder.decode id ∧ Inverse Cancel.encode Cancel.decode id ∧
      Inverse Modify.encode Modify.decode id ∧ Inverse Subscribe.encode Subscribe.decode id ∧
      Inverse Ack.encode Ack.decode id ∧ Inverse Reject.encode Reject.decode id ∧
      Inverse Fill.encode Fill.decode id ∧ Inverse encodeBookUpdate decodeBookUpdate shortened ∧
      Inverse Heartbeat.encode Heartbeat.decode id :=
  ⟨newOrder_inverse, cancel_inverse, modify_inverse, subscribe_inverse, ack_inverse, reject_inverse,
    fill_inverse, bookUpdate_inverse, heartbeat_inverse⟩

end OrderMatching.Messages
