import OrderMatching.Framing
import OrderMatching.Messages
import OrderMatching.Sockets
import OrderMatching.StructPack
import OrderMatching.Subscriptions

namespace OrderMatching.Clients

open OrderMatching.Orders OrderMatching.LittleEndian OrderMatching.Codec OrderMatching.Protocol
open OrderMatching.Network OrderMatching.Wire OrderMatching.Messages OrderMatching.MatchingThread
open OrderMatching.Subscriptions OrderMatching.Sockets OrderMatching.StructPack

def formatB : Field := .unsigned 1

def formatH : Field := .unsigned 2

def formatI : Field := .unsigned 4

def formatQ : Field := .unsigned 8

def formatSignedQ : Field := .twos 8

/-- `HEADER`: length, type, version. -/
def header : List Field := [formatI, formatH, formatH]

def frame (msgType : Int) (payload : List UInt8) : Option (List UInt8) :=
  (pack header [payload.length, msgType, 1]).map (· ++ payload)

/-- What a script can fail with: an error that its loop expects, or one of
`struct` that nothing handles. -/
inductive Failure where
  | disconnected (d : Disconnect)
  | structError

def recvFrame (s : Socket) : Except Failure ((Int × Int × List UInt8) × Socket) :=
  match s.recvExactly (size header) [] with
  | .error d => .error (.disconnected d)
  | .ok (head, s) =>
    match unpack header head with
    | some [length, msgType, version] =>
      match s.recvExactly length.toNat [] with
      | .error d => .error (.disconnected d)
      | .ok (payload, s) => .ok ((msgType, version, payload), s)
    | _ => .error .structError

def ackType : UInt16 := 10

def rejectType : UInt16 := 11

def fillType : UInt16 := 12

def reasonCode : RejectReason → UInt16
  | .none => 0
  | .unknownOrder => 1
  | .invalidPrice => 2
  | .invalidQty => 3
  | .riskMaxOrderSize => 4
  | .riskPriceBand => 5
  | .malformed => 6
  | .rateLimited => 7
  | .notSubscribed => 8
  | .duplicateOrderId => 9
  | .unknownMessageType => 10
  | .notImplemented => 11

def replyMessage : Reply → UInt16 × List UInt8
  | .ack clientOrderId exchangeOrderId =>
    (ackType, Ack.encode ⟨clientOrderId, UInt64.ofNat exchangeOrderId⟩)
  | .reject clientOrderId reason => (rejectType, Reject.encode ⟨clientOrderId, reasonCode reason⟩)
  | .fill exchangeOrderId priceTicks quantity remaining =>
    (fillType, Fill.encode ⟨UInt64.ofNat exchangeOrderId, Int64.ofInt priceTicks,
      UInt32.ofNat quantity, UInt32.ofNat remaining⟩)
  | .heartbeat timestampNs => (heartbeatType, Heartbeat.encode ⟨timestampNs⟩)
  | .bookUpdate seq bids asks => (bookUpdateType, encodeBookUpdate (bookUpdate ⟨seq, bids, asks⟩))

def replyBytes (r : Reply) : List UInt8 := encodeFrame (replyMessage r).1 (replyMessage r).2

theorem length_encodeFrame (type : UInt16) (payload : List UInt8) :
    (encodeFrame type payload).length = 8 + payload.length := by
  simp only [encodeFrame, encodeHeader, List.length_append, length_putU32, length_putU16]

theorem length_replyBytes (r : Reply) : (replyBytes r).length = r.size := by
  rw [replyBytes, length_encodeFrame]
  cases r with
  | ack _ _ => simp [replyMessage, Ack.encode, Reply.size]
  | reject _ _ => simp [replyMessage, Reject.encode, Reply.size]
  | fill _ _ _ _ => simp [replyMessage, Fill.encode, Reply.size]
  | heartbeat _ => simp [replyMessage, Heartbeat.encode, Reply.size]
  | bookUpdate _ _ _ =>
    simp [replyMessage, length_encodeBookUpdate, bookUpdate, Reply.size, maxBookDepth]

theorem length_replyMessage (r : Reply) : (replyMessage r).2.length ≤ 65536 := by
  have hlen := length_replyBytes r
  rw [replyBytes, length_encodeFrame] at hlen
  cases r <;> simp only [Reply.size] at hlen <;> omega

theorem putU8_eq (v : UInt8) : putU8 v = formatB.put v.toNat := by
  have h : v.toNat < 256 ^ 1 := v.toNat_lt
  rw [formatB, put_natCast h]
  simp [putU8, bytes]

theorem putU16_eq (v : UInt16) : putU16 v = formatH.put v.toNat := by
  have h : v.toNat < 256 ^ 2 := v.toNat_lt
  rw [formatH, put_natCast h, putU16]

theorem putU32_eq (v : UInt32) : putU32 v = formatI.put v.toNat := by
  have h : v.toNat < 256 ^ 4 := v.toNat_lt
  rw [formatI, put_natCast h, putU32]

theorem putU64_eq (v : UInt64) : putU64 v = formatQ.put v.toNat := by
  have h : v.toNat < 256 ^ 8 := v.toNat_lt
  rw [formatQ, put_natCast h, putU64]

theorem putI64_eq (v : Int64) : putI64 v = formatSignedQ.put v.toInt := by
  have hmod : v.toInt % 256 ^ 8 = v.toUInt64.toNat := by
    have h := v.toBitVec.isLt
    change v.toBitVec.toInt % (2 ^ 64 : Nat) = (v.toBitVec.toNat : Int)
    rw [BitVec.toInt_eq_toNat_bmod, Int.bmod_emod]
    exact Int.emod_eq_of_lt (by omega) (by exact_mod_cast h)
  rw [putI64, putU64, Field.put, formatSignedQ, Field.twos, hmod, Int.toNat_natCast]

theorem holds_u8 (v : UInt8) : formatB.Holds v.toNat :=
  holds_natCast (v.toNat_lt : v.toNat < 256 ^ 1)

theorem holds_u16 (v : UInt16) : formatH.Holds v.toNat :=
  holds_natCast (v.toNat_lt : v.toNat < 256 ^ 2)

theorem holds_u32 (v : UInt32) : formatI.Holds v.toNat :=
  holds_natCast (v.toNat_lt : v.toNat < 256 ^ 4)

theorem holds_u64 (v : UInt64) : formatQ.Holds v.toNat :=
  holds_natCast (v.toNat_lt : v.toNat < 256 ^ 8)

theorem holds_i64 (v : Int64) : formatSignedQ.Holds v.toInt := by
  have hle := v.le_toInt
  have hlt := v.toInt_lt
  constructor <;> simp only [formatSignedQ, Field.twos] <;> omega

theorem frame_eq (type : UInt16) {payload : List UInt8} (h : payload.length < 2 ^ 32) :
    frame type.toNat payload = some (encodeFrame type payload) := by
  have hlen : (UInt32.ofNat payload.length).toNat = payload.length := UInt32.toNat_ofNat_of_lt' h
  have hholds : formatI.Holds payload.length := by
    have hu := holds_u32 (UInt32.ofNat payload.length)
    rwa [hlen] at hu
  have hversion : formatH.Holds 1 := by decide
  rw [frame, header, pack_cons hholds, pack_cons (holds_u16 type), pack_cons hversion]
  simp only [pack, Option.map_some, Option.some.injEq, encodeFrame, encodeHeader, putU32_eq,
    putU16_eq, hlen]
  rfl

theorem unpack_encodeHeader (h : MessageHeader) :
    unpack header (encodeHeader h) =
      some [(h.length.toNat : Int), h.type.toNat, h.version.toNat] := by
  have hsize : (encodeHeader h).length = size header := by
    simp only [encodeHeader, List.length_append, length_putU32, length_putU16]
    rfl
  rw [unpack, if_pos hsize, encodeHeader, putU32_eq, putU16_eq, putU16_eq, header,
    unpackFrom_put (holds_u32 h.length), unpackFrom_put (holds_u16 h.type),
    unpackFrom_last (holds_u16 h.version)]
  rfl

theorem unpack_reject (m : Reject) : unpack [formatQ, formatH] m.encode =
    some [(m.clientOrderId.toNat : Int), m.reason.toNat] := by
  have hsize : m.encode.length = size [formatQ, formatH] := by
    simp only [Reject.encode, List.length_append, length_putU64, length_putU16]
    rfl
  rw [unpack, if_pos hsize, Reject.encode, putU64_eq, putU16_eq,
    unpackFrom_put (holds_u64 m.clientOrderId), unpackFrom_last (holds_u16 m.reason)]
  rfl

variable {s s' : Socket}

theorem recvFrame_lt {m : Int × Int × List UInt8} (h : recvFrame s = .ok (m, s')) :
    s'.bytes.length < s.bytes.length := by
  have hread : ∀ {s s' : Socket} {n : Nat} {bs : List UInt8}, s.recvExactly n [] = .ok (bs, s') →
      s'.bytes.length + n = s.bytes.length := by
    intro s s' n bs hok
    obtain hshort | henough := Nat.lt_or_ge s.bytes.length n
    · rw [recvExactly_short s n [] (by simpa using hshort)] at hok
      cases hok
    · obtain ⟨s₁, hread, hrest, -⟩ :=
        recvExactly_enough s n [] (by simpa using henough) (Nat.zero_le n)
      rw [hread] at hok
      cases hok
      rw [hrest, List.length_drop, List.length_nil]
      omega
  have hsize : size header = 8 := rfl
  unfold recvFrame at h
  split at h
  · cases h
  · rename_i hhead
    have hlen := hread hhead
    split at h
    · split at h
      · cases h
      · rename_i hpayload
        have hlen' := hread hpayload
        cases h
        omega
    · cases h

theorem recvFrame_whole {type : UInt16} {payload rest : List UInt8} (hp : payload.length ≤ 65536)
    (h : s.bytes = encodeFrame type payload ++ rest) :
    ∃ s', recvFrame s = .ok ((type.toNat, 1, payload), s') ∧ s'.bytes = rest ∧
      s'.ending = s.ending := by
  let head := encodeHeader ⟨UInt32.ofNat payload.length, type, version⟩
  have hhead : head.length = 8 := by simp [head, encodeHeader]
  have hbytes : s.bytes = head ++ (payload ++ rest) := by rw [h, encodeFrame, List.append_assoc]
  have hn : (UInt32.ofNat payload.length).toNat = payload.length :=
    UInt32.toNat_ofNat_of_lt' (by rw [UInt32.size]; omega)
  obtain ⟨s₁, hread, hrest, hend⟩ := recvExactly_enough s 8 []
    (by rw [hbytes, List.length_append]; omega) (by simp)
  rw [hbytes, List.nil_append, List.length_nil, List.take_left' hhead] at hread
  rw [hbytes, List.length_nil, List.drop_left' hhead] at hrest
  obtain ⟨s₂, hread₂, hrest₂, hend₂⟩ := recvExactly_enough s₁ payload.length []
    (by rw [hrest, List.length_append]; omega) (by simp)
  rw [hrest, List.nil_append, List.length_nil, Nat.sub_zero, List.take_left] at hread₂
  rw [hrest, List.length_nil, Nat.sub_zero, List.drop_left] at hrest₂
  have hunpack := unpack_encodeHeader ⟨UInt32.ofNat payload.length, type, version⟩
  refine ⟨s₂, ?_, hrest₂, hend₂.trans hend⟩
  have hsize : size header = 8 := rfl
  simp only [recvFrame, hsize, hread]
  rw [hunpack]
  simp only [hn, Int.toNat_natCast, hread₂]
  rfl

theorem recvFrame_cut {type : UInt16} {payload : List UInt8} (hp : payload.length ≤ 65536)
    (h : s.bytes <+: encodeFrame type payload)
    (hcut : s.bytes.length < (encodeFrame type payload).length) :
    ∃ d, recvFrame s = .error (.disconnected d) := by
  have hsize : size header = 8 := rfl
  obtain hshort | hlong := Nat.lt_or_ge s.bytes.length 8
  · have hread := recvExactly_short s 8 [] (by simpa using hshort)
    refine ⟨s.ending.disconnect (0 + s.bytes.length) 8, ?_⟩
    simp only [recvFrame, hsize, hread]
    rfl
  · let head := encodeHeader ⟨UInt32.ofNat payload.length, type, version⟩
    have hhead : head.length = 8 := by simp [head, encodeHeader]
    have hn : (UInt32.ofNat payload.length).toNat = payload.length :=
      UInt32.toNat_ofNat_of_lt' (by rw [UInt32.size]; omega)
    obtain ⟨t, ht⟩ := h
    obtain ⟨s₁, hread, hrest, hend⟩ := recvExactly_enough s 8 [] (by omega) (by simp)
    have htake : s.bytes.take 8 = head := by
      have := congrArg (List.take 8) ht
      rwa [List.take_append_of_le_length hlong, encodeFrame, List.take_left' hhead] at this
    rw [List.nil_append, List.length_nil, Nat.sub_zero, htake] at hread
    have hless : s₁.bytes.length < payload.length := by
      rw [length_encodeFrame] at hcut
      rw [hrest, List.length_drop, List.length_nil]
      omega
    have hread₂ := recvExactly_short s₁ payload.length [] (by simpa using hless)
    have hunpack := unpack_encodeHeader ⟨UInt32.ofNat payload.length, type, version⟩
    refine ⟨s₁.ending.disconnect (0 + s₁.bytes.length) payload.length, ?_⟩
    simp only [recvFrame, hsize, hread]
    rw [hunpack]
    simp only [hn, Int.toNat_natCast, hread₂]
    rfl

/-- The messages that are whole within so many bytes. -/
def arrived : Nat → List Reply → List Reply
  | _, [] => []
  | n, r :: rs =>
    if (replyBytes r).length ≤ n then r :: arrived (n - (replyBytes r).length) rs else []

theorem prefix_arrived (n : Nat) (rs : List Reply) : arrived n rs <+: rs := by
  induction rs generalizing n with
  | nil => exact List.nil_prefix
  | cons r rs ih =>
    rw [arrived]
    split
    · exact List.cons_prefix_cons.mpr ⟨rfl, ih _⟩
    · exact List.nil_prefix

theorem arrived_all (rs : List Reply) : arrived (rs.flatMap replyBytes).length rs = rs := by
  induction rs with
  | nil => rfl
  | cons r rs ih =>
    rw [List.flatMap_cons, List.length_append, arrived, if_pos (Nat.le_add_right _ _),
      Nat.add_sub_cancel_left, ih]

/-- The next frame of a stream of messages, if it has arrived. -/
theorem recvFrame_cases {rs : List Reply} (h : s.bytes <+: rs.flatMap replyBytes) :
    (arrived s.bytes.length rs = [] ∧ ∃ d, recvFrame s = .error (.disconnected d)) ∨
      ∃ r rs' s', rs = r :: rs' ∧
        recvFrame s = .ok (((replyMessage r).1.toNat, 1, (replyMessage r).2), s') ∧
        s'.bytes <+: rs'.flatMap replyBytes ∧
        arrived s.bytes.length rs = r :: arrived s'.bytes.length rs' := by
  cases rs with
  | nil =>
    have hnil : s.bytes = [] := List.prefix_nil.mp h
    obtain ⟨d, hd⟩ :=
      @recvFrame_cut s 0 [] (by decide) (hnil ▸ List.nil_prefix) (by rw [hnil]; decide)
    exact .inl ⟨rfl, d, hd⟩
  | cons r rs =>
    rw [List.flatMap_cons] at h
    by_cases hlen : (replyBytes r).length ≤ s.bytes.length
    · obtain ⟨rest, hrest⟩ := List.prefix_of_prefix_length_le (List.prefix_append _ _) h hlen
      rw [← hrest, List.prefix_append_right_inj] at h
      obtain ⟨s', hframe, hbytes, -⟩ := recvFrame_whole (length_replyMessage r) hrest.symm
      refine .inr ⟨r, rs, s', rfl, hframe, hbytes ▸ h, ?_⟩
      rw [arrived, if_pos hlen, hbytes, ← hrest, List.length_append, Nat.add_sub_cancel_left]
    · have hcut : s.bytes <+: replyBytes r :=
        List.prefix_of_prefix_length_le h (List.prefix_append _ _) (Nat.le_of_not_le hlen)
      exact .inl ⟨if_neg hlen, recvFrame_cut (length_replyMessage r) hcut (Nat.not_le.mp hlen)⟩

/-- The gateway reads what a script sends frame by frame, however it is cut, and
keeps the connection all the while. -/
theorem feedAll_requests {messages : List (UInt16 × List UInt8)} {chunks : List (List UInt8)}
    (hsmall : ∀ m ∈ messages, m.2.length ≤ 65536)
    (h : chunks.flatten = messages.flatMap fun m => encodeFrame m.1 m.2) :
    (Framing.FrameReader.empty.feedAll chunks).1 = messages.map (fun m => request m.1 m.2) ∧
      ∀ before, before <+: chunks →
        (Framing.FrameReader.empty.feedAll before).2.closes = false := by
  have hframes := (Framing.follows_empty.feedAll chunks).frames
  rw [List.nil_append, List.nil_append, h, Framing.parse_encoded hsmall] at hframes
  refine ⟨hframes, fun before ⟨after, hsplit⟩ => Framing.feedAll_open hsmall ?_⟩
  rw [← h, ← hsplit, List.flatten_append]
  exact List.prefix_append _ _

end OrderMatching.Clients
