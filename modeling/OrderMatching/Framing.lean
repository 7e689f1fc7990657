import OrderMatching.Segmentation
import OrderMatching.Wire

namespace OrderMatching.Framing

open OrderMatching.LittleEndian OrderMatching.Codec OrderMatching.Protocol OrderMatching.Wire
open OrderMatching.Segmentation

def compactThreshold : Nat := 64 * 1024

/-- The bytes received, how many of them are consumed, and whether the framing is
lost for good. -/
structure FrameReader where
  buf : List UInt8
  pos : Nat
  failed : Bool
  inside : pos ≤ buf.length

def FrameReader.empty : FrameReader := ⟨[], 0, false, Nat.le_refl 0⟩

def FrameReader.append (r : FrameReader) (data : List UInt8) : FrameReader :=
  if r.failed = true ∨ data.length = 0 then r
  else ⟨r.buf ++ data, r.pos, r.failed,
    by rw [List.length_append]; exact Nat.le_add_right_of_le r.inside⟩

def FrameReader.compactIfNeeded (r : FrameReader) : FrameReader :=
  if r.pos = r.buf.length then ⟨[], 0, r.failed, Nat.le_refl 0⟩
  else if r.pos ≥ compactThreshold then ⟨r.buf.drop r.pos, 0, r.failed, Nat.zero_le _⟩
  else r

def FrameReader.fail (r : FrameReader) : FrameReader := ⟨r.buf, r.pos, true, r.inside⟩

def FrameReader.buffered (r : FrameReader) : Nat := r.buf.length - r.pos

def FrameReader.nextFrame (r : FrameReader) : Option WireFrame × FrameReader :=
  if r.failed = true then (none, r)
  else if r.buffered < headerSize then (none, r)
  else
    match decodeHeader (r.buf.drop r.pos) with
    | none => (none, r.fail)
    | some header =>
      if h : r.buffered < headerSize + header.length.toNat then (none, r)
      else
        (some ⟨header, (r.buf.drop (r.pos + headerSize)).take header.length.toNat⟩,
          FrameReader.compactIfNeeded ⟨r.buf,
            r.pos + (headerSize + header.length.toNat), r.failed, by
            have := r.inside
            unfold FrameReader.buffered at h
            omega⟩)

theorem buffered_compactIfNeeded (r : FrameReader) : r.compactIfNeeded.buffered = r.buffered := by
  unfold FrameReader.compactIfNeeded FrameReader.buffered
  split
  · next h => simp [h]
  · split <;> simp

theorem nextFrame_buffered {r r' : FrameReader} {f : WireFrame} (h : r.nextFrame = (some f, r')) :
    r'.buffered < r.buffered := by
  unfold FrameReader.nextFrame at h
  split at h
  · simp at h
  split at h
  · simp at h
  split at h
  · simp at h
  split at h
  · simp at h
  · next hfits =>
    obtain ⟨-, rfl⟩ := Prod.mk.inj h
    rw [buffered_compactIfNeeded]
    simp only [FrameReader.buffered, headerSize] at hfits ⊢
    omega

/-- The loop of `handle_readable`: `next_frame` until it returns nothing. -/
def FrameReader.drain (r : FrameReader) : List WireFrame × FrameReader :=
  match _hr : r.nextFrame with
  | (none, r') => ([], r')
  | (some f, r') => (f :: r'.drain.1, r'.drain.2)
termination_by r.buffered
decreasing_by all_goals exact nextFrame_buffered _hr

/-- One `recv` of so many bytes. -/
def FrameReader.feed (r : FrameReader) (chunk : List UInt8) : List WireFrame × FrameReader :=
  (r.append chunk).drain

def FrameReader.feedAll : FrameReader → List (List UInt8) → List WireFrame × FrameReader
  | r, [] => ([], r)
  | r, chunk :: chunks =>
    ((r.feed chunk).1 ++ ((r.feed chunk).2.feedAll chunks).1, ((r.feed chunk).2.feedAll chunks).2)

def maxReadBuffer : Nat := 2 * maxPayloadSize.toNat

/-- Whether `handle_readable` closes the connection over what the reader is left
with. -/
def FrameReader.closes (r : FrameReader) : Bool := r.failed || decide (r.buffered > maxReadBuffer)

def frameOf (s : List UInt8) : WireFrame :=
  ⟨⟨UInt32.ofNat (value (s.take 4)), UInt16.ofNat (value ((s.drop 4).take 2)),
    UInt16.ofNat (value ((s.drop 6).take 2))⟩, (s.drop 8).take (value (s.take 4))⟩

/-- What a stream of bytes begins with by the protocol alone: a header of eight
bytes, whose length may be 64 KiB at most, and that many bytes. -/
def headOf (s : List UInt8) : Head WireFrame :=
  if s.length < 8 then .more
  else if value (s.take 4) > 65536 then .broken
  else if s.length < 8 + value (s.take 4) then .more
  else .piece (frameOf s) (8 + value (s.take 4))

section Heads

variable {s : List UInt8}

theorem headOf_short (h : s.length < 8) : headOf s = .more := if_pos h

theorem headOf_oversized (h : 8 ≤ s.length) (hbig : value (s.take 4) > 65536) :
    headOf s = .broken := by
  rw [headOf, if_neg (by omega), if_pos hbig]

theorem headOf_waiting (h : 8 ≤ s.length) (hfit : value (s.take 4) ≤ 65536)
    (hwait : s.length < 8 + value (s.take 4)) : headOf s = .more := by
  rw [headOf, if_neg (by omega), if_neg (by omega), if_pos hwait]

theorem headOf_whole (hfit : value (s.take 4) ≤ 65536) (hwhole : 8 + value (s.take 4) ≤ s.length) :
    headOf s = .piece (frameOf s) (8 + value (s.take 4)) := by
  rw [headOf, if_neg (by omega), if_neg (by omega), if_neg (by omega)]

/-- The four ways a stream can begin. -/
theorem headOf_cases (s : List UInt8) :
    s.length < 8 ∨ (8 ≤ s.length ∧ value (s.take 4) > 65536) ∨
      (8 ≤ s.length ∧ value (s.take 4) ≤ 65536 ∧ s.length < 8 + value (s.take 4)) ∨
      (value (s.take 4) ≤ 65536 ∧ 8 + value (s.take 4) ≤ s.length) := by
  omega

theorem headOf_piece {f : WireFrame} {n : Nat} (h : headOf s = .piece f n) :
    n = 8 + value (s.take 4) ∧ f = frameOf s ∧ value (s.take 4) ≤ 65536 ∧ n ≤ s.length := by
  obtain hs | hs | hs | hs := headOf_cases s
  · simp [headOf_short hs] at h
  · simp [headOf_oversized hs.1 hs.2] at h
  · simp [headOf_waiting hs.1 hs.2.1 hs.2.2] at h
  · rw [headOf_whole hs.1 hs.2] at h
    injection h with hf hn
    exact ⟨hn.symm, hf.symm, hs.1, by omega⟩

theorem headOf_broken (h : headOf s = .broken) : 8 ≤ s.length ∧ value (s.take 4) > 65536 := by
  obtain hs | hs | hs | hs := headOf_cases s
  · simp [headOf_short hs] at h
  · exact hs
  · simp [headOf_waiting hs.1 hs.2.1 hs.2.2] at h
  · simp [headOf_whole hs.1 hs.2] at h

theorem headOf_more (h : headOf s = .more) :
    s.length < 8 ∨ (8 ≤ s.length ∧ value (s.take 4) ≤ 65536 ∧ s.length < 8 + value (s.take 4)) := by
  obtain hs | hs | hs | hs := headOf_cases s
  · exact .inl hs
  · simp [headOf_oversized hs.1 hs.2] at h
  · exact .inr hs
  · simp [headOf_whole hs.1 hs.2] at h

theorem take_append (h : 8 ≤ s.length) (t : List UInt8) : (s ++ t).take 4 = s.take 4 :=
  List.take_append_of_le_length (by omega)

theorem frameOf_append (hwhole : 8 + value (s.take 4) ≤ s.length) (t : List UInt8) :
    frameOf (s ++ t) = frameOf s := by
  have hfield : ∀ k n, k + n ≤ s.length → ((s ++ t).drop k).take n = (s.drop k).take n := by
    intro k n hk
    rw [List.drop_append_of_le_length (by omega),
      List.take_append_of_le_length (by rw [List.length_drop]; omega)]
  simp only [frameOf, take_append (s := s) (by omega) t]
  rw [hfield 4 2 (by omega), hfield 6 2 (by omega), hfield 8 _ hwhole]

end Heads

/-- The reference: frames are cut off one by one, up to the first length that is
too large. -/
def wire : Cutter UInt8 WireFrame where
  head := headOf
  size_pos h := by
    have := headOf_piece h
    omega
  piece_append {s f n} h t := by
    obtain ⟨rfl, rfl, hfit, hwhole⟩ := headOf_piece h
    have htake := take_append (s := s) (by omega) t
    rw [headOf_whole (by rwa [htake]) (by rw [htake, List.length_append]; omega),
      frameOf_append hwhole, htake]
  broken_append {s} h t := by
    obtain ⟨hlen, hbig⟩ := headOf_broken h
    exact headOf_oversized (by rw [List.length_append]; omega) (by rwa [take_append hlen])

theorem head_wire (s : List UInt8) : wire.head s = headOf s := rfl

def FrameReader.unread (r : FrameReader) : List UInt8 := r.buf.drop r.pos

theorem length_unread (r : FrameReader) : r.unread.length = r.buffered := List.length_drop

@[simp] theorem unread_fail (r : FrameReader) : r.fail.unread = r.unread := rfl

theorem unread_compactIfNeeded (r : FrameReader) : r.compactIfNeeded.unread = r.unread := by
  unfold FrameReader.compactIfNeeded FrameReader.unread
  split
  · next h => simp [h]
  · split <;> rfl

theorem failed_compactIfNeeded (r : FrameReader) : r.compactIfNeeded.failed = r.failed := by
  unfold FrameReader.compactIfNeeded
  split
  · rfl
  · split <;> rfl

theorem append_unread {r : FrameReader} (hr : r.failed = false) (data : List UInt8) :
    (r.append data).unread = r.unread ++ data ∧ (r.append data).failed = false := by
  unfold FrameReader.append
  split
  · next h =>
    have hnil : data = [] := List.eq_nil_of_length_eq_zero (h.resolve_left (by simp [hr]))
    simp [hnil, hr]
  · exact ⟨List.drop_append_of_le_length r.inside, hr⟩

theorem append_failed {r : FrameReader} (hr : r.failed = true) (data : List UInt8) :
    r.append data = r :=
  if_pos (.inl hr)

theorem decodeHeader_of_le {s : List UInt8} (hs : 8 ≤ s.length) :
    decodeHeader s = if value (s.take 4) > 65536 then none else some (frameOf s).header := by
  have hread : ∀ k (b : List UInt8), k ≤ b.length →
      Reader.read k ⟨b, true⟩ = (value (b.take k), ⟨b.drop k, true⟩) :=
    fun k b hb => if_pos ⟨rfl, hb⟩
  have hlt : value (s.take 4) < 2 ^ 32 := by
    have := value_lt (s.take 4)
    rw [List.length_take_of_le (by omega)] at this
    omega
  have hmax : UInt32.ofNat (value (s.take 4)) > maxPayloadSize ↔ value (s.take 4) > 65536 := by
    rw [gt_iff_lt, UInt32.lt_iff_toNat_lt, UInt32.toNat_ofNat_of_lt' hlt]
    rfl
  rw [decodeHeader, if_neg (by simp only [headerSize]; omega)]
  simp only [Reader.u32, Reader.u16, hread 4 s (by omega),
    hread 2 (s.drop 4) (by rw [List.length_drop]; omega), List.drop_drop,
    hread 2 (s.drop (4 + 2)) (by rw [List.length_drop]; omega), Bool.true_eq_false, false_or, hmax]
  rfl

/-- `next_frame` does what the beginning of the unread bytes says, whatever the
buffer keeps in front of them. -/
theorem nextFrame_spec {r : FrameReader} (hr : r.failed = false) :
    match wire.head r.unread with
    | .more => r.nextFrame = (none, r)
    | .broken => r.nextFrame = (none, r.fail)
    | .piece f n => ∃ r', r.nextFrame = (some f, r') ∧ r'.failed = false ∧
        r'.unread = r.unread.drop n := by
  change match headOf r.unread with
    | .more => _
    | .broken => _
    | .piece f n => _
  have hlen := length_unread r
  have hheader : 8 ≤ r.unread.length → decodeHeader (r.buf.drop r.pos) =
    if value (r.unread.take 4) > 65536 then none else some (frameOf r.unread).header :=
      decodeHeader_of_le
  unfold FrameReader.nextFrame
  rw [if_neg (by simp [hr])]
  obtain hs | hs | hs | hs := headOf_cases r.unread
  · rw [headOf_short hs]
    exact if_pos (by simp only [headerSize]; omega)
  all_goals rw [if_neg (by simp only [headerSize]; omega), hheader (by omega)]
  · rw [headOf_oversized hs.1 hs.2, if_pos hs.2]
  all_goals
    have hlength : (frameOf r.unread).header.length.toNat = value (r.unread.take 4) :=
      UInt32.toNat_ofNat_of_lt' (by rw [UInt32.size]; omega)
    rw [if_neg (by omega)]
    simp only [hlength]
  · rw [headOf_waiting hs.1 hs.2.1 hs.2.2]
    exact dif_pos (by simp only [headerSize]; omega)
  · rw [headOf_whole hs.1 hs.2, dif_neg (by simp only [headerSize]; omega)]
    refine ⟨_, congrArg₂ Prod.mk (congrArg some ?_) rfl, ?_, ?_⟩
    · rw [← List.drop_drop]
      rfl
    · rw [failed_compactIfNeeded]
      exact hr
    · rw [unread_compactIfNeeded]
      exact List.drop_drop.symm

theorem drain_more {r r' : FrameReader} (h : r.nextFrame = (none, r')) : r.drain = ([], r') := by
  rw [FrameReader.drain]
  split <;> simp_all

theorem drain_frame {r r' : FrameReader} {f : WireFrame} (h : r.nextFrame = (some f, r')) :
    r.drain = (f :: r'.drain.1, r'.drain.2) := by
  rw [FrameReader.drain]
  split <;> simp_all

theorem drain_failed {r : FrameReader} (hr : r.failed = true) : r.drain = ([], r) :=
  drain_more (if_pos hr)

theorem drain_parse {r : FrameReader} (hr : r.failed = false) :
    r.drain.1 = (wire.parse r.unread).pieces ∧ r.drain.2.failed = (wire.parse r.unread).broken ∧
      r.drain.2.unread = (wire.parse r.unread).rest := by
  obtain ⟨s, hs⟩ : ∃ s, r.unread = s := ⟨_, rfl⟩
  rw [hs]
  induction s using wire.parse_induction generalizing r with
  | hmore s h =>
    have hnext := nextFrame_spec hr
    rw [hs, h] at hnext
    rw [drain_more hnext, Cutter.parse_more h]
    exact ⟨rfl, hr, hs⟩
  | hbroken s h =>
    have hnext := nextFrame_spec hr
    rw [hs, h] at hnext
    rw [drain_more hnext, Cutter.parse_broken h]
    exact ⟨rfl, rfl, hs⟩
  | hpiece s f n h ih =>
    have hnext := nextFrame_spec hr
    rw [hs, h] at hnext
    obtain ⟨r', hnext, hr', hrest⟩ := hnext
    rw [drain_frame hnext, Cutter.parse_piece h]
    have ih := ih hr' hrest
    exact ⟨congrArg (f :: ·) ih.1, ih.2⟩

/-- Where a reader stands after a stream: the frames it gave out, whether it has
failed, and what it holds. -/
structure Follows (s : List UInt8) (out : List WireFrame) (r : FrameReader) : Prop where
  frames : out = (wire.parse s).pieces
  failed : r.failed = (wire.parse s).broken
  unread : r.failed = false → r.unread = (wire.parse s).rest

theorem follows_empty : Follows [] [] .empty := by
  have hparse : wire.parse [] = ⟨[], false, []⟩ := Cutter.parse_more rfl
  refine ⟨?_, ?_, fun _ => ?_⟩ <;> rw [hparse] <;> rfl

section Feeding

variable {s : List UInt8} {out : List WireFrame} {r : FrameReader}

theorem Follows.feed (h : Follows s out r) (chunk : List UInt8) :
    Follows (s ++ chunk) (out ++ (r.feed chunk).1) (r.feed chunk).2 := by
  cases hr : r.failed with
  | true =>
    -- a failed reader takes nothing more in
    have hb := wire.parse_append_of_broken (by rw [← h.failed, hr]) chunk
    rw [FrameReader.feed, append_failed hr, drain_failed hr]
    refine ⟨?_, ?_, fun hf => absurd hf (by simp [hr])⟩
    · rw [List.append_nil, h.frames, hb.1]
    · rw [hb.2, hr]
  | false =>
    obtain ⟨hunread, hok⟩ := append_unread hr chunk
    obtain ⟨hframes, hfailed, hrest⟩ := drain_parse hok
    rw [hunread, h.unread hr] at hframes hfailed hrest
    have hparse := wire.parse_append (by rw [← h.failed, hr]) chunk
    refine ⟨?_, ?_, fun _ => ?_⟩
    · rw [hparse, h.frames, FrameReader.feed, hframes]
    · rw [hparse, FrameReader.feed, hfailed]
    · rw [hparse, FrameReader.feed, hrest]

theorem Follows.feedAll (h : Follows s out r) (chunks : List (List UInt8)) :
    Follows (s ++ chunks.flatten) (out ++ (r.feedAll chunks).1) (r.feedAll chunks).2 := by
  induction chunks generalizing s out r with
  | nil => simpa [FrameReader.feedAll] using h
  | cons chunk chunks ih =>
    simpa only [List.flatten_cons, FrameReader.feedAll, List.append_assoc] using ih (h.feed chunk)

theorem Follows.buffered_lt (h : Follows s out r) (hr : r.failed = false) :
    r.buffered < 8 + 65536 := by
  have hhead := wire.head_rest s
  rw [← h.failed, hr, ← h.unread hr] at hhead
  rw [← length_unread]
  obtain hs | hs := headOf_more hhead
  · omega
  · omega

/-- A reader that fails on a chunk of at most 64 KiB holds no more than one that
waits: the length that is too large stands in that chunk, or its first bytes are
all that was there before. -/
theorem Follows.feed_buffered (h : Follows s out r) (hb : r.buffered < 8 + 65536)
    {chunk : List UInt8} (hchunk : chunk.length ≤ 65536) :
    (r.feed chunk).2.buffered < 8 + 65536 := by
  cases hr : r.failed with
  | true =>
    rw [FrameReader.feed, append_failed hr, drain_failed hr]
    exact hb
  | false =>
    obtain ⟨hunread, hok⟩ := append_unread hr chunk
    have hrest : (r.feed chunk).2.unread = (wire.parse (r.unread ++ chunk)).rest := by
      rw [← hunread]
      exact (drain_parse hok).2.2
    have hwait : headOf r.unread = .more := by
      have hhead := wire.head_rest s
      rwa [← h.failed, hr, ← h.unread hr] at hhead
    cases hf : (r.feed chunk).2.failed with
    | false => exact (h.feed chunk).buffered_lt hf
    | true =>
      rw [← length_unread, hrest]
      obtain hshort | ⟨hlen, hfit, hpart⟩ := headOf_more hwait
      · have hle := (wire.rest_suffix (r.unread ++ chunk)).length_le
        rw [List.length_append] at hle
        omega
      · have htake := take_append hlen chunk
        by_cases hwhole : 8 + value (r.unread.take 4) ≤ (r.unread ++ chunk).length
        · have hpiece := headOf_whole (by rwa [htake]) (by rwa [htake])
          have hle :=
            (wire.rest_suffix
              ((r.unread ++ chunk).drop (8 + value ((r.unread ++ chunk).take 4)))).length_le
          rw [Cutter.parse_piece hpiece]
          rw [htake, List.length_drop, List.length_append] at hle
          simp only [Parsed.after, htake]
          omega
        · have hmore : headOf (r.unread ++ chunk) = .more :=
            headOf_waiting (by rw [List.length_append]; omega) (by rwa [htake])
              (by rw [htake]; omega)
          have hfailed : (r.feed chunk).2.failed = (wire.parse (r.unread ++ chunk)).broken := by
            rw [← hunread]
            exact (drain_parse hok).2.1
          rw [hf, Cutter.parse_more hmore] at hfailed
          exact absurd hfailed (by simp)

def Overrun (r : FrameReader) (chunks : List (List UInt8)) : Prop :=
  ∃ before chunk after, chunks = before ++ chunk :: after ∧ (r.feedAll before).2.failed = false ∧
    (r.feedAll (before ++ [chunk])).2.failed = true ∧ 65536 < chunk.length

theorem Overrun.cons {chunk : List UInt8} {chunks : List (List UInt8)}
    (h : Overrun (r.feed chunk).2 chunks) :
    Overrun r (chunk :: chunks) := by
  obtain ⟨before, large, after, rfl, hok, hfailed, hlarge⟩ := h
  exact ⟨chunk :: before, large, after, rfl, hok, hfailed, hlarge⟩

theorem Follows.feedAll_buffered (h : Follows s out r) (hb : r.buffered < 8 + 65536)
    (chunks : List (List UInt8)) :
    (r.feedAll chunks).2.buffered < 8 + 65536 ∨ Overrun r chunks := by
  induction chunks generalizing s out r with
  | nil => exact .inl hb
  | cons chunk chunks ih =>
    have hnext : (r.feed chunk).2.buffered < 8 + 65536 ∨ Overrun r (chunk :: chunks) := by
      by_cases hsmall : chunk.length ≤ 65536
      · exact .inl (h.feed_buffered hb hsmall)
      · cases hfailed : (r.feed chunk).2.failed with
        | false => exact .inl ((h.feed chunk).buffered_lt hfailed)
        | true =>
          cases hr : r.failed with
          | false => exact .inr ⟨[], chunk, chunks, rfl, hr, hfailed, Nat.lt_of_not_le hsmall⟩
          | true =>
            rw [FrameReader.feed, append_failed hr, drain_failed hr]
            exact .inl hb
    obtain hnext | hover := hnext
    · exact (ih (h.feed chunk) hnext).imp_right Overrun.cons
    · exact .inr hover

end Feeding

theorem headOf_encodeFrame {payload : List UInt8} (h : payload.length ≤ 65536) (type : UInt16) :
    headOf (encodeFrame type payload) =
      .piece (request type payload) (encodeFrame type payload).length := by
  let n := UInt32.ofNat payload.length
  have hn : n.toNat = payload.length := UInt32.toNat_ofNat_of_lt' (by rw [UInt32.size]; omega)
  have hframe : encodeFrame type payload =
      putU32 n ++ (putU16 type ++ (putU16 version ++ payload)) := by
    simp only [encodeFrame, encodeHeader, List.append_assoc]
    rfl
  have htake : (encodeFrame type payload).take 4 = putU32 n := by
    rw [hframe]
    exact List.take_left' (length_putU32 n)
  have hvalue : value ((encodeFrame type payload).take 4) = payload.length := by
    rw [htake, putU32, value_bytes_of_lt n.toNat_lt, hn]
  have hdrop4 : (encodeFrame type payload).drop 4 = putU16 type ++ (putU16 version ++ payload) := by
    rw [hframe]
    exact List.drop_left' (length_putU32 n)
  have hdrop6 : (encodeFrame type payload).drop 6 = putU16 version ++ payload := by
    rw [← List.drop_drop (i := 2) (j := 4), hdrop4]
    exact List.drop_left' (length_putU16 type)
  have hdrop8 : (encodeFrame type payload).drop 8 = payload := by
    rw [← List.drop_drop (i := 2) (j := 6), hdrop6]
    exact List.drop_left' (length_putU16 version)
  have hlen : (encodeFrame type payload).length = 8 + payload.length := by
    simp [hframe]
    omega
  have hfield : ∀ (v : UInt16) (rest : List UInt8),
      UInt16.ofNat (value ((putU16 v ++ rest).take 2)) = v := by
    intro v rest
    rw [List.take_left' (length_putU16 v), putU16, value_bytes_of_lt v.toNat_lt, UInt16.ofNat_toNat]
  rw [headOf_whole (by omega) (by omega), hvalue, hlen, frameOf, hvalue, hdrop4, hdrop6, hdrop8,
    hfield, hfield, List.take_length]
  rfl

theorem parse_encoded {sent : List (UInt16 × List UInt8)} (h : ∀ m ∈ sent, m.2.length ≤ 65536) :
    wire.parse (sent.flatMap fun m => encodeFrame m.1 m.2) =
      ⟨sent.map fun m => request m.1 m.2, false, []⟩ := by
  apply wire.parse_flatMap
  · intro m hm
    rw [head_wire]
    exact headOf_encodeFrame (h m hm) m.1
  · rw [head_wire]
    exact headOf_short (by decide)

theorem feedAll_open {sent : List (UInt16 × List UInt8)} (hsent : ∀ m ∈ sent, m.2.length ≤ 65536)
    {chunks : List (List UInt8)}
    (h : chunks.flatten <+: sent.flatMap fun m => encodeFrame m.1 m.2) :
    (FrameReader.empty.feedAll chunks).2.closes = false := by
  have hcut := follows_empty.feedAll chunks
  rw [List.nil_append, List.nil_append] at hcut
  have hok : (FrameReader.empty.feedAll chunks).2.failed = false := by
    rw [hcut.failed]
    exact wire.not_broken_of_prefix h (by rw [parse_encoded hsent])
  have hlt := hcut.buffered_lt hok
  have hmax : maxReadBuffer = 131072 := rfl
  simp only [FrameReader.closes, hok, Bool.false_or, decide_eq_false_iff_not]
  omega

/-- The frames do not depend on how the stream was cut, and are those of the
reference parse; what is waiting stays below one frame of the largest size, unless
the reader has failed on a chunk that is larger still; and the frames of a peer
that keeps to the protocol come out as they were encoded and never close it. -/
structure Reassembled (chunks : List (List UInt8))
    (cut whole : List WireFrame × FrameReader) : Prop where
  same : cut.1 = whole.1 ∧ cut.2.failed = whole.2.failed
  reference : whole.1 = (wire.parse chunks.flatten).pieces ∧
    whole.2.failed = (wire.parse chunks.flatten).broken
  bounded : cut.2.buffered < 8 + 65536 ∨ Overrun .empty chunks
  waiting : cut.2.failed = false ∨ (∀ chunk ∈ chunks, chunk.length ≤ 65536) →
    cut.2.buffered < 8 + 65536
  decoded : ∀ sent : List (UInt16 × List UInt8), (∀ m ∈ sent, m.2.length ≤ 65536) →
    chunks.flatten = sent.flatMap (fun m => encodeFrame m.1 m.2) →
    cut.1 = sent.map fun m => request m.1 m.2
  served : ∀ sent : List (UInt16 × List UInt8), (∀ m ∈ sent, m.2.length ≤ 65536) →
    chunks.flatten <+: sent.flatMap (fun m => encodeFrame m.1 m.2) → cut.2.closes = false

theorem segmentation_irrelevant (chunks : List (List UInt8)) :
    Reassembled chunks (FrameReader.empty.feedAll chunks)
      (FrameReader.empty.feed chunks.flatten) := by
  have hcut := follows_empty.feedAll chunks
  have hwhole := follows_empty.feed chunks.flatten
  simp only [List.nil_append] at hcut hwhole
  have hbound := follows_empty.feedAll_buffered (by decide) chunks
  have hwaiting : (FrameReader.empty.feedAll chunks).2.failed = false ∨
      (∀ chunk ∈ chunks, chunk.length ≤ 65536) →
      (FrameReader.empty.feedAll chunks).2.buffered < 8 + 65536 := by
    intro h
    obtain hok | hsmall := h
    · exact hcut.buffered_lt hok
    · obtain hlt | ⟨before, chunk, after, rfl, -, -, hlarge⟩ := hbound
      · exact hlt
      · exact absurd (hsmall chunk (by simp)) (Nat.not_le_of_lt hlarge)
  refine ⟨⟨?_, ?_⟩, ⟨hwhole.frames, hwhole.failed⟩, hbound, hwaiting, fun sent hsent hs => ?_,
    fun sent hsent => feedAll_open hsent⟩
  · rw [hcut.frames, hwhole.frames]
  · rw [hcut.failed, hwhole.failed]
  · rw [hcut.frames, hs, parse_encoded hsent]

def oversized (tail : List UInt8) : List UInt8 := [255, 255, 255, 255, 0, 0, 0, 0] ++ tail

theorem feed_oversized (tail : List UInt8) :
    (FrameReader.empty.feed (oversized tail)).2.buffered = 8 + tail.length := by
  have hlen : (oversized tail).length = 8 + tail.length := List.length_append
  have hhead : wire.head (oversized tail) = .broken := by
    rw [head_wire]
    apply headOf_oversized
    · omega
    · rw [oversized, take_append (by decide)]
      decide
  obtain ⟨hunread, hok⟩ := append_unread (r := .empty) rfl (oversized tail)
  have hrest := (drain_parse hok).2.2
  rw [hunread] at hrest
  change _ = (wire.parse (oversized tail)).rest at hrest
  rw [← length_unread, FrameReader.feed, hrest, Cutter.parse_broken hhead, hlen]

theorem oversized_buffered : ¬∀ chunks : List (List UInt8),
    (FrameReader.empty.feedAll chunks).2.buffered < 8 + 65536 := by
  intro h
  obtain ⟨tail, htail⟩ : ∃ tail : List UInt8, tail.length = 65536 :=
    ⟨List.replicate _ 0, List.length_replicate⟩
  have hb := h [oversized tail]
  change (FrameReader.empty.feed (oversized tail)).2.buffered < _ at hb
  rw [feed_oversized] at hb
  omega

end OrderMatching.Framing
