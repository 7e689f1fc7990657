import OrderMatching.Network

namespace OrderMatching.Outbound

/-- The bytes of a connection that wait for its socket. Those in front of `pos`
have been sent. -/
structure WriteBuffer where
  buf : List UInt8
  pos : Nat
  capacity : Nat
  deriving DecidableEq

def WriteBuffer.create (capacity : Nat) : WriteBuffer := ⟨[], 0, capacity⟩

def compactThreshold : Nat := 64 * 1024

def WriteBuffer.pending (w : WriteBuffer) : Nat := w.buf.length - w.pos

def WriteBuffer.data (w : WriteBuffer) : List UInt8 := w.buf.drop w.pos

def WriteBuffer.compact (w : WriteBuffer) : WriteBuffer :=
  { w with buf := w.buf.drop w.pos, pos := 0 }

def WriteBuffer.append (w : WriteBuffer) (data : List UInt8) : Bool × WriteBuffer :=
  if data.length = 0 then (true, w)
  else if w.pending + data.length > w.capacity then (false, w)
  else
    -- the cap is on the memory held, with what has been sent
    let w := if w.buf.length + data.length > w.capacity ∧ w.pos > 0 then w.compact else w
    (true, { w with buf := w.buf ++ data })

def WriteBuffer.consume (w : WriteBuffer) (n : Nat) : WriteBuffer :=
  let w := { w with pos := w.pos + min n w.pending }
  if w.pos = w.buf.length then { w with buf := [], pos := 0 }
  else if w.pos ≥ compactThreshold then w.compact
  else w

structure Bounded (w : WriteBuffer) : Prop where
  position : w.pos ≤ w.buf.length
  held : w.buf.length ≤ w.capacity

variable {w : WriteBuffer}

theorem bounded_create (capacity : Nat) : Bounded (.create capacity) :=
  ⟨Nat.le_refl 0, Nat.zero_le capacity⟩

theorem length_data (w : WriteBuffer) : w.data.length = w.pending := List.length_drop

theorem Bounded.pending_le (h : Bounded w) : w.pending ≤ w.capacity := (Nat.sub_le _ _).trans h.held

@[simp] theorem data_compact (w : WriteBuffer) : w.compact.data = w.data := List.drop_zero

theorem append_accepted (h : Bounded w) {data : List UInt8}
    (hfits : w.pending + data.length ≤ w.capacity) :
    (w.append data).1 = true ∧ (w.append data).2.data = w.data ++ data ∧
    (w.append data).2.capacity = w.capacity ∧
      Bounded (w.append data).2 := by
  have hposition := h.position
  have hpending : w.pending = w.buf.length - w.pos := rfl
  unfold WriteBuffer.append
  split
  · rename_i hnone
    rw [List.eq_nil_of_length_eq_zero hnone, List.append_nil]
    exact ⟨rfl, rfl, rfl, h⟩
  · rw [if_neg (Nat.not_lt.mpr hfits)]
    dsimp only
    split
    · refine ⟨rfl, rfl, rfl, Nat.zero_le _, ?_⟩
      simp only [WriteBuffer.compact, List.length_append, List.length_drop]
      omega
    · rename_i hroom
      have hheld : w.buf.length + data.length ≤ w.capacity := by omega
      refine ⟨rfl, List.drop_append_of_le_length hposition, rfl, ?_, ?_⟩
      · exact hposition.trans (by rw [List.length_append]; exact Nat.le_add_right _ _)
      · rwa [List.length_append]

theorem append_refused {data : List UInt8} (h : w.pending ≤ w.capacity)
    (hfull : w.pending + data.length > w.capacity) :
    w.append data = (false, w) := by
  unfold WriteBuffer.append
  rw [if_neg (by omega), if_pos hfull]

/-- What is consumed comes from the front of what waits, in whichever of the
three ways the buffer then stores the rest. -/
theorem consume_data (h : Bounded w) (n : Nat) :
    (w.consume n).data = w.data.drop n ∧ (w.consume n).capacity = w.capacity ∧
      Bounded (w.consume n) := by
  have hposition := h.position
  have hheld := h.held
  have hpending : w.pending = w.buf.length - w.pos := rfl
  have hrest : w.buf.drop (w.pos + min n w.pending) = w.data.drop n := by
    rw [← List.drop_drop]
    obtain hle | hlt := Nat.le_total n w.pending
    · rw [Nat.min_eq_left hle]
      rfl
    · rw [Nat.min_eq_right hlt, List.drop_of_length_le (by rw [List.length_drop]; omega),
        List.drop_of_length_le (by rw [length_data]; omega)]
  unfold WriteBuffer.consume
  dsimp only
  split
  · rename_i hall
    refine ⟨?_, rfl, Nat.le_refl 0, Nat.zero_le _⟩
    rw [← hrest, hall, List.drop_length]
    rfl
  · split
    · refine ⟨?_, rfl, Nat.zero_le _, ?_⟩
      · rw [data_compact]
        exact hrest
      · simp only [WriteBuffer.compact, List.length_drop]
        omega
    · exact ⟨hrest, rfl, by show w.pos + min n w.pending ≤ w.buf.length; omega, hheld⟩

inductive Call where
  | append (data : List UInt8)
  | consume (n : Nat)

/-- A buffer with its history: the appends it accepted and the bytes that were
consumed from it. -/
structure Stream where
  buffer : WriteBuffer
  accepted : List (List UInt8)
  consumed : List UInt8

def Stream.create (capacity : Nat) : Stream := ⟨.create capacity, [], []⟩

def Stream.step (s : Stream) : Call → Stream
  | .append data =>
    let r := s.buffer.append data
    { s with buffer := r.2, accepted := if r.1 then s.accepted ++ [data] else s.accepted }
  | .consume n =>
    { s with buffer := s.buffer.consume n, consumed := s.consumed ++ s.buffer.data.take n }

def Stream.run (s : Stream) (calls : List Call) : Stream := calls.foldl Stream.step s

/-- A byte queue of bounded size: what went in has come out or waits, in order,
and an append is refused, without a trace, for lack of room only. -/
structure BoundedFifo (capacity : Nat) (s : Stream) : Prop where
  stream : s.consumed ++ s.buffer.data = s.accepted.flatten
  refuses : ∀ data, (s.buffer.append data).1 = false ↔ s.buffer.pending + data.length > capacity
  unchanged : ∀ data, (s.buffer.append data).1 = false → (s.buffer.append data).2 = s.buffer
  pending : s.buffer.pending ≤ capacity
  held : s.buffer.buf.length ≤ capacity

structure Sound (capacity : Nat) (s : Stream) : Prop where
  bounded : Bounded s.buffer
  capacity : s.buffer.capacity = capacity
  stream : s.consumed ++ s.buffer.data = s.accepted.flatten

variable {capacity : Nat} {s : Stream}

theorem sound_create (capacity : Nat) : Sound capacity (.create capacity) :=
  ⟨bounded_create capacity, rfl, rfl⟩

theorem Sound.step (h : Sound capacity s) (call : Call) : Sound capacity (s.step call) := by
  have hstream := h.stream
  cases call with
  | append data =>
    by_cases hfits : s.buffer.pending + data.length ≤ s.buffer.capacity
    · obtain ⟨hok, hdata, hcapacity, hbounded⟩ := append_accepted h.bounded hfits
      refine ⟨hbounded, hcapacity.trans h.capacity, ?_⟩
      simp only [Stream.step, hok, if_true, hdata]
      rw [← List.append_assoc, hstream, List.flatten_append, List.flatten_singleton]
    · have hrefused := append_refused h.bounded.pending_le (Nat.not_le.mp hfits)
      simp only [Stream.step, hrefused, Bool.false_eq_true, if_false]
      exact h
  | consume n =>
    obtain ⟨hdata, hcapacity, hbounded⟩ := consume_data h.bounded n
    refine ⟨hbounded, hcapacity.trans h.capacity, ?_⟩
    simp only [Stream.step, hdata]
    rw [List.append_assoc, List.take_append_drop, hstream]

theorem Sound.run (h : Sound capacity s) (calls : List Call) : Sound capacity (s.run calls) := by
  induction calls generalizing s with
  | nil => exact h
  | cons call calls ih => exact ih (h.step call)

theorem Sound.boundedFifo (h : Sound capacity s) : BoundedFifo capacity s := by
  have hpending := h.bounded.pending_le
  have hheld := h.bounded.held
  have hcapacity := h.capacity
  refine ⟨h.stream, fun data => ?_, fun data hno => ?_, hcapacity ▸ hpending, hcapacity ▸ hheld⟩
  · by_cases hfits : s.buffer.pending + data.length ≤ s.buffer.capacity
    · have hok := (append_accepted h.bounded hfits).1
      simp only [hok, Bool.true_eq_false, false_iff]
      omega
    · simp only [append_refused hpending (Nat.not_le.mp hfits), true_iff]
      omega
  · by_cases hfits : s.buffer.pending + data.length ≤ s.buffer.capacity
    · have hok := (append_accepted h.bounded hfits).1
      exact absurd (hok.symm.trans hno) Bool.true_eq_false.mp
    · rw [append_refused hpending (Nat.not_le.mp hfits)]

/-- Whatever is appended and consumed, in whatever order, the buffer is a byte
queue of its capacity. -/
theorem boundedFifo_run (capacity : Nat) (calls : List Call) :
    BoundedFifo capacity ((Stream.create capacity).run calls) :=
  ((sound_create capacity).run calls).boundedFifo

/-- What `send` comes to: so many bytes taken, or no room, a signal, or a broken
socket. -/
inductive Sent where
  | bytes (n : Nat)
  | again
  | interrupted
  | broken

/-- `handle_writable` against what the socket answers, and whether it gave the
connection up. -/
def handleWritable (s : Stream) : List Sent → Stream × Bool
  | [] => (s, false)
  | answer :: answers =>
    if s.buffer.pending = 0 then (s, false)
    else
      match answer with
      | .bytes n => handleWritable (s.step (.consume n)) answers
      | .again => (s, false)
      | .interrupted => handleWritable s answers
      | .broken => (s, true)

theorem handleWritable_run (s : Stream) (answers : List Sent) :
    ∃ ns : List Nat, (handleWritable s answers).1 = s.run (ns.map Call.consume) := by
  induction answers generalizing s with
  | nil => exact ⟨[], rfl⟩
  | cons answer answers ih =>
    unfold handleWritable
    split
    · exact ⟨[], rfl⟩
    · cases answer with
      | bytes n =>
        obtain ⟨ns, hns⟩ := ih (s.step (.consume n))
        exact ⟨n :: ns, hns⟩
      | again => exact ⟨[], rfl⟩
      | interrupted => exact ih s
      | broken => exact ⟨[], rfl⟩

theorem Sound.handleWritable (h : Sound capacity s) (answers : List Sent) :
    Sound capacity (handleWritable s answers).1 := by
  obtain ⟨ns, hns⟩ := handleWritable_run s answers
  rw [hns]
  exact h.run _

def counted (w : WriteBuffer) : Network.WriteBuffer := ⟨w.capacity, w.pending⟩

theorem counted_append (h : Bounded w) (data : List UInt8) :
    (counted w).append data.length = ((w.append data).1, counted (w.append data).2) := by
  by_cases hfits : w.pending + data.length ≤ w.capacity
  · obtain ⟨hok, hdata, hcapacity, -⟩ := append_accepted h hfits
    rw [Network.append_fits hfits, hok]
    simp [counted, ← length_data, hdata, hcapacity]
  · have hfull := Nat.not_le.mp hfits
    have hnone : data.length ≠ 0 := by
      have := h.pending_le
      omega
    rw [append_refused h.pending_le hfull, Network.WriteBuffer.append, if_neg hnone]
    exact if_pos hfull

theorem counted_consume (h : Bounded w) (n : Nat) :
    (counted w).consume n = counted (w.consume n) := by
  obtain ⟨hdata, hcapacity, -⟩ := consume_data h n
  simp only [Network.WriteBuffer.consume, counted, ← length_data, hdata, hcapacity,
    List.length_drop]
  congr 1
  omega

end OrderMatching.Outbound
