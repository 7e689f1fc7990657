import Mathlib.Data.List.Basic

namespace OrderMatching.Sockets

abbrev Segment := { bytes : List UInt8 // bytes ≠ [] }

/-- What a read finds when nothing more arrives: the end of the stream, or
nothing within the time that it waits. -/
inductive Ending where
  | closed
  | silent
  deriving DecidableEq

/-- The receiving end of a stream: what is still to arrive, in the portions in
which it does. -/
structure Socket where
  arriving : List Segment
  ending : Ending

def Socket.bytes (s : Socket) : List UInt8 := s.arriving.flatMap Subtype.val

/-- At most `n` bytes, of those that arrive next. -/
def Socket.recv (s : Socket) (n : Nat) : Option (List UInt8 × Socket) :=
  match s.arriving with
  | [] => none
  | segment :: arriving =>
    if h : n < segment.val.length then
      some (segment.val.take n,
        { s with
          arriving :=
            ⟨segment.val.drop n, by rw [Ne, List.drop_eq_nil_iff]; omega⟩ :: arriving })
    else some (segment.val, { s with arriving := arriving })

/-- What ends a connection: the stream after `got` of `wanted` bytes, or the
wait for it. -/
inductive Disconnect where
  | closed (got wanted : Nat)
  | timedOut

def Ending.disconnect (e : Ending) (got wanted : Nat) : Disconnect :=
  match e with
  | .closed => .closed got wanted
  | .silent => .timedOut

theorem recv_length {s s' : Socket} {n : Nat} {chunk : List UInt8} (h : s.recv n = some (chunk, s'))
    (hn : 0 < n) :
    0 < chunk.length ∧ chunk.length ≤ n := by
  unfold Socket.recv at h
  split at h
  · exact absurd h (Option.some_ne_none _).symm
  · rename_i segment arriving _
    split at h
    · rename_i hlt
      obtain ⟨rfl, -⟩ := Prod.mk.inj (Option.some.inj h)
      rw [List.length_take]
      omega
    · rename_i hle
      obtain ⟨rfl, -⟩ := Prod.mk.inj (Option.some.inj h)
      exact ⟨List.length_pos_iff.mpr segment.property, Nat.not_lt.mp hle⟩

def Socket.recvExactly (s : Socket) (n : Nat) (buf : List UInt8) :
    Except Disconnect (List UInt8 × Socket) :=
  if _h : buf.length < n then
    match _hr : s.recv (n - buf.length) with
    | none => .error (s.ending.disconnect buf.length n)
    | some (chunk, s) => s.recvExactly n (buf ++ chunk)
  else .ok (buf, s)
termination_by n - buf.length
decreasing_by
  have := recv_length _hr (Nat.sub_pos_of_lt _h)
  rw [List.length_append]
  omega

variable {s s' : Socket} {n : Nat}

theorem recv_none (h : s.recv n = none) : s.bytes = [] := by
  unfold Socket.recv at h
  split at h
  · rename_i hnil
    rw [Socket.bytes, hnil]
    rfl
  · split at h <;> exact absurd h (Option.some_ne_none _)

theorem recv_some {chunk : List UInt8} (h : s.recv n = some (chunk, s')) :
    s.bytes = chunk ++ s'.bytes ∧ s'.ending = s.ending := by
  unfold Socket.recv at h
  split at h
  · exact absurd h (Option.some_ne_none _).symm
  · rename_i segment arriving harriving
    rw [Socket.bytes, harriving, List.flatMap_cons]
    split at h
    · obtain ⟨rfl, rfl⟩ := Prod.mk.inj (Option.some.inj h)
      refine ⟨?_, rfl⟩
      rw [Socket.bytes, List.flatMap_cons, ← List.append_assoc, List.take_append_drop]
    · obtain ⟨rfl, rfl⟩ := Prod.mk.inj (Option.some.inj h)
      exact ⟨rfl, rfl⟩

/-- How the stream is cut does not matter: the bytes that are read are the next
ones. -/
theorem recvExactly_enough (s : Socket) (n : Nat) (buf : List UInt8)
    (h : n ≤ buf.length + s.bytes.length) (hbuf : buf.length ≤ n) :
    ∃ s', s.recvExactly n buf = .ok (buf ++ s.bytes.take (n - buf.length), s') ∧
      s'.bytes = s.bytes.drop (n - buf.length) ∧ s'.ending = s.ending := by
  induction hk : n - buf.length using Nat.strongRecOn generalizing s buf with
  | ind k ih =>
    subst hk
    rw [Socket.recvExactly]
    split
    · rename_i hlt
      split
      · rename_i hnone
        have hnil := recv_none hnone
        rw [hnil, List.length_nil] at h
        omega
      · rename_i chunk s₁ hsome
        obtain ⟨hpos, hle⟩ := recv_length hsome (Nat.sub_pos_of_lt hlt)
        obtain ⟨hbytes, hending⟩ := recv_some hsome
        have hlen : (buf ++ chunk).length = buf.length + chunk.length := List.length_append
        rw [hbytes, List.length_append] at h
        obtain ⟨s', hread, hrest, hend⟩ :=
          ih (n - (buf ++ chunk).length) (by omega) s₁ (buf ++ chunk) (by omega) (by omega) rfl
        have hsplit : n - buf.length = chunk.length + (n - (buf ++ chunk).length) := by omega
        refine ⟨s', ?_, ?_, hend.trans hending⟩
        · rw [hread, hbytes, hsplit, List.take_length_add_append, List.append_assoc]
        · rw [hrest, hbytes, hsplit, List.drop_length_add_append]
    · rename_i hge
      have hzero : n - buf.length = 0 := by omega
      refine ⟨s, ?_, ?_, rfl⟩
      · rw [hzero, List.take_zero, List.append_nil]
      · rw [hzero, List.drop_zero]

theorem recvExactly_short (s : Socket) (n : Nat) (buf : List UInt8)
    (h : buf.length + s.bytes.length < n) :
    s.recvExactly n buf = .error (s.ending.disconnect (buf.length + s.bytes.length) n) := by
  induction hk : n - buf.length using Nat.strongRecOn generalizing s buf with
  | ind k ih =>
    subst hk
    have hlt : buf.length < n := by omega
    rw [Socket.recvExactly, dif_pos hlt]
    split
    · rename_i hnone
      rw [recv_none hnone]
      rfl
    · rename_i chunk s₁ hsome
      obtain ⟨hpos, hle⟩ := recv_length hsome (Nat.sub_pos_of_lt hlt)
      obtain ⟨hbytes, hending⟩ := recv_some hsome
      have hlen : (buf ++ chunk).length = buf.length + chunk.length := List.length_append
      have htotal : s.bytes.length = chunk.length + s₁.bytes.length := by
        rw [hbytes, List.length_append]
      rw [ih (n - (buf ++ chunk).length) (by omega) s₁ (buf ++ chunk) (by omega) rfl, hending, hlen,
        htotal, Nat.add_assoc]

end OrderMatching.Sockets
