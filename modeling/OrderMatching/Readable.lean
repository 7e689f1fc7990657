import OrderMatching.Framing

namespace OrderMatching.Readable

open OrderMatching.Commands OrderMatching.Network OrderMatching.Wire OrderMatching.Segmentation
open OrderMatching.Framing

/-- The size of the buffer that `handle_readable` receives into. -/
def bufferSize : Nat := 16 * 1024

/-- What one call of `recv` can deliver. -/
abbrev Chunk := { data : List UInt8 // data ≠ [] ∧ data.length ≤ bufferSize }

/-- What `recv` comes to: bytes, the end of the stream, nothing for now, a
signal, or a broken socket. -/
inductive Received where
  | bytes (nowNs : UInt64) (data : Chunk)
  | closed
  | again
  | interrupted
  | broken

/-- A connection with its reader and the queue of commands. The last two fields
are history: the bytes received and the frames dispatched. -/
structure Reading where
  conn : Connection
  inbound : List OrderCommand
  reader : FrameReader
  taken : List UInt8
  served : List WireFrame

def Reading.initial (conn : Connection) (inbound : List OrderCommand) : Reading :=
  ⟨conn, inbound, .empty, [], []⟩

def Reading.closeNow (r : Reading) : Reading := { r with conn := r.conn.closeNow }

def Reading.received (r : Reading) (nowNs : UInt64) (data : List UInt8) : Reading :=
  { r with
    conn := { r.conn with session := r.conn.session.onInbound nowNs }
    reader := r.reader.append data
    taken := r.taken ++ data }

/-- A frame that the reader gave out. `allow` is what the token bucket says,
frame by frame. -/
def Reading.dispatch (allow : Nat → Bool) (r : Reading) (f : WireFrame) (reader : FrameReader) :
    Reading :=
  let (inbound, conn) := Network.dispatch r.inbound r.conn (allow r.served.length) f.read
  { r with conn := conn, inbound := inbound, reader := reader, served := r.served ++ [f] }

/-- The loop over the complete frames, and whether `handle_readable` returns from
inside it. -/
def Reading.frames (allow : Nat → Bool) (r : Reading) : Reading × Bool :=
  match _h : r.reader.nextFrame with
  | (none, reader) => ({ r with reader := reader }, false)
  | (some f, reader) =>
    let r := r.dispatch allow f reader
    if r.conn.closing then (r, true) else r.frames allow
termination_by r.reader.buffered
decreasing_by exact nextFrame_buffered _h

def Reading.handleReadable (allow : Nat → Bool) (r : Reading) : List Received → Reading
  | [] => r
  | .bytes nowNs data :: answers =>
    match (r.received nowNs data.val).frames allow with
    | (r, true) => r
    | (r, false) =>
      if r.reader.failed then r.closeNow
      else if r.reader.buffered > maxReadBuffer then r.closeNow
      else if data.val.length < bufferSize then r
      else r.handleReadable allow answers
  | .closed :: _ => r.closeNow
  | .again :: _ => r
  | .interrupted :: answers => r.handleReadable allow answers
  | .broken :: _ => r.closeNow

variable {allow : Nat → Bool} {r : Reading}

theorem frames_none {reader : FrameReader} (h : r.reader.nextFrame = (none, reader)) :
    r.frames allow = ({ r with reader := reader }, false) := by
  rw [Reading.frames]
  split <;> simp_all

theorem frames_some {f : WireFrame} {reader : FrameReader}
    (h : r.reader.nextFrame = (some f, reader)) :
    r.frames allow =
      if (r.dispatch allow f reader).conn.closing then (r.dispatch allow f reader, true)
      else (r.dispatch allow f reader).frames allow := by
  rw [Reading.frames]
  split <;> simp_all

/-- The loop goes through the frames one by one, and ends at the last complete
one or with a connection that is to be closed: the induction that follows it. -/
theorem frames_induction {P : Reading → Prop} {Q : Reading × Bool → Prop}
    (hnone : ∀ r reader, P r → r.reader.nextFrame = (none, reader) →
      Q ({ r with reader := reader }, false))
    (hsome : ∀ r f reader, P r → r.reader.nextFrame = (some f, reader) →
      if (r.dispatch allow f reader).conn.closing then Q (r.dispatch allow f reader, true)
      else P (r.dispatch allow f reader))
    (hr : P r) : Q (r.frames allow) := by
  induction hn : r.reader.buffered using Nat.strongRecOn generalizing r with
  | ind n ih =>
    cases hnext : r.reader.nextFrame with
    | mk o reader =>
      cases o with
      | none =>
        rw [frames_none hnext]
        exact hnone r reader hr hnext
      | some f =>
        have hp := hsome r f reader hr hnext
        rw [frames_some hnext]
        split at hp
        · rename_i hclosing
          rwa [if_pos hclosing]
        · rename_i hopen
          rw [if_neg hopen]
          exact ih _ (hn ▸ nextFrame_buffered hnext) hp rfl

/-- The frames dispatched are the first ones of the stream, and the reader holds
what is left of it. A reader that has failed stands before a broken place. -/
def Tracks (r : Reading) : Prop :=
  ∃ u, wire.Left r.taken r.served u ∧ (r.reader.failed = false → u = r.reader.unread) ∧
    (r.reader.failed = true → wire.head u = .broken)

theorem tracks_received (h : Tracks r) (nowNs : UInt64) (data : List UInt8) :
    Tracks (r.received nowNs data) := by
  obtain ⟨u, hleft, hlive, hbroken⟩ := h
  refine ⟨u ++ data, hleft.append data, ?_⟩
  cases hfailed : r.reader.failed with
  | true =>
    have hsame : (r.received nowNs data).reader = r.reader := append_failed hfailed data
    rw [hsame, hfailed]
    exact ⟨fun h => absurd h Bool.true_eq_false.mp,
      fun _ => wire.broken_append (hbroken hfailed) data⟩
  | false =>
    obtain ⟨hunread, hok⟩ := append_unread hfailed data
    have hok' : (r.received nowNs data).reader.failed = false := hok
    rw [hok']
    refine ⟨fun _ => ?_, fun h => absurd h Bool.false_ne_true⟩
    rw [hlive hfailed]
    exact hunread.symm

theorem nextFrame_some {r reader : FrameReader} {f : WireFrame}
    (h : r.nextFrame = (some f, reader)) :
    r.failed = false ∧ reader.failed = false ∧
      ∃ n, wire.head r.unread = .piece f n ∧ reader.unread = r.unread.drop n := by
  cases hfailed : r.failed with
  | true =>
    have hnone : r.nextFrame = (none, r) := if_pos hfailed
    rw [hnone] at h
    cases h
  | false =>
    have hspec := nextFrame_spec hfailed
    cases hhead : wire.head r.unread with
    | more =>
      rw [hhead] at hspec
      cases hspec.symm.trans h
    | broken =>
      rw [hhead] at hspec
      cases hspec.symm.trans h
    | piece f' n =>
      rw [hhead] at hspec
      obtain ⟨r', hnext, hok, hrest⟩ := hspec
      cases hnext.symm.trans h
      exact ⟨rfl, hok, n, rfl, hrest⟩

theorem nextFrame_none {r reader : FrameReader} (h : r.nextFrame = (none, reader)) :
    (r.failed = true ∧ reader = r) ∨
      r.failed = false ∧ reader.unread = r.unread ∧
        ((reader.failed = true ∧ wire.head r.unread = .broken) ∨
          (reader.failed = false ∧ wire.head r.unread = .more)) := by
  cases hfailed : r.failed with
  | true =>
    have hnone : r.nextFrame = (none, r) := if_pos hfailed
    cases hnone.symm.trans h
    exact .inl ⟨rfl, rfl⟩
  | false =>
    have hspec := nextFrame_spec hfailed
    refine .inr ⟨rfl, ?_⟩
    cases hhead : wire.head r.unread with
    | more =>
      rw [hhead] at hspec
      cases hspec.symm.trans h
      exact ⟨rfl, .inr ⟨hfailed, rfl⟩⟩
    | broken =>
      rw [hhead] at hspec
      cases hspec.symm.trans h
      exact ⟨rfl, .inl ⟨rfl, rfl⟩⟩
    | piece f n =>
      rw [hhead] at hspec
      obtain ⟨r', hnext, -⟩ := hspec
      cases hnext.symm.trans h

theorem tracks_dispatch (h : Tracks r) {f : WireFrame} {reader : FrameReader}
    (hnext : r.reader.nextFrame = (some f, reader)) : Tracks (r.dispatch allow f reader) := by
  obtain ⟨u, hleft, hlive, -⟩ := h
  obtain ⟨hok, hok', n, hhead, hrest⟩ := nextFrame_some hnext
  rw [hlive hok] at hleft
  refine ⟨reader.unread, ?_, fun _ => rfl, fun hf => absurd (hok'.symm.trans hf) Bool.false_ne_true⟩
  rw [hrest]
  exact hleft.next hhead

theorem tracks_none (h : Tracks r) {reader : FrameReader}
    (hnext : r.reader.nextFrame = (none, reader)) :
    Tracks { r with reader := reader } := by
  obtain ⟨u, hleft, hlive, hbroken⟩ := h
  obtain ⟨-, rfl⟩ | ⟨hok, hunread, hcases⟩ := nextFrame_none hnext
  · exact ⟨u, hleft, hlive, hbroken⟩
  · refine ⟨u, hleft, fun _ => (hlive hok).trans hunread.symm, fun hf => ?_⟩
    obtain ⟨-, hhead⟩ | ⟨hok', -⟩ := hcases
    · rw [hlive hok]
      exact hhead
    · exact absurd (hok'.symm.trans hf) Bool.false_ne_true

def Waits (r : Reading) : Prop := r.reader.failed = false ∧ wire.head r.reader.unread = .more

def Drained (r : Reading) : Prop := r.conn.closing = false → Waits r

theorem frames_tracks (h : Tracks r) :
    Tracks (r.frames allow).1 ∧
      if (r.frames allow).2 then (r.frames allow).1.conn.closing = true
      else (r.frames allow).1.reader.failed = true ∨ Waits (r.frames allow).1 := by
  apply frames_induction (Q := fun p => Tracks p.1 ∧ if p.2 then p.1.conn.closing = true
    else p.1.reader.failed = true ∨ Waits p.1) ?_ ?_ h
  · intro r reader h hnext
    refine ⟨tracks_none h hnext, ?_⟩
    rw [if_neg Bool.false_ne_true]
    obtain ⟨hf, rfl⟩ | ⟨-, hunread, ⟨hf, -⟩ | ⟨hok, hmore⟩⟩ := nextFrame_none hnext
    · exact .inl hf
    · exact .inl hf
    · exact .inr ⟨hok, hunread ▸ hmore⟩
  · intro r f reader h hnext
    have htracks : Tracks (r.dispatch allow f reader) := tracks_dispatch h hnext
    split
    · rename_i hclosing
      exact ⟨htracks, hclosing⟩
    · exact htracks

theorem drained_closeNow : Drained r.closeNow := fun h => absurd h Bool.true_eq_false.mp

theorem tracks_handleReadable (answers : List Received) (h : Tracks r) (hd : Drained r) :
    Tracks (r.handleReadable allow answers) ∧ Drained (r.handleReadable allow answers) := by
  induction answers generalizing r with
  | nil => exact ⟨h, hd⟩
  | cons answer answers ih =>
    cases answer with
    | closed => exact ⟨h, drained_closeNow⟩
    | again => exact ⟨h, hd⟩
    | interrupted => exact ih h hd
    | broken => exact ⟨h, drained_closeNow⟩
    | bytes nowNs data =>
      have hframes := @frames_tracks allow _ (tracks_received h nowNs data.val)
      rw [Reading.handleReadable]
      cases hf : (r.received nowNs data.val).frames allow with
      | mk r' stopped =>
        rw [hf] at hframes
        obtain ⟨htracks, hend⟩ := hframes
        cases stopped with
        | true => exact ⟨htracks, fun hopen => absurd (hopen.symm.trans hend) Bool.false_ne_true⟩
        | false =>
          dsimp only
          split
          · exact ⟨htracks, drained_closeNow⟩
          · rename_i hfailed
            have hwaits : Waits r' := hend.resolve_left hfailed
            split
            · exact ⟨htracks, drained_closeNow⟩
            · split
              · exact ⟨htracks, fun _ => hwaits⟩
              · exact ih htracks fun _ => hwaits

/-- What is done to a connection while its socket is open: `handle_readable`,
the bytes that `handle_writable` gets rid of, `close_now`, the timers, an event
or an update for the client, and what both threads do to the two queues. -/
inductive Deed where
  | readable (answers : List Received)
  | written (n : Nat)
  | closeNow
  | timers (cfg : ServerConfig) (nowNs : UInt64)
  | deliver (e : OrderEvent)
  | queue (reply : Reply)
  | egress (q : EgressQueue)
  | inbound (cs : List OrderCommand)

def Reading.step (allow : Nat → Bool) (r : Reading) : Deed → Reading
  | .readable answers => r.handleReadable allow answers
  | .written n => { r with conn := { r.conn with writer := r.conn.writer.consume n } }
  | .closeNow => r.closeNow
  | .timers cfg nowNs => { r with conn := serviceTimers cfg r.conn nowNs }
  | .deliver e => { r with conn := r.conn.deliver e }
  | .queue reply => { r with conn := r.conn.queue reply }
  | .egress q => { r with conn := { r.conn with egress := q } }
  | .inbound cs => { r with inbound := cs }

def Reading.run (allow : Nat → Bool) (r : Reading) (ds : List Deed) : Reading :=
  ds.foldl (Reading.step allow) r

theorem closing_queue {c : Connection} (h : c.closing = true) (reply : Reply) :
    (c.queue reply).closing = true := by
  unfold Connection.queue
  dsimp only
  split
  · exact h
  · rfl

theorem closing_deliver {c : Connection} (h : c.closing = true) (e : OrderEvent) :
    (c.deliver e).closing = true := by
  have hforget : (c.forgetOrder e.clientOrderId).closing = true := h
  unfold Connection.deliver
  cases e.type with
  | ack =>
    dsimp only
    split
    · exact closing_queue hforget _
    · exact closing_queue h _
  | reject => exact closing_queue hforget _
  | fill =>
    dsimp only
    split
    · exact closing_queue hforget _
    · exact closing_queue h _
  | sessionRetired => rfl

theorem closing_serviceTimers {c : Connection} (h : c.closing = true) (cfg : ServerConfig)
    (nowNs : UInt64) :
    (serviceTimers cfg c nowNs).closing = true := by
  unfold serviceTimers
  split
  · rfl
  · split
    · exact closing_queue h _
    · exact h

theorem tracks_beside {c : Connection} {cs : List OrderCommand} (h : Tracks r) (hd : Drained r)
    (hclosing : r.conn.closing = true → c.closing = true) :
    Tracks { r with conn := c, inbound := cs } ∧ Drained { r with conn := c, inbound := cs } := by
  refine ⟨h, fun hopen => hd (Bool.eq_false_iff.mpr fun hc => ?_)⟩
  exact Bool.false_ne_true (hopen.symm.trans (hclosing hc))

theorem tracks_step (allow : Nat → Bool) (d : Deed) (h : Tracks r) (hd : Drained r) :
    Tracks (r.step allow d) ∧ Drained (r.step allow d) := by
  cases d with
  | readable answers => exact tracks_handleReadable answers h hd
  | closeNow => exact ⟨h, drained_closeNow⟩
  | written n => exact tracks_beside h hd id
  | timers cfg nowNs => exact tracks_beside h hd fun hc => closing_serviceTimers hc cfg nowNs
  | deliver e => exact tracks_beside h hd fun hc => closing_deliver hc e
  | queue reply => exact tracks_beside h hd fun hc => closing_queue hc reply
  | egress q => exact tracks_beside h hd id
  | inbound cs => exact tracks_beside h hd id

theorem tracks_run (allow : Nat → Bool) (ds : List Deed) (h : Tracks r) (hd : Drained r) :
    Tracks (r.run allow ds) ∧ Drained (r.run allow ds) := by
  induction ds generalizing r with
  | nil => exact ⟨h, hd⟩
  | cons d ds ih =>
    obtain ⟨h', hd'⟩ := tracks_step allow d h hd
    exact ih h' hd'

theorem tracks_initial (conn : Connection) (inbound : List OrderCommand) :
    Tracks (.initial conn inbound) ∧ Drained (.initial conn inbound) :=
  ⟨⟨[], .all [], fun _ => rfl, fun h => absurd h Bool.false_ne_true⟩, fun _ => ⟨rfl, rfl⟩⟩

theorem Tracks.served_prefix (h : Tracks r) : r.served <+: (wire.parse r.taken).pieces := by
  obtain ⟨u, hleft, -⟩ := h
  rw [hleft.parse.1]
  exact List.prefix_append _ _

theorem Tracks.complete (h : Tracks r) (hw : Waits r) :
    (wire.parse r.taken).pieces = r.served ∧ (wire.parse r.taken).broken = false := by
  obtain ⟨u, hleft, hlive, -⟩ := h
  have hparse := hleft.parse
  rw [hlive hw.1, Cutter.parse_more hw.2, List.append_nil] at hparse
  exact hparse

theorem Waits.buffered_lt (h : Waits r) : r.reader.buffered < 8 + 65536 := by
  rw [← length_unread]
  obtain hshort | hpart := headOf_more h.2
  · omega
  · omega

/-- Whatever the portions in which a stream comes, whatever interrupts its
reading and whatever is done in between, its frames are dispatched in order, none
is lost, torn or repeated, and none that is complete is left waiting. -/
theorem reads_stream (allow : Nat → Bool) (conn : Connection) (inbound : List OrderCommand)
    (ds : List Deed) :
    let r := (Reading.initial conn inbound).run allow ds
    r.served <+: (wire.parse r.taken).pieces ∧
      (r.conn.closing = false → r.served = (wire.parse r.taken).pieces ∧
        (wire.parse r.taken).broken = false ∧ r.reader.buffered < 8 + 65536) := by
  obtain ⟨hinit, hdinit⟩ := tracks_initial conn inbound
  obtain ⟨h, hd⟩ := tracks_run allow ds hinit hdinit
  refine ⟨h.served_prefix, fun hopen => ?_⟩
  have hw := hd hopen
  obtain ⟨hpieces, hbroken⟩ := h.complete hw
  exact ⟨hpieces.symm, hbroken, hw.buffered_lt⟩

def unstamped (c : Connection) : Connection :=
  { c with session := { c.session with lastInboundNs := 0 } }

/-- The frames of a stream, dispatched one after the other until the connection
is to be closed. -/
def serve (allow : Nat → Bool) : Nat → List OrderCommand × Connection → List WireFrame →
    List OrderCommand × Connection
  | _, p, [] => p
  | k, p, f :: fs =>
    if p.2.closing then p else serve allow (k + 1) (Network.dispatch p.1 p.2 (allow k) f.read) fs

theorem id_unstamped (c : Connection) : (unstamped c).session.id = c.session.id := rfl

theorem queue_unstamped (c : Connection) (r : Reply) :
    (unstamped c).queue r = unstamped (c.queue r) := by
  unfold Connection.queue
  dsimp only [unstamped]
  split <;> rfl

theorem submit_unstamped (inbound : List OrderCommand) (c : Connection) (cmd : OrderCommand) :
    submit inbound (unstamped c) cmd =
      ((submit inbound c cmd).1, (submit inbound c cmd).2.1,
        unstamped (submit inbound c cmd).2.2) := by
  unfold submit
  split
  · rfl
  · rw [queue_unstamped]

theorem dispatch_unstamped (inbound : List OrderCommand) (c : Connection) (allowed : Bool)
    (f : Frame) :
    Network.dispatch inbound (unstamped c) allowed f =
      ((Network.dispatch inbound c allowed f).1,
        unstamped (Network.dispatch inbound c allowed f).2) := by
  cases f with
  | wrongVersion => simp only [Network.dispatch, queue_unstamped]
  | heartbeat => rfl
  | unknownType =>
    simp only [Network.dispatch, queue_unstamped]
    split <;> rfl
  | undecodable =>
    simp only [Network.dispatch, queue_unstamped]
    split <;> rfl
  | cancel clientOrderId =>
    simp only [Network.dispatch, queue_unstamped, submit_unstamped]
    split <;> rfl
  | modify clientOrderId newPriceTicks newQuantity =>
    simp only [Network.dispatch, queue_unstamped, submit_unstamped]
    split <;> rfl
  | subscribe depth =>
    simp only [Network.dispatch, queue_unstamped, submit_unstamped, id_unstamped]
    split
    · rfl
    · cases submit inbound c (.subscribe c.session.id depth) with
      | mk ok q => cases ok <;> rfl
  | newOrder clientOrderId priceTicks quantity side orderType =>
    let c' : Connection := { c with session := (c.session.registerOrder clientOrderId).2 }
    have hregister : (unstamped c).session.registerOrder clientOrderId =
        ((c.session.registerOrder clientOrderId).1, (unstamped c').session) := rfl
    have hconn : ({ unstamped c with session := (unstamped c').session } : Connection) =
        unstamped c' := rfl
    have hid : (unstamped c').session.id = (c.session.registerOrder clientOrderId).2.id := rfl
    simp only [Network.dispatch, queue_unstamped, hregister, hconn, hid, submit_unstamped]
    split
    · rfl
    · split
      · rfl
      · split
        · rfl
        · cases submit inbound c'
            (.newOrder (c.session.registerOrder clientOrderId).2.id clientOrderId priceTicks
              quantity side orderType) with
          | mk ok q => cases ok <;> rfl

theorem serve_closing {p : List OrderCommand × Connection} (h : p.2.closing = true) (k : Nat)
    (fs : List WireFrame) :
    serve allow k p fs = p := by
  cases fs with
  | nil => rfl
  | cons f fs => exact if_pos h

theorem serve_append (k : Nat) (p : List OrderCommand × Connection) (fs gs : List WireFrame) :
    serve allow k p (fs ++ gs) = serve allow (k + fs.length) (serve allow k p fs) gs := by
  induction fs generalizing k p with
  | nil => rfl
  | cons f fs ih =>
    rw [List.cons_append, serve, serve]
    split
    · rename_i hclosing
      rw [serve_closing hclosing]
    · rw [ih, List.length_cons, Nat.add_comm fs.length 1, Nat.add_assoc]

/-- What the gateway makes of a stream of bytes: its frames are dispatched, and a
broken place closes the connection. -/
def react (allow : Nat → Bool) (p : List OrderCommand × Connection) (s : List UInt8) :
    List OrderCommand × Connection :=
  let q := serve allow 0 p (wire.parse s).pieces
  if (wire.parse s).broken = true ∧ q.2.closing = false then (q.1, q.2.closeNow) else q

/-- Queue and connection are what the frames dispatched have made of them. -/
def Follows (allow : Nat → Bool) (p : List OrderCommand × Connection) (r : Reading) : Prop :=
  serve allow 0 p r.served = (r.inbound, unstamped r.conn)

def Reacts (allow : Nat → Bool) (p : List OrderCommand × Connection) (r : Reading) : Prop :=
  (r.inbound, unstamped r.conn) = react allow p r.taken

/-- Between two calls of `handle_readable` on a connection that stays open. -/
structure Open (allow : Nat → Bool) (p : List OrderCommand × Connection) (r : Reading) : Prop where
  tracks : Tracks r
  follows : Follows allow p r
  waits : Waits r
  opened : r.conn.closing = false

variable {p : List OrderCommand × Connection}

theorem follows_dispatch (h : Follows allow p r) (hopen : r.conn.closing = false) (f : WireFrame)
    (reader : FrameReader) : Follows allow p (r.dispatch allow f reader) := by
  have hstep : serve allow r.served.length (r.inbound, unstamped r.conn) [f] =
      Network.dispatch r.inbound (unstamped r.conn) (allow r.served.length) f.read :=
    if_neg (ne_true_of_eq_false hopen)
  have hserved : (r.dispatch allow f reader).served = r.served ++ [f] := rfl
  rw [Follows, hserved, serve_append, h, Nat.zero_add, hstep, dispatch_unstamped]
  rfl

theorem Open.reacts (h : Open allow p r) : Reacts allow p r := by
  obtain ⟨hpieces, hbroken⟩ := h.tracks.complete h.waits
  rw [Reacts, react, hpieces, hbroken, h.follows]
  exact (if_neg fun hb => Bool.false_ne_true hb.1).symm

theorem reacts_of_closing (h : Tracks r) (hf : Follows allow p r)
    (hclosing : r.conn.closing = true) :
    Reacts allow p r := by
  obtain ⟨rest, hrest⟩ := h.served_prefix
  have hserve : serve allow 0 p (wire.parse r.taken).pieces = (r.inbound, unstamped r.conn) := by
    rw [← hrest, serve_append, hf]
    exact serve_closing hclosing _ _
  rw [Reacts, react, hserve]
  exact (if_neg fun hb => Bool.false_ne_true (hb.2.symm.trans hclosing)).symm

theorem reacts_of_failed (h : Tracks r) (hf : Follows allow p r) (hopen : r.conn.closing = false)
    (hfailed : r.reader.failed = true) : Reacts allow p r.closeNow := by
  obtain ⟨u, hleft, -, hbroken⟩ := h
  have hparse := hleft.parse
  rw [Cutter.parse_broken (hbroken hfailed), List.append_nil] at hparse
  have htaken : r.closeNow.taken = r.taken := rfl
  rw [Reacts, react, htaken, hparse.1, hparse.2, hf]
  exact (if_pos ⟨rfl, hopen⟩).symm

theorem frames_follows (hf : Follows allow p r) (hopen : r.conn.closing = false) :
    Follows allow p (r.frames allow).1 ∧
      ((r.frames allow).2 = false → (r.frames allow).1.conn.closing = false) := by
  apply frames_induction (P := fun r => Follows allow p r ∧ r.conn.closing = false)
    (Q := fun q => Follows allow p q.1 ∧ (q.2 = false → q.1.conn.closing = false)) ?_ ?_ ⟨hf, hopen⟩
  · intro r reader h _
    exact ⟨h.1, fun _ => h.2⟩
  · intro r f reader h _
    have hfollows := follows_dispatch h.1 h.2 f reader
    split
    · exact ⟨hfollows, fun hf => absurd hf Bool.true_eq_false.mp⟩
    · rename_i hclosing
      exact ⟨hfollows, by simpa using hclosing⟩

/-- Nothing but bytes, waits and signals comes of a call of `recv`. -/
def Plain (answers : List Received) : Prop := ∀ a ∈ answers, a ≠ .closed ∧ a ≠ .broken

theorem open_handleReadable {answers : List Received} (hplain : Plain answers)
    (h : Open allow p r) :
    Open allow p (r.handleReadable allow answers) ∨
      (r.handleReadable allow answers).conn.closing = true ∧
        Reacts allow p (r.handleReadable allow answers) := by
  induction answers generalizing r with
  | nil => exact .inl h
  | cons answer answers ih =>
    have hrest : Plain answers := fun a ha => hplain a (List.mem_cons_of_mem _ ha)
    cases answer with
    | closed => exact absurd rfl (hplain _ List.mem_cons_self).1
    | again => exact .inl h
    | interrupted => exact ih hrest h
    | broken => exact absurd rfl (hplain _ List.mem_cons_self).2
    | bytes nowNs data =>
      have htracks := tracks_received h.tracks nowNs data.val
      have hframes := @frames_tracks allow _ htracks
      have hfollows := @frames_follows allow (r.received nowNs data.val) p h.follows h.opened
      rw [Reading.handleReadable]
      cases hf : (r.received nowNs data.val).frames allow with
      | mk r' stopped =>
        rw [hf] at hframes hfollows
        cases stopped with
        | true => exact .inr ⟨hframes.2, reacts_of_closing hframes.1 hfollows.1 hframes.2⟩
        | false =>
          have hopen := hfollows.2 rfl
          dsimp only
          split
          · rename_i hfailed
            exact .inr ⟨rfl, reacts_of_failed hframes.1 hfollows.1 hopen hfailed⟩
          · rename_i hfailed
            have hwaits : Waits r' := hframes.2.resolve_left hfailed
            have hsmall : ¬r'.reader.buffered > maxReadBuffer := by
              have hmax : maxReadBuffer = 131072 := rfl
              have hlt := hwaits.buffered_lt
              omega
            have hnow : Open allow p r' := ⟨hframes.1, hfollows.1, hwaits, hopen⟩
            rw [if_neg hsmall]
            split
            · exact .inl hnow
            · exact ih hrest hnow

/-- A pass of the loop: a connection that is to be closed is closed at its end,
and never read again. -/
def Reading.pass (allow : Nat → Bool) (r : Reading) (answers : List Received) : Reading :=
  if r.conn.closing then r else r.handleReadable allow answers

theorem pass_reacts {answers : List Received} (hplain : Plain answers)
    (h : Open allow p r ∨ r.conn.closing = true ∧ Reacts allow p r) :
    Open allow p (r.pass allow answers) ∨
      (r.pass allow answers).conn.closing = true ∧ Reacts allow p (r.pass allow answers) := by
  rw [Reading.pass]
  obtain hopen | ⟨hclosing, hreacts⟩ := h
  · rw [if_neg (ne_true_of_eq_false hopen.opened)]
    exact open_handleReadable hplain hopen
  · rw [if_pos hclosing]
    exact .inr ⟨hclosing, hreacts⟩

def Reading.passes (allow : Nat → Bool) (r : Reading) (passes : List (List Received)) : Reading :=
  passes.foldl (Reading.pass allow) r

theorem passes_reacts {passes : List (List Received)} (hplain : ∀ answers ∈ passes, Plain answers)
    (h : Open allow p r ∨ r.conn.closing = true ∧ Reacts allow p r) :
    Reacts allow p (r.passes allow passes) := by
  induction passes generalizing r with
  | nil => exact h.elim Open.reacts And.right
  | cons answers passes ih =>
    have hrest := fun a ha => hplain a (List.mem_cons_of_mem _ ha)
    exact ih hrest (pass_reacts (hplain _ List.mem_cons_self) h)

theorem cut_irrelevant (allow : Nat → Bool) (conn : Connection) (hopen : conn.closing = false)
    (inbound : List OrderCommand) (passes : List (List Received))
    (hplain : ∀ answers ∈ passes, Plain answers) :
    let r := (Reading.initial conn inbound).passes allow passes
    (r.inbound, unstamped r.conn) = react allow (inbound, unstamped conn) r.taken := by
  obtain ⟨htracks, -⟩ := tracks_initial conn inbound
  exact passes_reacts hplain (.inl ⟨htracks, rfl, ⟨rfl, rfl⟩, hopen⟩)

/-- A request for ten levels that comes in two portions, with a signal between
them. -/
def requested : List UInt8 := Protocol.encodeFrame subscribeType [10]

def halves : List (List Received) :=
  [[.bytes 1 ⟨requested.take 5, by decide +kernel⟩],
    [.interrupted, .bytes 2 ⟨requested.drop 5, by decide +kernel⟩]]

theorem cut_irrelevant_halves :
    let r := (Reading.initial (.create .default 1 0) []).passes (fun _ => true) halves
    (r.inbound, unstamped r.conn) =
      react (fun _ => true) ([], unstamped (.create .default 1 0)) requested := by
  have htaken : ((Reading.initial (.create .default 1 0) []).passes (fun _ => true) halves).taken =
      requested := by
    decide +kernel
  have hreacts :=
    cut_irrelevant (fun _ => true) (.create .default 1 0) rfl [] halves (by simp [halves, Plain])
  dsimp only at hreacts ⊢
  rwa [htaken] at hreacts

end OrderMatching.Readable
