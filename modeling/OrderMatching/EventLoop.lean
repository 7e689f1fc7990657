import OrderMatching.Threads

namespace OrderMatching.EventLoop

open OrderMatching.Orders OrderMatching.Commands OrderMatching.MatchingThread OrderMatching.Network
open OrderMatching.Threads

/-- What `poll` reports of a descriptor: `POLLIN`, `POLLOUT`, one of `POLLERR`
and `POLLNVAL`, and `POLLHUP`. -/
structure Revents where
  readable : Bool
  writable : Bool
  failed : Bool
  hungUp : Bool
  deriving DecidableEq

def Revents.none : Revents := ⟨false, false, false, false⟩

/-- An entry of `pfds`, with the connection that it was made for. A descriptor
of -1 is not watched, and nothing is reported of it. -/
structure PollFd where
  session : Nat
  watched : Bool
  revents : Revents
  silent : watched = false → revents = .none

def PollFd.report (session : Nat) (watched : Bool) (revents : Revents) : PollFd where
  session := session
  watched := watched
  revents := if watched then revents else .none
  silent h := by simp [h]

/-- Where `run` stands. The bodies of its two loops over the connections hold
the index and the connection they have in hand, the first one also the entry of
`pfds` at that index. -/
inductive Line where
  | top
  | accepting (pfds : List PollFd) (listener : Bool)
  | timing (pfds : List PollFd) (nowNs : UInt64) (i : Nat)
  | events (pfds : List PollFd) (i : Nat)
  | writing (pfds : List PollFd) (i : Nat) (p : PollFd) (n : Nat)
  | reading (pfds : List PollFd) (i : Nat) (p : PollFd) (n : Nat)
  | leaving (pfds : List PollFd) (i : Nat) (p : PollFd) (n : Nat)
  | drains (i : Nat)
  | popping (i n : Nat)
  | marketing (i n : Nat)
  | flushing (i n : Nat)

/-- The network thread in its loop, next to the matching thread. `conns` is the
vector `conns_`: numbers of sessions stand for the pointers in it, and what they
point to is in the gateway, whose own place in the loop is not used. The last
four fields are history: the connections polled and served in this pass, and
those in the vector when the second loop began and drained by it since. -/
structure Server where
  gateway : Gateway
  conns : List Nat
  acceptPausedUntilNs : UInt64
  line : Line
  polled : List Nat
  served : List Nat
  due : List Nat
  drained : List Nat

def Server.initial (t : Thread) : Server := ⟨.initial t, [], 0, .top, [], [], [], []⟩

/-- What the kernel, the clock and the queues answer at the places of the loop,
or a step of the matching thread. -/
inductive Turn where
  | poll (nowNs : UInt64) (listener : Bool) (revents : Nat → Revents)
  | accepted (nowNs : UInt64)
  | exhausted (nowNs : UInt64)
  | sweep (nowNs : UInt64)
  | timer
  | visit
  | sent (k : Nat)
  | sendFailed
  | writeDone
  | received (nowNs : UInt64) (allowed : Bool) (f : Frame)
  | hungUp
  | readDone
  | leave (nowNs : UInt64)
  | drain
  | pop
  | market (latest : Option (Nat × List (Int × Nat) × List (Int × Nat)))
  | take (env : Env)
  | push
  | latch
  | erase
  | housekeep (env : Env)

structure LoopConfig where
  server : ServerConfig
  acceptBackoffNs : UInt64

def LoopConfig.default : LoopConfig := ⟨.default, 100 * 1000 * 1000⟩

def Server.goto (s : Server) (l : Line) : Server := { s with line := l }

def Server.put (s : Server) (n : Nat) (c : Connection) : Server :=
  { s with gateway := s.gateway.setConn n c }

def Server.onConn (s : Server) (n : Nat) (f : Connection → Server) : Server :=
  match s.gateway.conns n with
  | none => s
  | some c => f c

/-- `p.fd = c->retiring ? -1 : c->fd`. -/
def Server.watches (s : Server) (n : Nat) : Bool :=
  match s.gateway.conns n with
  | none => false
  | some c => if c.retiring then false else c.fdOpen

def Server.pollFds (s : Server) (revents : Nat → Revents) : List PollFd :=
  s.conns.zipIdx.map fun (n, i) => .report n (s.watches n) (revents i)

/-- The listener is left out of `pfds` while the server backs off. -/
def Server.poll (s : Server) (nowNs : UInt64) (listener : Bool) (revents : Nat → Revents) :
    Server :=
  match s.line with
  | .top =>
    { s with
      line := .accepting (s.pollFds revents) (listener && decide (nowNs ≥ s.acceptPausedUntilNs))
      polled := s.conns
      served := [] }
  | _ => s

def Server.accepted (cfg : ServerConfig) (s : Server) (nowNs : UInt64) : Server :=
  match s.line with
  | .accepting _ true =>
    if s.gateway.nextSessionId < 2 ^ 64 then
      { s with
        gateway := s.gateway.accept cfg nowNs
        conns := s.conns ++ [s.gateway.nextSessionId] }
    else s
  | _ => s

def Server.exhausted (s : Server) (backoffNs nowNs : UInt64) : Server :=
  match s.line with
  | .accepting pfds true =>
    { s.goto (.accepting pfds false) with acceptPausedUntilNs := nowNs + backoffNs }
  | _ => s

def Server.sweep (s : Server) (nowNs : UInt64) : Server :=
  match s.line with
  | .accepting pfds _ => s.goto (.timing pfds nowNs 0)
  | _ => s

/-- One round of `service_timers`. -/
def Server.timer (cfg : ServerConfig) (s : Server) : Server :=
  match s.line with
  | .timing pfds nowNs i =>
    match s.conns[i]? with
    | none => s.goto (.events pfds s.conns.length)
    | some n =>
      (s.onConn n fun c => s.put n (serviceTimers cfg c nowNs)).goto (.timing pfds nowNs (i + 1))
  | _ => s

/-- `close_connection`: the pointer leaves the vector with the connection. -/
def Server.closeConnection (s : Server) (i n : Nat) (c : Connection) : Server :=
  let g := s.gateway.close n c
  { s with gateway := g, conns := if (g.conns n).isSome then s.conns else s.conns.eraseIdx i }

/-- The head of the first loop. Connections accepted in this pass have no entry
in `pfds`, and an error closes a connection at once. -/
def Server.visit (s : Server) : Server :=
  match s.line with
  | .events _ 0 => { s.goto (.drains s.conns.length) with due := s.conns, drained := [] }
  | .events pfds (i + 1) =>
    match pfds[i]?, s.conns[i]? with
    | some p, some n =>
      let s := { s with served := n :: s.served }
      if p.revents.failed then (s.onConn n (s.closeConnection i n)).goto (.events pfds i)
      else s.goto (.writing pfds i p n)
    | _, _ => s.goto (.events pfds i)
  | _ => s

/-- A round of `handle_writable`, which the first loop calls on `POLLOUT` and the
second one for every open socket with something to send. -/
def Server.sent (s : Server) (k : Nat) : Server :=
  match s.line with
  | .writing _ _ p n =>
    s.onConn n fun c =>
      if p.revents.writable ∧ 0 < c.writer.pending then
        s.put n { c with writer := c.writer.consume k }
      else s
  | .flushing _ n =>
    s.onConn n fun c =>
      if c.fdOpen ∧ 0 < c.writer.pending then s.put n { c with writer := c.writer.consume k } else s
  | _ => s

def Server.sendFailed (s : Server) : Server :=
  match s.line with
  | .writing pfds i p n =>
    s.onConn n fun c =>
      if p.revents.writable ∧ 0 < c.writer.pending then
        (s.put n c.closeNow).goto (.reading pfds i p n)
      else s
  | .flushing _ n =>
    s.onConn n fun c => if c.fdOpen ∧ 0 < c.writer.pending then s.put n c.closeNow else s
  | _ => s

def Server.writeDone (s : Server) : Server :=
  match s.line with
  | .writing pfds i p n => s.goto (.reading pfds i p n)
  | _ => s

/-- A frame in `handle_readable`, which the first loop calls on `POLLIN`. -/
def Server.received (s : Server) (nowNs : UInt64) (allowed : Bool) (f : Frame) : Server :=
  match s.line with
  | .reading pfds i p n =>
    if p.revents.readable then
      s.onConn n fun c =>
        let g := s.gateway.frame n nowNs allowed f c
        { s with
          gateway := g
          line := if g.pc = .leaving n then .leaving pfds i p n else .reading pfds i p n }
    else s
  | _ => s

def Server.hungUp (s : Server) : Server :=
  match s.line with
  | .reading pfds i p n =>
    if p.revents.readable then
      (s.onConn n fun c => s.put n c.closeNow).goto (.leaving pfds i p n)
    else s
  | _ => s

def Server.readDone (s : Server) : Server :=
  match s.line with
  | .reading pfds i p n => s.goto (.leaving pfds i p n)
  | _ => s

def Server.closeIfReady (s : Server) (i n : Nat) (nowNs : UInt64) (c : Connection) : Server :=
  if c.readyToClose nowNs then s.closeConnection i n c else s.put n c

def Server.leave (s : Server) (nowNs : UInt64) : Server :=
  match s.line with
  | .leaving pfds i p n =>
    (s.onConn n fun c => s.closeIfReady i n nowNs (if p.revents.hungUp then c.closeNow else c)).goto
      (.events pfds i)
  | .flushing i n => (s.onConn n (s.closeIfReady i n nowNs)).goto (.drains i)
  | _ => s

/-- The second loop is in `drain_egress` for as long as the gateway is there. -/
def Server.draining (s : Server) (i n : Nat) (g : Gateway) : Server :=
  { s with gateway := g, line := if g.pc = .draining n then .popping i n else .marketing i n }

/-- The head of the second loop, with the first check of `drain_egress`. -/
def Server.drain (s : Server) : Server :=
  match s.line with
  | .drains 0 => s.goto .top
  | .drains (i + 1) =>
    match s.conns[i]? with
    | none => s.goto (.drains i)
    | some n =>
      let s := { s with drained := n :: s.drained }
      s.onConn n fun c => s.draining i n (s.gateway.drain n c)
  | _ => s

/-- One round of the loop in `drain_egress`. -/
def Server.pop (s : Server) : Server :=
  match s.line with
  | .popping i n => s.onConn n fun c => s.draining i n (s.gateway.pop n c)
  | _ => s

/-- `drain_market_data`, with the newest of the snapshots it popped. -/
def Server.market (s : Server) (latest : Option (Nat × List (Int × Nat) × List (Int × Nat))) :
    Server :=
  match s.line with
  | .marketing i n =>
    match latest with
    | none => s.goto (.flushing i n)
    | some (seq, bids, asks) =>
      (s.onConn n fun c =>
        if c.subscribed then s.put n (c.queue (.bookUpdate seq bids asks)) else s).goto
        (.flushing i n)
  | _ => s

def Server.step (cfg : LoopConfig) (s : Server) : Turn → Server
  | .poll nowNs listener revents => s.poll nowNs listener revents
  | .accepted nowNs => s.accepted cfg.server nowNs
  | .exhausted nowNs => s.exhausted cfg.acceptBackoffNs nowNs
  | .sweep nowNs => s.sweep nowNs
  | .timer => s.timer cfg.server
  | .visit => s.visit
  | .sent k => s.sent k
  | .sendFailed => s.sendFailed
  | .writeDone => s.writeDone
  | .received nowNs allowed f => s.received nowNs allowed f
  | .hungUp => s.hungUp
  | .readDone => s.readDone
  | .leave nowNs => s.leave nowNs
  | .drain => s.drain
  | .pop => s.pop
  | .market latest => s.market latest
  | .take env => { s with gateway := s.gateway.take env }
  | .push => { s with gateway := s.gateway.push }
  | .latch => { s with gateway := s.gateway.latch }
  | .erase => { s with gateway := s.gateway.erase }
  | .housekeep env => { s with gateway := s.gateway.housekeep env }

def Server.run (cfg : LoopConfig) (s : Server) (ts : List Turn) : Server :=
  ts.foldl (Server.step cfg) s

/-- The place of the network thread in the gateway. It is at no connection as
long as the one in hand is not watched. -/
def Line.pc : Line → Pc
  | .writing _ _ p n | .reading _ _ p n => if p.watched then .serving n else .polling
  | .leaving _ _ p n => if p.watched then .leaving n else .polling
  | .popping _ n => .draining n
  | .marketing _ n | .flushing _ n => .leaving n
  | _ => .polling

def Server.abs (s : Server) : Gateway := { s.gateway with pc := s.line.pc }

/-- The entries of `pfds` that the first loop has yet to come to. -/
def Line.ahead : Line → List PollFd
  | .accepting pfds _ | .timing pfds _ _ => pfds
  | .events pfds i | .writing pfds i _ _ | .reading pfds i _ _ | .leaving pfds i _ _ => pfds.take i
  | _ => []

def Line.left : Line → Nat
  | .drains i | .popping i _ | .marketing i _ | .flushing i _ => i
  | _ => 0

def Line.hand : Line → Option (Nat × Nat)
  | .writing _ i _ n | .reading _ i _ n | .leaving _ i _ n => some (i, n)
  | .popping i n | .marketing i n | .flushing i n => some (i, n)
  | _ => none

/-- The entry of `pfds` that the first loop has in hand. -/
def Line.entry : Line → Option (List PollFd × PollFd)
  | .writing pfds _ p _ | .reading pfds _ p _ | .leaving pfds _ p _ => some (pfds, p)
  | _ => none

def Line.draining : Line → Option Nat
  | .popping _ n | .marketing _ n | .flushing _ n => some n
  | _ => none

def Line.view (l : Line) : List PollFd × Nat × Option (Nat × Nat) × Option (List PollFd × PollFd) :=
  (l.ahead, l.left, l.hand, l.entry)

def Server.data (s : Server) : List Nat × Nat × List Nat × List Nat × List Nat × List Nat :=
  (s.conns, s.gateway.nextSessionId, s.polled, s.served, s.due, s.drained)

theorem PollFd.watched_of {p : PollFd} (h : p.revents ≠ .none) : p.watched = true := by
  cases hw : p.watched with
  | true => rfl
  | false => exact absurd (p.silent hw) h

theorem PollFd.watched_of_writable {p : PollFd} (h : p.revents.writable = true) :
    p.watched = true :=
  watched_of fun hn => by simp [hn, Revents.none] at h

theorem PollFd.watched_of_readable {p : PollFd} (h : p.revents.readable = true) :
    p.watched = true :=
  watched_of fun hn => by simp [hn, Revents.none] at h

theorem PollFd.watched_of_failed {p : PollFd} (h : p.revents.failed = true) : p.watched = true :=
  watched_of fun hn => by simp [hn, Revents.none] at h

theorem PollFd.watched_of_hungUp {p : PollFd} (h : p.revents.hungUp = true) : p.watched = true :=
  watched_of fun hn => by simp [hn, Revents.none] at h

end OrderMatching.EventLoop
