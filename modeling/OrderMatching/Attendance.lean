import OrderMatching.EventLoop
import OrderMatching.Lists
import OrderMatching.Moves

namespace OrderMatching.Attendance

open OrderMatching.Orders OrderMatching.Commands OrderMatching.MatchingThread OrderMatching.Network
open OrderMatching.Threads OrderMatching.Moves OrderMatching.EventLoop OrderMatching.Lists

def fd (g : Gateway) (n : Nat) : Option Bool := (g.conns n).map Connection.fdOpen

/-- The vector holds the connections that there are, in the order they came. One
without a socket is marked for closing only in the second loop's hand. -/
structure Stored (s : Server) : Prop where
  ascending : s.conns.Pairwise (· < ·)
  exact : ∀ n, n ∈ s.conns ↔ (fd s.gateway n).isSome = true
  below : ∀ n ∈ s.conns, n < s.gateway.nextSessionId
  shut : ∀ n c, s.gateway.conns n = some c → c.fdOpen = false →
    c.closeMode = .none ∨ c.closeMode = .immediate ∧ s.line.draining = some n

/-- The loops over the vector. What was polled is served or still ahead, and
what is ahead heads the vector. -/
structure Aligned (s : Server) : Prop extends Stored s where
  polled : s.polled = s.line.ahead.map PollFd.session ++ s.served
  ahead : s.line.ahead.map PollFd.session <+: s.conns
  watched : ∀ p ∈ s.line.ahead, fd s.gateway p.session = some p.watched
  due : s.due = s.conns.take s.line.left ++ s.drained
  left : s.line.left ≤ s.conns.length
  hand : ∀ i n, s.line.hand = some (i, n) → s.conns[i]? = some n
  entry : ∀ pfds p, s.line.entry = some (pfds, p) →
    s.line.hand.map Prod.snd = some p.session ∧ fd s.gateway p.session = some p.watched ∧
      (s.line.hand.bind fun h => pfds[h.1]?) = some p

theorem aligned_initial (t : Thread) : Aligned (.initial t) where
  ascending := .nil
  exact n := by simp [Server.initial, fd, Gateway.initial]
  below n hn := by cases hn
  polled := rfl
  ahead := List.prefix_rfl
  watched p hp := by cases hp
  due := rfl
  left := Nat.le_refl 0
  hand i n hh := by cases hh
  entry pfds p he := by cases he
  shut n c hc := absurd hc (conns_initial t n c)

variable {s s' : Server}

theorem Aligned.keeps (h : Aligned s) (hdata : s'.data = s.data)
    (hview : s'.line.view = s.line.view) (hfd : ∀ n, fd s'.gateway n = fd s.gateway n)
    (hshut : ∀ n c, s'.gateway.conns n = some c → c.fdOpen = false → c.closeMode = .none ∨
      c.closeMode = .immediate ∧ s'.line.draining = some n) : Aligned s' := by
  simp only [Server.data, Prod.mk.injEq] at hdata
  simp only [Line.view, Prod.mk.injEq] at hview
  obtain ⟨hconns, hnext, hpolled, hserved, hdue, hdrained⟩ := hdata
  obtain ⟨hahead, hleft, hhand, hentry⟩ := hview
  refine ⟨⟨?_, fun n => ?_, ?_, hshut⟩, ?_, ?_, fun p hp => ?_, ?_, ?_, ?_, fun pfds p => ?_⟩
  · rw [hconns]
    exact h.ascending
  · rw [hconns, hfd]
    exact h.exact n
  · rw [hconns, hnext]
    exact h.below
  · rw [hpolled, hserved, hahead]
    exact h.polled
  · rw [hconns, hahead]
    exact h.ahead
  · rw [hfd]
    exact h.watched p (hahead ▸ hp)
  · rw [hdue, hdrained, hconns, hleft]
    exact h.due
  · rw [hconns, hleft]
    exact h.left
  · rw [hconns, hhand]
    exact h.hand
  · rw [hentry, hhand, hfd]
    exact h.entry pfds p

theorem fd_setConn {g : Gateway} {n : Nat} {c d : Connection} (hc : g.conns n = some c)
    (hfd : d.fdOpen = c.fdOpen) (m : Nat) : fd (g.setConn n d) m = fd g m := by
  unfold fd Gateway.setConn
  by_cases hm : m = n
  · subst hm
    simp [hc, hfd]
  · simp [Function.update_of_ne hm]

theorem Aligned.put (h : Aligned s) {n : Nat} {c d : Connection} (hc : s.gateway.conns n = some c)
    (hfd : d.fdOpen = c.fdOpen)
    (hmode : d.fdOpen = false → d.closeMode = .none ∨ d.closeMode = .immediate ∧
      s.line.draining = some n) :
    Aligned (s.put n d) := by
  refine h.keeps rfl rfl (fd_setConn hc hfd) fun m e he hshut => ?_
  obtain ⟨rfl, ⟨⟩⟩ | ⟨-, he⟩ := update_cases he
  · exact hmode hshut
  · exact h.shut m e he hshut

theorem Aligned.fdOpen (h : Aligned s) {pfds : List PollFd} {i n : Nat} {p : PollFd}
    (hentry : s.line.entry = some (pfds, p)) (hhand : s.line.hand = some (i, n)) {c : Connection}
    (hc : s.gateway.conns n = some c) : c.fdOpen = p.watched := by
  obtain ⟨hsession, hfd, -⟩ := h.entry pfds p hentry
  rw [hhand] at hsession
  obtain rfl : n = p.session := Option.some.inj hsession
  simpa [fd, hc] using hfd

def Simulated (cfg : ServerConfig) (s s' : Server) : Prop := ∃ as, s'.abs = s.abs.run cfg as

theorem Simulated.same {cfg : ServerConfig} (h : s'.abs = s.abs) : Simulated cfg s s' := ⟨[], h⟩

theorem Simulated.one {cfg : ServerConfig} {a : Action} (h : s'.abs = s.abs.step cfg a) :
    Simulated cfg s s' :=
  ⟨[a], h⟩

structure Follows (cfg : ServerConfig) (s s' : Server) : Prop where
  aligned : Aligned s'
  simulated : Simulated cfg s s'

variable {cfg : ServerConfig}

theorem Aligned.still (h : Aligned s) : Follows cfg s s := ⟨h, .same rfl⟩

theorem Aligned.goto (h : Aligned s) {l : Line} (hview : l.view = s.line.view)
    (hdraining : l.draining = s.line.draining) : Aligned (s.goto l) :=
  h.keeps rfl hview (fun _ => rfl) (by rw [Server.goto, hdraining]; exact h.shut)

theorem follows_exhausted (h : Aligned s) (backoffNs nowNs : UInt64) :
    Follows cfg s (s.exhausted backoffNs nowNs) := by
  unfold Server.exhausted
  split
  · rename_i pfds hl
    have hg : Aligned (s.goto (.accepting pfds false)) := h.goto (by rw [hl]; rfl) (by rw [hl]; rfl)
    refine ⟨hg.keeps rfl rfl (fun _ => rfl) hg.shut, .same ?_⟩
    simp [Server.abs, Server.goto, hl, Line.pc]
  · exact h.still

theorem follows_sweep (h : Aligned s) (nowNs : UInt64) : Follows cfg s (s.sweep nowNs) := by
  unfold Server.sweep
  split
  · rename_i pfds l hl
    refine ⟨h.goto (by rw [hl]; rfl) (by rw [hl]; rfl), .same ?_⟩
    simp [Server.abs, Server.goto, hl, Line.pc]
  · exact h.still

theorem follows_writeDone (h : Aligned s) : Follows cfg s s.writeDone := by
  unfold Server.writeDone
  split
  · rename_i pfds i p n hl
    refine ⟨h.goto (by rw [hl]; rfl) (by rw [hl]; rfl), .same ?_⟩
    simp [Server.abs, Server.goto, hl, Line.pc]
  · exact h.still

theorem follows_readDone (h : Aligned s) : Follows cfg s s.readDone := by
  unfold Server.readDone
  split
  · rename_i pfds i p n hl
    refine ⟨h.goto (by rw [hl]; rfl) (by rw [hl]; rfl), ?_⟩
    cases hw : p.watched with
    | true =>
      refine .one (a := .readDone) ?_
      simp [Server.abs, Server.goto, hl, Line.pc, hw, Gateway.step]
    | false =>
      refine .same ?_
      simp [Server.abs, Server.goto, hl, Line.pc, hw]
  · exact h.still

theorem onConn_cases {P : Server → Prop} {n : Nat} {f : Connection → Server} (hnone : P s)
    (hsome : ∀ c, s.gateway.conns n = some c → P (f c)) : P (s.onConn n f) := by
  unfold Server.onConn
  split
  · exact hnone
  · rename_i c hc
    exact hsome c hc

theorem follows_sent (h : Aligned s) (k : Nat) : Follows cfg s (s.sent k) := by
  unfold Server.sent
  split
  · rename_i pfds i p n hl
    apply onConn_cases h.still
    intro c hc
    split
    · rename_i hw
      have hwatched := PollFd.watched_of_writable hw.1
      have hopen : c.fdOpen = true :=
        (h.fdOpen (by rw [hl]; rfl) (by rw [hl]; rfl) hc).trans hwatched
      refine ⟨h.put hc rfl fun hshut => by simp [hopen] at hshut, .one (a := .writable k) ?_⟩
      simp [Server.abs, Server.put, hl, Line.pc, hwatched, Gateway.step, Gateway.onConn, hc, hopen,
        Gateway.setConn]
    · exact h.still
  · rename_i i n hl
    apply onConn_cases h.still
    intro c hc
    split
    · rename_i hw
      refine ⟨h.put hc rfl fun hshut => by simp [hw.1] at hshut, .one (a := .writable k) ?_⟩
      simp [Server.abs, Server.put, hl, Line.pc, Gateway.step, Gateway.onConn, hc, hw.1,
        Gateway.setConn]
    · exact h.still
  · exact h.still

theorem follows_sendFailed (h : Aligned s) : Follows cfg s s.sendFailed := by
  unfold Server.sendFailed
  split
  · rename_i pfds i p n hl
    apply onConn_cases h.still
    intro c hc
    split
    · rename_i hw
      have hwatched := PollFd.watched_of_writable hw.1
      have hopen : c.fdOpen = true :=
        (h.fdOpen (by rw [hl]; rfl) (by rw [hl]; rfl) hc).trans hwatched
      have hput : Aligned (s.put n c.closeNow) :=
        h.put hc rfl fun hshut => by simp [Connection.closeNow, hopen] at hshut
      have hline : (s.put n c.closeNow).line = s.line := rfl
      refine ⟨hput.goto (by rw [hline, hl]; rfl) (by rw [hline, hl]; rfl),
        .one (a := .sendError) ?_⟩
      simp [Server.abs, Server.goto, Server.put, hl, Line.pc, hwatched, Gateway.step,
        Gateway.onConn, hc, hopen, Gateway.setConn]
    · exact h.still
  · rename_i i n hl
    apply onConn_cases h.still
    intro c hc
    split
    · rename_i hw
      refine ⟨h.put hc rfl fun hshut => by simp [Connection.closeNow, hw.1] at hshut,
        .one (a := .sendError) ?_⟩
      simp [Server.abs, Server.put, hl, Line.pc, Gateway.step, Gateway.onConn, hc, hw.1,
        Gateway.setConn]
    · exact h.still
  · exact h.still

theorem fdOpen_dispatch (inbound : List OrderCommand) (c : Connection) (allowed : Bool)
    (f : Frame) :
    (dispatch inbound c allowed f).2.fdOpen = c.fdOpen := by
  have hd := handled_dispatch inbound c allowed f
  generalize dispatch inbound c allowed f = r at hd
  cases hd with
  | answered hk => exact hk.fdOpen
  | forwarded _ hr => exact hr.fdOpen

theorem follows_received (h : Aligned s) (nowNs : UInt64) (allowed : Bool) (f : Frame) :
    Follows cfg s (s.received nowNs allowed f) := by
  unfold Server.received
  split
  · rename_i pfds i p n hl
    split
    · rename_i hr
      apply onConn_cases h.still
      intro c hc
      have hwatched := PollFd.watched_of_readable hr
      have hopen : c.fdOpen = true :=
        (h.fdOpen (by rw [hl]; rfl) (by rw [hl]; rfl) hc).trans hwatched
      have hfd := fdOpen_dispatch s.gateway.inbound { c with
        session := c.session.onInbound nowNs } allowed f
      have hstep : s.abs.step cfg (.frame nowNs allowed f) = s.abs.frame n nowNs allowed f c := by
        simp [Gateway.step, Server.abs, hl, Line.pc, hwatched, Gateway.onConn, hc]
      have hview : (if (s.gateway.frame n nowNs allowed f c).pc = .leaving n then
          Line.leaving pfds i p n else .reading pfds i p n).view = s.line.view := by
        rw [hl]
        split <;> rfl
      refine ⟨h.keeps rfl hview (fd_setConn hc hfd) fun m d hmd hd' => ?_,
        .one (hstep.trans ?_).symm⟩
      · obtain ⟨rfl, ⟨⟩⟩ | ⟨-, hmd⟩ := update_cases hmd
        · cases (hfd.trans hopen).symm.trans hd'
        · obtain hmode | ⟨-, hdraining⟩ := h.shut m d hmd hd'
          · exact Or.inl hmode
          · simp [hl, Line.draining] at hdraining
      · unfold Gateway.frame Server.abs
        dsimp only
        generalize dispatch s.gateway.inbound { c with session := c.session.onInbound nowNs }
          allowed f = r
        cases r.2.closing <;> simp [Line.pc, hwatched, Gateway.setConn]
    · exact h.still
  · exact h.still

theorem follows_hungUp (h : Aligned s) : Follows cfg s s.hungUp := by
  unfold Server.hungUp
  split
  · rename_i pfds i p n hl
    split
    · rename_i hr
      have hwatched := PollFd.watched_of_readable hr
      obtain ⟨c, hc⟩ : ∃ c, s.gateway.conns n = some c := by
        obtain ⟨hsession, hfd, -⟩ := h.entry pfds p (by rw [hl]; rfl)
        rw [hl] at hsession
        obtain rfl : n = p.session := Option.some.inj hsession
        obtain ⟨c, hc, -⟩ := Option.map_eq_some_iff.mp hfd
        exact ⟨c, hc⟩
      have hopen : c.fdOpen = true :=
        (h.fdOpen (by rw [hl]; rfl) (by rw [hl]; rfl) hc).trans hwatched
      have hput : Aligned (s.put n c.closeNow) :=
        h.put hc rfl fun hshut => by simp [Connection.closeNow, hopen] at hshut
      have hline : (s.put n c.closeNow).line = s.line := rfl
      simp only [Server.onConn, hc]
      refine ⟨hput.goto (by rw [hline, hl]; rfl) (by rw [hline, hl]; rfl), .one (a := .hangup) ?_⟩
      simp [Server.abs, Server.goto, Server.put, hl, Line.pc, hwatched, Gateway.step,
        Gateway.onConn, hc, Gateway.setConn]
    · exact h.still
  · exact h.still

theorem Aligned.drained_mode (h : Aligned s) {n : Nat} {c c' : Connection}
    (hc : s.gateway.conns n = some c) (hdraining : s.line.draining = some n)
    (hfd : c'.fdOpen = c.fdOpen) (hmode : c'.closeMode = c.closeMode ∨ c'.closeMode = .immediate)
    (hshut : c'.fdOpen = false) :
    c'.closeMode = .none ∨ c'.closeMode = .immediate ∧ s.line.draining = some n := by
  obtain hsame | himm := hmode
  · rw [hsame]
    exact h.shut n c hc (hfd.symm.trans hshut)
  · exact Or.inr ⟨himm, hdraining⟩

theorem follows_timer (h : Aligned s) (hr : Regular s.abs) : Follows cfg s (s.timer cfg) := by
  unfold Server.timer
  split
  · rename_i pfds nowNs i hl
    split
    · have hle : pfds.length ≤ s.conns.length := by
        have hp := h.ahead
        rw [hl] at hp
        simpa [Line.ahead] using hp.length_le
      refine ⟨h.goto ?_ (by rw [hl]; rfl), .same ?_⟩
      · rw [hl, Line.view, Line.ahead, List.take_of_length_le hle]
        rfl
      · simp [Server.abs, Server.goto, hl, Line.pc]
    · rename_i n hn
      cases hc : s.gateway.conns n with
      | none =>
        simp only [Server.onConn, hc]
        refine ⟨h.goto (by rw [hl]; rfl) (by rw [hl]; rfl), .same ?_⟩
        simp [Server.abs, Server.goto, hl, Line.pc]
      | some c =>
        simp only [Server.onConn, hc]
        have hput : Aligned (s.put n (serviceTimers cfg c nowNs)) := by
          refine h.put hc (kept_serviceTimers cfg c nowNs).fdOpen fun hshut => ?_
          rw [(kept_serviceTimers cfg c nowNs).fdOpen] at hshut
          have hdead : c.session.alive = false := (hr.wired n c hc).socket.symm.trans hshut
          have hsame : serviceTimers cfg c nowNs = c := by
            simp [serviceTimers, Session.timedOut, Session.heartbeatDue, hdead]
          rw [hsame]
          exact h.shut n c hc hshut
        have hline : (s.put n (serviceTimers cfg c nowNs)).line = s.line := rfl
        refine ⟨hput.goto (by rw [hline, hl]; rfl) (by rw [hline, hl]; rfl),
          .one (a := .timers n nowNs) ?_⟩
        simp [Server.abs, Server.goto, Server.put, hl, Line.pc, Gateway.step, Gateway.onConn, hc,
          Gateway.setConn]
  · exact h.still

theorem draining_line (s : Server) (i n : Nat) (g : Gateway) :
    (s.draining i n g).line = .popping i n ∨ (s.draining i n g).line = .marketing i n := by
  unfold Server.draining
  dsimp only
  split
  · exact Or.inl rfl
  · exact Or.inr rfl

theorem Aligned.draining (h : Aligned s) {i n : Nat} (hl : s.line = .popping i n) {g : Gateway}
    {c d : Connection} (hc : s.gateway.conns n = some c) (hr : Round s.gateway n c d g) :
    Aligned (s.draining i n g) := by
  have hhere : s.line.draining = some n := by rw [hl]; rfl
  have hline := draining_line s i n g
  have hview : (s.draining i n g).line.view = s.line.view := by
    obtain hline | hline := hline
    · rw [hline, hl]
    · rw [hline, hl]
      rfl
  have hdraining : (s.draining i n g).line.draining = some n := by
    obtain hline | hline := hline
    · rw [hline]
      rfl
    · rw [hline]
      rfl
  have hput := h.put hc hr.fdOpen (h.drained_mode hc hhere hr.fdOpen hr.mode)
  have hgate : (s.draining i n g).gateway.conns = (s.put n d).gateway.conns := hr.conns
  refine hput.keeps ?_ hview (fun m => by rw [fd, fd, hgate]) ?_
  · exact congrArg (fun k => (s.conns, k, s.polled, s.served, s.due, s.drained)) hr.next
  · rw [hgate, hdraining, ← hhere]
    exact hput.shut

theorem abs_draining {i n : Nat} {g : Gateway} (hpc : g.pc = .draining n ∨ g.pc = .leaving n) :
    (s.draining i n g).abs = g := by
  have hline : (s.draining i n g).line.pc = g.pc := by
    obtain hpc | hpc := hpc <;> simp [Server.draining, hpc, Line.pc]
  unfold Server.abs
  rw [hline]
  rfl

theorem follows_pop (h : Aligned s) : Follows cfg s s.pop := by
  unfold Server.pop
  split
  · rename_i i n hl
    apply onConn_cases h.still
    intro c hc
    have hstep : s.abs.step cfg .pop = s.gateway.pop n c := by
      simp [Gateway.step, Server.abs, hl, Line.pc, Gateway.onConn, hc, pop_at]
    have hr := round_pop hc
    exact ⟨h.draining hl hc hr, .one ((abs_draining hr.pc).trans hstep.symm)⟩
  · exact h.still

theorem follows_market (h : Aligned s)
    (latest : Option (Nat × List (Int × Nat) × List (Int × Nat))) :
    Follows cfg s (s.market latest) := by
  unfold Server.market
  split
  · rename_i i n hl
    have hhere : s.line.draining = some n := by rw [hl]; rfl
    have hgo : Follows cfg s (s.goto (.flushing i n)) := by
      refine ⟨h.goto (by rw [hl]; rfl) (by rw [hl]; rfl), .same ?_⟩
      simp [Server.abs, Server.goto, hl, Line.pc]
    split
    · exact hgo
    · rename_i seq bids asks
      cases hc : s.gateway.conns n with
      | none =>
        simp only [Server.onConn, hc]
        exact hgo
      | some c =>
        simp only [Server.onConn, hc]
        split
        · rename_i hsub
          have hput : Aligned (s.put n (c.queue (.bookUpdate seq bids asks))) :=
            h.put hc (kept_queue c _).fdOpen
              (h.drained_mode hc hhere (kept_queue c _).fdOpen (mode_queue c _))
          have hline : (s.put n (c.queue (.bookUpdate seq bids asks))).line = s.line := rfl
          refine ⟨hput.goto (by rw [hline, hl]; rfl) (by rw [hline, hl]; rfl),
            .one (a := .market seq bids asks) ?_⟩
          simp [Server.abs, Server.goto, Server.put, hl, Line.pc, Gateway.step, Gateway.onConn, hc,
            hsub, Gateway.setConn]
        · exact hgo
  · exact h.still

theorem Aligned.beside (h : Aligned s) {g : Gateway}
    (hnext : g.nextSessionId = s.gateway.nextSessionId)
    (hconns : ∀ n, (g.conns n).map (fun c => (c.fdOpen, c.closeMode)) =
      (s.gateway.conns n).map fun c => (c.fdOpen, c.closeMode)) :
    Aligned { s with gateway := g } := by
  have hfd : ∀ n, fd g n = fd s.gateway n := by
    intro n
    have hn := congrArg (Option.map Prod.fst) (hconns n)
    rw [Option.map_map, Option.map_map] at hn
    exact hn
  refine h.keeps (by simp [Server.data, hnext]) rfl hfd fun n c hc hshut => ?_
  have hn := hconns n
  rw [show g.conns n = some c from hc] at hn
  obtain ⟨d, hd, heq⟩ := Option.map_eq_some_iff.mp hn.symm
  obtain ⟨hopen, hmode⟩ := Prod.mk.inj heq
  rw [← hmode]
  exact h.shut n d hd (hopen.trans hshut)

theorem take_pc (g : Gateway) (pc : Pc) (env : Env) :
    ({ g with pc := pc } : Gateway).take env = { g.take env with pc := pc } := by
  by_cases hidle : g.idle
  · by_cases hin : g.inbound = []
    · simp only [Gateway.take, hin]
    · obtain ⟨c, inbound, hin⟩ := List.exists_cons_of_ne_nil hin
      rw [take_idle hin hidle, take_idle (g := { g with pc := pc }) hin hidle]
  · rw [take_busy hidle, take_busy (g := { g with pc := pc }) hidle]

theorem push_pc (g : Gateway) (pc : Pc) :
    ({ g with pc := pc } : Gateway).push = { g.push with pc := pc } := by
  cases hout : g.outbox with
  | nil => simp only [Gateway.push, hout]
  | cons p outbox =>
    obtain ⟨n, e⟩ := p
    by_cases hl : g.latching = none
    · cases hc : g.conns n with
      | none => simp [Gateway.push, hout, hl, Gateway.onConn, hc, Gateway.emittedWith]
      | some c =>
        simp only [Gateway.push, hout, hl, Gateway.onConn, hc, if_true]
        split
        · rfl
        · split <;> rfl
    · simp [Gateway.push, hout, hl]

theorem latch_pc (g : Gateway) (pc : Pc) :
    ({ g with pc := pc } : Gateway).latch = { g.latch with pc := pc } := by
  cases hl : g.latching with
  | none => simp only [Gateway.latch, hl]
  | some n =>
    cases hc : g.conns n with
    | none => simp [Gateway.latch, hl, Gateway.onConn, hc]
    | some c => simp [Gateway.latch, hl, Gateway.onConn, hc, Gateway.setConn]

theorem erase_pc (g : Gateway) (pc : Pc) :
    ({ g with pc := pc } : Gateway).erase = { g.erase with pc := pc } := by
  unfold Gateway.erase
  dsimp only
  split <;> rfl

theorem housekeep_pc (g : Gateway) (pc : Pc) (env : Env) :
    ({ g with pc := pc } : Gateway).housekeep env = { g.housekeep env with pc := pc } := by
  unfold Gateway.housekeep
  by_cases hidle : g.idle
  · rw [if_pos hidle, if_pos (show Gateway.idle { g with pc := pc } from hidle)]
  · rw [if_neg hidle, if_neg (show ¬Gateway.idle { g with pc := pc } from hidle)]

theorem look_queue {g : Gateway} {n : Nat} {c : Connection} (hc : g.conns n = some c)
    (q : EgressQueue) (m : Nat) :
    ((g.setConn n { c with egress := q }).conns m).map (fun c => (c.fdOpen, c.closeMode)) =
      (g.conns m).map fun c => (c.fdOpen, c.closeMode) := by
  unfold Gateway.setConn
  by_cases hm : m = n
  · subst hm
    simp [hc]
  · simp [Function.update_of_ne hm]

theorem follows_take (h : Aligned s) (env : Env) :
    Follows cfg s { s with gateway := s.gateway.take env } := by
  have hsame : (s.gateway.take env).conns = s.gateway.conns ∧
      (s.gateway.take env).nextSessionId = s.gateway.nextSessionId := by
    unfold Gateway.take
    split
    · exact ⟨rfl, rfl⟩
    · split <;> exact ⟨rfl, rfl⟩
  exact ⟨h.beside hsame.2 fun n => by rw [hsame.1],
    .one (a := .take env) (take_pc s.gateway s.line.pc env).symm⟩

theorem follows_push (h : Aligned s) : Follows cfg s { s with gateway := s.gateway.push } := by
  refine ⟨?_, .one (a := .push) (push_pc s.gateway s.line.pc).symm⟩
  unfold Gateway.push
  cases hout : s.gateway.outbox with
  | nil => exact h
  | cons p outbox =>
    dsimp only
    split
    · unfold Gateway.onConn
      cases hc : s.gateway.conns p.1 with
      | none => exact h.beside rfl fun _ => rfl
      | some c =>
        dsimp only
        split
        · exact h.beside rfl (look_queue hc _)
        · split <;> exact h.beside rfl fun _ => rfl
    · exact h

theorem follows_latch (h : Aligned s) : Follows cfg s { s with gateway := s.gateway.latch } := by
  refine ⟨?_, .one (a := .latch) (latch_pc s.gateway s.line.pc).symm⟩
  unfold Gateway.latch
  cases hl : s.gateway.latching with
  | none => exact h
  | some n =>
    dsimp only [Gateway.onConn]
    cases hc : s.gateway.conns n with
    | none => exact h.beside rfl fun _ => rfl
    | some c => exact h.beside rfl (look_queue hc _)

theorem follows_erase (h : Aligned s) : Follows cfg s { s with gateway := s.gateway.erase } := by
  refine ⟨?_, .one (a := .erase) (erase_pc s.gateway s.line.pc).symm⟩
  unfold Gateway.erase
  split
  · exact h.beside rfl fun _ => rfl
  · exact h

theorem follows_housekeep (h : Aligned s) (env : Env) :
    Follows cfg s { s with gateway := s.gateway.housekeep env } := by
  refine ⟨?_, .one (a := .housekeep env) (housekeep_pc s.gateway s.line.pc env).symm⟩
  unfold Gateway.housekeep
  split
  · exact h.beside rfl fun _ => rfl
  · exact h

theorem follows_poll (h : Aligned s) (hr : Regular s.abs) (nowNs : UInt64) (listener : Bool)
    (revents : Nat → Revents) : Follows cfg s (s.poll nowNs listener revents) := by
  unfold Server.poll
  split
  · rename_i hl
    have hsessions : (s.pollFds revents).map PollFd.session = s.conns := by
      rw [Server.pollFds, List.map_map]
      exact List.zipIdx_map_fst 0 s.conns
    refine ⟨⟨⟨h.ascending, h.exact, h.below, ?_⟩, ?_, ?_, fun p hp => ?_, ?_, Nat.zero_le _, nofun,
      nofun⟩, .same ?_⟩
    · have hshut := h.shut
      rw [hl] at hshut
      exact hshut
    · rw [List.append_nil]
      exact hsessions.symm
    · exact hsessions ▸ List.prefix_rfl
    · obtain ⟨⟨n, i⟩, hn, rfl⟩ := List.mem_map.mp hp
      have hmem : n ∈ s.conns := List.fst_mem_of_mem_zipIdx hn
      obtain ⟨b, hb⟩ := Option.isSome_iff_exists.mp ((h.exact n).mp hmem)
      obtain ⟨c, hc, -⟩ := Option.map_eq_some_iff.mp hb
      have hw : s.watches n = c.fdOpen := by
        rw [Server.watches, hc]
        dsimp only
        split
        · rename_i hret
          exact ((hr.wired n c hc).socket.trans ((hr.wired n c hc).retires hret)).symm
        · rfl
      simp [fd, PollFd.report, hc, hw]
    · have hdue := h.due
      rw [hl] at hdue
      exact hdue
    · simp [Server.abs, hl, Line.pc]
  · exact h.still

theorem accept_pc (g : Gateway) (pc : Pc) (nowNs : UInt64) :
    ({ g with pc := pc } : Gateway).accept cfg nowNs = { g.accept cfg nowNs with pc := pc } := by
  unfold Gateway.accept
  dsimp only
  split <;> rfl

theorem accept_opens (cfg : ServerConfig) (g : Gateway) (nowNs : UInt64)
    (hlt : g.nextSessionId < 2 ^ 64) :
    ∃ c : Connection, c.fdOpen = true ∧ (g.accept cfg nowNs).nextSessionId = g.nextSessionId + 1 ∧
      (g.accept cfg nowNs).conns = Function.update g.conns g.nextSessionId (some c) := by
  unfold Gateway.accept
  dsimp only
  rw [if_pos hlt]
  refine ⟨_, ?_, rfl, rfl⟩
  obtain ⟨-, h⟩ | ⟨-, h⟩ :=
    submit_cases g.inbound (.create cfg (UInt64.ofNat g.nextSessionId) nowNs)
      (.sessionOpened (UInt64.ofNat g.nextSessionId) (some g.nextSessionId) (some g.nextSessionId))
  · rw [h]
    rfl
  · rw [h]
    exact (kept_queue _ _).fdOpen

theorem follows_accepted (h : Aligned s) (nowNs : UInt64) :
    Follows cfg s (s.accepted cfg nowNs) := by
  unfold Server.accepted
  split
  · rename_i pfds hl
    split
    · rename_i hlt
      obtain ⟨c, hopen, hnext, hconns⟩ := accept_opens cfg s.gateway nowNs hlt
      have hnew : s.gateway.nextSessionId ∉ s.conns := fun hmem => Nat.lt_irrefl _ (h.below _ hmem)
      have hfd : ∀ m, m ≠ s.gateway.nextSessionId →
          fd (s.gateway.accept cfg nowNs) m = fd s.gateway m := by
        intro m hm
        rw [fd, fd, hconns, Function.update_of_ne hm]
      refine ⟨⟨⟨?_, fun m => ?_, fun m hm => ?_, fun m d hd hshut => ?_⟩, h.polled,
        h.ahead.trans (List.prefix_append _ _), fun p hp => ?_, ?_, ?_, ?_, ?_⟩,
          .one (a := .accept nowNs) ?_⟩
      · refine List.pairwise_append.mpr ⟨h.ascending, List.pairwise_singleton _ _,
          fun a ha b hb => ?_⟩
        rw [List.mem_singleton.mp hb]
        exact h.below a ha
      · by_cases hm : m = s.gateway.nextSessionId
        · simp [hm, fd, hconns]
        · rw [List.mem_append, List.mem_singleton, or_iff_left hm, hfd m hm]
          exact h.exact m
      · rw [hnext]
        obtain hm | hm := List.mem_append.mp hm
        · exact (h.below m hm).trans (Nat.lt_succ_self _)
        · rw [List.mem_singleton.mp hm]
          exact Nat.lt_succ_self _
      · rw [hconns] at hd
        obtain ⟨-, ⟨⟩⟩ | ⟨-, hd⟩ := update_cases hd
        · rw [hopen] at hshut
          cases hshut
        · exact h.shut m d hd hshut
      · have hmem : p.session ∈ s.conns := h.ahead.subset (List.mem_map_of_mem hp)
        rw [hfd p.session fun heq => hnew (heq ▸ hmem)]
        exact h.watched p hp
      · have hdue := h.due
        rw [hl] at hdue ⊢
        exact hdue
      · rw [hl]
        exact Nat.zero_le _
      · rw [hl]
        exact nofun
      · rw [hl]
        exact nofun
      · have hpc : s.abs.pc = .polling := by rw [Server.abs, hl]; rfl
        rw [Gateway.step, if_pos hpc]
        exact (accept_pc s.gateway s.line.pc nowNs).symm
    · exact h.still
  · exact h.still

theorem closeConnection_cases (inbound : List OrderCommand) (c : Connection) :
    (∃ d, (closeConnection inbound c).2 = some d ∧ d.fdOpen = false ∧ d.closeMode = .none) ∨
      (closeConnection inbound c).2 = none := by
  unfold closeConnection
  dsimp only
  split
  · exact Or.inl ⟨_, rfl, rfl, rfl⟩
  · exact Or.inr rfl

theorem closeConnection_kept {i n : Nat} {c d : Connection}
    (hd : (closeConnection s.gateway.inbound c).2 = some d) :
    s.closeConnection i n c = { s with gateway := s.gateway.close n c } := by
  have hsome : ((s.gateway.close n c).conns n).isSome = true := by simp [Gateway.close, hd]
  simp [Server.closeConnection, hsome]

theorem closeConnection_gone {i n : Nat} {c : Connection}
    (hnone : (closeConnection s.gateway.inbound c).2 = none) :
    s.closeConnection i n c =
      { s with gateway := s.gateway.close n c, conns := s.conns.eraseIdx i } := by
  have hno : ((s.gateway.close n c).conns n).isSome = false := by simp [Gateway.close, hnone]
  simp [Server.closeConnection, hno]

/-- A line between two bodies of a loop that has only the first `i` connections
of the vector before it. -/
structure Between (s : Server) (i : Nat) (l : Line) : Prop where
  polled : s.polled = l.ahead.map PollFd.session ++ s.served
  ahead : l.ahead.map PollFd.session <+: s.conns.take i
  watched : ∀ p ∈ l.ahead, fd s.gateway p.session = some p.watched
  due : s.due = s.conns.take l.left ++ s.drained
  left : l.left ≤ i
  hand : l.hand = none
  entry : l.entry = none

theorem Stored.pass (h : Stored s) {i n : Nat} {l : Line} (hi : s.conns[i]? = some n)
    (hl : Between s i l) {c d : Connection} (hc : s.gateway.conns n = some c)
    (hfd : d.fdOpen = c.fdOpen) (hmode : d.fdOpen = false → d.closeMode = .none)
    (hother : ∀ m, s.line.draining = some m → m = n) :
    Aligned ((s.put n d).goto l) := by
  have hlen : i < s.conns.length := (List.getElem?_eq_some_iff.mp hi).1
  have hsame := fd_setConn (d := d) hc hfd
  refine ⟨⟨h.ascending, fun m => ?_, h.below, fun m e he hshut => ?_⟩, hl.polled,
    hl.ahead.trans (List.take_prefix i s.conns), fun p hp => ?_, hl.due, hl.left.trans hlen.le,
    fun _ _ hj => absurd (hj.symm.trans hl.hand) (Option.some_ne_none _),
    fun _ _ hp => absurd (hp.symm.trans hl.entry) (Option.some_ne_none _)⟩
  · exact (h.exact m).trans (by rw [← hsame m]; rfl)
  · obtain ⟨rfl, ⟨⟩⟩ | ⟨hne, he⟩ := update_cases he
    · exact Or.inl (hmode hshut)
    · obtain hnone | ⟨-, hm⟩ := h.shut m e he hshut
      · exact Or.inl hnone
      · exact absurd (hother m hm) hne
  · exact (hsame p.session).trans (hl.watched p hp)

theorem Stored.close (h : Stored s) {i n : Nat} {l : Line} (hi : s.conns[i]? = some n)
    (hl : Between s i l) (c : Connection) (hother : ∀ m, s.line.draining = some m → m = n) :
    Aligned ((s.closeConnection i n c).goto l) := by
  have hlen : i < s.conns.length := (List.getElem?_eq_some_iff.mp hi).1
  have hmem : n ∈ s.conns := List.mem_of_getElem? hi
  have hshut : ∀ {o : Option Connection}, (∀ d, o = some d → d.closeMode = .none) → ∀ m d,
      Function.update s.gateway.conns n o m = some d → d.fdOpen = false →
        d.closeMode = .none ∨ d.closeMode = .immediate ∧ l.draining = some m := by
    intro o ho m d hd hshut
    obtain ⟨-, hd⟩ | ⟨hne, hd⟩ := update_cases hd
    · exact Or.inl (ho d hd)
    · obtain hnone | ⟨-, hm⟩ := h.shut m d hd hshut
      · exact Or.inl hnone
      · exact absurd (hother m hm) hne
  have hbefore : ∀ p ∈ l.ahead, p.session ≠ n := fun p hp =>
    (lt_of_mem_take h.ascending hi (hl.ahead.subset (List.mem_map_of_mem hp))).ne
  have hhand : ∀ j m, l.hand = some (j, m) → False := fun _ _ hj =>
    absurd (hj.symm.trans hl.hand) (Option.some_ne_none _)
  have hentry : ∀ pfds p, l.entry = some (pfds, p) → False := fun _ _ hp =>
    absurd (hp.symm.trans hl.entry) (Option.some_ne_none _)
  obtain ⟨d, hd, hfd, hmode⟩ | hnone := closeConnection_cases s.gateway.inbound c
  · rw [closeConnection_kept hd]
    unfold Gateway.close
    generalize closeConnection s.gateway.inbound c = r at hd
    obtain ⟨inbound, o⟩ := r
    obtain rfl : o = some d := hd
    refine ⟨⟨h.ascending, fun m => ?_, h.below, hshut fun d' hd' => Option.some.inj hd' ▸ hmode⟩,
      hl.polled,
      hl.ahead.trans (List.take_prefix i s.conns), fun p hp => ?_, hl.due, hl.left.trans hlen.le,
      fun j m hj => (hhand j m hj).elim, fun pfds p hp => (hentry pfds p hp).elim⟩
    · by_cases hm : m = n
      · simp [hm, hmem, fd, Server.goto]
      · simp only [Server.goto, fd, Function.update_of_ne hm]
        exact h.exact m
    · simp only [Server.goto, fd, Function.update_of_ne (hbefore p hp)]
      exact hl.watched p hp
  · rw [closeConnection_gone hnone]
    unfold Gateway.close
    generalize closeConnection s.gateway.inbound c = r at hnone
    obtain ⟨inbound, o⟩ := r
    obtain rfl : o = none := hnone
    have herase := List.eraseIdx_eq_take_drop_succ s.conns i
    have htake : (s.conns.take i).length = i := List.length_take_of_le hlen.le
    refine ⟨⟨h.ascending.sublist (List.eraseIdx_sublist _ i), fun m => ?_, fun m hm => ?_,
      hshut fun d hd => absurd hd.symm (Option.some_ne_none d)⟩, hl.polled, ?_,
      fun p hp => ?_, ?_, ?_, fun j m hj => (hhand j m hj).elim,
      fun pfds p hp => (hentry pfds p hp).elim⟩
    · simp only [Server.goto, mem_eraseIdx h.ascending hi]
      by_cases hm : m = n
      · simp [hm, fd]
      · simp only [fd, Function.update_of_ne hm]
        exact (and_iff_left hm).trans (h.exact m)
    · exact h.below m (List.mem_of_mem_eraseIdx hm)
    · simp only [Server.goto, herase]
      exact hl.ahead.trans (List.prefix_append _ _)
    · simp only [Server.goto, fd, Function.update_of_ne (hbefore p hp)]
      exact hl.watched p hp
    · simp only [Server.goto, herase]
      rw [List.take_append_of_le_length (htake.symm ▸ hl.left), List.take_take,
        Nat.min_eq_left hl.left]
      exact hl.due
    · simp only [Server.goto, List.length_eraseIdx_of_lt hlen]
      have := hl.left
      omega

theorem abs_close {i n : Nat} {c : Connection} {l : Line} (hl : l.pc = .polling) :
    ((s.closeConnection i n c).goto l).abs = s.abs.close n c := by
  simp [Server.closeConnection, Server.abs, Server.goto, hl, Gateway.close]

theorem Aligned.attributed (h : Aligned s) {pfds : List PollFd} {i : Nat}
    (hl : s.line = .events pfds (i + 1)) {p : PollFd} (hp : pfds[i]? = some p) :
    s.conns[i]? = some p.session ∧ fd s.gateway p.session = some p.watched := by
  have hahead : s.line.ahead = pfds.take (i + 1) := by rw [hl]; rfl
  have hi : (pfds.take (i + 1))[i]? = some p := by
    rw [List.getElem?_take_of_lt (Nat.lt_succ_self i), hp]
  obtain ⟨rest, hrest⟩ := h.ahead
  constructor
  · rw [← hrest, hahead]
    have hlt : i < ((pfds.take (i + 1)).map PollFd.session).length := by
      rw [List.length_map]
      exact (List.getElem?_eq_some_iff.mp hi).1
    rw [List.getElem?_append_left hlt, List.getElem?_map, hi]
    rfl
  · exact h.watched p (hahead ▸ List.mem_of_getElem? hi)

theorem take_succ_sessions {pfds : List PollFd} {i : Nat} {p : PollFd} (hp : pfds[i]? = some p) :
    (pfds.take (i + 1)).map PollFd.session = (pfds.take i).map PollFd.session ++ [p.session] := by
  rw [List.take_add_one, hp]
  simp

theorem Aligned.between_events (h : Aligned s) {pfds : List PollFd} {i : Nat}
    (hl : s.line = .events pfds (i + 1)) {p : PollFd} (hp : pfds[i]? = some p) :
    Between { s with served := p.session :: s.served } i (.events pfds i) := by
  have hahead : s.line.ahead = pfds.take (i + 1) := by rw [hl]; rfl
  have hpolled := h.polled
  have hprefix := h.ahead
  have hdue := h.due
  rw [hahead, take_succ_sessions hp] at hpolled hprefix
  rw [hl] at hdue
  obtain ⟨hi, -⟩ := h.attributed hl hp
  refine ⟨by simpa [Line.ahead] using hpolled, ?_, fun q hq => ?_, hdue, Nat.zero_le i, rfl, rfl⟩
  · refine List.prefix_take_iff.mpr ⟨(List.prefix_append _ _).trans hprefix, ?_⟩
    simp only [Line.ahead, List.length_map, List.length_take]
    exact Nat.min_le_left _ _
  · apply h.watched q
    rw [hahead]
    exact (List.take_prefix_take_left (Nat.le_succ i)).subset hq

theorem follows_visit (h : Aligned s) : Follows cfg s s.visit := by
  unfold Server.visit
  split
  · rename_i pfds hl
    refine ⟨⟨⟨h.ascending, h.exact, h.below, ?_⟩, ?_, List.nil_prefix, nofun, ?_, Nat.le_refl _,
      nofun, nofun⟩,
      .same ?_⟩
    · have hshut := h.shut
      rw [hl] at hshut
      exact hshut
    · have hpolled := h.polled
      rw [hl] at hpolled
      exact hpolled
    · exact (List.append_nil _).symm.trans (by rw [Server.goto, Line.left, List.take_length])
    · simp [Server.abs, Server.goto, hl, Line.pc]
  · rename_i pfds i hl
    split
    · rename_i p n hp hn
      obtain ⟨hi, hfd⟩ := h.attributed hl hp
      obtain rfl : p.session = n := Option.some.inj (hi.symm.trans hn)
      obtain ⟨c, hc, hopen⟩ := Option.map_eq_some_iff.mp hfd
      have hb := h.between_events hl hp
      have hstored : Stored { s with served := p.session :: s.served } :=
        ⟨h.ascending, h.exact, h.below, h.shut⟩
      have hnone : s.line.draining = none := by rw [hl]; rfl
      split
      · rename_i hfailed
        rw [PollFd.watched_of_failed hfailed] at hopen
        simp only [Server.onConn, hc]
        refine ⟨hstored.close hi hb c fun m hm =>
          absurd (hm.symm.trans hnone) (Option.some_ne_none m),
          [.serve p.session, .pollError], ?_⟩
        rw [abs_close rfl]
        simp [Gateway.run, Gateway.step, Server.abs, hl, Line.pc, Gateway.onConn, hc, hopen,
          Gateway.close]
      · refine ⟨⟨⟨h.ascending, h.exact, h.below, ?_⟩, hb.polled,
          hb.ahead.trans (List.take_prefix i _), hb.watched,
          hb.due, Nat.zero_le _, ?_, ?_⟩, ?_⟩
        · have hshut := h.shut
          rw [hl] at hshut
          exact hshut
        · rintro j m ⟨⟩
          exact hi
        · rintro _ _ ⟨⟩
          exact ⟨rfl, hfd, hp⟩
        · cases hw : p.watched with
          | true =>
            refine .one (a := .serve p.session) ?_
            simp [Server.abs, Server.goto, hl, Line.pc, hw, Gateway.step, Gateway.onConn, hc, hopen]
          | false =>
            refine .same ?_
            simp [Server.abs, Server.goto, hl, Line.pc, hw]
    · rename_i hmiss
      have hend : pfds[i]? = none := by
        cases hp : pfds[i]? with
        | none => rfl
        | some p => exact absurd (h.attributed hl hp).1 (hmiss p p.session hp)
      refine ⟨h.goto ?_ (by rw [hl]; rfl), .same ?_⟩
      · have hlen := List.getElem?_eq_none_iff.mp hend
        rw [hl, Line.view, Line.view, Line.ahead, Line.ahead, List.take_of_length_le hlen,
          List.take_of_length_le (hlen.trans (Nat.le_succ i))]
        rfl
      · simp [Server.abs, Server.goto, hl, Line.pc]
  · exact h.still

theorem mode_none_or {c : Connection} {nowNs : UInt64}
    (h : c.closeMode = .none ∨ c.closeMode = .immediate) (hready : ¬c.readyToClose nowNs = true) :
    c.closeMode = .none := by
  obtain h | h := h
  · exact h
  · simp [Connection.readyToClose, h] at hready

theorem Aligned.closeIfReady (h : Aligned s) {i n : Nat} {l : Line}
    (hhand : s.line.hand = some (i, n)) (hb : Between s i l) {c d : Connection}
    (hc : s.gateway.conns n = some c) (hfd : d.fdOpen = c.fdOpen)
    (hmode : d.fdOpen = false → d.closeMode = .none ∨ d.closeMode = .immediate)
    (hother : ∀ m, s.line.draining = some m → m = n) (nowNs : UInt64) :
    Aligned ((s.closeIfReady i n nowNs d).goto l) := by
  have hi := h.hand i n hhand
  unfold Server.closeIfReady
  split
  · exact h.close hi hb d hother
  · rename_i hready
    exact h.pass hi hb hc hfd (fun hshut => mode_none_or (hmode hshut) hready) hother

theorem abs_closeIfReady {i n : Nat} {c : Connection} {l : Line} (hl : l.pc = .polling)
    (nowNs : UInt64) :
    ((s.closeIfReady i n nowNs c).goto l).abs = (s.put n c).abs.endPass n nowNs c := by
  unfold Server.closeIfReady Gateway.endPass
  split
  · rw [abs_close hl]
    simp [Gateway.close, Server.abs, Server.put, Gateway.setConn]
  · simp [Server.abs, Server.goto, Server.put, hl]

theorem put_self {n : Nat} {c : Connection} (hc : s.gateway.conns n = some c) : s.put n c = s := by
  rw [Server.put, Gateway.setConn, ← hc, Function.update_eq_self]

theorem Aligned.inHand (h : Aligned s) {i n : Nat} (hhand : s.line.hand = some (i, n)) :
    ∃ c, s.gateway.conns n = some c := by
  have hmem : n ∈ s.conns := List.mem_of_getElem? (h.hand i n hhand)
  have hsome := (h.exact n).mp hmem
  rw [fd, Option.isSome_map] at hsome
  exact Option.isSome_iff_exists.mp hsome

theorem follows_leave (h : Aligned s) (nowNs : UInt64) : Follows cfg s (s.leave nowNs) := by
  unfold Server.leave
  split
  · rename_i pfds i p n hl
    have hhand : s.line.hand = some (i, n) := by rw [hl]; rfl
    obtain ⟨c, hc⟩ := h.inHand hhand
    have hopen : c.fdOpen = p.watched := h.fdOpen (by rw [hl]; rfl) hhand hc
    have hnone : s.line.draining = none := by rw [hl]; rfl
    have hb : Between s i (.events pfds i) := by
      have hpolled := h.polled
      have hahead := h.ahead
      have hwatched := h.watched
      have hdue := h.due
      rw [hl] at hpolled hahead hwatched hdue
      refine ⟨hpolled, List.prefix_take_iff.mpr ⟨hahead, ?_⟩, hwatched, hdue,
        Nat.zero_le i, rfl, rfl⟩
      rw [List.length_map]
      exact List.length_take_le i pfds
    simp only [Server.onConn, hc]
    cases hhup : p.revents.hungUp with
    | true =>
      rw [PollFd.watched_of_hungUp hhup] at hopen
      rw [if_pos rfl]
      refine ⟨h.closeIfReady hhand hb hc (d := c.closeNow) rfl (fun _ => Or.inr rfl)
        (fun m hm => absurd (hm.symm.trans hnone) (Option.some_ne_none m)) nowNs,
        [.sendError, .endPass nowNs], ?_⟩
      rw [abs_closeIfReady rfl]
      simp [Gateway.run, Gateway.step, Server.abs, Server.put, hl, Line.pc,
        PollFd.watched_of_hungUp hhup, Gateway.onConn, hc, hopen, Gateway.setConn]
    | false =>
      have hmode : c.fdOpen = false → c.closeMode = .none := by
        intro hshut
        obtain hmode | ⟨-, hm⟩ := h.shut n c hc hshut
        · exact hmode
        · exact absurd (hm.symm.trans hnone) (Option.some_ne_none n)
      rw [if_neg Bool.false_ne_true]
      refine ⟨h.closeIfReady hhand hb hc rfl (fun hshut => Or.inl (hmode hshut))
        (fun m hm => absurd (hm.symm.trans hnone) (Option.some_ne_none m)) nowNs, ?_⟩
      cases hw : p.watched with
      | true =>
        refine .one (a := .endPass nowNs) ?_
        rw [abs_closeIfReady rfl, put_self hc]
        simp [Gateway.step, Server.abs, hl, Line.pc, hw, Gateway.onConn, hc]
      | false =>
        have hready : c.readyToClose nowNs = false := by
          rw [Connection.readyToClose, hmode (hopen.trans hw)]
        refine .same ?_
        rw [Server.closeIfReady, hready, if_neg Bool.false_ne_true, put_self hc]
        simp [Server.abs, Server.goto, hl, Line.pc, hw]
  · rename_i i n hl
    have hhand : s.line.hand = some (i, n) := by rw [hl]; rfl
    obtain ⟨c, hc⟩ := h.inHand hhand
    have hb : Between s i (.drains i) := by
      have hpolled := h.polled
      have hdue := h.due
      rw [hl] at hpolled hdue
      exact ⟨hpolled, List.nil_prefix, fun p hp => absurd hp List.not_mem_nil, hdue,
        Nat.le_refl i, rfl, rfl⟩
    have hother : ∀ m, s.line.draining = some m → m = n := by
      rw [hl]
      exact fun m hm => (Option.some.inj hm).symm
    simp only [Server.onConn, hc]
    refine ⟨h.closeIfReady hhand hb hc rfl (fun hshut => (h.shut n c hc hshut).imp_right And.left)
      hother nowNs, .one (a := .endPass nowNs) ?_⟩
    rw [abs_closeIfReady rfl, put_self hc]
    simp [Gateway.step, Server.abs, hl, Line.pc, Gateway.onConn, hc]
  · exact h.still

theorem follows_drain (h : Aligned s) : Follows cfg s s.drain := by
  unfold Server.drain
  split
  · rename_i hl
    refine ⟨h.goto (by rw [hl]; rfl) (by rw [hl]; rfl), .same ?_⟩
    simp [Server.abs, Server.goto, hl, Line.pc]
  · rename_i i hl
    have hleft := h.left
    have hdue := h.due
    rw [hl] at hleft hdue
    split
    · rename_i hnone
      exact absurd (List.getElem?_eq_none_iff.mp hnone) (Nat.not_le.mpr hleft)
    · rename_i n hn
      have hnone : s.line.draining = none := by rw [hl]; rfl
      have hpopping : Aligned ({ s with drained := n :: s.drained }.goto (.popping i n)) := by
        have hpolled := h.polled
        rw [hl] at hpolled
        refine ⟨⟨h.ascending, h.exact, h.below, fun m d hd hshut => ?_⟩, hpolled,
          List.nil_prefix, nofun, ?_, (Nat.le_succ i).trans hleft, ?_, nofun⟩
        · obtain hmode | ⟨-, hm⟩ := h.shut m d hd hshut
          · exact Or.inl hmode
          · exact absurd (hm.symm.trans hnone) (Option.some_ne_none m)
        · refine hdue.trans ?_
          simp [Line.left, Server.goto, List.take_add_one, hn]
        · rintro j m ⟨⟩
          exact hn
      obtain ⟨c, hc⟩ := hpopping.inHand rfl
      have hc' : s.gateway.conns n = some c := hc
      have hstep : s.abs.step cfg (.drain n) = s.gateway.drain n c := by
        simp [Gateway.step, Server.abs, hl, Line.pc, Gateway.onConn, hc', drain_at]
      simp only [Server.onConn, hc']
      have hround := round_drain hc'
      exact ⟨hpopping.draining rfl hc' hround, .one ((abs_draining hround.pc).trans hstep.symm)⟩
  · exact h.still

theorem follows_step (cfg : LoopConfig) (h : Aligned s) (hr : Regular s.abs) (t : Turn) :
    Follows cfg.server s (s.step cfg t) := by
  cases t with
  | poll nowNs listener revents => exact follows_poll h hr nowNs listener revents
  | accepted nowNs => exact follows_accepted h nowNs
  | exhausted nowNs => exact follows_exhausted h cfg.acceptBackoffNs nowNs
  | sweep nowNs => exact follows_sweep h nowNs
  | timer => exact follows_timer h hr
  | visit => exact follows_visit h
  | sent k => exact follows_sent h k
  | sendFailed => exact follows_sendFailed h
  | writeDone => exact follows_writeDone h
  | received nowNs allowed f => exact follows_received h nowNs allowed f
  | hungUp => exact follows_hungUp h
  | readDone => exact follows_readDone h
  | leave nowNs => exact follows_leave h nowNs
  | drain => exact follows_drain h
  | pop => exact follows_pop h
  | market latest => exact follows_market h latest
  | take env => exact follows_take h env
  | push => exact follows_push h
  | latch => exact follows_latch h
  | erase => exact follows_erase h
  | housekeep env => exact follows_housekeep h env

theorem regular_run (cfg : ServerConfig) {g : Gateway} (hg : Regular g) (as : List Action) :
    Regular (g.run cfg as) := by
  induction as generalizing g with
  | nil => exact hg
  | cons a as ih => exact ih (regular_step cfg hg a)

/-- Every run of the loop keeps the vector in order and is a run of the gateway. -/
theorem follows_run (cfg : LoopConfig) (t : Thread) (ts : List Turn) :
    Follows cfg.server (.initial t) ((Server.initial t).run cfg ts) := by
  induction ts using List.reverseRecOn with
  | nil => exact (aligned_initial t).still
  | append_singleton ts t' ih =>
    obtain ⟨as, has⟩ := ih.simulated
    have hr : Regular ((Server.initial t).run cfg ts).abs :=
      has ▸ regular_run cfg.server (regular_initial t) as
    have hrun : (Server.initial t).run cfg (ts ++ [t']) =
        ((Server.initial t).run cfg ts).step cfg t' :=
      List.foldl_append
    obtain ⟨halign, bs, hbs⟩ := follows_step cfg ih.aligned hr t'
    rw [hrun]
    refine ⟨halign, as ++ bs, ?_⟩
    rw [hbs, has, run_append]

/-- Whatever the kernel, the clock and the matching thread do, the loop is a run
of the gateway in which the network thread goes from connection to connection. -/
theorem loop_refines (cfg : LoopConfig) (t : Thread) (ts : List Turn) :
    ∃ as, ((Server.initial t).run cfg ts).abs = (Gateway.initial t).run cfg.server as :=
  (follows_run cfg t ts).simulated

/-- What the loop owes its connections. The vector holds those that there are,
oldest first. The body of the first loop reads the poll result of the connection
it acts on. At the end of the first loop every connection polled has been served
once, and at the end of the second every one that was there has been drained
once. -/
structure Attends (s : Server) : Prop where
  vector : s.conns.Pairwise (· < ·) ∧ ∀ n, n ∈ s.conns ↔ (s.gateway.conns n).isSome = true
  own : ∀ pfds p i n, s.line.entry = some (pfds, p) → s.line.hand = some (i, n) →
    pfds[i]? = some p ∧ s.conns[i]? = some n ∧ p.session = n
  served : s.line.ahead = [] → s.served = s.polled
  drained : s.line.left = 0 → s.drained = s.due

theorem Aligned.attends (h : Aligned s) : Attends s := by
  refine ⟨⟨h.ascending, fun n => ?_⟩, fun pfds p i n hentry hhand => ?_, fun hahead => ?_,
    fun hleft => ?_⟩
  · rw [h.exact n, fd, Option.isSome_map]
  · obtain ⟨hsession, -, hp⟩ := h.entry pfds p hentry
    rw [hhand] at hsession hp
    exact ⟨hp, h.hand i n hhand, (Option.some.inj hsession).symm⟩
  · have hpolled := h.polled
    rw [hahead] at hpolled
    exact hpolled.symm
  · have hdue := h.due
    rw [hleft] at hdue
    exact hdue.symm

/-- Connections that are accepted or closed in the middle of a pass shift no
index under the loop. -/
theorem attends_run (cfg : LoopConfig) (t : Thread) (ts : List Turn) :
    Attends ((Server.initial t).run cfg ts) :=
  (follows_run cfg t ts).aligned.attends

end OrderMatching.Attendance
