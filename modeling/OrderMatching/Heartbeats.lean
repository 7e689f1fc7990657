import OrderMatching.Attendance

namespace OrderMatching.Heartbeats

open OrderMatching.Orders OrderMatching.Commands OrderMatching.MatchingThread OrderMatching.Network
open OrderMatching.Threads OrderMatching.Moves OrderMatching.EventLoop OrderMatching.Attendance
open OrderMatching.Lists

def reading : Turn → Option UInt64
  | .poll nowNs _ _ => some nowNs
  | .accepted nowNs => some nowNs
  | .exhausted nowNs => some nowNs
  | .sweep nowNs => some nowNs
  | .received nowNs _ _ => some nowNs
  | .leave nowNs => some nowNs
  | _ => none

/-- The time that `service_timers` is called with, at the turn that calls it. -/
def sweeps (s : Server) : Turn → Option UInt64
  | .sweep nowNs =>
    match s.line with
    | .accepting _ _ => some nowNs
    | _ => none
  | _ => none

/-- The loop, with the last reading of the clock and the time of the last sweep. -/
structure Timed where
  server : Server
  clock : UInt64
  swept : Option UInt64

def Timed.initial (t : Thread) : Timed := ⟨.initial t, 0, none⟩

def Timed.step (cfg : LoopConfig) (w : Timed) (turn : Turn) : Timed :=
  ⟨w.server.step cfg turn, (reading turn).getD w.clock, (sweeps w.server turn).or w.swept⟩

def Timed.run (cfg : LoopConfig) (w : Timed) (ts : List Turn) : Timed := ts.foldl (Timed.step cfg) w

def Timed.conns (w : Timed) : Nat → Option Connection := w.server.gateway.conns

def Monotonic (ts : List Turn) : Prop :=
  (ts.filterMap reading).Pairwise fun r r' => r.toNat ≤ r'.toNat

instance (ts : List Turn) : Decidable (Monotonic ts) :=
  inferInstanceAs (Decidable (List.Pairwise _ _))

def Behind (now : UInt64) (c : Connection) : Prop :=
  c.session.lastInboundNs.toNat ≤ now.toNat ∧ c.session.lastHeartbeatSentNs.toNat ≤ now.toNat

/-- A live connection that is not marked for closing has been heard of within the
timeout and sent a heartbeat within the interval. -/
def Fresh (cfg : SessionConfig) (now : UInt64) (c : Connection) : Prop :=
  c.session.alive = true → c.closeMode = .none →
    now.toNat < c.session.lastInboundNs.toNat + cfg.timeoutNs.toNat ∧
      now.toNat < c.session.lastHeartbeatSentNs.toNat + cfg.heartbeatIntervalNs.toNat

structure Ages (t : UInt64) (c c' : Connection) : Prop where
  inbound : c'.session.lastInboundNs = c.session.lastInboundNs ∨ c'.session.lastInboundNs = t
  heartbeat : c'.session.lastHeartbeatSentNs = c.session.lastHeartbeatSentNs ∨
    c'.session.lastHeartbeatSentNs = t
  alive : c'.session.alive = true → c.session.alive = true
  mode : c'.closeMode = c.closeMode ∨ c'.closeMode = .immediate ∨ c'.session.alive = false ∧
    c'.closeMode = .none

section

variable {t : UInt64} {c c' c'' : Connection}

theorem Ages.refl (c : Connection) : Ages t c c := ⟨Or.inl rfl, Or.inl rfl, id, Or.inl rfl⟩

theorem Ages.trans (h : Ages t c c') (h' : Ages t c' c'') : Ages t c c'' where
  inbound := h'.inbound.elim (fun heq => h.inbound.imp heq.trans heq.trans) Or.inr
  heartbeat := h'.heartbeat.elim (fun heq => h.heartbeat.imp heq.trans heq.trans) Or.inr
  alive halive := h.alive (h'.alive halive)
  mode := by
    obtain heq | himm := h'.mode
    · obtain hsame | himm | ⟨hdead, hnone⟩ := h.mode
      · exact Or.inl (heq.trans hsame)
      · exact Or.inr (Or.inl (heq.trans himm))
      · refine Or.inr (Or.inr ⟨Bool.eq_false_iff.mpr fun halive => ?_, heq.trans hnone⟩)
        cases hdead.symm.trans (h'.alive halive)
    · exact Or.inr himm

theorem ages_closeNow (c : Connection) : Ages t c c.closeNow :=
  ⟨Or.inl rfl, Or.inl rfl, id, Or.inr (Or.inl rfl)⟩

theorem ages_queue (c : Connection) (r : Reply) : Ages t c (c.queue r) := by
  unfold Connection.queue
  dsimp only
  split
  · exact ⟨Or.inl rfl, Or.inl rfl, id, Or.inl rfl⟩
  · exact ages_closeNow c

theorem Ages.like {d : Connection} (h : Ages t c d)
    (hin : c'.session.lastInboundNs = d.session.lastInboundNs)
    (hhb : c'.session.lastHeartbeatSentNs = d.session.lastHeartbeatSentNs)
    (halive : c'.session.alive = d.session.alive) (hmode : c'.closeMode = d.closeMode) :
    Ages t c c' := by
  obtain ⟨hi, hh, ha, hm⟩ := h
  refine ⟨?_, ?_, ?_, ?_⟩
  · rwa [hin]
  · rwa [hhb]
  · rwa [halive]
  · rwa [hmode, halive]

theorem ages_deliver (c : Connection) (e : OrderEvent) : Ages t c (c.deliver e) := by
  have hforget : ∀ r, Ages t c ((c.forgetOrder e.clientOrderId).queue r) := by
    intro r
    have hq := ages_queue (t := t) (c.forgetOrder e.clientOrderId) r
    exact ⟨hq.inbound, hq.heartbeat, hq.alive, hq.mode⟩
  unfold Connection.deliver
  cases e.type with
  | ack =>
    dsimp only
    split
    · exact hforget _
    · exact ages_queue c _
  | reject => exact hforget _
  | fill =>
    dsimp only
    split
    · exact hforget _
    · exact ages_queue c _
  | sessionRetired => exact ⟨Or.inl rfl, Or.inl rfl, id, Or.inr (Or.inl rfl)⟩

theorem ages_submit (inbound : List OrderCommand) (c : Connection) (cmd : OrderCommand) :
    Ages t c (submit inbound c cmd).2.2 := by
  unfold submit
  split
  · exact .refl c
  · exact ages_queue c (.reject cmd.clientOrderId .rateLimited)

theorem ages_dispatch (inbound : List OrderCommand) (c : Connection) (allowed : Bool) (f : Frame) :
    Ages t c (dispatch inbound c allowed f).2 := by
  unfold dispatch
  split
  · exact ages_queue c (.reject 0 .malformed)
  · exact .refl c
  · split
    · exact ages_queue c (.reject 0 .rateLimited)
    · split
      · rename_i coid px qty side ty _ _
        split
        · exact ages_queue c (.reject coid .invalidQty)
        · have hreg : ∀ d,
              Ages t ({ c with session := (c.session.registerOrder coid).2 } : Connection) d →
              Ages t c d := fun d hd => ⟨hd.inbound, hd.heartbeat, hd.alive, hd.mode⟩
          dsimp only
          split
          · exact hreg _ (ages_queue { c with session := (c.session.registerOrder coid).2 }
              (.reject coid .duplicateOrderId))
          · split
            · exact hreg _ (ages_submit ..)
            · exact hreg _ ((ages_submit ..).like rfl rfl rfl rfl)
      · exact ages_submit ..
      · exact ages_submit ..
      · dsimp only
        split
        · exact (ages_submit ..).like rfl rfl rfl rfl
        · exact ages_submit ..
      · exact ages_queue c (.reject 0 .unknownMessageType)
      · exact ages_queue c (.reject 0 .malformed)

theorem ages_received (inbound : List OrderCommand) (c : Connection) (now : UInt64) (allowed : Bool)
    (f : Frame) :
    Ages now c (dispatch inbound { c with session := c.session.onInbound now } allowed f).2 := by
  have hd := ages_dispatch (t := now) inbound { c with
    session := c.session.onInbound now } allowed f
  refine ⟨Or.inr ?_, hd.heartbeat, hd.alive, hd.mode⟩
  obtain h | h := hd.inbound
  · exact h
  · exact h

theorem ages_serviceTimers (cfg : ServerConfig) (c : Connection) (now : UInt64) :
    Ages now c (serviceTimers cfg c now) := by
  unfold serviceTimers
  split
  · exact ages_closeNow c
  · split
    · have hq := ages_queue (t := now) c (.heartbeat now)
      exact ⟨hq.inbound, Or.inr rfl, hq.alive, hq.mode⟩
    · exact .refl c

theorem ages_killSession (inbound : List OrderCommand) (c : Connection) :
    Ages t c (killSession inbound c).2 ∧ (killSession inbound c).2.session.alive = false := by
  unfold killSession
  split
  · have hs := ages_submit (t := t) inbound { c with session := { c.session with alive := false } }
      (.cancelAll c.session.id)
    have hdead : (submit inbound { c with session := { c.session with alive := false } }
        (.cancelAll c.session.id)).2.2.session.alive = false :=
      Bool.eq_false_iff.mpr fun halive => Bool.false_ne_true (hs.alive halive)
    have hages : Ages t c (submit inbound { c with session := { c.session with alive := false } }
        (.cancelAll c.session.id)).2.2 :=
      ⟨hs.inbound, hs.heartbeat, fun halive => absurd halive (by simp [hdead]), hs.mode⟩
    dsimp only
    split
    · exact ⟨hages.like rfl rfl rfl rfl, hdead⟩
    · exact ⟨hages, hdead⟩
  · rename_i hdead
    exact ⟨.refl c, Bool.eq_false_iff.mpr hdead⟩

theorem ages_closeConnection {inbound : List OrderCommand} {d : Connection}
    (h : (closeConnection inbound c).2 = some d) : Ages t c d ∧ d.session.alive = false := by
  obtain ⟨hages, hdead⟩ := ages_killSession (t := t) inbound c
  unfold closeConnection at h
  dsimp only at h
  split at h
  · obtain rfl := Option.some.inj h
    exact ⟨⟨hages.inbound, hages.heartbeat, hages.alive, Or.inr (Or.inr ⟨hdead, rfl⟩)⟩, hdead⟩
  · cases h

theorem Behind.ages {now now' : UInt64} (h : Behind now c) (ha : Ages t c c')
    (hle : now.toNat ≤ now'.toNat) (ht : t.toNat ≤ now'.toNat) : Behind now' c' := by
  obtain ⟨hin, hhb⟩ := h
  refine ⟨?_, ?_⟩
  · obtain heq | heq := ha.inbound
    · rw [heq]
      omega
    · rwa [heq]
  · obtain heq | heq := ha.heartbeat
    · rw [heq]
      omega
    · rwa [heq]

variable {cfg : SessionConfig}

theorem Fresh.ages {now : UInt64} (h : Fresh cfg now c) (ha : Ages t c c')
    (ht : now.toNat ≤ t.toNat) (htimeout : 0 < cfg.timeoutNs.toNat)
    (hinterval : 0 < cfg.heartbeatIntervalNs.toNat) : Fresh cfg now c' := by
  intro halive hmode
  have hopen : c.closeMode = .none := by
    obtain heq | heq | ⟨hdead, -⟩ := ha.mode
    · exact heq.symm.trans hmode
    · cases heq.symm.trans hmode
    · cases hdead.symm.trans halive
  obtain ⟨hin, hhb⟩ := h (ha.alive halive) hopen
  refine ⟨?_, ?_⟩
  · obtain heq | heq := ha.inbound
    · rwa [heq]
    · rw [heq]
      omega
  · obtain heq | heq := ha.heartbeat
    · rwa [heq]
    · rw [heq]
      omega

/-- With no timestamp ahead of the clock the unsigned difference does not wrap. -/
theorem elapsed_iff {now last limit : UInt64} (h : last.toNat ≤ now.toNat) :
    now - last ≥ limit ↔ last.toNat + limit.toNat ≤ now.toNat := by
  have hsub : (now - last).toNat = now.toNat - last.toNat :=
    UInt64.toNat_sub_of_le _ _ (UInt64.le_iff_toNat_le.mpr h)
  rw [ge_iff_le, UInt64.le_iff_toNat_le, hsub]
  omega

theorem timedOut_iff {now : UInt64} (h : Behind now c) : c.session.timedOut cfg now = true ↔
    c.session.alive = true ∧ c.session.lastInboundNs.toNat + cfg.timeoutNs.toNat ≤ now.toNat := by
  rw [Session.timedOut, Bool.and_eq_true, decide_eq_true_eq, elapsed_iff h.1]

theorem heartbeatDue_iff {now : UInt64} (h : Behind now c) : c.session.heartbeatDue cfg now = true ↔
    c.session.alive = true ∧ c.session.lastHeartbeatSentNs.toNat + cfg.heartbeatIntervalNs.toNat ≤
      now.toNat := by
  rw [Session.heartbeatDue, Bool.and_eq_true, decide_eq_true_eq, elapsed_iff h.2]

end

theorem fresh_serviceTimers {cfg : ServerConfig} {c : Connection} {now : UInt64} (h : Behind now c)
    (hinterval : 0 < cfg.session.heartbeatIntervalNs.toNat) :
    Fresh cfg.session now (serviceTimers cfg c now) := by
  intro halive hmode
  have hlive := (ages_serviceTimers cfg c now).alive halive
  unfold serviceTimers at hmode ⊢
  split at hmode
  · cases hmode
  · rename_i hheard
    rw [if_neg hheard]
    rw [timedOut_iff h, not_and, Nat.not_le] at hheard
    split at hmode
    · rename_i hdue
      rw [if_pos hdue]
      have hq : (c.queue (.heartbeat now)).session = c.session := by
        unfold Connection.queue
        dsimp only
        split <;> rfl
      refine ⟨?_, ?_⟩
      · show now.toNat < (c.queue (.heartbeat now)).session.lastInboundNs.toNat + _
        rw [hq]
        exact hheard hlive
      · show now.toNat < now.toNat + _
        omega
    · rename_i hsent
      rw [if_neg hsent]
      rw [heartbeatDue_iff h, not_and, Nat.not_le] at hsent
      exact ⟨hheard hlive, hsent hlive⟩

def covered : Line → List Nat → List Nat
  | .timing _ _ i, conns => conns.take i
  | _, conns => conns

def settled : Line → List Nat → List Nat
  | .top, conns => conns
  | .drains i, conns => conns.drop i
  | .popping i _, conns | .marketing i _, conns | .flushing i _, conns => conns.drop (i + 1)
  | _, _ => []

/-- Timers that do not go off at once. -/
structure Ticking (cfg : SessionConfig) : Prop where
  timeout : 0 < cfg.timeoutNs.toNat
  interval : 0 < cfg.heartbeatIntervalNs.toNat

/-- What the timers keep up. Nothing else marks a connection to be closed once
its output is flushed, so the second loop leaves no mark behind. -/
structure Paced (cfg : ServerConfig) (w : Timed) : Prop where
  behind : ∀ n c, w.conns n = some c → Behind w.clock c
  later : ∀ now ∈ w.swept, now.toNat ≤ w.clock.toNat
  sweeping : ∀ pfds now i, w.server.line = .timing pfds now i →
    w.swept = some now ∧ ∀ n c, w.conns n = some c → Behind now c
  fresh : Ticking cfg.session → ∀ now ∈ w.swept, ∀ n ∈ covered w.server.line w.server.conns, ∀ c,
    w.conns n = some c → Fresh cfg.session now c
  quiet : ∀ n ∈ settled w.server.line w.server.conns, ∀ c, w.conns n = some c →
    c.session.alive = true → c.closeMode = .none
  flush : ∀ n c, w.conns n = some c → c.closeMode ≠ .afterFlush

section

variable {cfg : ServerConfig} {w : Timed} {s' : Server} {t clock : UInt64} {n : Nat}

theorem Paced.move (h : Paced cfg w) (hclock : w.clock.toNat ≤ clock.toNat)
    (ht : t.toNat ≤ clock.toNat) (hlater : ∀ now ∈ w.swept, now.toNat ≤ t.toNat)
    (hages : ∀ m c', s'.gateway.conns m = some c' → ∃ c, w.conns m = some c ∧ Ages t c c')
    (htiming : ∀ pfds now i, s'.line = .timing pfds now i → t.toNat ≤ now.toNat ∧
      ∃ i', w.server.line = .timing pfds now i')
    (hfresh : Ticking cfg.session →
      ∀ m ∈ covered s'.line s'.conns, m ∉ covered w.server.line w.server.conns →
      ∀ now ∈ w.swept, ∀ c', s'.gateway.conns m = some c' → Fresh cfg.session now c')
    (hquiet : ∀ m ∈ settled s'.line s'.conns, ∀ c', s'.gateway.conns m = some c' →
      c'.session.alive = true → c'.closeMode = .none) :
    Paced cfg ⟨s', clock, w.swept⟩ where
  behind m c' hc' := by
    obtain ⟨c, hc, hage⟩ := hages m c' hc'
    exact (h.behind m c hc).ages hage hclock ht
  later now hnow := (h.later now hnow).trans hclock
  sweeping pfds now i hl := by
    obtain ⟨hle, i', hl'⟩ := htiming pfds now i hl
    obtain ⟨hswept, hbehind⟩ := h.sweeping pfds now i' hl'
    refine ⟨hswept, fun m c' hc' => ?_⟩
    obtain ⟨c, hc, hage⟩ := hages m c' hc'
    exact (hbehind m c hc).ages hage (Nat.le_refl _) hle
  fresh htick now hnow m hm c' hc' := by
    by_cases hold : m ∈ covered w.server.line w.server.conns
    · obtain ⟨c, hc, hage⟩ := hages m c' hc'
      exact (h.fresh htick now hnow m hold c hc).ages hage (hlater now hnow) htick.timeout
        htick.interval
    · exact hfresh htick m hm hold now hnow c' hc'
  quiet := hquiet
  flush m c' hc' hmode := by
    obtain ⟨c, hc, hage⟩ := hages m c' hc'
    obtain heq | heq | ⟨-, heq⟩ := hage.mode
    · exact h.flush m c hc (heq.symm.trans hmode)
    · cases heq.symm.trans hmode
    · cases heq.symm.trans hmode

def Timed.lately (w : Timed) : UInt64 := w.swept.getD w.clock

theorem Paced.lately_le (h : Paced cfg w) : w.lately.toNat ≤ w.clock.toNat := by
  unfold Timed.lately
  cases hs : w.swept with
  | none => exact Nat.le_refl _
  | some now => exact h.later now hs

theorem Paced.lately_later : ∀ now ∈ w.swept, now.toNat ≤ w.lately.toNat := by
  intro now hnow
  rw [Timed.lately, Option.mem_def.mp hnow]
  exact Nat.le_refl _

theorem Paced.lately_sweeping (h : Paced cfg w) {pfds : List PollFd} {now : UInt64} {i : Nat}
    (hl : w.server.line = .timing pfds now i) : w.lately = now := by
  rw [Timed.lately, (h.sweeping pfds now i hl).1]
  rfl

theorem Paced.stay (h : Paced cfg w) (hclock : w.clock.toNat ≤ clock.toNat)
    (hconns : s'.gateway.conns = w.server.gateway.conns)
    (htiming : ∀ pfds now i, s'.line = .timing pfds now i → w.server.line = .timing pfds now i)
    (hswept : ∀ m ∈ covered s'.line s'.conns, m ∈ covered w.server.line w.server.conns)
    (hquiet : ∀ m ∈ settled s'.line s'.conns, m ∈ settled w.server.line w.server.conns) :
    Paced cfg ⟨s', clock, w.swept⟩ := by
  refine h.move hclock (h.lately_le.trans hclock) Paced.lately_later (fun m c' hc' => ?_)
    (fun pfds now i hl => ?_) (fun _ m hm hold => absurd (hswept m hm) hold) (fun m hm c' hc' => ?_)
  · rw [hconns] at hc'
    exact ⟨c', hc', .refl c'⟩
  · exact ⟨(congrArg UInt64.toNat (h.lately_sweeping (htiming pfds now i hl))).le, i,
      htiming pfds now i hl⟩
  · rw [hconns] at hc'
    exact h.quiet m (hquiet m hm) c' hc'

theorem Paced.still (h : Paced cfg w) (hclock : w.clock.toNat ≤ clock.toNat) :
    Paced cfg ⟨w.server, clock, w.swept⟩ :=
  h.stay hclock rfl (fun _ _ _ hl => hl) (fun _ hm => hm) fun _ hm => hm

theorem Paced.touch (h : Paced cfg w) (hclock : w.clock.toNat ≤ clock.toNat)
    (ht : t.toNat ≤ clock.toNat) (hlater : ∀ now ∈ w.swept, now.toNat ≤ t.toNat)
    (hothers : ∀ m, m ≠ n → s'.gateway.conns m = w.conns m)
    (hhere : ∀ d, s'.gateway.conns n = some d → ∃ c, w.conns n = some c ∧ Ages t c d)
    (htiming : ∀ pfds now i, s'.line ≠ .timing pfds now i)
    (hswept : ∀ m ∈ covered s'.line s'.conns, m ∈ covered w.server.line w.server.conns)
    (hquiet : ∀ m ∈ settled s'.line s'.conns, m ≠ n ∧ m ∈ settled w.server.line w.server.conns ∨
      m = n ∧ ∀ d, s'.gateway.conns n = some d → d.session.alive = true → d.closeMode = .none) :
    Paced cfg ⟨s', clock, w.swept⟩ := by
  refine h.move hclock ht hlater (fun m c' hc' => ?_)
    (fun pfds now i hl => absurd hl (htiming pfds now i))
    (fun _ m hm hold => absurd (hswept m hm) hold) (fun m hm c' hc' => ?_)
  · by_cases hm : m = n
    · rw [hm] at hc' ⊢
      exact hhere c' hc'
    · rw [hothers m hm] at hc'
      exact ⟨c', hc', .refl c'⟩
  · obtain ⟨hne, hm⟩ | ⟨rfl, hleft⟩ := hquiet m hm
    · rw [hothers m hne] at hc'
      exact h.quiet m hm c' hc'
    · exact hleft c' hc'

theorem paced_poll (h : Paced cfg w) {nowNs : UInt64}
    (hclock : w.clock.toNat ≤ nowNs.toNat) (listener : Bool) (revents : Nat → Revents) :
    Paced cfg ⟨w.server.poll nowNs listener revents, nowNs, w.swept⟩ := by
  unfold Server.poll
  split
  · rename_i hl
    refine h.stay hclock rfl (fun _ _ _ hl' => by cases hl') ?_ ?_
    · simp [covered, hl]
    · simp [settled]
  · exact h.still hclock

theorem paced_exhausted (h : Paced cfg w) {nowNs : UInt64}
    (hclock : w.clock.toNat ≤ nowNs.toNat) (backoffNs : UInt64) :
    Paced cfg ⟨w.server.exhausted backoffNs nowNs, nowNs, w.swept⟩ := by
  unfold Server.exhausted
  split
  · rename_i pfds hl
    refine h.stay hclock rfl (fun _ _ _ hl' => by cases hl') ?_ ?_
    · simp [covered, hl, Server.goto]
    · simp [settled, Server.goto]
  · exact h.still hclock

theorem accept_times (cfg : ServerConfig) (g : Gateway) (nowNs : UInt64)
    (hlt : g.nextSessionId < 2 ^ 64) :
    ∃ c : Connection, c.session.lastInboundNs = nowNs ∧ c.session.lastHeartbeatSentNs = nowNs ∧
      c.closeMode ≠ .afterFlush ∧
      (g.accept cfg nowNs).conns = Function.update g.conns g.nextSessionId (some c) := by
  unfold Gateway.accept
  dsimp only
  rw [if_pos hlt]
  have hs := ages_submit (t := nowNs) g.inbound (.create cfg (UInt64.ofNat g.nextSessionId) nowNs)
    (.sessionOpened (UInt64.ofNat g.nextSessionId) (some g.nextSessionId) (some g.nextSessionId))
  refine ⟨_, ?_, ?_, fun hmode => ?_, rfl⟩
  · exact hs.inbound.elim id id
  · exact hs.heartbeat.elim id id
  · obtain heq | heq | ⟨-, heq⟩ := hs.mode
    · cases heq.symm.trans hmode
    · cases heq.symm.trans hmode
    · cases heq.symm.trans hmode

theorem paced_accepted (h : Paced cfg w) {nowNs : UInt64} (hclock : w.clock.toNat ≤ nowNs.toNat) :
    Paced cfg ⟨w.server.accepted cfg nowNs, nowNs, w.swept⟩ := by
  unfold Server.accepted
  split
  · rename_i pfds hl
    split
    · rename_i hlt
      obtain ⟨d, hin, hhb, hmode, hconns⟩ := accept_times cfg w.server.gateway nowNs hlt
      have hcases : ∀ {m c}, (w.server.gateway.accept cfg nowNs).conns m = some c →
          m = w.server.gateway.nextSessionId ∧ d = c ∨ m ≠ w.server.gateway.nextSessionId ∧
            w.conns m = some c := by
        intro m c hc
        rw [hconns] at hc
        obtain ⟨hm, hd⟩ | hold := update_cases hc
        · exact Or.inl ⟨hm, Option.some.inj hd⟩
        · exact Or.inr hold
      refine ⟨fun m c hc => ?_, fun now hnow => (h.later now hnow).trans hclock,
        fun pfds' now i hl' => ?_,
        fun htick now hnow m hm c hc => ?_, fun m hm => ?_, fun m c hc => ?_⟩
      · obtain ⟨-, rfl⟩ | ⟨-, hold⟩ := hcases hc
        · exact ⟨(congrArg UInt64.toNat hin).le, (congrArg UInt64.toNat hhb).le⟩
        · exact (h.behind m c hold).ages (.refl (t := nowNs) c) hclock (Nat.le_refl _)
      · cases hl.symm.trans hl'
      · have hnow' := h.later now hnow
        obtain ⟨-, rfl⟩ | ⟨hne, hold⟩ := hcases hc
        · intro _ _
          have htimeout := htick.timeout
          have hinterval := htick.interval
          rw [hin, hhb]
          omega
        · refine h.fresh htick now hnow m ?_ c hold
          simp only [covered, hl, List.mem_append, List.mem_singleton] at hm ⊢
          exact hm.resolve_right hne
      · simp [settled, hl] at hm
      · obtain ⟨-, rfl⟩ | ⟨-, hold⟩ := hcases hc
        · exact hmode
        · exact h.flush m c hold
    · exact h.still hclock
  · exact h.still hclock

theorem sweep_cases (s : Server) (nowNs : UInt64) :
    (∃ pfds, s.sweep nowNs = s.goto (.timing pfds nowNs 0) ∧ sweeps s (.sweep nowNs) = some nowNs) ∨
      s.sweep nowNs = s ∧ sweeps s (.sweep nowNs) = none := by
  unfold Server.sweep sweeps
  cases s.line with
  | accepting pfds listener => exact Or.inl ⟨pfds, rfl, rfl⟩
  | _ => exact Or.inr ⟨rfl, rfl⟩

theorem paced_sweep (h : Paced cfg w) {nowNs : UInt64}
    (hclock : w.clock.toNat ≤ nowNs.toNat) :
    Paced cfg ⟨w.server.sweep nowNs, nowNs, (sweeps w.server (.sweep nowNs)).or w.swept⟩ := by
  obtain ⟨pfds, hsweep, hnow⟩ | ⟨hsame, hnone⟩ := sweep_cases w.server nowNs
  · have hbehind : ∀ n c, w.conns n = some c → Behind nowNs c := fun n c hc =>
      (h.behind n c hc).ages (.refl (t := nowNs) c) hclock (Nat.le_refl _)
    rw [hsweep, hnow]
    refine ⟨hbehind, fun now hnow => ?_, fun pfds' now i hl' => ?_, fun _ now hnow m hm => ?_,
      fun m hm => ?_, h.flush⟩
    · obtain rfl : nowNs = now := Option.some.inj hnow
      exact Nat.le_refl _
    · obtain ⟨-, rfl, -⟩ := Line.timing.inj hl'
      exact ⟨rfl, hbehind⟩
    · simp [covered, Server.goto] at hm
    · simp [settled, Server.goto] at hm
  · rw [hsame, hnone]
    exact h.still hclock

theorem paced_timer (h : Paced cfg w) :
    Paced cfg ⟨w.server.timer cfg, w.clock, w.swept⟩ := by
  have hrefl : w.clock.toNat ≤ w.clock.toNat := Nat.le_refl _
  unfold Server.timer
  split
  · rename_i pfds nowNs i hl
    obtain ⟨hswept, hbehind⟩ := h.sweeping pfds nowNs i hl
    split
    · rename_i hend
      refine h.stay hrefl rfl (fun _ _ _ hl' => by cases hl') (fun m hm => ?_) ?_
      · have hall : w.server.conns.take i = w.server.conns :=
          List.take_of_length_le (List.getElem?_eq_none_iff.mp hend)
        simp only [covered, Server.goto, hl, hall] at hm ⊢
        exact hm
      · simp [settled, Server.goto]
    · rename_i n hn
      -- the new state of the connection at the index, if it has one
      have hstep : ∀ m c',
          ((w.server.onConn n fun c => w.server.put n (serviceTimers cfg c nowNs)).goto
            (.timing pfds nowNs (i + 1))).gateway.conns m = some c' →
          m ≠ n ∧ w.conns m = some c' ∨ m = n ∧ ∃ c, w.conns n = some c ∧
            c' = serviceTimers cfg c nowNs := by
        intro m c' hc'
        unfold Server.onConn at hc'
        cases hc : w.server.gateway.conns n with
        | none =>
          simp only [hc, Server.goto] at hc'
          refine Or.inl ⟨?_, hc'⟩
          rintro rfl
          cases hc.symm.trans hc'
        | some c =>
          simp only [hc, Server.goto, Server.put, Gateway.setConn] at hc'
          obtain ⟨hm, hd⟩ | hold := update_cases hc'
          · exact Or.inr ⟨hm, c, hc, (Option.some.inj hd).symm⟩
          · exact Or.inl hold
      have hvector : ((w.server.onConn n fun c => w.server.put n (serviceTimers cfg c nowNs)).goto
          (.timing pfds nowNs (i + 1))).conns = w.server.conns := by
        unfold Server.onConn
        split <;> rfl
      refine h.move hrefl (h.later nowNs hswept) (t := nowNs) (fun now hnow => ?_)
        (fun m c' hc' => ?_) (fun pfds' now j hl' => ?_) (fun htick m hm hold now hnow c' hc' => ?_)
        (fun m hm => ?_)
      · obtain rfl : nowNs = now := Option.some.inj (hswept.symm.trans hnow)
        exact Nat.le_refl _
      · obtain ⟨-, hc⟩ | ⟨rfl, c, hc, rfl⟩ := hstep m c' hc'
        · exact ⟨c', hc, .refl c'⟩
        · exact ⟨c, hc, ages_serviceTimers cfg c nowNs⟩
      · obtain ⟨rfl, rfl, -⟩ := Line.timing.inj hl'
        exact ⟨Nat.le_refl _, i, hl⟩
      · obtain rfl : nowNs = now := Option.some.inj (hswept.symm.trans hnow)
        obtain ⟨hne, -⟩ | ⟨rfl, c, hc, rfl⟩ := hstep m c' hc'
        · refine absurd ?_ hold
          simp only [covered, hl, Server.goto] at hm ⊢
          rw [show (w.server.onConn n fun c => w.server.put n (serviceTimers cfg c nowNs)).conns =
            w.server.conns from hvector, List.take_add_one, hn, Option.toList_some, List.mem_append,
            List.mem_singleton] at hm
          exact hm.resolve_right hne
        · exact fresh_serviceTimers (hbehind m c hc) htick.interval
      · simp [settled, Server.goto] at hm
  · exact h.still hrefl

theorem Paced.beside (h : Paced cfg w) {g : Gateway}
    (hsame : ∀ m c', g.conns m = some c' → ∃ c, w.conns m = some c ∧ c'.session = c.session ∧
      c'.closeMode = c.closeMode) :
    Paced cfg ⟨{ w.server with gateway := g }, w.clock, w.swept⟩ := by
  refine h.move (Nat.le_refl _) h.lately_le Paced.lately_later (fun m c' hc' => ?_)
    (fun pfds now i hl => ?_) (fun _ m hm hold => absurd hm hold) (fun m hm c' hc' => ?_)
  · obtain ⟨c, hc, hsession, hmode⟩ := hsame m c' hc'
    exact ⟨c, hc, (Ages.refl c).like (by rw [hsession]) (by rw [hsession]) (by rw [hsession]) hmode⟩
  · exact ⟨(congrArg UInt64.toNat (h.lately_sweeping hl)).le, i, hl⟩
  · obtain ⟨c, hc, hsession, hmode⟩ := hsame m c' hc'
    rw [hsession, hmode]
    exact h.quiet m hm c hc

theorem paced_take (h : Paced cfg w) (env : Env) :
    Paced cfg ⟨{ w.server with gateway := w.server.gateway.take env }, w.clock, w.swept⟩ := by
  have hsame : (w.server.gateway.take env).conns = w.server.gateway.conns := by
    unfold Gateway.take
    split
    · rfl
    · split <;> rfl
  refine h.beside fun m c' hc' => ?_
  rw [hsame] at hc'
  exact ⟨c', hc', rfl, rfl⟩

theorem paced_erase (h : Paced cfg w) :
    Paced cfg ⟨{ w.server with gateway := w.server.gateway.erase }, w.clock, w.swept⟩ := by
  have hsame : w.server.gateway.erase.conns = w.server.gateway.conns := by
    unfold Gateway.erase
    split <;> rfl
  refine h.beside fun m c' hc' => ?_
  rw [hsame] at hc'
  exact ⟨c', hc', rfl, rfl⟩

theorem paced_housekeep (h : Paced cfg w) (env : Env) :
    Paced cfg ⟨{ w.server with gateway := w.server.gateway.housekeep env }, w.clock, w.swept⟩ := by
  have hsame : (w.server.gateway.housekeep env).conns = w.server.gateway.conns := by
    unfold Gateway.housekeep
    split <;> rfl
  refine h.beside fun m c' hc' => ?_
  rw [hsame] at hc'
  exact ⟨c', hc', rfl, rfl⟩

theorem session_queue {g : Gateway} {n : Nat} {c : Connection} (hc : g.conns n = some c)
    (q : EgressQueue) {m : Nat} {c' : Connection}
    (hc' : (g.setConn n { c with egress := q }).conns m = some c') :
    ∃ c, g.conns m = some c ∧ c'.session = c.session ∧ c'.closeMode = c.closeMode := by
  obtain ⟨rfl, ⟨⟩⟩ | ⟨-, hold⟩ := update_cases hc'
  · exact ⟨c, hc, rfl, rfl⟩
  · exact ⟨c', hold, rfl, rfl⟩

theorem paced_push (h : Paced cfg w) :
    Paced cfg ⟨{ w.server with gateway := w.server.gateway.push }, w.clock, w.swept⟩ := by
  refine h.beside fun m c' hc' => ?_
  unfold Gateway.push at hc'
  split at hc'
  · exact ⟨c', hc', rfl, rfl⟩
  · split at hc'
    · dsimp only [Gateway.onConn] at hc'
      split at hc'
      · exact ⟨c', hc', rfl, rfl⟩
      · rename_i c hc
        split at hc'
        · exact session_queue hc _ hc'
        · split at hc'
          · exact ⟨c', hc', rfl, rfl⟩
          · exact ⟨c', hc', rfl, rfl⟩
    · exact ⟨c', hc', rfl, rfl⟩

theorem paced_latch (h : Paced cfg w) :
    Paced cfg ⟨{ w.server with gateway := w.server.gateway.latch }, w.clock, w.swept⟩ := by
  refine h.beside fun m c' hc' => ?_
  unfold Gateway.latch at hc'
  split at hc'
  · exact ⟨c', hc', rfl, rfl⟩
  · dsimp only at hc'
    unfold Gateway.onConn at hc'
    split at hc'
    · exact ⟨c', hc', rfl, rfl⟩
    · rename_i c hc
      exact session_queue hc _ hc'

theorem paced_writeDone (h : Paced cfg w) :
    Paced cfg ⟨w.server.writeDone, w.clock, w.swept⟩ := by
  unfold Server.writeDone
  split
  · rename_i pfds i p n hl
    refine h.stay (Nat.le_refl _) rfl (fun _ _ _ hl' => by cases hl') ?_ ?_
    · simp [covered, hl, Server.goto]
    · simp [settled, Server.goto]
  · exact h.still (Nat.le_refl _)

theorem paced_readDone (h : Paced cfg w) :
    Paced cfg ⟨w.server.readDone, w.clock, w.swept⟩ := by
  unfold Server.readDone
  split
  · rename_i pfds i p n hl
    refine h.stay (Nat.le_refl _) rfl (fun _ _ _ hl' => by cases hl') ?_ ?_
    · simp [covered, hl, Server.goto]
    · simp [settled, Server.goto]
  · exact h.still (Nat.le_refl _)

theorem Paced.inHand (h : Paced cfg w) (ha : Aligned w.server)
    (hclock : w.clock.toNat ≤ clock.toNat) (ht : t.toNat ≤ clock.toNat)
    (hlater : ∀ now ∈ w.swept, now.toNat ≤ t.toNat) {i : Nat}
    (hhand : w.server.line.hand = some (i, n)) {c d : Connection} (hc : w.conns n = some c)
    (hages : Ages t c d)
    (hconns : s'.gateway.conns = Function.update w.server.gateway.conns n (some d))
    (hvector : s'.conns = w.server.conns) (hline : s'.line.hand = some (i, n))
    (hkind : settled s'.line w.server.conns = settled w.server.line w.server.conns) :
    Paced cfg ⟨s', clock, w.swept⟩ := by
  have hparts : settled s'.line s'.conns = settled w.server.line w.server.conns := by
    rw [hvector, hkind]
  have hnot : ∀ {s : Server}, s.line.hand = some (i, n) →
      ∀ pfds now j, s.line ≠ .timing pfds now j := by
    intro s hs pfds now j hl
    rw [hl] at hs
    cases hs
  have hswept : ∀ {s : Server}, s.line.hand = some (i, n) → covered s.line s.conns = s.conns := by
    intro s hs
    unfold covered
    split
    · rename_i pfds now j hl
      exact absurd hl (hnot hs pfds now j)
    · rfl
  refine h.touch (n := n) hclock ht hlater (fun m hm => ?_) (fun d' hd' => ?_) (hnot hline)
    (fun m hm => ?_) (fun m hm => Or.inl ⟨?_, hparts ▸ hm⟩)
  · rw [hconns, Function.update_of_ne hm]
    rfl
  · rw [hconns] at hd'
    obtain rfl := Option.some.inj (update_here hd')
    exact ⟨c, hc, hages⟩
  · rw [hswept hline, hvector] at hm
    rwa [hswept hhand]
  · rintro rfl
    rw [hparts] at hm
    have hlast := not_mem_drop ha.ascending (ha.hand i m hhand)
    cases hl : w.server.line with
    | popping j m' | marketing j m' | flushing j m' =>
      rw [hl] at hhand hm
      obtain ⟨rfl, rfl⟩ := Prod.mk.inj (Option.some.inj hhand)
      exact hlast hm
    | top | accepting | timing | events | drains =>
      rw [hl] at hhand
      cases hhand
    | writing | reading | leaving =>
      rw [hl] at hm
      cases hm

theorem Paced.unread (h : Paced cfg w) (ha : Aligned w.server) {i : Nat}
    (hhand : w.server.line.hand = some (i, n)) {c d : Connection} (hc : w.conns n = some c)
    (hages : Ages w.lately c d) {l : Line} (hline : l.hand = some (i, n))
    (hkind : settled l w.server.conns = settled w.server.line w.server.conns) :
    Paced cfg ⟨(w.server.put n d).goto l, w.clock, w.swept⟩ :=
  h.inHand ha (Nat.le_refl _) h.lately_le Paced.lately_later hhand hc hages rfl rfl hline hkind

theorem paced_sent (h : Paced cfg w) (ha : Aligned w.server) (k : Nat) :
    Paced cfg ⟨w.server.sent k, w.clock, w.swept⟩ := by
  have hstill : Paced cfg ⟨w.server, w.clock, w.swept⟩ := h.still (Nat.le_refl _)
  have hput : ∀ {i n c}, w.server.line.hand = some (i, n) → w.conns n = some c →
      Paced cfg ⟨w.server.put n { c with writer := c.writer.consume k }, w.clock, w.swept⟩ := by
    intro i n c hhand hc
    exact h.unread (d := { c with writer := c.writer.consume k }) ha hhand hc
      ⟨Or.inl rfl, Or.inl rfl, id, Or.inl rfl⟩ hhand rfl
  unfold Server.sent Server.onConn
  split
  · rename_i pfds i p n hl
    split
    · exact hstill
    · rename_i c hc
      dsimp only
      split
      · exact hput (by rw [hl]; rfl) hc
      · exact hstill
  · rename_i i n hl
    split
    · exact hstill
    · rename_i c hc
      dsimp only
      split
      · exact hput (by rw [hl]; rfl) hc
      · exact hstill
  · exact hstill

theorem paced_sendFailed (h : Paced cfg w) (ha : Aligned w.server) :
    Paced cfg ⟨w.server.sendFailed, w.clock, w.swept⟩ := by
  have hstill : Paced cfg ⟨w.server, w.clock, w.swept⟩ := h.still (Nat.le_refl _)
  unfold Server.sendFailed Server.onConn
  split
  · rename_i pfds i p n hl
    split
    · exact hstill
    · rename_i c hc
      dsimp only
      split
      · exact h.unread ha (by rw [hl]; rfl) hc (ages_closeNow c) rfl (by simp [settled, hl])
      · exact hstill
  · rename_i i n hl
    split
    · exact hstill
    · rename_i c hc
      dsimp only
      split
      · exact h.unread ha (by rw [hl]; rfl) hc (ages_closeNow c) (by rw [hl]; rfl) rfl
      · exact hstill
  · exact hstill

theorem paced_received (h : Paced cfg w) (ha : Aligned w.server) {nowNs : UInt64}
    (hclock : w.clock.toNat ≤ nowNs.toNat) (allowed : Bool) (f : Frame) :
    Paced cfg ⟨w.server.received nowNs allowed f, nowNs, w.swept⟩ := by
  have hstill : Paced cfg ⟨w.server, nowNs, w.swept⟩ := h.still hclock
  unfold Server.received Server.onConn
  split
  · rename_i pfds i p n hl
    split
    · split
      · exact hstill
      · rename_i c hc
        have hlater : ∀ now ∈ w.swept, now.toNat ≤ nowNs.toNat :=
          fun now hnow => (h.later now hnow).trans hclock
        refine h.inHand (i := i) ha hclock (Nat.le_refl _) hlater (by rw [hl]; rfl) hc
          (ages_received w.server.gateway.inbound c nowNs allowed f) rfl rfl ?_ ?_
        · dsimp only
          split <;> rfl
        · rw [hl]
          dsimp only
          split <;> rfl
    · exact hstill
  · exact hstill

theorem paced_hungUp (h : Paced cfg w) (ha : Aligned w.server) :
    Paced cfg ⟨w.server.hungUp, w.clock, w.swept⟩ := by
  unfold Server.hungUp
  split
  · rename_i pfds i p n hl
    split
    · unfold Server.onConn
      split
      · refine h.stay (Nat.le_refl _) rfl (fun _ _ _ hl' => by cases hl') ?_ ?_
        · simp [covered, hl, Server.goto]
        · simp [settled, Server.goto]
      · rename_i c hc
        exact h.unread ha (by rw [hl]; rfl) hc (ages_closeNow c) rfl (by simp [settled, hl])
    · exact h.still (Nat.le_refl _)
  · exact h.still (Nat.le_refl _)

theorem ages_popped (c : Connection) : Ages t c (popped c) := by
  unfold popped
  split
  · exact .refl c
  · rename_i e items hitems
    have hd := ages_deliver (t := t) (queued c items) e
    exact ⟨hd.inbound, hd.heartbeat, hd.alive, hd.mode⟩

theorem ages_checked (c : Connection) : Ages t c (checked c) := by
  unfold checked
  split
  · exact ages_closeNow c
  · exact .refl c

theorem draining_parts (s : Server) (i n : Nat) (g : Gateway) (ns : List Nat) :
    (s.draining i n g).line.hand = some (i, n) ∧
      settled (s.draining i n g).line ns = settled (.popping i n) ns ∧
      covered (s.draining i n g).line ns = ns := by
  obtain hline | hline := draining_line s i n g
  · rw [hline]
    exact ⟨rfl, rfl, rfl⟩
  · rw [hline]
    exact ⟨rfl, rfl, rfl⟩

theorem paced_pop (h : Paced cfg w) (ha : Aligned w.server) :
    Paced cfg ⟨w.server.pop, w.clock, w.swept⟩ := by
  have hstill : Paced cfg ⟨w.server, w.clock, w.swept⟩ := h.still (Nat.le_refl _)
  unfold Server.pop Server.onConn
  split
  · rename_i i n hl
    split
    · exact hstill
    · rename_i c hc
      obtain ⟨hhand, hsettled, -⟩ :=
        draining_parts w.server i n (w.server.gateway.pop n c) w.server.conns
      exact h.inHand ha (Nat.le_refl _) h.lately_le Paced.lately_later (by rw [hl]; rfl)
        hc (ages_popped c) (round_pop hc).conns rfl hhand (hsettled.trans (by rw [hl]))
  · exact hstill

theorem paced_market (h : Paced cfg w) (ha : Aligned w.server)
    (latest : Option (Nat × List (Int × Nat) × List (Int × Nat))) :
    Paced cfg ⟨w.server.market latest, w.clock, w.swept⟩ := by
  unfold Server.market
  split
  · rename_i i n hl
    have hgoto : Paced cfg ⟨w.server.goto (.flushing i n), w.clock, w.swept⟩ := by
      refine h.stay (Nat.le_refl _) rfl (fun _ _ _ hl' => by cases hl') ?_ ?_
      · simp [covered, hl, Server.goto]
      · simp [settled, hl, Server.goto]
    split
    · exact hgoto
    · rename_i seq bids asks
      unfold Server.onConn
      split
      · exact hgoto
      · rename_i c hc
        dsimp only
        split
        · exact h.unread ha (by rw [hl]; rfl) hc (ages_queue c (.bookUpdate seq bids asks)) rfl
            (by simp [settled, hl])
        · exact hgoto
  · exact h.still (Nat.le_refl _)

theorem paced_drain (h : Paced cfg w) (ha : Aligned w.server) :
    Paced cfg ⟨w.server.drain, w.clock, w.swept⟩ := by
  unfold Server.drain
  split
  · rename_i hl
    refine h.stay (Nat.le_refl _) rfl (fun _ _ _ hl' => by cases hl') ?_ ?_
    · simp [covered, hl, Server.goto]
    · simp [settled, hl, Server.goto]
  · rename_i i hl
    split
    · rename_i hend
      have hlen : w.server.conns.length ≤ i := List.getElem?_eq_none_iff.mp hend
      refine h.stay (Nat.le_refl _) rfl (fun _ _ _ hl' => by cases hl') ?_ ?_
      · simp [covered, hl, Server.goto]
      · simp [settled, Server.goto, List.drop_eq_nil_iff.mpr hlen]
    · rename_i n hn
      have hlast := not_mem_drop ha.ascending hn
      unfold Server.onConn
      dsimp only
      split
      · refine h.stay (Nat.le_refl _) rfl (fun _ _ _ hl' => ?_) ?_ ?_
        · exact hl'
        · simp
        · simp
      · rename_i c hc
        have hconns := (round_drain hc).conns
        obtain ⟨hhand, hsettled, hcovered⟩ := draining_parts
          { w.server with drained := n :: w.server.drained } i n (w.server.gateway.drain n c)
          w.server.conns
        refine h.touch (n := n) (Nat.le_refl _) h.lately_le Paced.lately_later (fun m hm => ?_)
          (fun d hd => ?_) (fun _ _ _ hl' => ?_) (fun m hm => ?_) (fun m hm => Or.inl ⟨?_, ?_⟩)
        · exact (congrFun hconns m).trans (Function.update_of_ne hm _ _)
        · have hd' : Function.update w.server.gateway.conns n (some (checked c)) n = some d :=
            (congrFun hconns n).symm.trans hd
          obtain rfl := Option.some.inj (update_here hd')
          exact ⟨c, hc, ages_checked c⟩
        · rw [hl'] at hhand
          cases hhand
        · rw [hl]
          exact (congrArg (m ∈ ·) hcovered).mp hm
        · rintro rfl
          exact hlast ((congrArg (_ ∈ ·) hsettled).mp hm)
        · rw [hl]
          exact (congrArg (m ∈ ·) hsettled).mp hm
  · exact h.still (Nat.le_refl _)

theorem closeConnection_table (s : Server) (i n : Nat) (c : Connection) :
    (∀ m, m ≠ n → (s.closeConnection i n c).gateway.conns m = s.gateway.conns m) ∧
      (∀ d, (s.closeConnection i n c).gateway.conns n = some d → Ages t c d ∧
        d.session.alive = false) ∧
      ((s.closeConnection i n c).conns = s.conns ∨
        (s.closeConnection i n c).conns = s.conns.eraseIdx i) := by
  refine ⟨fun m hm => Function.update_of_ne hm _ _, fun d hd => ?_, ?_⟩
  · exact ages_closeConnection (update_here hd)
  · unfold Server.closeConnection
    dsimp only
    split
    · exact Or.inl rfl
    · exact Or.inr rfl

theorem paced_visit (h : Paced cfg w) :
    Paced cfg ⟨w.server.visit, w.clock, w.swept⟩ := by
  unfold Server.visit
  split
  · rename_i pfds hl
    refine h.stay (Nat.le_refl _) rfl (fun _ _ _ hl' => by cases hl') ?_ ?_
    · simp [covered, hl, Server.goto]
    · simp [settled, Server.goto]
  · rename_i pfds i hl
    have hgoto : ∀ {s : Server} {l}, s.gateway.conns = w.server.gateway.conns →
        s.conns = w.server.conns →
        (∀ pfds now j, l ≠ .timing pfds now j) → settled l w.server.conns = [] →
        covered l w.server.conns = w.server.conns → Paced cfg ⟨s.goto l, w.clock, w.swept⟩ := by
      intro s l hconns hvector hnot hsettled hcovered
      refine h.stay (Nat.le_refl _) hconns (fun _ _ _ hl' => absurd hl' (hnot _ _ _))
        (fun m hm => ?_) fun m hm => ?_
      · simp only [Server.goto, hvector, hcovered] at hm
        rw [hl]
        exact hm
      · simp only [Server.goto, hvector, hsettled] at hm
        cases hm
    split
    · rename_i p n hp hn
      dsimp only
      split
      · unfold Server.onConn
        dsimp only
        split
        · exact hgoto rfl rfl (fun _ _ _ hl' => by cases hl') rfl rfl
        · rename_i c hc
          obtain ⟨hothers, hhere, hvector⟩ := closeConnection_table (t := w.lately)
            { w.server with served := n :: w.server.served } i n c
          refine h.touch (n := n) (Nat.le_refl _) h.lately_le Paced.lately_later hothers
            (fun d hd => ⟨c, hc, (hhere d hd).1⟩) (fun _ _ _ hl' => by cases hl') (fun m hm => ?_)
            (fun m hm => by cases hm)
          rw [hl]
          obtain heq | heq := hvector
          · exact heq ▸ hm
          · exact List.mem_of_mem_eraseIdx (heq ▸ hm)
      · exact hgoto rfl rfl (fun _ _ _ hl' => by cases hl') rfl rfl
    · exact hgoto rfl rfl (fun _ _ _ hl' => by cases hl') rfl rfl
  · exact h.still (Nat.le_refl _)

theorem Paced.closeIfReady (h : Paced cfg w) (ha : Aligned w.server) {nowNs : UInt64}
    (hclock : w.clock.toNat ≤ nowNs.toNat) {i : Nat} (hn : w.server.conns[i]? = some n)
    {c d : Connection} (hc : w.conns n = some c) (hages : Ages w.lately c d) {l : Line}
    (hnot : ∀ pfds now j, w.server.line ≠ .timing pfds now j)
    (hl : ∀ pfds now j, l ≠ .timing pfds now j)
    (hsettled : (∀ ns, settled l ns = []) ∨
      settled w.server.line w.server.conns = w.server.conns.drop (i + 1) ∧
        ∀ ns, settled l ns = ns.drop i) :
    Paced cfg ⟨(w.server.closeIfReady i n nowNs d).goto l, nowNs, w.swept⟩ := by
  have hlen : i < w.server.conns.length := (List.getElem?_eq_some_iff.mp hn).1
  have hlast := not_mem_drop ha.ascending hn
  have hcovered : ∀ {l : Line}, (∀ pfds now j, l ≠ .timing pfds now j) →
      ∀ ns, covered l ns = ns := by
    intro l hl ns
    cases l with
    | timing pfds now j => exact absurd rfl (hl pfds now j)
    | _ => rfl
  unfold Server.closeIfReady
  split
  · obtain ⟨hothers, hhere, hvector⟩ := closeConnection_table (t := w.lately) w.server i n d
    refine h.touch (n := n) hclock (h.lately_le.trans hclock) Paced.lately_later hothers
      (fun d' hd' => ⟨c, hc, hages.trans (hhere d' hd').1⟩) hl (fun m hm => ?_) (fun m hm => ?_)
    · rw [hcovered hnot]
      dsimp only [Server.goto] at hm
      rw [hcovered hl] at hm
      obtain heq | heq := hvector
      · rwa [heq] at hm
      · rw [heq] at hm
        exact List.mem_of_mem_eraseIdx hm
    · dsimp only [Server.goto] at hm
      obtain hnil | ⟨hbefore, hafter⟩ := hsettled
      · rw [hnil] at hm
        cases hm
      · rw [hafter] at hm
        rw [hbefore]
        have hmem : m = n ∨ m ∈ w.server.conns.drop (i + 1) := by
          obtain heq | heq := hvector
          · rw [heq] at hm
            exact mem_drop_at hn hm
          · rw [heq, drop_eraseIdx hlen] at hm
            exact Or.inr hm
        obtain rfl | hmem := hmem
        · exact Or.inr ⟨rfl, fun d' hd' halive => by cases (hhere d' hd').2.symm.trans halive⟩
        · refine Or.inl ⟨?_, hmem⟩
          rintro rfl
          exact hlast hmem
  · rename_i hready
    refine h.touch (n := n) hclock (h.lately_le.trans hclock) Paced.lately_later
      (fun m hm => Function.update_of_ne hm _ _) (fun d' hd' => ?_) hl (fun m hm => ?_)
      (fun m hm => ?_)
    · obtain rfl := Option.some.inj (update_here hd')
      exact ⟨c, hc, hages⟩
    · dsimp only [Server.goto] at hm
      rw [hcovered hl] at hm
      rw [hcovered hnot]
      exact hm
    · dsimp only [Server.goto] at hm
      obtain hnil | ⟨hbefore, hafter⟩ := hsettled
      · rw [hnil] at hm
        cases hm
      · rw [hafter] at hm
        rw [hbefore]
        obtain rfl | hmem := mem_drop_at hn hm
        · refine Or.inr ⟨rfl, fun d' hd' _ => ?_⟩
          obtain rfl := Option.some.inj (update_here hd')
          cases hmode : d.closeMode with
          | none => rfl
          | immediate => simp [Connection.readyToClose, hmode] at hready
          | afterFlush =>
            obtain heq | heq | ⟨-, heq⟩ := hages.mode
            · exact absurd (heq.symm.trans hmode) (h.flush m c hc)
            · cases heq.symm.trans hmode
            · cases heq.symm.trans hmode
        · refine Or.inl ⟨?_, hmem⟩
          rintro rfl
          exact hlast hmem

theorem paced_leave (h : Paced cfg w) (ha : Aligned w.server) {nowNs : UInt64}
    (hclock : w.clock.toNat ≤ nowNs.toNat) : Paced cfg ⟨w.server.leave nowNs, nowNs, w.swept⟩ := by
  unfold Server.leave
  split
  · rename_i pfds i p n hl
    have hhand : w.server.line.hand = some (i, n) := by rw [hl]; rfl
    obtain ⟨c, hc⟩ := ha.inHand hhand
    have hages : Ages w.lately c (if p.revents.hungUp then c.closeNow else c) := by
      split
      · exact ages_closeNow c
      · exact .refl c
    simp only [Server.onConn, hc]
    exact h.closeIfReady ha hclock (ha.hand i n hhand) hc hages
      (fun _ _ _ hl' => by cases hl.symm.trans hl') (fun _ _ _ hl' => by cases hl')
      (Or.inl fun _ => rfl)
  · rename_i i n hl
    have hhand : w.server.line.hand = some (i, n) := by rw [hl]; rfl
    obtain ⟨c, hc⟩ := ha.inHand hhand
    simp only [Server.onConn, hc]
    exact h.closeIfReady ha hclock (ha.hand i n hhand) hc (.refl c)
      (fun _ _ _ hl' => by cases hl.symm.trans hl') (fun _ _ _ hl' => by cases hl')
      (Or.inr ⟨by rw [hl]; rfl, fun _ => rfl⟩)
  · exact h.still hclock

end

theorem paced_initial (cfg : ServerConfig) (t : Thread) : Paced cfg (.initial t) where
  behind n c hc := absurd hc (conns_initial t n c)
  later now hnow := by cases hnow
  sweeping pfds now i hl := by cases hl
  fresh _ now hnow := by cases hnow
  quiet n hn := by cases hn
  flush n c hc := absurd hc (conns_initial t n c)

theorem paced_step (cfg : LoopConfig) {w : Timed} (h : Paced cfg.server w) (ha : Aligned w.server)
    {turn : Turn} (hclock : ∀ now ∈ reading turn, w.clock.toNat ≤ now.toNat) :
    Paced cfg.server (w.step cfg turn) := by
  cases turn with
  | poll nowNs listener revents => exact paced_poll h (hclock nowNs rfl) listener revents
  | accepted nowNs => exact paced_accepted h (hclock nowNs rfl)
  | exhausted nowNs => exact paced_exhausted h (hclock nowNs rfl) cfg.acceptBackoffNs
  | sweep nowNs => exact paced_sweep h (hclock nowNs rfl)
  | timer => exact paced_timer h
  | visit => exact paced_visit h
  | sent k => exact paced_sent h ha k
  | sendFailed => exact paced_sendFailed h ha
  | writeDone => exact paced_writeDone h
  | received nowNs allowed f => exact paced_received h ha (hclock nowNs rfl) allowed f
  | hungUp => exact paced_hungUp h ha
  | readDone => exact paced_readDone h
  | leave nowNs => exact paced_leave h ha (hclock nowNs rfl)
  | drain => exact paced_drain h ha
  | pop => exact paced_pop h ha
  | market latest => exact paced_market h ha latest
  | take env => exact paced_take h env
  | push => exact paced_push h
  | latch => exact paced_latch h
  | erase => exact paced_erase h
  | housekeep env => exact paced_housekeep h env

theorem run_server (cfg : LoopConfig) (w : Timed) (ts : List Turn) :
    (w.run cfg ts).server = w.server.run cfg ts := by
  induction ts generalizing w with
  | nil => rfl
  | cons turn ts ih => exact ih (w.step cfg turn)

theorem run_clock (cfg : LoopConfig) (w : Timed) (ts : List Turn) :
    (w.run cfg ts).clock = ((ts.filterMap reading).getLast?).getD w.clock := by
  induction ts using List.reverseRecOn with
  | nil => rfl
  | append_singleton ts turn ih =>
    have hrun : w.run cfg (ts ++ [turn]) = (w.run cfg ts).step cfg turn := List.foldl_append
    rw [hrun, Timed.step, List.filterMap_append]
    cases hr : reading turn with
    | none => simp [hr, ih]
    | some now => simp [hr]

theorem paced_run (cfg : LoopConfig) (t : Thread) {ts : List Turn}
    (hclock : Monotonic ts) : Paced cfg.server ((Timed.initial t).run cfg ts) := by
  induction ts using List.reverseRecOn with
  | nil => exact paced_initial cfg.server t
  | append_singleton ts turn ih =>
    have hrun : (Timed.initial t).run cfg (ts ++ [turn]) =
        ((Timed.initial t).run cfg ts).step cfg turn :=
      List.foldl_append
    unfold Monotonic at hclock
    rw [List.filterMap_append, List.pairwise_append] at hclock
    obtain ⟨hbefore, -, hlast⟩ := hclock
    have ha : Aligned ((Timed.initial t).run cfg ts).server := by
      rw [run_server]
      exact (follows_run cfg t ts).aligned
    rw [hrun]
    refine paced_step cfg (ih hbefore) ha fun now hnow => ?_
    rw [run_clock]
    cases hl : (ts.filterMap reading).getLast? with
    | none => exact Nat.zero_le _
    | some r => exact hlast r (List.mem_of_getLast? hl) now (by simp [Option.mem_def.mp hnow])

/-- With a clock that does not go back, both differences that a sweep takes are
exact, for every connection and however long the server has been up. -/
theorem sweep_exact (cfg : LoopConfig) (t : Thread) (ts : List Turn) (hclock : Monotonic ts)
    (pfds : List PollFd) (now : UInt64) (i n : Nat) (c : Connection)
    (hline : ((Server.initial t).run cfg ts).line = .timing pfds now i)
    (hc : ((Server.initial t).run cfg ts).gateway.conns n = some c) :
    (c.session.timedOut cfg.server.session now = true ↔ c.session.alive = true ∧
        c.session.lastInboundNs.toNat + cfg.server.session.timeoutNs.toNat ≤ now.toNat) ∧
      (c.session.heartbeatDue cfg.server.session now = true ↔ c.session.alive = true ∧
        c.session.lastHeartbeatSentNs.toNat + cfg.server.session.heartbeatIntervalNs.toNat ≤
          now.toNat) := by
  have hp := paced_run cfg t hclock
  have hs := run_server cfg (.initial t) ts
  obtain ⟨-, hbehind⟩ := hp.sweeping pfds now i (by rw [hs]; exact hline)
  have hb := hbehind n c (by rw [Timed.conns, hs]; exact hc)
  exact ⟨timedOut_iff hb, heartbeatDue_iff hb⟩

theorem ticking_default : Ticking SessionConfig.default := ⟨by decide, by decide⟩

def bareThread : Thread := Thread.fresh .default none ⟨"", 0⟩

def firstSweep : List Turn := [.poll 1 true (fun _ => .none), .accepted 1, .sweep 2]

theorem sweep_exact_first :
    ((Connection.create .default 1 1).session.timedOut .default 2 = true ↔ true = true ∧
      1 + 15000000000 ≤ 2) ∧
      ((Connection.create .default 1 1).session.heartbeatDue .default 2 = true ↔ true = true ∧
        1 + 5000000000 ≤ 2) :=
  sweep_exact .default bareThread firstSweep (by decide) [] 2 0 1 (.create .default 1 1) rfl rfl

/-- Between two passes of the loop, every live connection had been heard of within
the timeout, and been sent a heartbeat within the interval, when the last pass
swept. -/
theorem never_silent (cfg : LoopConfig) (htick : Ticking cfg.server.session) (t : Thread)
    (ts : List Turn) (hclock : Monotonic ts) (now : UInt64) (n : Nat) (c : Connection)
    (htop : ((Timed.initial t).run cfg ts).server.line = .top)
    (hswept : ((Timed.initial t).run cfg ts).swept = some now)
    (hc : ((Timed.initial t).run cfg ts).server.gateway.conns n = some c)
    (halive : c.session.alive = true) :
    now.toNat < c.session.lastInboundNs.toNat + cfg.server.session.timeoutNs.toNat ∧
      now.toNat < c.session.lastHeartbeatSentNs.toNat +
        cfg.server.session.heartbeatIntervalNs.toNat := by
  have hp := paced_run cfg t hclock
  have ha : Aligned ((Timed.initial t).run cfg ts).server := by
    rw [run_server]
    exact (follows_run cfg t ts).aligned
  have hn : n ∈ ((Timed.initial t).run cfg ts).server.conns := (ha.exact n).mpr (by simp [fd, hc])
  have hmode := hp.quiet n (by rw [htop]; exact hn) c hc halive
  exact hp.fresh htick now hswept n (by rw [htop]; exact hn) c hc halive hmode

def firstPass : List Turn :=
  firstSweep ++ [.timer, .timer, .visit, .visit, .drain, .pop, .market none, .leave 3, .drain]

theorem never_silent_first :
    (2 : UInt64).toNat < (1 : UInt64).toNat + (15000000000 : UInt64).toNat ∧
    (2 : UInt64).toNat < (1 : UInt64).toNat + (5000000000 : UInt64).toNat :=
  never_silent .default ticking_default bareThread firstPass (by decide) 2 1 (.create .default 1 1)
    rfl rfl rfl rfl

end OrderMatching.Heartbeats
