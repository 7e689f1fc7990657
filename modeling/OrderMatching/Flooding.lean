import OrderMatching.Sessions

namespace OrderMatching.Flooding

open OrderMatching.Orders OrderMatching.Commands OrderMatching.Exchange OrderMatching.MatchingThread
open OrderMatching.LedgerStep OrderMatching.Answers OrderMatching.Posting OrderMatching.Network
open OrderMatching.Threads OrderMatching.Moves OrderMatching.Sessions

def asking (x : UInt64) : Action := .frame 0 true (.cancel x)

/-- A thread on an empty book without a log that knows the queue of session
`n`. -/
structure Plain (t : Thread) (n : Nat) : Prop where
  ledger : t.ledger = Ledger.initial
  egress : t.egressFor (UInt64.ofNat n) = some n
  wal : t.wal = none
  replaying : t.replaying = false

/-- A gateway on an empty book without a log, with session `n` registered and
the matching thread between two commands. -/
structure Pressed (g : Gateway) (n : Nat) (pc : Pc) (c : Connection) (inbound : List OrderCommand)
    (emitted delivered : List OrderEvent) : Prop where
  pc : g.pc = pc
  conn : g.conns n = some c
  sessionId : c.session.id = UInt64.ofNat n
  inbound : g.inbound = inbound
  idle : g.idle
  plain : Plain g.thread n
  emitted : g.emitted n = emitted
  delivered : g.delivered n = delivered

variable (cfg : ServerConfig) (env : Env) {g : Gateway} {n : Nat} {pc : Pc} {c : Connection}
  {inbound : List OrderCommand} {emitted delivered : List OrderEvent}

theorem Pressed.ask (h : Pressed g n (.serving n) c inbound emitted delivered)
    (hmode : c.closeMode = .none) (hclock : c.session.lastInboundNs = 0) (x : UInt64)
    (hroom : inbound.length < inboundCapacity) :
    Pressed (g.step cfg (asking x)) n (.serving n) c (inbound ++ [.cancel (UInt64.ofNat n) x])
      emitted delivered := by
  have hsame : ({ c with session := c.session.onInbound 0 } : Connection) = c := by
    rw [Session.onInbound, ← hclock]
  have hdispatch : dispatch g.inbound c true (.cancel x) =
      (inbound ++ [.cancel (UInt64.ofNat n) x], c) := by
    simp [dispatch, submit, h.inbound, hroom, h.sessionId]
  have hopen : c.closing = false := by simp [Connection.closing, hmode]
  have hstep : g.step cfg (asking x) = { g.setConn n c with
      inbound := inbound ++ [.cancel (UInt64.ofNat n) x], pc := .serving n } := by
    simp only [Gateway.step, asking, h.pc, Gateway.onConn, h.conn]
    rw [Gateway.frame, hsame, hdispatch]
    simp only [hopen, Bool.false_eq_true, if_false]
  rw [hstep]
  exact ⟨rfl, Function.update_self .., h.sessionId, rfl, h.idle, h.plain, h.emitted, h.delivered⟩

theorem Pressed.asks (hmode : c.closeMode = .none) (hclock : c.session.lastInboundNs = 0)
    (x : UInt64) (k : Nat) {g : Gateway} {inbound : List OrderCommand}
    (h : Pressed g n (.serving n) c inbound emitted delivered)
    (hroom : inbound.length + k ≤ inboundCapacity) :
    Pressed (g.run cfg (List.replicate k (asking x))) n (.serving n) c
      (inbound ++ List.replicate k (.cancel (UInt64.ofNat n) x)) emitted delivered := by
  induction k generalizing g inbound with
  | zero =>
    rw [List.replicate_zero, List.replicate_zero, List.append_nil]
    exact h
  | succ k ih =>
    have hstep := h.ask cfg hmode hclock x (by omega)
    have hrest := ih hstep (by simp; omega)
    rw [List.append_assoc] at hrest
    exact hrest

def refusal (n : Nat) (x : UInt64) : OrderEvent := .reject (UInt64.ofNat n) x .unknownOrder

theorem taken_plain {t : Thread} (h : Plain t n) (c : OrderCommand) :
    admits (roomy env) t c = true ∧
      (t.applyPopped (roomy env) c).ledger = (step t.risk Ledger.initial c).1 ∧
      (t.applyPopped (roomy env) c).egress = egressAfter t c ∧
      (t.applyPopped (roomy env) c).wal = none ∧ (t.applyPopped (roomy env) c).replaying = false ∧
      (t.applyPopped (roomy env) c).pushed.drop t.pushed.length =
        routed t (step t.risk Ledger.initial c).2 ++ tombstone t c := by
  have hadm : admits (roomy env) t c = true := by simp [admits, h.wal]
  have happly : t.apply (roomy env) c = t.dispatch (roomy env) c := by simp [Thread.apply, h.wal]
  have hwal : (t.applyPopped (roomy env) c).wal = none := by
    rw [Thread.applyPopped, happly]
    exact (congrArg Core.wal (core_dispatch (roomy env) t c)).trans h.wal
  have ht := taken_applyPopped env h.replaying c
  generalize (t.applyPopped (roomy env) c).pushed.drop t.pushed.length = out at ht ⊢
  cases ht with
  | refused hadm' => simp [hadm] at hadm'
  | admitted _ hledger hegress _ hreplaying =>
    rw [h.ledger] at hledger
    rw [h.ledger]
    exact ⟨hadm, hledger, hegress, hwal, hreplaying.trans h.replaying, rfl⟩

theorem take_unknown {t : Thread} (h : Plain t n) (x : UInt64) :
    Plain (t.applyPopped (roomy env) (.cancel (UInt64.ofNat n) x)) n ∧
      (t.applyPopped (roomy env) (.cancel (UInt64.ofNat n) x)).pushed.drop t.pushed.length =
        [(n, refusal n x)] := by
  let cmd : OrderCommand := .cancel (UInt64.ofNat n) x
  have hstep : step t.risk Ledger.initial cmd = (Ledger.initial, [refusal n x]) := rfl
  obtain ⟨-, hledger, hegress, hwal, hreplaying, hpushed⟩ := taken_plain env h cmd
  refine ⟨⟨hledger, ?_, hwal, hreplaying⟩, hpushed.trans ?_⟩
  · rw [Thread.egressFor, hegress]
    exact h.egress
  · have hto : t.egressFor (refusal n x).session = some n := h.egress
    have htomb : tombstone t cmd = [] := if_neg (by simp [cmd, OrderCommand.cancel])
    rw [hstep, htomb, List.append_nil]
    simp only [routed, List.filterMap_cons, hto, Option.map_some, List.filterMap_nil]

theorem Pressed.taken {x : UInt64}
    (h : Pressed g n pc c (.cancel (UInt64.ofNat n) x :: inbound) emitted delivered) :
    ∃ t applied, Plain t n ∧ g.take env =
      { g with
        inbound := inbound, thread := t, outbox := [(n, refusal n x)], applied := applied } := by
  obtain ⟨hplain, hout⟩ := take_unknown env h.plain x
  have hentries : leavingEntries g.thread (.cancel (UInt64.ofNat n) x) = none := if_neg nofun
  refine ⟨_, (g.take env).applied, hplain, ?_⟩
  rw [take_idle h.inbound h.idle, hout, hentries, ite_self, ← h.idle.2.2]

theorem Pressed.answer {x : UInt64}
    (h : Pressed g n pc c (.cancel (UInt64.ofNat n) x :: inbound) emitted delivered)
    (hroom : c.egress.items.length < egressCapacity) :
    Pressed (g.run cfg [.take env, .push]) n pc (queued c (c.egress.items ++ [refusal n x])) inbound
      (emitted ++ [refusal n x]) delivered := by
  obtain ⟨t, applied, hplain, htake⟩ := h.taken env
  have hrun : g.run cfg [.take env, .push] = { g with
      conns := Function.update g.conns n (some (queued c (c.egress.items ++ [refusal n x])))
      inbound := inbound
      thread := t
      outbox := []
      applied := applied
      emitted := Function.update g.emitted n (g.emitted n ++ [refusal n x]) } := by
    change (g.take env).push = _
    rw [htake]
    simp only [Gateway.push, h.idle.2.1, if_true, Gateway.onConn, h.conn, hroom]
    rfl
  rw [hrun]
  refine ⟨h.pc, Function.update_self .., h.sessionId, rfl, ⟨rfl, h.idle.2⟩, hplain, ?_, h.delivered⟩
  exact (Function.update_self ..).trans (by rw [h.emitted])

theorem Pressed.answers (x : UInt64) (k : Nat) {g : Gateway} {c : Connection}
    {emitted : List OrderEvent}
    (h : Pressed g n pc c (List.replicate k (.cancel (UInt64.ofNat n) x) ++ inbound)
      emitted delivered)
    (hroom : c.egress.items.length + k ≤ egressCapacity) :
    Pressed (g.run cfg (List.replicate k [.take env, .push]).flatten) n pc
      (queued c (c.egress.items ++ List.replicate k (refusal n x))) inbound
      (emitted ++ List.replicate k (refusal n x)) delivered := by
  induction k generalizing g c emitted with
  | zero =>
    rw [List.replicate_zero, List.replicate_zero, List.append_nil, List.append_nil]
    exact h
  | succ k ih =>
    have hstep := Pressed.answer cfg env h (by omega)
    have hrest := ih hstep (by simp [queued]; omega)
    have hmore : ∀ es : List OrderEvent, es ++ List.replicate (k + 1) (refusal n x) =
        es ++ [refusal n x] ++ List.replicate k (refusal n x) := by simp [List.replicate_succ]
    rw [hmore, hmore, List.replicate_succ, List.flatten_cons, run_append]
    exact hrest

structure Healthy (c : Connection) : Prop where
  fdOpen : c.fdOpen = true
  closeMode : c.closeMode = .none

theorem Pressed.pop {x : UInt64} {items : List OrderEvent}
    (h : Pressed g n (.draining n) c inbound emitted delivered) (hc : Healthy c)
    (hitems : c.egress.items = refusal n x :: items)
    (hroom : c.writer.pending + 18 ≤ c.writer.capacity) :
    ∃ c', Pressed (g.step cfg .pop) n (.draining n) c' inbound emitted
      (delivered ++ [refusal n x]) ∧ Healthy c' ∧
      c'.egress = { c.egress with items := items } ∧
      c'.writer = ⟨c.writer.capacity, c.writer.pending + 18⟩ := by
  have hd := delivering_deliver (queued c items) (refusal n x)
  have happend : c.writer.append 18 = (true, ⟨c.writer.capacity, c.writer.pending + 18⟩) :=
    append_fits hroom
  obtain ⟨hmode, hwriter⟩ := hd.written (.reject x .unknownOrder) rfl (congrArg Prod.fst happend)
  have hdelivers : delivers c (refusal n x) = true := by
    have hfits : (c.writer.append 18).1 = true := congrArg Prod.fst happend
    have hdel : delivers c (refusal n x) = (c.fdOpen && (c.writer.append 18).1) := rfl
    rw [hdel, hc.fdOpen, hfits]
    rfl
  have hstep : g.step cfg .pop = { g.setConn n ((queued c items).deliver (refusal n x)) with
      pc := .draining n
      delivered := Function.update g.delivered n (g.delivered n ++ [refusal n x]) } := by
    have hstay : ¬(((queued c items).deliver (refusal n x)).closeMode = .immediate ∧
        (refusal n x).type ≠ .sessionRetired) := by
      rw [hmode]
      exact fun h => absurd (hc.closeMode.symm.trans h.1) nofun
    rw [step_pop cfg h.pc h.conn hitems, if_neg hstay, if_pos hdelivers]
  rw [hstep]
  refine ⟨_, ⟨rfl, Function.update_self .., hd.sessionId.trans h.sessionId, h.inbound,
    h.idle, h.plain,
    h.emitted, ?_⟩, ⟨hd.fdOpen.trans hc.fdOpen, hmode.trans hc.closeMode⟩, hd.egress,
      hwriter.trans ?_⟩
  · exact (Function.update_self ..).trans (by rw [h.delivered])
  · exact congrArg Prod.snd happend

theorem Pressed.pops (x : UInt64) (k : Nat) {items : List OrderEvent} {g : Gateway} {c : Connection}
    {delivered : List OrderEvent} (h : Pressed g n (.draining n) c inbound emitted delivered)
    (hc : Healthy c) (hitems : c.egress.items = List.replicate k (refusal n x) ++ items)
    (hroom : c.writer.pending + 18 * k ≤ c.writer.capacity) :
    ∃ c', Pressed (g.run cfg (List.replicate k .pop)) n (.draining n) c' inbound emitted
        (delivered ++ List.replicate k (refusal n x)) ∧ Healthy c' ∧
      c'.egress = { c.egress with items := items } ∧
      c'.writer = ⟨c.writer.capacity, c.writer.pending + 18 * k⟩ := by
  induction k generalizing g c delivered with
  | zero =>
    refine ⟨c, ?_, hc, ?_, rfl⟩
    · rw [List.replicate_zero, List.replicate_zero, List.append_nil]
      exact h
    · rw [← show c.egress.items = items from hitems]
  | succ k ih =>
    obtain ⟨c₁, h₁, hc₁, hegress₁, hwriter₁⟩ := h.pop cfg hc hitems (by omega)
    have hroom₁ : c₁.writer.pending + 18 * k ≤ c₁.writer.capacity := by
      simp only [hwriter₁]
      omega
    obtain ⟨c₂, h₂, hc₂, hegress₂, hwriter₂⟩ := ih h₁ hc₁ (by rw [hegress₁]; rfl) hroom₁
    have hmore : delivered ++ List.replicate (k + 1) (refusal n x) =
        delivered ++ [refusal n x] ++ List.replicate k (refusal n x) := by
          simp [List.replicate_succ]
    rw [hmore]
    refine ⟨c₂, h₂, hc₂, by rw [hegress₂, hegress₁], ?_⟩
    rw [hwriter₂, hwriter₁, Nat.add_assoc, Nat.mul_succ, Nat.add_comm 18]

theorem Pressed.overflow {x : UInt64}
    (h : Pressed g n pc c (.cancel (UInt64.ofNat n) x :: inbound) emitted delivered)
    (hfull : ¬c.egress.items.length < egressCapacity) :
    Pressed (g.run cfg [.take env, .push, .latch]) n pc (flagged c) inbound
      (emitted ++ [refusal n x]) delivered := by
  obtain ⟨t, applied, hplain, htake⟩ := h.taken env
  have hpush : (g.take env).push = { g with
      inbound := inbound
      thread := t
      outbox := []
      latching := some n
      applied := applied
      emitted := Function.update g.emitted n (g.emitted n ++ [refusal n x]) } := by
    rw [htake]
    simp only [Gateway.push, h.idle.2.1, if_true, Gateway.onConn, h.conn, hfull, if_false]
    rfl
  have hrun : g.run cfg [.take env, .push, .latch] = { g with
      conns := Function.update g.conns n (some (flagged c))
      inbound := inbound
      thread := t
      outbox := []
      latching := none
      applied := applied
      emitted := Function.update g.emitted n (g.emitted n ++ [refusal n x]) } := by
    change (g.take env).push.latch = _
    rw [hpush]
    simp only [Gateway.latch, Gateway.onConn, h.conn]
    rfl
  rw [hrun]
  refine ⟨h.pc, Function.update_self .., h.sessionId, rfl, ⟨rfl, rfl, h.idle.2.2⟩, hplain,
    ?_, h.delivered⟩
  exact (Function.update_self ..).trans (by rw [h.emitted])

theorem Pressed.rest (h : Pressed g n (.serving n) c inbound emitted delivered)
    (hmode : c.closeMode = .none) (nowNs : UInt64) :
    Pressed (g.run cfg [.readDone, .endPass nowNs]) n .polling c inbound emitted delivered := by
  have hrun : g.run cfg [.readDone, .endPass nowNs] = { g with pc := .polling } := by
    have hread : g.step cfg .readDone = { g with pc := .leaving n } := by
      simp only [Gateway.step, h.pc]
    change (g.step cfg .readDone).step cfg (.endPass nowNs) = _
    rw [hread]
    simp [Gateway.step, Gateway.onConn, h.conn, Gateway.endPass, Connection.readyToClose, hmode]
  rw [hrun]
  exact ⟨rfl, h.conn, h.sessionId, h.inbound, h.idle, h.plain, h.emitted, h.delivered⟩

theorem Pressed.check (h : Pressed g n .polling c inbound emitted delivered)
    (hflag : c.egress.overflowed = false) :
    Pressed (g.step cfg (.drain n)) n (.draining n) c inbound emitted delivered := by
  have hstep : g.step cfg (.drain n) = { g with pc := .draining n } := by
    simp [Gateway.step, h.pc, Gateway.onConn, h.conn, Gateway.drain, hflag]
  rw [hstep]
  exact ⟨rfl, h.conn, h.sessionId, h.inbound, h.idle, h.plain, h.emitted, h.delivered⟩

variable {m : Nat}

theorem Pressed.overflows (x : UInt64) (k : Nat) {g : Gateway} {c : Connection}
    {emitted : List OrderEvent}
    (h : Pressed g n pc c (List.replicate k (.cancel (UInt64.ofNat n) x) ++ inbound)
      emitted delivered)
    (hfull : ¬c.egress.items.length < egressCapacity) :
    ∃ c' emitted',
      Pressed (g.run cfg (List.replicate k [.take env, .push, .latch]).flatten) n pc c' inbound
        emitted' delivered := by
  induction k generalizing g c emitted with
  | zero => exact ⟨c, emitted, h⟩
  | succ k ih =>
    obtain ⟨c', emitted', h'⟩ := ih (Pressed.overflow cfg env h hfull) hfull
    refine ⟨c', emitted', ?_⟩
    rw [List.replicate_succ, List.flatten_cons, run_append]
    exact h'

theorem Pressed.crowd (h : Pressed g n .polling c inbound emitted delivered)
    (hfull : ¬inbound.length < inboundCapacity) (hnext : g.nextSessionId = m) (hm : m < 2 ^ 64)
    (hne : n ≠ m) (nowNs : UInt64) :
    Pressed (g.step cfg (.accept nowNs)) n .polling c inbound emitted delivered ∧
      (g.step cfg (.accept nowNs)).nextSessionId = m + 1 ∧
      (g.step cfg (.accept nowNs)).applied = g.applied ∧
      (g.step cfg (.accept nowNs)).conns m =
        some ((Connection.create cfg (UInt64.ofNat m) nowNs).queue (.reject 0 .rateLimited)) := by
  have hstep : g.step cfg (.accept nowNs) =
      { g.setConn m
          ((Connection.create cfg (UInt64.ofNat m) nowNs).queue (.reject 0 .rateLimited)) with
        nextSessionId := m + 1, inbound := inbound } := by
    simp only [Gateway.step, h.pc, if_true, Gateway.accept, hnext, hm, submit, h.inbound,
      hfull, if_false]
    rfl
  rw [hstep]
  exact ⟨⟨h.pc, (Function.update_of_ne hne _ _).trans h.conn, h.sessionId, rfl, h.idle,
    h.plain, h.emitted, h.delivered⟩, rfl, rfl, Function.update_self ..⟩

theorem Pressed.beside {x : UInt64}
    (h : Pressed g n pc c (.cancel (UInt64.ofNat n) x :: inbound) emitted delivered) (hne : n ≠ m) :
    (g.run cfg [.take env, .push]).conns m = g.conns m := by
  obtain ⟨t, applied, -, htake⟩ := h.taken env
  change ((g.take env).push).conns m = _
  rw [htake]
  simp only [Gateway.push, h.idle.2.1, if_true, Gateway.onConn, h.conn]
  split
  · exact Function.update_of_ne hne.symm _ _
  · rfl

theorem Pressed.visit (h : Pressed g n .polling c inbound emitted delivered) {c' : Connection}
    (hc : g.conns m = some c') (hid : c'.session.id = UInt64.ofNat m) (hc' : Healthy c')
    (hne : n ≠ m) (x : UInt64) (hroom : inbound.length < inboundCapacity) :
    Pressed (g.run cfg [.serve m, asking x]) n (.serving m) c
      (inbound ++ [.cancel (UInt64.ofNat m) x]) emitted delivered := by
  let c₁ : Connection := { c' with session := c'.session.onInbound 0 }
  have hserve : g.step cfg (.serve m) = { g with pc := .serving m } := by
    simp [Gateway.step, h.pc, Gateway.onConn, hc, hc'.fdOpen]
  have hdispatch : dispatch g.inbound c₁ true (.cancel x) =
      (inbound ++ [.cancel (UInt64.ofNat m) x], c₁) := by
    simp [dispatch, submit, h.inbound, hroom, c₁, Session.onInbound, hid]
  have hopen : c₁.closing = false := by simp [Connection.closing, c₁, hc'.closeMode]
  have hrun : g.run cfg [.serve m, asking x] = { g.setConn m c₁ with
      inbound := inbound ++ [.cancel (UInt64.ofNat m) x], pc := .serving m } := by
    change (g.step cfg (.serve m)).step cfg (asking x) = _
    rw [hserve]
    simp only [Gateway.step, asking, Gateway.onConn, hc]
    rw [Gateway.frame, hdispatch]
    simp only [hopen, Bool.false_eq_true, if_false]
    rfl
  rw [hrun]
  exact ⟨rfl, (Function.update_of_ne hne _ _).trans h.conn, h.sessionId, rfl, h.idle,
    h.plain, h.emitted, h.delivered⟩

def newThread : Thread := Thread.fresh .default none ⟨"", 0⟩

theorem booted_newThread : Booted newThread := .fresh _ _ _

/-- The first session is accepted and registered, and the network thread turns
to it. -/
def admission : List Action := [.accept 0, .take .obliging, .serve 1]

theorem pressed_admission :
    Pressed ((Gateway.initial newThread).run cfg admission) 1 (.serving 1)
      (.create cfg 1 0) [] [] [] :=
  ⟨rfl, rfl, rfl, rfl, ⟨rfl, rfl, rfl⟩, ⟨rfl, rfl, rfl, rfl⟩, rfl, rfl⟩

theorem step_endPass {nowNs : UInt64} (hpc : g.pc = .leaving n) (hc : g.conns n = some c)
    (hready : c.readyToClose nowNs = true) : g.step cfg (.endPass nowNs) = g.close n c := by
  simp only [Gateway.step, hpc, Gateway.onConn, hc, Gateway.endPass, hready, if_true]

theorem Pressed.hangup (h : Pressed g n (.serving n) c inbound emitted delivered) (nowNs : UInt64) :
    g.run cfg [.hangup, .endPass nowNs] = g.close n c.closeNow := by
  let g₁ : Gateway := { g.setConn n c.closeNow with pc := .leaving n }
  have h₁ : g.step cfg .hangup = g₁ := by simp only [Gateway.step, h.pc, Gateway.onConn, h.conn, g₁]
  have h₂ : g₁.step cfg (.endPass nowNs) = g₁.close n c.closeNow :=
    step_endPass cfg rfl (Function.update_self ..) rfl
  calc g.run cfg [.hangup, .endPass nowNs] = (g.step cfg .hangup).step cfg (.endPass nowNs) := rfl
    _ = g₁.close n c.closeNow := by rw [h₁, h₂]
    _ = g.close n c.closeNow := by
      simp only [Gateway.close, g₁, Gateway.setConn, Function.update_idem]

end OrderMatching.Flooding
