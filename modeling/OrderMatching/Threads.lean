import OrderMatching.Network
import OrderMatching.Posting

namespace OrderMatching.Threads

open OrderMatching.Orders OrderMatching.Commands OrderMatching.Exchange OrderMatching.MatchingThread
open OrderMatching.LedgerStep OrderMatching.Answers OrderMatching.Posting OrderMatching.Network

/-- Where the network thread is in its loop: between connections, reading from
one, popping the events of one, or about to check whether to close it. -/
inductive Pc where
  | polling
  | serving (n : Nat)
  | draining (n : Nat)
  | leaving (n : Nat)
  deriving DecidableEq

structure Entries where
  session : UInt64
  egress : Option (Option Nat)
  md : Option (Option Nat)
  deriving DecidableEq

/-- The two threads and the queues between them. Connections go by the number
of their session, and so do the queues they own. `thread` is the matching thread
as the command it is at leaves it. `outbox` is what it still has to push for that
command, `latching` the queue whose overflow it is about to mark, `erasing` the
entries that it has to erase after the pushes. The last three fields are history:
the commands applied, and for each connection the order events emitted to its
queue and those written to its open socket. -/
structure Gateway where
  conns : Nat → Option Connection
  nextSessionId : Nat
  pc : Pc
  inbound : List OrderCommand
  thread : Thread
  outbox : List (Nat × OrderEvent)
  latching : Option Nat
  erasing : Option Entries
  applied : List OrderCommand
  emitted : Nat → List OrderEvent
  delivered : Nat → List OrderEvent

def Gateway.initial (t : Thread) : Gateway :=
  ⟨fun _ => none, 1, .polling, [], t, [], none, none, [], fun _ => [], fun _ => []⟩

theorem conns_initial (t : Thread) (n : Nat) (c : Connection) :
    (Gateway.initial t).conns n ≠ some c :=
  (Option.some_ne_none c).symm

inductive Action where
  | accept (nowNs : UInt64)
  | timers (n : Nat) (nowNs : UInt64)
  | serve (n : Nat)
  | frame (nowNs : UInt64) (allowed : Bool) (f : Frame)
  | hangup
  | readDone
  | pollError
  | drain (n : Nat)
  | pop
  | market (seq : Nat) (bids asks : List (Int × Nat))
  | writable (n : Nat)
  | sendError
  | endPass (nowNs : UInt64)
  | take (env : Env)
  | push
  | latch
  | erase
  | housekeep (env : Env)

def Gateway.setConn (g : Gateway) (n : Nat) (c : Connection) : Gateway :=
  { g with conns := Function.update g.conns n (some c) }

def Gateway.onConn (g : Gateway) (n : Nat) (f : Connection → Gateway) : Gateway :=
  match g.conns n with
  | none => g
  | some c => f c

def Gateway.accept (cfg : ServerConfig) (g : Gateway) (nowNs : UInt64) : Gateway :=
  let n := g.nextSessionId
  if n < 2 ^ 64 then
    let (_, inbound, c) := submit g.inbound (.create cfg (UInt64.ofNat n) nowNs)
      (.sessionOpened (UInt64.ofNat n) (some n) (some n))
    { g.setConn n c with nextSessionId := n + 1, inbound := inbound }
  else g

def Gateway.frame (g : Gateway) (n : Nat) (nowNs : UInt64) (allowed : Bool) (f : Frame)
    (c : Connection) : Gateway :=
  let (inbound, c) := dispatch g.inbound { c with session := c.session.onInbound nowNs } allowed f
  { g.setConn n c with inbound := inbound, pc := if c.closing then .leaving n else .serving n }

def Gateway.drain (g : Gateway) (n : Nat) (c : Connection) : Gateway :=
  if c.egress.overflowed then { g.setConn n c.closeNow with pc := .leaving n }
  else { g with pc := .draining n }

def delivers (c : Connection) (e : OrderEvent) : Bool :=
  c.fdOpen &&
    match reply e with
    | none => false
    | some r => (c.writer.append r.size).1

/-- One round of the loop in `drain_egress`. -/
def Gateway.pop (g : Gateway) (n : Nat) (c : Connection) : Gateway :=
  match c.egress.items with
  | [] => { g with pc := .leaving n }
  | e :: items =>
    let c' := (queued c items).deliver e
    { g.setConn n c' with
      pc := if c'.closeMode = .immediate ∧ e.type ≠ .sessionRetired then .leaving n else .draining n
      delivered :=
        if delivers c e then Function.update g.delivered n (g.delivered n ++ [e]) else g.delivered }

def Gateway.close (g : Gateway) (n : Nat) (c : Connection) : Gateway :=
  let (inbound, c) := closeConnection g.inbound c
  { g with conns := Function.update g.conns n c, inbound := inbound, pc := .polling }

def Gateway.endPass (g : Gateway) (n : Nat) (nowNs : UInt64) (c : Connection) : Gateway :=
  if c.readyToClose nowNs then g.close n c else { g with pc := .polling }

/-- The outside as the matching thread sees it when every push has room: what it
pushes then is what it tries to push in any case. -/
def roomy (env : Env) : Env := { env with egressRoom := fun _ => true }

/-- The matching thread is done with the command it was at. -/
def Gateway.idle (g : Gateway) : Prop := g.outbox = [] ∧ g.latching = none ∧ g.erasing = none

instance (g : Gateway) : Decidable g.idle := inferInstanceAs (Decidable (_ ∧ _ ∧ _))

def leavingEntries (t : Thread) (c : OrderCommand) : Option Entries :=
  if c.type = .cancelAllForSession then
    some ⟨c.session, t.egress c.session, t.md c.session⟩
  else none

def Gateway.take (g : Gateway) (env : Env) : Gateway :=
  match g.inbound with
  | [] => g
  | c :: inbound =>
    if g.idle then
      let t := g.thread.applyPopped (roomy env) c
      { g with
        inbound := inbound
        thread := t
        outbox := t.pushed.drop g.thread.pushed.length
        erasing := if admits (roomy env) g.thread c then leavingEntries g.thread c else none
        applied := if admits (roomy env) g.thread c then g.applied ++ [c] else g.applied }
    else g

theorem take_idle {g : Gateway} {c : OrderCommand} {inbound : List OrderCommand}
    (hin : g.inbound = c :: inbound) (h : g.idle) (env : Env) : g.take env = { g with
      inbound := inbound
      thread := g.thread.applyPopped (roomy env) c
      outbox := (g.thread.applyPopped (roomy env) c).pushed.drop g.thread.pushed.length
      erasing := if admits (roomy env) g.thread c then leavingEntries g.thread c else none
      applied := if admits (roomy env) g.thread c then g.applied ++ [c] else g.applied } := by
  simp only [Gateway.take, hin, if_pos h]

theorem take_busy {g : Gateway} (h : ¬g.idle) (env : Env) : g.take env = g := by
  unfold Gateway.take
  split
  · rfl
  · exact if_neg h

def Gateway.emittedWith (g : Gateway) (n : Nat) (e : OrderEvent) : Nat → List OrderEvent :=
  if e.type = .sessionRetired then g.emitted else Function.update g.emitted n (g.emitted n ++ [e])

/-- One push of the matching thread. Nobody is told of a tombstone that finds
no room, and a queue that is gone takes nothing. -/
def Gateway.push (g : Gateway) : Gateway :=
  match g.outbox with
  | [] => g
  | (n, e) :: outbox =>
    if g.latching = none then
      let g := { g with outbox := outbox, emitted := g.emittedWith n e }
      g.onConn n fun c =>
        if c.egress.items.length < egressCapacity then
          g.setConn n (queued c (c.egress.items ++ [e]))
        else if e.type = .sessionRetired then g
        else { g with latching := some n }
    else g

def Gateway.latch (g : Gateway) : Gateway :=
  match g.latching with
  | none => g
  | some n =>
    let g := { g with latching := none }
    g.onConn n fun c => g.setConn n (flagged c)

/-- `apply_cancel_all` erases a session from the maps once its tombstone is
pushed. -/
def Gateway.erase (g : Gateway) : Gateway :=
  if g.outbox = [] ∧ g.latching = none then { g with erasing := none } else g

/-- `egress_` as it is now. -/
def Gateway.egressMap (g : Gateway) : UInt64 → Option (Option Nat) :=
  match g.erasing with
  | none => g.thread.egress
  | some d => Function.update g.thread.egress d.session d.egress

/-- `md_` as it is now. -/
def Gateway.mdMap (g : Gateway) : UInt64 → Option (Option Nat) :=
  match g.erasing with
  | none => g.thread.md
  | some d => Function.update g.thread.md d.session d.md

def Gateway.housekeep (g : Gateway) (env : Env) : Gateway :=
  if g.idle then { g with thread := (g.thread.pollSync env).maybeSnapshot env } else g

def Gateway.step (cfg : ServerConfig) (g : Gateway) : Action → Gateway
  | .accept nowNs => if g.pc = .polling then g.accept cfg nowNs else g
  | .timers n nowNs =>
    if g.pc = .polling then g.onConn n fun c => g.setConn n (serviceTimers cfg c nowNs) else g
  | .serve n =>
    if g.pc = .polling then
      g.onConn n fun c => if c.fdOpen then { g with pc := .serving n } else g
    else g
  | .drain n => if g.pc = .polling then g.onConn n (g.drain n) else g
  | .frame nowNs allowed f =>
    match g.pc with
    | .serving n => g.onConn n (g.frame n nowNs allowed f)
    | _ => g
  | .hangup =>
    match g.pc with
    | .serving n => g.onConn n fun c => { g.setConn n c.closeNow with pc := .leaving n }
    | _ => g
  | .readDone =>
    match g.pc with
    | .serving n => { g with pc := .leaving n }
    | _ => g
  | .pollError =>
    match g.pc with
    | .serving n => g.onConn n (g.close n)
    | _ => g
  | .pop =>
    match g.pc with
    | .draining n => g.onConn n (g.pop n)
    | _ => g
  | .market seq bids asks =>
    match g.pc with
    | .leaving n =>
      g.onConn n fun c =>
        if c.subscribed then g.setConn n (c.queue (.bookUpdate seq bids asks)) else g
    | _ => g
  | .writable k =>
    match g.pc with
    | .serving n | .leaving n =>
      g.onConn n fun c =>
        if c.fdOpen then g.setConn n { c with writer := c.writer.consume k } else g
    | _ => g
  | .sendError =>
    match g.pc with
    | .serving n | .leaving n => g.onConn n fun c => if c.fdOpen then g.setConn n c.closeNow else g
    | _ => g
  | .endPass nowNs =>
    match g.pc with
    | .leaving n => g.onConn n (g.endPass n nowNs)
    | _ => g
  | .take env => g.take env
  | .push => g.push
  | .latch => g.latch
  | .erase => g.erase
  | .housekeep env => g.housekeep env

theorem step_pop (cfg : ServerConfig) {g : Gateway} {n : Nat} {c : Connection} {e : OrderEvent}
    {items : List OrderEvent} (hpc : g.pc = .draining n) (hc : g.conns n = some c)
    (hitems : c.egress.items = e :: items) :
    g.step cfg .pop = { g.setConn n ((queued c items).deliver e) with
      pc :=
        if ((queued c items).deliver e).closeMode = .immediate ∧ e.type ≠ .sessionRetired then
          .leaving n
        else .draining n
      delivered :=
        if delivers c e then Function.update g.delivered n (g.delivered n ++ [e])
        else g.delivered } := by
  simp only [Gateway.step, hpc, Gateway.onConn, hc, Gateway.pop, hitems]

def Gateway.run (cfg : ServerConfig) (g : Gateway) (as : List Action) : Gateway :=
  as.foldl (Gateway.step cfg) g

theorem run_append (cfg : ServerConfig) (g : Gateway) (as bs : List Action) :
    g.run cfg (as ++ bs) = (g.run cfg as).run cfg bs := List.foldl_append

theorem run_one (cfg : ServerConfig) (g : Gateway) (a : Action) : g.run cfg [a] = g.step cfg a :=
  rfl

/-- A condition on each step of a run, in the state the step is taken in. -/
def Along (cfg : ServerConfig) (P : Gateway → Action → Prop) : Gateway → List Action → Prop
  | _, [] => True
  | g, a :: as => P g a ∧ Along cfg P (g.step cfg a) as

instance decidableAlong (cfg : ServerConfig) (P : Gateway → Action → Prop)
    [h : ∀ g a, Decidable (P g a)] :
    ∀ (g : Gateway) (as : List Action), Decidable (Along cfg P g as)
  | _, [] => isTrue trivial
  | g, a :: as =>
    have := decidableAlong cfg P (g.step cfg a) as
    inferInstanceAs (Decidable (_ ∧ _))

/-- What every step keeps that meets the condition, the whole run keeps. -/
theorem Along.keeps {cfg : ServerConfig} {P : Gateway → Action → Prop} {I : Gateway → Prop}
    (hstep : ∀ g a, I g → P g a → I (g.step cfg a)) {g : Gateway} {as : List Action}
    (h : Along cfg P g as) (hg : I g) : I (g.run cfg as) := by
  induction as generalizing g with
  | nil => exact hg
  | cons a as ih => exact ih h.2 (hstep g a hg h.1)

theorem Along.also {cfg : ServerConfig} {P : Gateway → Action → Prop} {Q : Action → Prop}
    {g : Gateway} {as : List Action} (h : Along cfg P g as) (hall : ∀ a ∈ as, Q a) :
    Along cfg (fun g a => Q a ∧ P g a) g as := by
  induction as generalizing g with
  | nil => trivial
  | cons a as ih =>
    exact ⟨⟨hall a List.mem_cons_self, h.1⟩, ih h.2 fun b hb => hall b (List.mem_cons_of_mem _ hb)⟩

/-- What a step that meets the condition does in a state that meets the
invariant, every step of the run does. -/
theorem Along.leads {cfg : ServerConfig} {P Q : Gateway → Action → Prop} {I : Gateway → Prop}
    (hstep : ∀ g a, I g → P g a → I (g.step cfg a) ∧ Q g a) {g : Gateway} {as : List Action}
    (h : Along cfg P g as) (hg : I g) : Along cfg Q g as := by
  induction as generalizing g with
  | nil => trivial
  | cons a as ih =>
    obtain ⟨hg', hq⟩ := hstep g a hg h.1
    exact ⟨hq, ih h.2 hg'⟩

/-- A condition on the steps is exact if it keeps an invariant, and the next
state is not safe without it. -/
theorem along_iff {cfg : ServerConfig} {P : Gateway → Action → Prop} {I S : Gateway → Prop}
    (hsafe : ∀ g, I g → S g) (hneeded : ∀ g a, I g → S (g.step cfg a) → P g a)
    (hstep : ∀ g a, I g → P g a → I (g.step cfg a)) {g : Gateway} (hg : I g) (as : List Action) :
    (∀ bs, bs <+: as → S (g.run cfg bs)) ↔ Along cfg P g as := by
  induction as generalizing g with
  | nil =>
    refine ⟨fun _ => trivial, fun _ bs hbs => ?_⟩
    rw [List.prefix_nil.mp hbs]
    exact hsafe g hg
  | cons a as ih =>
    constructor
    · intro h
      have hp : P g a := hneeded g a hg (h [a] (by simp))
      refine ⟨hp, (ih (hstep g a hg hp)).mp fun bs hbs => ?_⟩
      exact h (a :: bs) (List.cons_prefix_cons.mpr ⟨rfl, hbs⟩)
    · rintro ⟨hp, hrest⟩ bs hbs
      cases bs with
      | nil => exact hsafe g hg
      | cons b bs =>
        obtain ⟨rfl, hrun⟩ := List.cons_prefix_cons.mp hbs
        exact (ih (hstep g b hg hp)).mpr hrest bs hrun

theorem along_append {cfg : ServerConfig} {P : Gateway → Action → Prop} {g : Gateway}
    {as bs : List Action} :
    Along cfg P g (as ++ bs) ↔ Along cfg P g as ∧ Along cfg P (g.run cfg as) bs := by
  induction as generalizing g with
  | nil => simp [Along, Gateway.run]
  | cons a as ih => simp [Along, Gateway.run, ih, and_assoc]

end OrderMatching.Threads
