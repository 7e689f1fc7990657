import OrderMatching.Spsc

namespace OrderMatching.Parking

open OrderMatching.Spsc

/-- `signal`: the flag is loaded, and a byte written only if it was set. -/
inductive Signal where
  | loadParked
  | writePipe

/-- The network thread in `submit`. -/
inductive Network where
  | idle
  | pushing
  | signal (s : Signal)

/-- `has_work` looks at the queue, and at the running flag if that is empty. -/
inductive HasWork where
  | queue
  | running

/-- The matching thread in its loop of `wait` and `drain`. -/
inductive Matching where
  | loop
  | spin (left : Nat) (w : HasWork)
  | park
  | recheck (w : HasWork)
  | unpark
  | blocked
  | wake
  | drainPipe
  | drainQueue
  | sweep
  | stopped

structure State (α : Type) where
  inbound : SpscQueue α
  running : Bool
  parked : Bool
  /-- The unread bytes of the wake-up pipe. -/
  pipe : Nat
  network : Network
  matching : Matching
  stopper : Option Signal

inductive Action (α : Type) where
  | submit (o : α)
  | network
  | matching
  | timeout
  | stop
  | stopper

variable {α : Type}

def State.initial (buffer : Nat → α) : State α :=
  ⟨.initial buffer, true, false, 0, .idle, .loop, none⟩

def advance (n : Nat) (call : Spsc.Action α) (q : SpscQueue α) : SpscQueue α × Option (Outcome α) :=
  match q.consumer with
  | .idle => q.step n id call
  | _ => q.step n id .consumer

section Steps

variable (n spins room : Nat)

def write (pipe : Nat) : Nat := if pipe < room + 1 then pipe + 1 else pipe

def State.stepSignal (s : State α) : Signal → State α × Option Signal
  | .loadParked => (s, if s.parked = true then some .writePipe else none)
  | .writePipe => ({ s with pipe := write room s.pipe }, none)

def State.stepNetwork (s : State α) : State α :=
  match s.network with
  | .idle => s
  | .pushing =>
    let (q, out) := s.inbound.step n id .producer
    { s with
      inbound := q
      network := match out with
        | some (.pushed _ true) => .signal .loadParked
        | some (.pushed _ false) => .idle
        | _ => .pushing }
  | .signal g =>
    let (s', g') := s.stepSignal room g
    { s' with network := match g' with
        | some g' => .signal g'
        | none => .idle }

/-- What `has_work` leads to: `yes` if it is true, `next` while it goes on, `no`
if there is nothing to do. -/
def State.stepHasWork (s : State α) (yes no : Matching) (next : HasWork → Matching) :
    HasWork → State α
  | .queue =>
    let (q, out) := advance n .callEmpty s.inbound
    { s with
      inbound := q
      matching := match out with
        | some (.empty true) => next .running
        | some (.empty false) => yes
        | _ => next .queue }
  | .running => { s with matching := if s.running = true then no else yes }

def State.stepDrain (s : State α) (done again : Matching) : State α :=
  let (q, out) := advance n .callPop s.inbound
  { s with
    inbound := q
    matching := match out with
      | some (.popped none) => done
      | _ => again }

def spinning : Nat → Matching
  | 0 => .park
  | k + 1 => .spin k .queue

def State.stepMatching (s : State α) : State α :=
  match s.matching with
  | .loop => { s with matching := if s.running = true then spinning spins else .sweep }
  | .spin left w => s.stepHasWork n .drainQueue (spinning left) (.spin left) w
  | .park => { s with
      parked := true
      matching := .recheck .queue }
  | .recheck w => s.stepHasWork n .unpark .blocked .recheck w
  | .unpark => { s with
      parked := false
      matching := .drainQueue }
  | .blocked => { s with matching := if 0 < s.pipe then .wake else .blocked }
  | .wake => { s with
      parked := false
      matching := .drainPipe }
  | .drainPipe => { s with
      pipe := s.pipe - min 256 s.pipe
      matching := if 256 ≤ s.pipe then .drainPipe else .drainQueue }
  | .drainQueue => s.stepDrain n .loop .drainQueue
  | .sweep => s.stepDrain n .stopped .sweep
  | .stopped => s

def State.step (a : Action α) (s : State α) : State α :=
  match a with
  | .submit o =>
    match s.network with
    | .idle => { s with
        inbound := (s.inbound.step n id (.callPush o)).1
        network := .pushing }
    | _ => s
  | .network => s.stepNetwork n room
  | .matching => s.stepMatching n spins
  | .timeout =>
    match s.matching with
    | .blocked => { s with matching := .wake }
    | _ => s
  | .stop => { s with
      running := false
      stopper := some .loadParked }
  | .stopper =>
    match s.stopper with
    | none => s
    | some g => { (s.stepSignal room g).1 with stopper := (s.stepSignal room g).2 }

def State.run (as : List (Action α)) (s : State α) : State α :=
  as.foldl (fun s a => s.step n spins room a) s

end Steps

def Matching.committed : Matching → Prop
  | .recheck _ => True
  | .blocked => True
  | _ => False

def Matching.waiting : Matching → Prop
  | .recheck .running => True
  | .blocked => True
  | _ => False

def Network.signalling : Network → Prop
  | .signal _ => True
  | _ => False

theorem Matching.waiting.committed {m : Matching} (h : m.waiting) : m.committed := by
  cases m with
  | recheck w => trivial
  | blocked => trivial
  | _ => exact h

theorem advance_step (n : Nat) (call : Spsc.Action α) (q : SpscQueue α) :
    ∃ a, advance n call q = q.step n id a := by
  unfold advance
  cases q.consumer <;> exact ⟨_, rfl⟩

/-- While the matching thread waits, a command in the queue has a byte in the pipe
or a signal on its way. -/
structure Awake (n : Nat) (q : List α) (s : State α) : Prop where
  holds : Holds n q s.inbound
  parked : s.matching.committed → s.parked = true
  covered : s.matching.waiting → q ≠ [] → 0 < s.pipe ∨ s.network.signalling

theorem awake_initial (n : Nat) (buffer : Nat → α) : Awake n [] (.initial buffer) where
  holds := holds_initial n buffer
  parked h := h.elim
  covered h := h.elim

theorem write_pos (room pipe : Nat) : 0 < write room pipe := by
  unfold write
  split <;> omega

theorem ne_nil_before {n : Nat} {q q' : List α} {out : Option (Outcome α)}
    (heffect : After n q out q') (hout : ∀ o, out ≠ some (.pushed o true)) (hq' : q' ≠ []) :
    q ≠ [] := by
  cases out with
  | none =>
    obtain rfl : q' = q := heffect
    exact hq'
  | some out =>
    cases out with
    | pushed o ok =>
      cases ok with
      | true => exact absurd rfl (hout o)
      | false =>
        obtain rfl : q' = q := heffect.2
        exact hq'
    | popped out =>
      cases out with
      | none => exact absurd heffect.2 hq'
      | some o =>
        have hq : q = o :: q' := heffect
        rw [hq]
        exact List.cons_ne_nil o q'
    | empty b =>
      obtain rfl : q' = q := heffect.2
      exact hq'

section Steps

variable {n : Nat} (spins room : Nat) {q : List α} {s : State α}

theorem Awake.submit (h : Awake n q s) (o : α) :
    ∃ q', Awake n q' (s.step n spins room (.submit o)) := by
  unfold State.step
  cases hnet : s.network with
  | idle =>
    obtain ⟨q', hq', heffect⟩ := h.holds.step id (.callPush o)
    refine ⟨q', hq', h.parked, fun hwait hne => ?_⟩
    -- the call itself publishes nothing yet
    have hout : ∀ o', (s.inbound.step n id (.callPush o)).2 ≠ some (.pushed o' true) := by
      unfold SpscQueue.step
      cases s.inbound.producer <;> simp
    obtain hpipe | hsig := h.covered hwait (ne_nil_before heffect hout hne)
    · exact .inl hpipe
    · rw [hnet] at hsig
      exact hsig.elim
  | pushing => exact ⟨q, h⟩
  | signal g => exact ⟨q, h⟩

theorem Awake.network (h : Awake n q s) : ∃ q', Awake n q' (s.stepNetwork n room) := by
  unfold State.stepNetwork
  cases hnet : s.network with
  | idle => exact ⟨q, h⟩
  | pushing =>
    obtain ⟨q', hq', heffect⟩ := h.holds.step id .producer
    refine ⟨q', hq', h.parked, fun hwait hne => ?_⟩
    by_cases hpub : ∃ o, (s.inbound.step n id .producer).2 = some (.pushed o true)
    · obtain ⟨o, ho⟩ := hpub
      right
      simp only [ho]
      trivial
    · have hpub := not_exists.mp hpub
      obtain hpipe | hsig := h.covered hwait (ne_nil_before heffect hpub hne)
      · exact .inl hpipe
      · rw [hnet] at hsig
        exact hsig.elim
  | signal g =>
    cases g with
    | loadParked =>
      refine ⟨q, h.holds, h.parked, fun hwait _ => .inr ?_⟩
      have hparked : s.parked = true := h.parked (Matching.waiting.committed hwait)
      simp only [State.stepSignal, if_pos hparked]
      trivial
    | writePipe => exact ⟨q, h.holds, h.parked, fun _ _ => .inl (write_pos room s.pipe)⟩

/-- Looking for work before blocking finds the queue empty at the step at which it
goes on to the flag. -/
theorem Awake.recheck (h : Awake n q s) {w : HasWork} (hw : s.matching = .recheck w) :
    ∃ q', Awake n q' (s.stepHasWork n .unpark .blocked .recheck w) := by
  have hparked : s.parked = true := h.parked (by rw [hw]; trivial)
  cases w with
  | queue =>
    obtain ⟨a, ha⟩ := advance_step n .callEmpty s.inbound
    obtain ⟨q', hq', heffect⟩ := h.holds.step id a
    refine ⟨q', ?_, fun _ => hparked, ?_⟩
    · simpa only [State.stepHasWork, ha] using hq'
    · simp only [State.stepHasWork, ha]
      intro hwait hne
      cases hout : (s.inbound.step n id a).2 with
      | none =>
        rw [hout] at hwait
        exact hwait.elim
      | some out =>
        rw [hout] at hwait heffect
        cases out with
        | pushed o ok => exact hwait.elim
        | popped o => exact hwait.elim
        | empty b =>
          cases b with
          | false => exact hwait.elim
          | true =>
            obtain ⟨hnil, rfl⟩ := heffect
            exact absurd (hnil.mp rfl) hne
  | running =>
    refine ⟨q, h.holds, fun _ => hparked, fun _ hne => h.covered ?_ hne⟩
    rw [hw]
    trivial

theorem awake_elsewhere {s' : State α} (hin : ∃ q', Holds n q' s'.inbound)
    (hm : ¬s'.matching.committed) :
    ∃ q', Awake n q' s' := by
  obtain ⟨q', hq'⟩ := hin
  exact ⟨q', hq', fun hc => absurd hc hm, fun hwait => absurd (Matching.waiting.committed hwait) hm⟩

theorem Awake.advanced (h : Awake n q s) (call : Spsc.Action α) :
    ∃ q', Holds n q' (advance n call s.inbound).1 := by
  obtain ⟨a, ha⟩ := advance_step n call s.inbound
  obtain ⟨q', hq', -⟩ := h.holds.step id a
  rw [ha]
  exact ⟨q', hq'⟩

theorem spinning_not_committed (k : Nat) : ¬(spinning k).committed := by
  cases k <;> exact id

theorem Awake.matching (h : Awake n q s) : ∃ q', Awake n q' (s.stepMatching n spins) := by
  unfold State.stepMatching
  cases hm : s.matching with
  | loop =>
    refine awake_elsewhere ⟨q, h.holds⟩ ?_
    change ¬(if s.running = true then spinning spins else .sweep).committed
    split
    · exact spinning_not_committed spins
    · exact id
  | spin left w =>
    cases w with
    | queue =>
      refine awake_elsewhere (h.advanced .callEmpty) ?_
      simp only [State.stepHasWork]
      split <;> exact id
    | running =>
      refine awake_elsewhere ⟨q, h.holds⟩ ?_
      simp only [State.stepHasWork]
      split
      · exact spinning_not_committed left
      · exact id
  | park => exact ⟨q, h.holds, fun _ => rfl, fun hwait => hwait.elim⟩
  | recheck w => exact h.recheck hm
  | unpark => exact awake_elsewhere ⟨q, h.holds⟩ id
  | blocked =>
    have hparked : s.parked = true := h.parked (by rw [hm]; trivial)
    refine ⟨q, h.holds, fun _ => hparked, fun _ hne => h.covered ?_ hne⟩
    rw [hm]
    trivial
  | wake => exact awake_elsewhere ⟨q, h.holds⟩ id
  | drainPipe =>
    refine awake_elsewhere ⟨q, h.holds⟩ ?_
    change ¬(if 256 ≤ s.pipe then Matching.drainPipe else .drainQueue).committed
    split <;> exact id
  | drainQueue =>
    refine awake_elsewhere (h.advanced .callPop) ?_
    simp only [State.stepDrain]
    split <;> exact id
  | sweep =>
    refine awake_elsewhere (h.advanced .callPop) ?_
    simp only [State.stepDrain]
    split <;> exact id
  | stopped => exact ⟨q, h⟩

theorem Awake.step (h : Awake n q s) (a : Action α) : ∃ q', Awake n q' (s.step n spins room a) := by
  cases a with
  | submit o => exact h.submit spins room o
  | network => exact h.network room
  | matching => exact h.matching spins
  | timeout =>
    unfold State.step
    cases hm : s.matching with
    | blocked => exact awake_elsewhere ⟨q, h.holds⟩ id
    | _ => exact ⟨q, h⟩
  | stop => exact ⟨q, h.holds, h.parked, h.covered⟩
  | stopper =>
    unfold State.step
    cases hg : s.stopper with
    | none => exact ⟨q, h⟩
    | some g =>
      cases g with
      | loadParked => exact ⟨q, h.holds, h.parked, h.covered⟩
      | writePipe => exact ⟨q, h.holds, h.parked, fun _ _ => .inl (write_pos room s.pipe)⟩

theorem Awake.run (h : Awake n q s) (as : List (Action α)) :
    ∃ q', Awake n q' (s.run n spins room as) := by
  induction as generalizing s q with
  | nil => exact ⟨q, h⟩
  | cons a as ih =>
    obtain ⟨q', h'⟩ := h.step spins room a
    exact ih h'

end Steps

/-- The matching thread is never left asleep: where it is blocked, the queue is
not empty and nobody is about to signal, the pipe has a byte and the poll
returns. -/
theorem no_missed_wakeup (n spins room : Nat) (buffer : Nat → α) (as : List (Action α))
    {s : State α} (hs : (State.initial buffer).run n spins room as = s)
    (hblocked : s.matching = .blocked) (hqueue : s.inbound.tail ≠ s.inbound.head)
    (hquiet : ¬s.network.signalling) :
    0 < s.pipe ∧ (s.step n spins room .matching).matching = .wake := by
  obtain ⟨q, h⟩ := (awake_initial n buffer).run spins room as
  rw [hs] at h
  have hne : q ≠ [] := fun hnil => hqueue (h.holds.empty_iff.mpr hnil)
  have hwait : s.matching.waiting := by
    rw [hblocked]
    trivial
  have hpipe : 0 < s.pipe := (h.covered hwait hne).resolve_right hquiet
  refine ⟨hpipe, ?_⟩
  simp only [State.step, State.stepMatching, hblocked, if_pos hpipe]

def sleeping : List (Action Nat) :=
  List.replicate 6 .matching ++ (.submit 7 :: List.replicate 6 .network)

theorem sleeping_woken :
    ((State.initial fun _ => 0).run 1 0 0 sleeping).matching = .blocked ∧
      0 < ((State.initial fun _ => 0).run 1 0 0 sleeping).pipe ∧
      (((State.initial fun _ => 0).run 1 0 0 sleeping).step 1 0 0 .matching).matching = .wake :=
  ⟨rfl, no_missed_wakeup 1 0 0 (fun _ => 0) sleeping rfl rfl (by decide) id⟩

end OrderMatching.Parking
