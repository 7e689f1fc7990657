import OrderMatching.Parking

namespace OrderMatching.Shutdown

open OrderMatching.Spsc OrderMatching.Parking

variable {α : Type}

/-- In a call of `empty`, or in none. -/
def Emptying : Consumer α → Prop
  | .idle | .emptyLoadTail | .emptyLoadHead _ => True
  | _ => False

/-- In a call of `pop`, or in none. -/
def Popping : Consumer α → Prop
  | .idle | .popLoadTail | .popLoadHead _ | .readSlot _ | .storeTail _ _ => True
  | _ => False

/-- Where the matching thread stands in the queue is where its own line has taken
it. -/
def Placed : Matching → Consumer α → Prop
  | .spin _ .queue, c | .recheck .queue, c => Emptying c
  | .drainQueue, c | .sweep, c => Popping c
  | _, c => c = .idle

/-- The steps that are left of a call of `empty`. -/
def emptyLeft : Consumer α → Nat
  | .idle => 3
  | .emptyLoadTail => 2
  | .emptyLoadHead _ => 1
  | _ => 0

def popLeft : Consumer α → Nat
  | .idle => 4
  | .popLoadTail => 3
  | .popLoadHead _ => 2
  | .readSlot _ => 1
  | _ => 0

section Calls

variable (n : Nat) {r : SpscQueue α}

theorem advance_empty (h : Emptying r.consumer) :
    ((advance n .callEmpty r).2 = none ∧ Emptying (advance n .callEmpty r).1.consumer ∧
        emptyLeft (advance n .callEmpty r).1.consumer < emptyLeft r.consumer) ∨
      ((∃ b, (advance n .callEmpty r).2 = some (.empty b)) ∧
        (advance n .callEmpty r).1.consumer = .idle) := by
  unfold advance
  cases hc : r.consumer with
  | idle => simp [SpscQueue.step, hc, Emptying, emptyLeft]
  | emptyLoadTail => simp [SpscQueue.step, SpscQueue.stepConsumer, hc, Emptying, emptyLeft]
  | emptyLoadHead t => simp [SpscQueue.step, SpscQueue.stepConsumer, hc]
  | _ =>
    rw [hc] at h
    exact h.elim

theorem advance_pop (h : Popping r.consumer) :
    ((advance n .callPop r).2 = none ∧ Popping (advance n .callPop r).1.consumer ∧
        popLeft (advance n .callPop r).1.consumer < popLeft r.consumer) ∨
      ((∃ out, (advance n .callPop r).2 = some (.popped out)) ∧
        (advance n .callPop r).1.consumer = .idle) := by
  unfold advance
  cases hc : r.consumer with
  | idle => simp [SpscQueue.step, hc, Popping, popLeft]
  | popLoadTail => simp [SpscQueue.step, SpscQueue.stepConsumer, hc, Popping, popLeft]
  | popLoadHead t =>
    by_cases ht : t = r.head <;>
      simp [SpscQueue.step, SpscQueue.stepConsumer, hc, ht, Popping, popLeft]
  | readSlot t => simp [SpscQueue.step, SpscQueue.stepConsumer, hc, Popping, popLeft]
  | storeTail t o => simp [SpscQueue.step, SpscQueue.stepConsumer, hc]
  | _ =>
    rw [hc] at h
    exact h.elim

theorem consumer_push (o : α) : (r.step n id (.callPush o)).1.consumer = r.consumer := by
  unfold SpscQueue.step
  cases r.producer <;> rfl

theorem consumer_producer : (r.step n id .producer).1.consumer = r.consumer := by
  unfold SpscQueue.step SpscQueue.stepProducer
  dsimp only
  split
  · rfl
  · rfl
  · split <;> rfl
  · rfl
  · rfl

end Calls

section Steps

variable {n : Nat} (spins room : Nat) {q : List α} {s : State α}

theorem placed_spinning (k : Nat) : Placed (spinning k) (.idle : Consumer α) := by
  cases k with
  | zero => rfl
  | succ k => trivial

theorem placed_hasWork {yes no : Matching} {next : HasWork → Matching} {w : HasWork}
    (hnext : ∀ c : Consumer α, (Placed (next .queue) c ↔ Emptying c) ∧
      (Placed (next .running) c ↔ c = .idle))
    (hyes : Placed yes (.idle : Consumer α)) (hno : Placed no (.idle : Consumer α))
    (h : Placed (next w) s.inbound.consumer) :
    Placed (s.stepHasWork n yes no next w).matching
      (s.stepHasWork n yes no next w).inbound.consumer := by
  cases w with
  | running =>
    have hidle : s.inbound.consumer = .idle := (hnext _).2.mp h
    simp only [State.stepHasWork, hidle]
    split
    · exact hno
    · exact hyes
  | queue =>
    simp only [State.stepHasWork]
    obtain ⟨hnone, hplaced, -⟩ | ⟨⟨b, hout⟩, hidle⟩ := advance_empty n ((hnext _).1.mp h)
    · rw [hnone]
      exact (hnext _).1.mpr hplaced
    · rw [hout, hidle]
      cases b with
      | true => exact (hnext _).2.mpr rfl
      | false => exact hyes

theorem placed_drain {done again : Matching} (hagain : ∀ c : Consumer α, Placed again c ↔ Popping c)
    (hdone : Placed done (.idle : Consumer α)) (h : Placed again s.inbound.consumer) :
    Placed (s.stepDrain n done again).matching (s.stepDrain n done again).inbound.consumer := by
  simp only [State.stepDrain]
  obtain ⟨hnone, hplaced, -⟩ | ⟨⟨out, hout⟩, hidle⟩ := advance_pop n ((hagain _).mp h)
  · rw [hnone]
    exact (hagain _).mpr hplaced
  · rw [hout, hidle]
    cases out with
    | none => exact hdone
    | some o => exact (hagain _).mpr trivial

theorem placed_line {m : Matching} {c : Consumer α} (hidle : c = .idle)
    (h : Placed m (.idle : Consumer α)) :
    Placed m c :=
  hidle ▸ h

theorem placed_matching (h : Placed s.matching s.inbound.consumer) :
    Placed (s.stepMatching n spins).matching (s.stepMatching n spins).inbound.consumer := by
  unfold State.stepMatching
  cases hm : s.matching with
  | loop =>
    rw [hm] at h
    apply placed_line h
    dsimp only
    split
    · exact placed_spinning spins
    · trivial
  | spin left w =>
    rw [hm] at h
    exact placed_hasWork (fun _ => ⟨Iff.rfl, Iff.rfl⟩) trivial (placed_spinning left) h
  | park =>
    rw [hm] at h
    exact placed_line h trivial
  | recheck w =>
    rw [hm] at h
    exact placed_hasWork (fun _ => ⟨Iff.rfl, Iff.rfl⟩) rfl rfl h
  | unpark =>
    rw [hm] at h
    exact placed_line h trivial
  | blocked =>
    rw [hm] at h
    apply placed_line h
    dsimp only
    split <;> rfl
  | wake =>
    rw [hm] at h
    exact h
  | drainPipe =>
    rw [hm] at h
    apply placed_line h
    dsimp only
    split
    · rfl
    · trivial
  | drainQueue =>
    rw [hm] at h
    exact placed_drain (fun _ => Iff.rfl) rfl h
  | sweep =>
    rw [hm] at h
    exact placed_drain (fun _ => Iff.rfl) rfl h
  | stopped =>
    rw [hm] at h
    rw [hm]
    exact h

def Leaving : Matching → Prop
  | .sweep | .stopped => True
  | _ => False

structure Working (s : State α) : Prop where
  placed : Placed s.matching s.inbound.consumer
  running : s.running = true
  looping : ¬Leaving s.matching

theorem not_leaving_spinning (k : Nat) : ¬Leaving (spinning k) := by
  cases k <;> exact id

theorem running_matching (s : State α) : (s.stepMatching n spins).running = s.running := by
  unfold State.stepMatching
  cases s.matching with
  | spin left w => cases w <;> rfl
  | recheck w => cases w <;> rfl
  | _ => rfl

theorem not_leaving_hasWork {yes no : Matching} {next : HasWork → Matching} (hyes : ¬Leaving yes)
    (hno : ¬Leaving no) (hnext : ∀ w, ¬Leaving (next w)) (w : HasWork) :
    ¬Leaving (s.stepHasWork n yes no next w).matching := by
  cases w with
  | running =>
    simp only [State.stepHasWork]
    split
    · exact hno
    · exact hyes
  | queue =>
    simp only [State.stepHasWork]
    split
    · exact hnext .running
    · exact hyes
    · exact hnext .queue

theorem looping_matching (h : Working s) : ¬Leaving (s.stepMatching n spins).matching := by
  have hloop := h.looping
  unfold State.stepMatching
  cases hm : s.matching with
  | loop =>
    dsimp only
    rw [if_pos h.running]
    exact not_leaving_spinning spins
  | spin left w => exact not_leaving_hasWork id (not_leaving_spinning left) (fun _ => id) w
  | recheck w => exact not_leaving_hasWork id id (fun _ => id) w
  | blocked =>
    dsimp only
    split <;> exact id
  | drainPipe =>
    dsimp only
    split <;> exact id
  | drainQueue =>
    simp only [State.stepDrain]
    split <;> exact id
  | sweep =>
    rw [hm] at hloop
    exact absurd trivial hloop
  | stopped =>
    rw [hm] at hloop
    exact absurd trivial hloop
  | _ => exact id

theorem working_step (h : Working s) {a : Parking.Action α} (ha : a ≠ .stop) :
    Working (s.step n spins room a) := by
  obtain ⟨hplaced, hrunning, hloop⟩ := h
  cases a with
  | submit o =>
    unfold State.step
    cases s.network with
    | idle => exact ⟨by rw [consumer_push]; exact hplaced, hrunning, hloop⟩
    | _ => exact ⟨hplaced, hrunning, hloop⟩
  | network =>
    unfold State.step State.stepNetwork
    cases s.network with
    | idle => exact ⟨hplaced, hrunning, hloop⟩
    | pushing => exact ⟨by rw [consumer_producer]; exact hplaced, hrunning, hloop⟩
    | signal g => cases g <;> exact ⟨hplaced, hrunning, hloop⟩
  | matching =>
    exact ⟨placed_matching spins hplaced, (running_matching spins s).trans hrunning,
      looping_matching spins ⟨hplaced, hrunning, hloop⟩⟩
  | timeout =>
    unfold State.step
    cases hm : s.matching with
    | blocked =>
      rw [hm] at hplaced
      exact ⟨hplaced, hrunning, id⟩
    | _ => exact ⟨hplaced, hrunning, hloop⟩
  | stop => exact absurd rfl ha
  | stopper =>
    unfold State.step
    cases s.stopper with
    | none => exact ⟨hplaced, hrunning, hloop⟩
    | some g => cases g <;> exact ⟨hplaced, hrunning, hloop⟩

structure Ending (n : Nat) (q : List α) (s : State α) : Prop where
  holds : Holds n q s.inbound
  placed : Placed s.matching s.inbound.consumer
  parked : s.matching.committed → s.parked = true
  halted : s.running = false
  quiet : s.network = .idle
  swept : s.matching = .stopped → q = []
  alarmed : s.matching = .blocked → s.stopper ≠ none ∨ 0 < s.pipe

def distance (waiting pipe : Nat) (c : Consumer α) : Matching → Nat
  | .stopped => 0
  | .sweep => 5 * waiting + popLeft c + 1
  | .loop => 5 * waiting + 6
  | .drainQueue => 5 * waiting + popLeft c + 7
  | .drainPipe => pipe + 5 * waiting + 12
  | .wake => pipe + 5 * waiting + 13
  | .blocked => pipe + 5 * waiting + 14
  | .unpark => 5 * waiting + 12
  | .recheck .running => 5 * waiting + 13
  | .recheck .queue => 5 * waiting + 13 + emptyLeft c
  | .park => 5 * waiting + 17
  | .spin _ .running => 5 * waiting + 12
  | .spin _ .queue => 5 * waiting + 12 + emptyLeft c

theorem empty_effect (h : Holds n q s.inbound) (hc : Emptying s.inbound.consumer) :
    Holds n q (advance n .callEmpty s.inbound).1 := by
  obtain ⟨a, ha⟩ := advance_step n .callEmpty s.inbound
  obtain ⟨q', hq', heffect⟩ := h.step id a
  rw [← ha] at hq' heffect
  obtain ⟨hnone, -⟩ | ⟨⟨b, hout⟩, -⟩ := advance_empty n hc
  · rw [hnone] at heffect
    obtain rfl : q' = q := heffect
    exact hq'
  · rw [hout] at heffect
    obtain rfl : q' = q := heffect.2
    exact hq'

theorem pop_effect (h : Holds n q s.inbound) (hc : Popping s.inbound.consumer) :
    ((advance n .callPop s.inbound).2 = none ∧ Holds n q (advance n .callPop s.inbound).1 ∧
        Popping (advance n .callPop s.inbound).1.consumer ∧
        popLeft (advance n .callPop s.inbound).1.consumer < popLeft s.inbound.consumer) ∨
      (advance n .callPop s.inbound).1.consumer = .idle ∧
        ((advance n .callPop s.inbound).2 = some (.popped none) ∧ q = [] ∧
          Holds n [] (advance n .callPop s.inbound).1 ∨
          ∃ o q', (advance n .callPop s.inbound).2 = some (.popped (some o)) ∧ q = o :: q' ∧
            Holds n q' (advance n .callPop s.inbound).1) := by
  obtain ⟨a, ha⟩ := advance_step n .callPop s.inbound
  obtain ⟨q', hq', heffect⟩ := h.step id a
  rw [← ha] at hq' heffect
  obtain ⟨hnone, hin, hless⟩ | ⟨⟨out, hout⟩, hidle⟩ := advance_pop n hc
  · rw [hnone] at heffect
    obtain rfl : q' = q := heffect
    exact .inl ⟨hnone, hq', hin, hless⟩
  · rw [hout] at heffect
    refine .inr ⟨hidle, ?_⟩
    cases out with
    | none =>
      obtain ⟨hnil, rfl⟩ := heffect
      exact .inl ⟨hout, hnil, hq'⟩
    | some o => exact .inr ⟨o, q', hout, heffect, hq'⟩

def Closer (n : Nat) (q : List α) (s s' : State α) : Prop :=
  ∃ q', Ending n q' s' ∧ distance q'.length s'.pipe s'.inbound.consumer s'.matching <
    distance q.length s.pipe s.inbound.consumer s.matching

theorem closer_line (h : Ending n q s) (hidle : s.inbound.consumer = .idle) {m : Matching}
    {parked : Bool} {pipe : Nat} (hplaced : Placed m (.idle : Consumer α))
    (hnever : m ≠ .stopped ∧ m ≠ .blocked) (hparked : m.committed → parked = true)
    (hless : distance q.length pipe (.idle : Consumer α) m <
      distance q.length s.pipe (.idle : Consumer α) s.matching) :
    Closer n q s { s with parked := parked, pipe := pipe, matching := m } := by
  rw [← hidle] at hplaced hless
  exact ⟨q, ⟨h.holds, hplaced, hparked, h.halted, h.quiet, fun hm => absurd hm hnever.1,
    fun hm => absurd hm hnever.2⟩, hless⟩

theorem closer_call (h : Ending n q s) {r : SpscQueue α} {q' : List α} {m : Matching}
    (hholds : Holds n q' r) (hplaced : Placed m r.consumer)
    (hparked : m.committed → s.parked = true) (hswept : m = .stopped → q' = [])
    (hblocked : m ≠ .blocked)
    (hless : distance q'.length s.pipe r.consumer m <
      distance q.length s.pipe s.inbound.consumer s.matching) :
    Closer n q s { s with inbound := r, matching := m } :=
  ⟨q', ⟨hholds, hplaced, hparked, h.halted, h.quiet, hswept, fun hm => absurd hm hblocked⟩, hless⟩

theorem emptyLeft_pos {c : Consumer α} (h : Emptying c) : 0 < emptyLeft c := by
  cases c with
  | idle => exact Nat.succ_pos 2
  | emptyLoadTail => exact Nat.succ_pos 1
  | emptyLoadHead t => exact Nat.succ_pos 0
  | _ => exact h.elim

theorem hasWork_halted (h : s.running = false) (yes no : Matching) (next : HasWork → Matching) :
    s.stepHasWork n yes no next .running = { s with matching := yes } := by
  rw [State.stepHasWork, if_neg (by simp [h])]

theorem closer_hasWork (h : Ending n q s) {yes no : Matching} {next : HasWork → Matching}
    {w : HasWork} (hm : s.matching = next w)
    (hnext : ∀ c : Consumer α, (Placed (next .queue) c ↔ Emptying c) ∧
      (Placed (next .running) c ↔ c = .idle))
    (hyes : Placed yes (.idle : Consumer α)) (hnever : ∀ w, next w ≠ .stopped ∧ next w ≠ .blocked)
    (hyesNever : yes ≠ .stopped ∧ yes ≠ .blocked)
    (hparked : ∀ w, (next w).committed → s.parked = true) (hcommitted : ¬yes.committed) (base : Nat)
    (hfar : ∀ k (c : Consumer α), distance k s.pipe c (next .queue) = base + 5 * k + emptyLeft c ∧
      distance k s.pipe c (next .running) = base + 5 * k)
    (hnear : ∀ k, distance k s.pipe (.idle : Consumer α) yes < base + 5 * k) :
    Closer n q s (s.stepHasWork n yes no next w) := by
  have hplaced := h.placed
  rw [hm] at hplaced
  cases w with
  | running =>
    have hidle := (hnext _).2.mp hplaced
    rw [hasWork_halted h.halted]
    apply closer_line h hidle hyes hyesNever fun hc => absurd hc hcommitted
    rw [hm, (hfar _ _).2]
    exact hnear _
  | queue =>
    have hin := (hnext _).1.mp hplaced
    have hholds := empty_effect h.holds hin
    have hstart : distance q.length s.pipe s.inbound.consumer s.matching =
        base + 5 * q.length + emptyLeft s.inbound.consumer := by rw [hm, (hfar _ _).1]
    have hpos := emptyLeft_pos hin
    rw [State.stepHasWork]
    obtain ⟨hnone, hin', hless⟩ | ⟨⟨b, hout⟩, hidle⟩ := advance_empty n hin
    · simp only [hnone]
      apply closer_call h hholds ((hnext _).1.mpr hin') (hparked _)
        (fun he => absurd he (hnever _).1) (hnever _).2
      rw [hstart, (hfar _ _).1]
      omega
    · simp only [hout]
      cases b with
      | true =>
        apply closer_call h hholds ((hnext _).2.mpr hidle) (hparked _)
          (fun he => absurd he (hnever _).1) (hnever _).2
        rw [hstart, (hfar _ _).2]
        omega
      | false =>
        apply closer_call h hholds (placed_line hidle hyes) (fun hc => absurd hc hcommitted)
          (fun he => absurd he hyesNever.1) hyesNever.2
        rw [hstart, hidle]
        exact Nat.lt_of_lt_of_le (hnear _) (Nat.le_add_right _ _)

theorem closer_spin (h : Ending n q s) {left : Nat} {w : HasWork} (hm : s.matching = .spin left w)
    (no : Matching) :
    Closer n q s (s.stepHasWork n .drainQueue no (.spin left) w) := by
  refine closer_hasWork h hm (fun _ => ⟨Iff.rfl, Iff.rfl⟩) trivial (by simp) (by simp)
    (fun _ hc => hc.elim) id 12 ?_ ?_
  · intro k c
    simp only [distance]
    omega
  · intro k
    simp only [distance, popLeft]
    omega

theorem closer_recheck (h : Ending n q s) {w : HasWork} (hm : s.matching = .recheck w) :
    Closer n q s (s.stepHasWork n .unpark .blocked .recheck w) := by
  have hparked : s.parked = true := h.parked (by rw [hm]; trivial)
  refine closer_hasWork h hm (fun _ => ⟨Iff.rfl, Iff.rfl⟩) rfl (by simp) (by simp)
    (fun _ _ => hparked) id 13 ?_ ?_
  · intro k c
    simp only [distance]
    omega
  · intro k
    simp only [distance]
    omega

theorem closer_drain (h : Ending n q s) {done again : Matching} (hm : s.matching = again)
    (hagain : ∀ c : Consumer α, Placed again c ↔ Popping c)
    (hdone : Placed done (.idle : Consumer α)) (hnever : again ≠ .stopped)
    (hblocked : done ≠ .blocked ∧ again ≠ .blocked)
    (hcommitted : ¬done.committed ∧ ¬again.committed) (base : Nat)
    (hfar : ∀ k (c : Consumer α), distance k s.pipe c again = 5 * k + popLeft c + base)
    (hnear : distance 0 s.pipe (.idle : Consumer α) done < base) :
    Closer n q s (s.stepDrain n done again) := by
  have hplaced := h.placed
  rw [hm, hagain] at hplaced
  have hstart : distance q.length s.pipe s.inbound.consumer s.matching =
      5 * q.length + popLeft s.inbound.consumer + base := by rw [hm, hfar]
  rw [State.stepDrain]
  obtain ⟨hnone, hholds, hin, hless⟩ | ⟨hidle, ⟨hout, rfl, hholds⟩ | ⟨o, q', hout, rfl, hholds⟩⟩ :=
    pop_effect h.holds hplaced
  · simp only [hnone]
    refine closer_call h hholds ((hagain _).mpr hin) (fun hc => absurd hc hcommitted.2)
      (fun he => absurd he hnever) hblocked.2 ?_
    rw [hstart, hfar]
    omega
  · simp only [hout]
    refine closer_call h hholds (by rwa [hidle]) (fun hc => absurd hc hcommitted.1)
      (fun _ => rfl) hblocked.1 ?_
    rw [hstart, hidle, List.length_nil]
    omega
  · simp only [hout]
    refine closer_call h hholds (by rw [hidle]; exact (hagain _).mpr trivial)
      (fun hc => absurd hc hcommitted.2) (fun he => absurd he hnever) hblocked.2 ?_
    rw [hstart, hidle, hfar, List.length_cons]
    simp only [popLeft]
    omega

/-- Every step of the matching thread brings it closer to its end, unless it
sleeps. -/
theorem closer_matching (h : Ending n q s) (hstopped : s.matching ≠ .stopped)
    (hawake : s.matching = .blocked → 0 < s.pipe) : Closer n q s (s.stepMatching n spins) := by
  have hplaced := h.placed
  unfold State.stepMatching
  cases hm : s.matching with
  | loop =>
    rw [hm] at hplaced
    simp only [if_neg (ne_true_of_eq_false h.halted)]
    apply closer_line h hplaced
    · trivial
    · simp
    · exact fun hc => hc.elim
    · simp [hm, distance, popLeft]
  | spin left w => exact closer_spin h hm _
  | park =>
    rw [hm] at hplaced
    apply closer_line h hplaced
    · trivial
    · simp
    · exact fun _ => rfl
    · simp [hm, distance, emptyLeft]
  | recheck w => exact closer_recheck h hm
  | unpark =>
    rw [hm] at hplaced
    apply closer_line h hplaced
    · trivial
    · simp
    · exact fun hc => hc.elim
    · simp [hm, distance, popLeft]
  | blocked =>
    rw [hm] at hplaced
    simp only [if_pos (hawake hm)]
    apply closer_line h hplaced
    · rfl
    · simp
    · exact fun hc => hc.elim
    · simp [hm, distance]
  | wake =>
    rw [hm] at hplaced
    apply closer_line h hplaced
    · rfl
    · simp
    · exact fun hc => hc.elim
    · simp [hm, distance]
  | drainPipe =>
    rw [hm] at hplaced
    dsimp only
    split
    · rename_i hmany
      apply closer_line h hplaced
      · rfl
      · simp
      · exact fun hc => hc.elim
      · simp only [hm, distance]
        omega
    · apply closer_line h hplaced
      · trivial
      · simp
      · exact fun hc => hc.elim
      · simp only [hm, distance, popLeft]
        omega
  | drainQueue =>
    have hdone : Placed .loop (.idle : Consumer α) := rfl
    exact closer_drain h hm (fun _ => Iff.rfl) hdone (by simp) (by simp) ⟨id, id⟩ 7 (fun _ _ => rfl)
      (Nat.lt_succ_self 6)
  | sweep =>
    have hdone : Placed .stopped (.idle : Consumer α) := rfl
    exact closer_drain h hm (fun _ => Iff.rfl) hdone (by simp) (by simp) ⟨id,
      id⟩ 1 (fun _ _ => rfl) Nat.zero_lt_one
  | stopped => exact absurd hm hstopped

theorem ending_matching (h : Ending n q s) : ∃ q', Ending n q' (s.stepMatching n spins) := by
  by_cases hstopped : s.matching = .stopped
  · have hsame : s.stepMatching n spins = s := by rw [State.stepMatching, hstopped]
    rw [hsame]
    exact ⟨q, h⟩
  · by_cases hawake : s.matching = .blocked → 0 < s.pipe
    · obtain ⟨q', h', -⟩ := closer_matching spins h hstopped hawake
      exact ⟨q', h'⟩
    · obtain ⟨hblocked, hempty⟩ := Classical.not_imp.mp hawake
      have hsame : s.stepMatching n spins = s := by
        cases s
        cases hblocked
        exact congrArg (State.mk _ _ _ _ _ · _) (if_neg hempty)
      rw [hsame]
      exact ⟨q, h⟩

theorem ending_step (h : Ending n q s) {a : Parking.Action α} (ha : ∀ o, a ≠ .submit o) :
    ∃ q', Ending n q' (s.step n spins room a) := by
  cases a with
  | submit o => exact absurd rfl (ha o)
  | network =>
    have hsame : s.stepNetwork n room = s := by rw [State.stepNetwork, h.quiet]
    rw [State.step, hsame]
    exact ⟨q, h⟩
  | matching => exact ending_matching spins h
  | timeout =>
    unfold State.step
    cases hm : s.matching with
    | blocked =>
      have hplaced := h.placed
      rw [hm] at hplaced
      exact ⟨q, h.holds, hplaced, fun hc => hc.elim, h.halted, h.quiet, by simp, by simp⟩
    | _ => exact ⟨q, h⟩
  | stop => exact ⟨q, h.holds, h.placed, h.parked, rfl, h.quiet, h.swept,
      fun _ => .inl (Option.some_ne_none _)⟩
  | stopper =>
    unfold State.step
    cases hg : s.stopper with
    | none => exact ⟨q, h⟩
    | some g =>
      cases g with
      | loadParked =>
        refine ⟨q, h.holds, h.placed, h.parked, h.halted, h.quiet, h.swept, fun hm => .inl ?_⟩
        have hparked : s.parked = true :=
          h.parked (by rw [show s.matching = .blocked from hm]; trivial)
        simp [State.stepSignal, hparked]
      | writePipe =>
        exact ⟨q, h.holds, h.placed, h.parked, h.halted, h.quiet, h.swept,
          fun _ => .inr (write_pos room s.pipe)⟩

theorem ending_run (h : Ending n q s) {as : List (Parking.Action α)} (has : ∀ o, .submit o ∉ as) :
    ∃ q', Ending n q' (s.run n spins room as) := by
  induction as generalizing s q with
  | nil => exact ⟨q, h⟩
  | cons a as ih =>
    have ha : ∀ o, a ≠ .submit o := fun o ho => has o (ho ▸ List.mem_cons_self)
    obtain ⟨q', h'⟩ := ending_step spins room h ha
    exact ih h' fun o ho => has o (List.mem_cons_of_mem _ ho)

theorem stopper_matching (s : State α) : (s.stepMatching n spins).stopper = s.stopper := by
  unfold State.stepMatching
  cases s.matching with
  | spin left w => cases w <;> rfl
  | recheck w => cases w <;> rfl
  | _ => rfl

/-- Left to itself, it reaches its end. -/
theorem reaches_end (h : Ending n q s) (hs : s.stopper = none) :
    ∃ k, (s.run n spins room (List.replicate k .matching)).matching = .stopped := by
  induction hd :
    distance q.length s.pipe s.inbound.consumer
      s.matching using Nat.strongRecOn generalizing s q with
  | ind d ih =>
    by_cases hstopped : s.matching = .stopped
    · exact ⟨0, hstopped⟩
    · have hawake : s.matching = .blocked → 0 < s.pipe :=
        fun hm => (h.alarmed hm).resolve_left (not_not.mpr hs)
      obtain ⟨q', h', hless⟩ := closer_matching spins h hstopped hawake
      obtain ⟨k, hk⟩ := ih _ (hd ▸ hless) h' ((stopper_matching spins s).trans hs) rfl
      exact ⟨k + 1, hk⟩

theorem working_run (h : Working s) {as : List (Parking.Action α)} (has : .stop ∉ as) :
    Working (s.run n spins room as) := by
  induction as generalizing s with
  | nil => exact h
  | cons a as ih =>
    have ha : a ≠ .stop := fun ha => has (ha ▸ List.mem_cons_self)
    exact ih (working_step spins room h ha) fun h => has (List.mem_cons_of_mem _ h)

theorem ending_stop (hw : Working s) (ha : Awake n q s) (hidle : s.network = .idle) :
    Ending n q (s.step n spins room .stop) where
  holds := ha.holds
  placed := hw.placed
  parked := ha.parked
  halted := rfl
  quiet := hidle
  swept hm :=
    absurd (show Leaving s.matching by rw [show s.matching = .stopped from hm]; trivial) hw.looping
  alarmed _ := .inl (Option.some_ne_none _)

end Steps

/-- The network thread has returned before `stop` is called. Then a matching
thread that has ended has taken every command, and once `stop` has signalled it
does end, whatever it was doing and without the time limit of its sleep. -/
theorem shutdown_sweeps (n spins room : Nat) (buffer : Nat → α)
    (before after : List (Parking.Action α)) (hbefore : .stop ∉ before)
    (hidle : ((State.initial buffer).run n spins room before).network = .idle)
    (hafter : ∀ o, .submit o ∉ after) {s : State α}
    (hs : (State.initial buffer).run n spins room (before ++ .stop :: after) = s) :
    (s.matching = .stopped → s.inbound.tail = s.inbound.head) ∧
      (s.stopper = none →
        ∃ k, (s.run n spins room (List.replicate k .matching)).matching = .stopped ∧
        (s.run n spins room (List.replicate k .matching)).inbound.tail =
          (s.run n spins room (List.replicate k .matching)).inbound.head) := by
  obtain ⟨q, hawake⟩ := (awake_initial n buffer).run spins room before
  have hinitial : Working (State.initial buffer) := ⟨rfl, rfl, id⟩
  have hstop := ending_stop spins room (working_run spins room hinitial hbefore) hawake hidle
  have hsplit : (State.initial buffer).run n spins room (before ++ .stop :: after) =
      ((((State.initial buffer).run n spins room before).step n spins room .stop).run n spins
        room after) :=
    List.foldl_append
  rw [hsplit] at hs
  obtain ⟨q', hending⟩ := ending_run spins room hstop hafter
  rw [hs] at hending
  have hempty : ∀ {q : List α} {s : State α}, Ending n q s → s.matching = .stopped →
      s.inbound.tail = s.inbound.head :=
    fun h hm => h.holds.empty_iff.mpr (h.swept hm)
  refine ⟨hempty hending, fun hstopper => ?_⟩
  obtain ⟨k, hk⟩ := reaches_end spins room hending hstopper
  have hmatching : ∀ o : α, .submit o ∉ List.replicate k Parking.Action.matching := by simp
  obtain ⟨q'', hlast⟩ := ending_run spins room hending hmatching
  exact ⟨k, hk, hempty hlast hk⟩

theorem shutdown_sweeps_asleep :
    ∃ k, (((State.initial fun _ => 0).run 1 0 0 (sleeping ++ [.stop, .stopper, .stopper])).run 1 0 0
      (List.replicate k .matching)).matching = .stopped := by
  generalize hs : (State.initial fun _ => 0).run 1 0 0 (sleeping ++ [.stop, .stopper, .stopper]) = s
  have hidle : ((State.initial fun _ => 0).run 1 0 0 sleeping).network = .idle := rfl
  have hstopper : s.stopper = none := by
    rw [← hs]
    rfl
  obtain ⟨-, hends⟩ :=
    shutdown_sweeps 1 0 0 (fun _ => 0) sleeping [.stopper, .stopper] (by simp [sleeping])
      hidle (by simp) hs
  obtain ⟨k, hk, -⟩ := hends hstopper
  exact ⟨k, hk⟩

end OrderMatching.Shutdown
