import OrderMatching.Parking

namespace OrderMatching.Notification

open OrderMatching.Spsc OrderMatching.Parking

/-- The matching thread: a batch of pushes to the egress queues, then `notify`. -/
inductive Matching where
  | quiet
  | pushing (c : Nat)
  | batch
  | exchange
  | writePipe

inductive Network where
  | top
  | check (left : List Nat)
  | poll (blocking : Bool)
  | accept (readable : Bool)
  | drain
  | clear
  | serve
  | egress (left : List Nat)
  | stopped

structure State (α : Type) where
  conns : List Nat
  /-- The egress queue of every connection, also of those still to come. -/
  queues : Nat → SpscQueue α
  pending : Bool
  pipe : Nat
  matching : Matching
  network : Network
  /-- How many values were pushed to the queue since the matching thread last
  finished a `notify`. -/
  unsaid : Nat → Nat

/-- What the network thread meets on its way: other output to send, sockets and
timers, new connections, one to close, a queue that is given up early, an end of
the service. -/
structure World where
  work : Bool
  ready : Bool
  interrupted : Bool
  accepted : List Nat
  early : Bool
  closed : Option Nat
  stop : Bool

inductive Action (α : Type) where
  | emit (c : Nat) (o : α)
  | matching
  | network (w : World)

variable {α : Type}

def State.initial (buffer : Nat → α) : State α :=
  ⟨[], fun _ => .initial buffer, false, 0, .quiet, .top, fun _ => 0⟩

def growth : Option (Outcome α) → Nat
  | some (.pushed _ true) => 1
  | _ => 0

section Steps

variable (n room : Nat)

def State.stepEmit (s : State α) (c : Nat) (o : α) : State α :=
  { s with
    queues := Function.update s.queues c ((s.queues c).step n id (.callPush o)).1
    matching := .pushing c }

def State.stepMatching (s : State α) : State α :=
  match s.matching with
  | .quiet => { s with matching := .exchange }
  | .pushing c =>
    let (q, out) := (s.queues c).step n id .producer
    { s with
      queues := Function.update s.queues c q
      matching := match out with
        | some (.pushed _ _) => .batch
        | _ => .pushing c
      unsaid := Function.update s.unsaid c (s.unsaid c + growth out) }
  | .batch => { s with matching := .exchange }
  | .exchange =>
    if s.pending = true then
      { s with
        matching := .quiet
        unsaid := fun _ => 0 }
    else
      { s with
        pending := true
        matching := .writePipe }
  | .writePipe =>
    { s with
      pipe := write room s.pipe
      matching := .quiet
      unsaid := fun _ => 0 }

def State.look (s : State α) (conns : List Nat) (call : Spsc.Action α) (c : Nat)
    (next : Option (Outcome α) → Network) : State α :=
  { s with
    conns := conns
    queues := Function.update s.queues c (advance n call (s.queues c)).1
    network := next (advance n call (s.queues c)).2 }

def State.stepNetwork (w : World) (s : State α) : State α :=
  match s.network with
  | .top => { s with network := if w.stop = true then .stopped else .check s.conns }
  | .check [] => { s with network := .poll true }
  | .check (c :: cs) =>
    match w.work, (s.queues c).consumer with
    | true, .idle => { s with network := .poll false }
    | work, _ => s.look n s.conns .callEmpty c fun
        | some (.empty true) => if work = true then .poll false else .check cs
        | some (.empty false) => .poll false
        | _ => .check (c :: cs)
  | .poll blocking =>
    if w.interrupted = true then { s with network := .top }
    else if blocking = false ∨ 0 < s.pipe ∨ w.ready = true then
      { s with network := .accept (decide (0 < s.pipe)) }
    else s
  | .accept readable =>
    { s with
      conns := s.conns ++ w.accepted
      network := if readable = true then .drain else .serve }
  | .drain =>
    if 0 < s.pipe then { s with pipe := s.pipe - min 64 s.pipe } else { s with network := .clear }
  | .clear =>
    { s with
      pending := false
      network := .serve }
  | .serve =>
    match w.closed with
    | some c => { s with conns := s.conns.erase c }
    | none => { s with network := .egress s.conns.reverse }
  | .egress [] => { s with network := .top }
  | .egress (c :: cs) =>
    match w.early, (s.queues c).consumer with
    | true, .idle =>
      { s with
        conns := s.conns.diff w.closed.toList
        network := .egress cs }
    | early, _ => s.look n (s.conns.diff w.closed.toList) .callPop c fun
        | some (.popped none) => .egress cs
        | some (.popped (some _)) => if early = true then .egress cs else .egress (c :: cs)
        | _ => .egress (c :: cs)
  | .stopped => s

def State.step (a : Action α) (s : State α) : State α :=
  match a with
  | .emit c o =>
    match s.matching with
    | .quiet => s.stepEmit n c o
    | .batch => s.stepEmit n c o
    | _ => s
  | .matching => s.stepMatching n room
  | .network w => s.stepNetwork n w

def State.run (as : List (Action α)) (s : State α) : State α :=
  as.foldl (fun s a => s.step n room a) s

end Steps

def Matching.notifying : Matching → Prop
  | .exchange => True
  | .writePipe => True
  | _ => False

def Network.draining : Network → Prop
  | .drain => True
  | .clear => True
  | _ => False

def Network.consuming : Network → Prop
  | .accept true => True
  | .drain => True
  | .clear => True
  | _ => False

/-- The connections whose queue was found empty since the network thread last
served them. -/
def Network.checked (conns : List Nat) (c : Nat) : Network → Prop
  | .check left => c ∈ conns ∧ c ∉ left
  | .poll true => c ∈ conns
  | _ => False

/-- The flag says whether a byte is there or on its way, as long as nobody is
taking it out; and what the network thread did not find when it looked has a byte
or is still to be announced. -/
structure Sound (n : Nat) (q : Nat → List α) (s : State α) : Prop where
  holds : ∀ c, Holds n (q c) (s.queues c)
  writing : s.matching = .writePipe → s.pipe = 0 ∧ s.pending = true ∧ ¬s.network.consuming
  readable : s.network = .accept true → 0 < s.pipe
  consuming : s.network.consuming → s.pending = true
  announced : ¬s.network.draining → s.pending = true → 0 < s.pipe ∨ s.matching = .writePipe
  flagged : 0 < s.pipe → s.pending = true
  empty : s.network = .clear → s.pipe = 0
  checked : ∀ c, s.network.checked s.conns c → (q c).length ≤ s.unsaid c ∨ 0 < s.pipe

theorem sound_initial (n : Nat) (buffer : Nat → α) : Sound n (fun _ => []) (.initial buffer) where
  holds _ := holds_initial n buffer
  writing h := by simp [State.initial] at h
  readable h := by simp [State.initial] at h
  consuming h := h.elim
  announced _ h := by simp [State.initial] at h
  flagged h := absurd h (Nat.lt_irrefl 0)
  empty h := by simp [State.initial] at h
  checked _ h := h.elim

theorem length_after {n : Nat} {q q' : List α} {out : Option (Outcome α)}
    (heffect : After n q out q') :
    q'.length ≤ q.length + growth out := by
  cases out with
  | none =>
    obtain rfl : q' = q := heffect
    exact Nat.le_refl _
  | some out =>
    cases out with
    | pushed o ok =>
      cases ok with
      | true =>
        obtain rfl : q' = q ++ [o] := heffect.2
        rw [List.length_append]
        exact Nat.le_refl _
      | false =>
        obtain rfl : q' = q := heffect.2
        exact Nat.le_refl _
    | popped out =>
      cases out with
      | none =>
        obtain rfl : q' = [] := heffect.2
        exact Nat.zero_le _
      | some o =>
        have hq : q = o :: q' := heffect
        rw [hq]
        exact Nat.le_succ _
    | empty b =>
      obtain rfl : q' = q := heffect.2
      exact Nat.le_refl _

theorem checked_not_draining {net : Network} {conns : List Nat} {c : Nat}
    (h : net.checked conns c) :
    ¬net.draining := by
  cases net with
  | drain => exact h.elim
  | clear => exact h.elim
  | _ => exact id

theorem consuming_of_accept {net : Network} (h : net = .accept true) : net.consuming := by
  rw [h]
  trivial

theorem consuming_of_clear {net : Network} (h : net = .clear) : net.consuming := by
  rw [h]
  trivial

theorem holds_update {n : Nat} {q : Nat → List α} {queues : Nat → SpscQueue α}
    (h : ∀ c, Holds n (q c) (queues c)) {c : Nat} {qc : List α} {r : SpscQueue α}
    (hc : Holds n qc r) (d : Nat) :
    Holds n (Function.update q c qc d) (Function.update queues c r d) := by
  by_cases hd : d = c
  · subst hd
    simpa only [Function.update_self] using hc
  · simpa only [Function.update_of_ne hd] using h d

section Steps

variable {n : Nat} (room : Nat) {q : Nat → List α} {s : State α}

theorem Sound.push (h : Sound n q s) {c : Nat} {a : Spsc.Action α} {m : Matching}
    (hold : s.matching ≠ .writePipe) (hm : m ≠ .writePipe) {unsaid : Nat → Nat}
    (hsame : ∀ d, d ≠ c → unsaid d = s.unsaid d)
    (hmore : s.unsaid c + growth ((s.queues c).step n id a).2 ≤ unsaid c) :
    ∃ q', Sound n q' { s with
      queues := Function.update s.queues c ((s.queues c).step n id a).1
      matching := m
      unsaid := unsaid } := by
  obtain ⟨qc, hqc, heffect⟩ := (h.holds c).step id a
  have hlen := length_after heffect
  refine ⟨Function.update q c qc, holds_update h.holds hqc, fun hw => absurd hw hm,
    h.readable, h.consuming,
    fun hd hp => .inl ((h.announced hd hp).resolve_right hold), h.flagged, h.empty, fun d hd => ?_⟩
  obtain hle | hpipe := h.checked d hd
  · left
    by_cases hdc : d = c
    · subst hdc
      rw [Function.update_self]
      exact Nat.le_trans hlen (Nat.le_trans (Nat.add_le_add_right hle _) hmore)
    · rw [Function.update_of_ne hdc]
      exact Nat.le_trans hle (Nat.le_of_eq (hsame d hdc).symm)
  · exact .inr hpipe

theorem Sound.emit (h : Sound n q s) (c : Nat) (o : α) (hold : s.matching ≠ .writePipe) :
    ∃ q', Sound n q' (s.stepEmit n c o) := by
  refine h.push (a := .callPush o) hold (by simp) (fun _ _ => rfl) ?_
  have hnone : ((s.queues c).step n id (.callPush o)).2 = none := by
    unfold SpscQueue.step
    cases (s.queues c).producer <;> rfl
  rw [hnone]
  exact Nat.le_refl _

theorem Sound.between (h : Sound n q s) {m : Matching} (hold : s.matching ≠ .writePipe)
    (hm : m ≠ .writePipe) :
    Sound n q { s with matching := m } where
  holds := h.holds
  writing hw := absurd hw hm
  readable := h.readable
  consuming := h.consuming
  announced hd hp := .inl ((h.announced hd hp).resolve_right hold)
  flagged := h.flagged
  empty := h.empty
  checked := h.checked

theorem Sound.matching (h : Sound n q s) : ∃ q', Sound n q' (s.stepMatching n room) := by
  unfold State.stepMatching
  cases hm : s.matching with
  | quiet => exact ⟨q, h.between (by simp [hm]) (by simp)⟩
  | batch => exact ⟨q, h.between (by simp [hm]) (by simp)⟩
  | pushing c =>
    refine h.push (a := .producer) (by simp [hm]) ?_ (fun d hd => Function.update_of_ne hd ..) ?_
    · split <;> simp
    · rw [Function.update_self]
      exact Nat.le_refl _
  | exchange =>
    by_cases hp : s.pending = true
    · rw [if_pos hp]
      have hpipe : ¬s.network.draining → 0 < s.pipe :=
        fun hd => (h.announced hd hp).resolve_right (by simp [hm])
      refine ⟨q, h.holds, fun hw => by simp at hw, h.readable, h.consuming,
        fun hd _ => .inl (hpipe hd), h.flagged,
        h.empty, fun c hc => .inr (hpipe (checked_not_draining hc))⟩
    · rw [if_neg hp]
      have hnone : s.pipe = 0 := Nat.eq_zero_of_not_pos fun hpos => hp (h.flagged hpos)
      have hfree : ¬s.network.consuming := fun hc => hp (h.consuming hc)
      exact ⟨q, h.holds, fun _ => ⟨hnone, rfl, hfree⟩, h.readable, fun _ => rfl,
        fun _ _ => .inr rfl, fun _ => rfl, h.empty, h.checked⟩
  | writePipe =>
    obtain ⟨-, hpending, hfree⟩ := h.writing hm
    have hpos := write_pos room s.pipe
    refine ⟨q, h.holds, fun hw => by simp at hw, fun _ => hpos, h.consuming, fun _ _ => .inl hpos,
      fun _ => hpending, fun hc => ?_, fun _ _ => .inr hpos⟩
    exact absurd (consuming_of_clear hc) hfree

theorem Sound.elsewhere (h : Sound n q s) (net : Network) (conns : List Nat)
    (hc : ¬s.network.draining) (hnot : ¬net.consuming) (hun : ∀ c, ¬net.checked conns c) :
    Sound n q { s with
      conns := conns
      network := net } where
  holds := h.holds
  writing hw := ⟨(h.writing hw).1, (h.writing hw).2.1, hnot⟩
  readable hr := absurd (consuming_of_accept hr) hnot
  consuming hcon := absurd hcon hnot
  announced _ := h.announced hc
  flagged := h.flagged
  empty he := absurd (consuming_of_clear he) hnot
  checked c hcc := absurd hcc (hun c)

/-- The queue of `c` takes a step of its consumer. What the network thread then
relies on it knew before, or it just found that queue empty. -/
theorem Sound.look (h : Sound n q s) {call : Spsc.Action α} {c : Nat}
    {next : Option (Outcome α) → Network} {conns : List Nat} (hc : ¬s.network.draining)
    (hnot : ∀ out, ¬(next out).consuming)
    (hknown : ∀ out d, (next out).checked conns d → d ≠ c ∧ s.network.checked s.conns d ∨ d = c ∧
      out = some (.empty true)) :
    ∃ q', Sound n q' (s.look n conns call c next) := by
  obtain ⟨a, ha⟩ := advance_step n call (s.queues c)
  obtain ⟨qc, hqc, heffect⟩ := (h.holds c).step id a
  unfold State.look
  rw [ha]
  generalize ((s.queues c).step n id a).2 = out at heffect
  refine ⟨Function.update q c qc, holds_update h.holds hqc,
    fun hw => ⟨(h.writing hw).1, (h.writing hw).2.1, hnot out⟩,
    fun hr => absurd (consuming_of_accept hr) (hnot out),
    fun hcon => absurd hcon (hnot out), fun _ => h.announced hc,
    h.flagged, fun he => absurd (consuming_of_clear he) (hnot out), fun d hd => ?_⟩
  obtain ⟨hne, hd⟩ | ⟨rfl, rfl⟩ := hknown out d hd
  · rw [Function.update_of_ne hne]
    exact h.checked d hd
  · obtain ⟨hnil, rfl⟩ := heffect
    rw [Function.update_self, hnil.mp rfl]
    exact .inl (Nat.zero_le _)

theorem Sound.check (h : Sound n q s) {c : Nat} {cs : List Nat} (hn : s.network = .check (c :: cs))
    (work : Bool) :
    ∃ q', Sound n q' (s.look n s.conns .callEmpty c fun
      | some (.empty true) => if work = true then .poll false else .check cs
      | some (.empty false) => .poll false
      | _ => .check (c :: cs)) := by
  have hrest : ∀ d, Network.checked s.conns d (.check (c :: cs)) →
      d ≠ c ∧ s.network.checked s.conns d := by
    intro d hd
    exact ⟨fun hdc => hd.2 (hdc ▸ List.mem_cons_self), hn ▸ hd⟩
  refine h.look (by rw [hn]; exact id) (fun out => ?_) (fun out d hd => ?_)
  · split
    · split <;> exact id
    · exact id
    · exact id
  · split at hd
    · split at hd
      · exact hd.elim
      · by_cases hdc : d = c
        · exact .inr ⟨hdc, rfl⟩
        · exact .inl (hrest d ⟨hd.1, by simp [hdc, hd.2]⟩)
    · exact hd.elim
    · exact .inl (hrest d hd)

theorem Sound.network (h : Sound n q s) (w : World) : ∃ q', Sound n q' (s.stepNetwork n w) := by
  unfold State.stepNetwork
  cases hn : s.network with
  | top =>
    refine ⟨q, h.elsewhere _ _ (by rw [hn]; exact id) ?_ fun c => ?_⟩
    · split <;> exact id
    · split
      · exact id
      · exact fun hc => hc.2 hc.1
  | check left =>
    cases left with
    | nil =>
      refine ⟨q, h.holds, fun hw => ⟨(h.writing hw).1, (h.writing hw).2.1, id⟩,
        fun hr => by simp at hr, fun hc => hc.elim,
        fun _ => h.announced (by rw [hn]; exact id), h.flagged, fun he => by simp at he,
        fun c hc => h.checked c ?_⟩
      rw [hn]
      exact ⟨hc, List.not_mem_nil⟩
    | cons c cs =>
      dsimp only
      split
      · exact ⟨q, h.elsewhere _ _ (by rw [hn]; exact id) id fun _ => id⟩
      · exact h.check hn _
  | poll blocking =>
    have hc : ¬s.network.draining := by
      rw [hn]
      exact id
    dsimp only
    split
    · exact ⟨q, h.elsewhere _ _ hc id fun _ => id⟩
    split
    · by_cases hpipe : 0 < s.pipe
      · rw [decide_eq_true hpipe]
        have hw : s.matching ≠ .writePipe := fun hw => by
          have := (h.writing hw).1
          omega
        exact ⟨q, h.holds, fun hw' => absurd hw' hw, fun _ => hpipe, fun _ => h.flagged hpipe,
          fun _ => h.announced hc, h.flagged, fun he => by simp at he, fun _ hcc => hcc.elim⟩
      · rw [decide_eq_false hpipe]
        exact ⟨q, h.elsewhere _ _ hc id fun _ => id⟩
    · exact ⟨q, h⟩
  | accept readable =>
    cases readable with
    | true =>
      have hcon : s.network.consuming := consuming_of_accept hn
      exact ⟨q, h.holds, fun hw => absurd hcon (h.writing hw).2.2, fun hr => by simp at hr,
        fun _ => h.consuming hcon,
        fun hd => absurd trivial hd, h.flagged, fun he => by simp at he, fun _ hcc => hcc.elim⟩
    | false => exact ⟨q, h.elsewhere _ _ (by rw [hn]; exact id) id fun _ => id⟩
  | drain =>
    have hcon : s.network.consuming := by
      rw [hn]
      trivial
    have hw : s.matching ≠ .writePipe := fun hw => (h.writing hw).2.2 hcon
    dsimp only
    split
    · exact ⟨q, h.holds, fun hw' => absurd hw' hw, fun hr => by simp at hr,
        fun _ => h.consuming hcon, fun hd => absurd trivial hd,
        fun _ => h.consuming hcon, fun he => by simp at he, fun _ hcc => hcc.elim⟩
    · next hpipe =>
      exact ⟨q, h.holds, fun hw' => absurd hw' hw, fun hr => by simp at hr,
        fun _ => h.consuming hcon, fun hd => absurd trivial hd, h.flagged,
        fun _ => Nat.eq_zero_of_not_pos hpipe, fun _ hcc => hcc.elim⟩
  | clear =>
    have hcon : s.network.consuming := consuming_of_clear hn
    have hpipe : s.pipe = 0 := h.empty hn
    exact ⟨q, h.holds, fun hw => absurd hcon (h.writing hw).2.2, fun hr => by simp at hr,
      fun hc => hc.elim, fun _ hp => by simp at hp, fun hpos => by simp [hpipe] at hpos,
      fun he => by simp at he, fun _ hcc => hcc.elim⟩
  | serve =>
    have hc : ¬s.network.draining := by
      rw [hn]
      exact id
    cases w.closed with
    | some d => exact ⟨q, h.elsewhere _ _ hc id fun _ => id⟩
    | none => exact ⟨q, h.elsewhere _ _ hc id fun _ => id⟩
  | egress left =>
    have hc : ¬s.network.draining := by
      rw [hn]
      exact id
    cases left with
    | nil => exact ⟨q, h.elsewhere _ _ hc id fun _ => id⟩
    | cons c cs =>
      dsimp only
      split
      · exact ⟨q, h.elsewhere _ _ hc id fun _ => id⟩
      · refine h.look hc (fun out => ?_) (fun out d hd => ?_)
        · split
          · exact id
          · split <;> exact id
          · exact id
        · split at hd
          · exact hd.elim
          · split at hd <;> exact hd.elim
          · exact hd.elim
  | stopped => exact ⟨q, h⟩

theorem Sound.step (h : Sound n q s) (a : Action α) : ∃ q', Sound n q' (s.step n room a) := by
  cases a with
  | emit c o =>
    unfold State.step
    cases hm : s.matching with
    | quiet => exact h.emit c o (by simp [hm])
    | batch => exact h.emit c o (by simp [hm])
    | _ => exact ⟨q, h⟩
  | matching => exact h.matching room
  | network w => exact h.network w

theorem Sound.run (h : Sound n q s) (as : List (Action α)) :
    ∃ q', Sound n q' (s.run n room as) := by
  induction as generalizing s q with
  | nil => exact ⟨q, h⟩
  | cons a as ih =>
    obtain ⟨q', h'⟩ := h.step room a
    exact ih h'

end Steps

/-- The channel is never dead, and what was announced is never slept over: the
flag without a byte is seen only inside `notify` or `drain`, and where the network
thread is blocked, a queue with a value that was announced has a byte. -/
theorem no_dead_channel (n room : Nat) (buffer : Nat → α) (as : List (Action α)) {s : State α}
    (hs : (State.initial buffer).run n room as = s) :
    (¬s.matching.notifying → ¬s.network.draining → s.pending = true → 0 < s.pipe) ∧
      ∀ c ∈ s.conns, s.network = .poll true → s.unsaid c < (s.queues c).size n → 0 < s.pipe := by
  obtain ⟨q, h⟩ := (sound_initial n buffer).run room as
  rw [hs] at h
  refine ⟨fun hm hd hp => ?_, fun c hc hblocked hsaid => ?_⟩
  · apply (h.announced hd hp).resolve_right
    intro hw
    rw [hw] at hm
    exact hm trivial
  · apply (h.checked c (by rw [hblocked]; exact hc)).resolve_left
    rw [(h.holds c).size_eq] at hsaid
    omega

def calm : World := ⟨false, false, false, [], false, none, false⟩

/-- A connection is accepted and the network thread goes to sleep; then the
matching thread has something for it. -/
def announcing : List (Action Nat) :=
  [.network calm, .network calm, .network { calm with ready := true },
    .network { calm with accepted := [5] }] ++
    List.replicate 11 (.network calm) ++ .emit 5 7 :: List.replicate 7 .matching

theorem announcing_woken :
    ((State.initial fun _ => 0).run 1 0 announcing).network = .poll true ∧
      0 < ((State.initial fun _ => 0).run 1 0 announcing).pipe :=
  ⟨rfl, (no_dead_channel 1 0 (fun _ => 0) announcing rfl).2 5 (by decide) rfl (by decide)⟩

end OrderMatching.Notification
