import Mathlib.Data.List.Basic
import Mathlib.Logic.Function.Basic

namespace OrderMatching.Spsc

/-- Where `push` stands: every load, the write of the slot and the store of the
index is a step of its own. -/
inductive Producer (α : Type) where
  | idle
  | loadHead (o : α)
  | loadTail (o : α) (h : Nat)
  | writeSlot (o : α) (h : Nat)
  | storeHead (o : α) (h : Nat)

/-- Where `pop` or `empty` stands. -/
inductive Consumer (α : Type) where
  | idle
  | popLoadTail
  | popLoadHead (t : Nat)
  | readSlot (t : Nat)
  | storeTail (t : Nat) (out : α)
  | emptyLoadTail
  | emptyLoadHead (t : Nat)

structure SpscQueue (α : Type) where
  buffer : Nat → α
  head : Nat
  tail : Nat
  producer : Producer α
  consumer : Consumer α

def SpscQueue.initial {α : Type} (buffer : Nat → α) : SpscQueue α := ⟨buffer, 0, 0, .idle, .idle⟩

inductive Action (α : Type) where
  | callPush (o : α)
  | callPop
  | callEmpty
  | producer
  | consumer

inductive Outcome (α : Type) where
  | pushed (o : α) (ok : Bool)
  | popped (out : Option α)
  | empty (b : Bool)

section Steps

variable {α : Type} (n : Nat) (moved : α → α)

/-- `kSlots`: one more than the capacity. -/
def slots : Nat := n + 1

def SpscQueue.size (q : SpscQueue α) : Nat := (q.head + slots n - q.tail) % slots n

def SpscQueue.stepProducer (q : SpscQueue α) : SpscQueue α × Option (Outcome α) :=
  match q.producer with
  | .idle => (q, none)
  | .loadHead o => ({ q with producer := .loadTail o q.head }, none)
  | .loadTail o h =>
    -- the test is on what was loaded and takes no step of its own
    if (h + 1) % slots n = q.tail then ({ q with producer := .idle }, some (.pushed o false))
    else ({ q with producer := .writeSlot o h }, none)
  | .writeSlot o h => ({ q with
      buffer := Function.update q.buffer h o
      producer := .storeHead o h }, none)
  | .storeHead o h => ({ q with
      head := (h + 1) % slots n
      producer := .idle }, some (.pushed o true))

def SpscQueue.stepConsumer (q : SpscQueue α) : SpscQueue α × Option (Outcome α) :=
  match q.consumer with
  | .idle => (q, none)
  | .popLoadTail => ({ q with consumer := .popLoadHead q.tail }, none)
  | .popLoadHead t =>
    if t = q.head then ({ q with consumer := .idle }, some (.popped none))
    else ({ q with consumer := .readSlot t }, none)
  | .readSlot t => ({ q with
      buffer := Function.update q.buffer t (moved (q.buffer t))
      consumer := .storeTail t (q.buffer t) }, none)
  | .storeTail t out => ({ q with
      tail := (t + 1) % slots n
      consumer := .idle }, some (.popped (some out)))
  | .emptyLoadTail => ({ q with consumer := .emptyLoadHead q.tail }, none)
  | .emptyLoadHead t => ({ q with consumer := .idle }, some (.empty (decide (t = q.head))))

def SpscQueue.step (a : Action α) (q : SpscQueue α) : SpscQueue α × Option (Outcome α) :=
  match a, q.producer, q.consumer with
  | .callPush o, .idle, _ => ({ q with producer := .loadHead o }, none)
  | .callPop, _, .idle => ({ q with consumer := .popLoadTail }, none)
  | .callEmpty, _, .idle => ({ q with consumer := .emptyLoadTail }, none)
  | .producer, _, _ => q.stepProducer n
  | .consumer, _, _ => q.stepConsumer n moved
  | _, _, _ => (q, none)

/-- Any interleaving of the two sides, with what their calls returned. -/
def SpscQueue.run : List (Action α) → SpscQueue α → SpscQueue α × List (Outcome α)
  | [], q => (q, [])
  | a :: as, q =>
    (((q.step n moved a).1.run as).1,
      (q.step n moved a).2.toList ++ ((q.step n moved a).1.run as).2)

end Steps

variable {α : Type}

def accepted (tr : List (Outcome α)) : List α :=
  tr.filterMap fun
    | .pushed o true => some o
    | _ => none

def taken (tr : List (Outcome α)) : List α :=
  tr.filterMap fun
    | .popped (some o) => some o
    | _ => none

/-- What a bounded queue does when a call returns: the values it holds before
and after. -/
def Effect (n : Nat) (before : List α) : Outcome α → List α → Prop
  | .pushed o true, after => before.length < n ∧ after = before ++ [o]
  | .pushed _ false, after => before.length = n ∧ after = before
  | .popped (some o), after => before = o :: after
  | .popped none, after => before = [] ∧ after = []
  | .empty b, after => (b = true ↔ before = []) ∧ after = before

def After (n : Nat) (before : List α) : Option (Outcome α) → List α → Prop
  | none, after => after = before
  | some out, after => Effect n before out after

theorem Effect.conserves {n : Nat} {q q' : List α} {out : Outcome α} (h : Effect n q out q') :
    q ++ accepted [out] = taken [out] ++ q' := by
  cases out with
  | pushed o ok =>
    cases ok with
    | true => simp [accepted, taken, h.2]
    | false => simp [accepted, taken, h.2]
  | popped out =>
    cases out with
    | some o =>
      have hq : q = o :: q' := h
      simp [accepted, taken, hq]
    | none => simp [accepted, taken, h.1, h.2]
  | empty b => simp [accepted, taken, h.2]

theorem slots_distinct {n t i j : Nat} (hij : i < j) (hj : j ≤ n) :
    (t + i) % slots n ≠ (t + j) % slots n := by
  intro h
  have hdvd : slots n ∣ (t + j) - (t + i) :=
    Nat.dvd_of_mod_eq_zero (Nat.sub_mod_eq_zero_of_mod_eq h.symm)
  have hle := Nat.le_of_dvd (by omega) hdvd
  unfold slots at hle
  omega

/-- What the producer has found out and may rely on, whatever the consumer does
meanwhile. -/
def Producer.Knows (n : Nat) (q : List α) (s : SpscQueue α) : Producer α → Prop
  | .idle => True
  | .loadHead _ => True
  | .loadTail _ h => h = s.head
  | .writeSlot _ h => h = s.head ∧ q.length < n
  | .storeHead o h => h = s.head ∧ q.length < n ∧ s.buffer h = o

def Consumer.Knows (q : List α) (s : SpscQueue α) : Consumer α → Prop
  | .idle => True
  | .popLoadTail => True
  | .popLoadHead t => t = s.tail
  | .readSlot t => t = s.tail ∧ q ≠ []
  | .storeTail t out => t = s.tail ∧ q.head? = some out
  | .emptyLoadTail => True
  | .emptyLoadHead t => t = s.tail

theorem Producer.Knows.mono {n : Nat} {q q' : List α} {s s' : SpscQueue α} {p : Producer α}
    (h : p.Knows n q s) (hlen : q'.length ≤ q.length) (hhead : s'.head = s.head)
    (hcell : s'.buffer s.head = s.buffer s.head) :
    p.Knows n q' s' := by
  cases p with
  | idle => trivial
  | loadHead o => trivial
  | loadTail o hd => exact Eq.trans h hhead.symm
  | writeSlot o hd => exact ⟨h.1.trans hhead.symm, Nat.lt_of_le_of_lt hlen h.2⟩
  | storeHead o hd =>
    obtain ⟨rfl, hroom, ho⟩ := h
    exact ⟨hhead.symm, Nat.lt_of_le_of_lt hlen hroom, hcell.trans ho⟩

theorem Consumer.Knows.mono {q : List α} {s s' : SpscQueue α} {c : Consumer α} (h : c.Knows q s)
    (htail : s'.tail = s.tail) (o : α) : c.Knows (q ++ [o]) s' := by
  cases c with
  | idle => trivial
  | popLoadTail => trivial
  | popLoadHead t => exact Eq.trans h htail.symm
  | readSlot t => exact ⟨h.1.trans htail.symm, by simp⟩
  | storeTail t out =>
    obtain ⟨ht, hout⟩ := h
    obtain ⟨rest, rfl⟩ := List.head?_eq_some_iff.mp hout
    exact ⟨ht.trans htail.symm, rfl⟩
  | emptyLoadTail => trivial
  | emptyLoadHead t => exact Eq.trans h htail.symm

def Consumer.moving : Consumer α → Prop
  | .storeTail _ _ => True
  | _ => False

/-- The ring holds a queue: its values stand in the slots from the tail to the
head. The first may have been moved out already. -/
structure Holds (n : Nat) (q : List α) (s : SpscQueue α) : Prop where
  fits : q.length ≤ n
  tail : s.tail < slots n
  head : s.head = (s.tail + q.length) % slots n
  cells : ∀ {i o}, q[i]? = some o → 0 < i ∨ ¬s.consumer.moving →
    s.buffer ((s.tail + i) % slots n) = o
  producer : s.producer.Knows n q s
  consumer : s.consumer.Knows q s

theorem holds_initial (n : Nat) (buffer : Nat → α) : Holds n [] (.initial buffer) where
  fits := Nat.zero_le n
  tail := Nat.succ_pos n
  head := (Nat.zero_mod _).symm
  cells h := by simp at h
  producer := trivial
  consumer := trivial

namespace Holds

variable {n : Nat} {q : List α} {s : SpscQueue α} (h : Holds n q s)

include h

theorem tail_eq : (s.tail + 0) % slots n = s.tail := Nat.mod_eq_of_lt h.tail

/-- The two tests: the loads tell a full ring and an empty one from all others. -/
theorem full_iff : (s.head + 1) % slots n = s.tail ↔ q.length = n := by
  rw [h.head, Nat.mod_add_mod, Nat.add_assoc]
  constructor
  · intro heq
    by_contra hne
    have hfits := h.fits
    apply slots_distinct (n := n) (t := s.tail) (Nat.succ_pos q.length) (by omega)
    rw [h.tail_eq, heq]
  · intro heq
    rw [heq]
    exact (Nat.add_mod_right s.tail (slots n)).trans (Nat.mod_eq_of_lt h.tail)

theorem empty_iff : s.tail = s.head ↔ q = [] := by
  rw [h.head]
  constructor
  · intro heq
    by_contra hne
    apply slots_distinct (n := n) (t := s.tail) (List.length_pos_iff.mpr hne) h.fits
    rw [h.tail_eq, ← heq]
  · intro heq
    rw [heq]
    exact h.tail_eq.symm

theorem head_free (hroom : q.length ≤ n) {i : Nat} (hi : i < q.length) :
    (s.tail + i) % slots n ≠ s.head := by
  rw [h.head]
  exact slots_distinct hi hroom

theorem size_eq : s.size n = q.length := by
  have htail := h.tail
  have hfits := h.fits
  have hslots : slots n = n + 1 := rfl
  unfold SpscQueue.size
  rw [h.head]
  by_cases hwrap : s.tail + q.length < slots n
  · have hsub : s.tail + q.length + slots n - s.tail = q.length + slots n := by omega
    rw [Nat.mod_eq_of_lt hwrap, hsub, Nat.add_mod_right, Nat.mod_eq_of_lt (by omega)]
  · have hmod : (s.tail + q.length) % slots n = s.tail + q.length - slots n := by
      rw [Nat.mod_eq_sub_mod (by omega), Nat.mod_eq_of_lt (by omega)]
    have hsub : s.tail + q.length - slots n + slots n - s.tail = q.length := by omega
    rw [hmod, hsub, Nat.mod_eq_of_lt (by omega)]

theorem stepProducer :
    ∃ q', Holds n q' (s.stepProducer n).1 ∧ After n q (s.stepProducer n).2 q' := by
  have hknows := h.producer
  unfold SpscQueue.stepProducer
  cases hp : s.producer with
  | idle => exact ⟨q, h, rfl⟩
  | loadHead o => exact ⟨q, ⟨h.fits, h.tail, h.head, h.cells, rfl, h.consumer⟩, rfl⟩
  | loadTail o hd =>
    rw [hp] at hknows
    obtain rfl : hd = s.head := hknows
    by_cases hfull : (s.head + 1) % slots n = s.tail
    · simp only [if_pos hfull]
      exact ⟨q, ⟨h.fits, h.tail, h.head, h.cells, trivial, h.consumer⟩, h.full_iff.mp hfull, rfl⟩
    · simp only [if_neg hfull]
      have hroom : q.length < n := Nat.lt_of_le_of_ne h.fits fun heq => hfull (h.full_iff.mpr heq)
      exact ⟨q, ⟨h.fits, h.tail, h.head, h.cells, ⟨rfl, hroom⟩, h.consumer⟩, rfl⟩
  | writeSlot o hd =>
    rw [hp] at hknows
    obtain ⟨rfl, hroom⟩ := hknows
    refine ⟨q, ⟨h.fits, h.tail, h.head, ?_, ⟨rfl, hroom, Function.update_self ..⟩, h.consumer⟩, rfl⟩
    intro i o' hi hread
    have hlt : i < q.length := (List.getElem?_eq_some_iff.mp hi).1
    change Function.update s.buffer s.head o _ = o'
    rw [Function.update_of_ne (h.head_free h.fits hlt)]
    exact h.cells hi hread
  | storeHead o hd =>
    rw [hp] at hknows
    obtain ⟨rfl, hroom, hcell⟩ := hknows
    refine ⟨q ++ [o], ⟨?_, h.tail, ?_, ?_, trivial, ?_⟩, hroom, rfl⟩
    · rw [List.length_append]
      exact hroom
    · change (s.head + 1) % slots n = _
      rw [h.head, Nat.mod_add_mod, List.length_append]
      rfl
    · intro i o' hi hread
      by_cases hlt : i < q.length
      · rw [List.getElem?_append_left hlt] at hi
        exact h.cells hi hread
      · have hlen := (List.getElem?_eq_some_iff.mp hi).1
        rw [List.length_append, List.length_singleton] at hlen
        obtain rfl : i = q.length := by omega
        rw [List.getElem?_append_right (Nat.le_refl _), Nat.sub_self] at hi
        obtain rfl : o = o' := Option.some.inj hi
        change s.buffer ((s.tail + q.length) % slots n) = o
        rw [← h.head, hcell]
    · exact h.consumer.mono rfl o

theorem stepConsumer (moved : α → α) :
    ∃ q', Holds n q' (s.stepConsumer n moved).1 ∧ After n q (s.stepConsumer n moved).2 q' := by
  have hknows := h.consumer
  have hcells : ∀ {i o}, ¬s.consumer.moving → q[i]? = some o →
      s.buffer ((s.tail + i) % slots n) = o :=
    fun hstill hi => h.cells hi (.inr hstill)
  unfold SpscQueue.stepConsumer
  cases hc : s.consumer with
  | idle => exact ⟨q, h, rfl⟩
  | popLoadTail =>
    rw [hc] at hcells
    exact ⟨q, ⟨h.fits, h.tail, h.head, fun hi _ => hcells id hi, h.producer, rfl⟩, rfl⟩
  | popLoadHead t =>
    rw [hc] at hknows hcells
    obtain rfl : t = s.tail := hknows
    by_cases hempty : s.tail = s.head
    · simp only [if_pos hempty]
      have hnil := h.empty_iff.mp hempty
      exact ⟨q, ⟨h.fits, h.tail, h.head, fun hi _ => hcells id hi, h.producer, trivial⟩, hnil, hnil⟩
    · simp only [if_neg hempty]
      have hsome : q ≠ [] := fun hnil => hempty (h.empty_iff.mpr hnil)
      exact ⟨q, ⟨h.fits, h.tail, h.head, fun hi _ => hcells id hi, h.producer, rfl, hsome⟩, rfl⟩
  | readSlot t =>
    rw [hc] at hknows hcells
    obtain ⟨rfl, hsome⟩ := hknows
    obtain ⟨o, rest, rfl⟩ := List.exists_cons_of_ne_nil hsome
    have hfirst : s.buffer s.tail = o := by
      rw [← h.tail_eq]
      exact hcells id rfl
    refine ⟨o :: rest, ⟨h.fits, h.tail, h.head, ?_, ?_, rfl, congrArg some hfirst.symm⟩, rfl⟩
    · intro i o' hi hpos
      -- only the slot of the first value changes
      have hpos : 0 < i := hpos.resolve_right fun hstill => hstill trivial
      have hlt : i < (o :: rest).length := (List.getElem?_eq_some_iff.mp hi).1
      have hne : (s.tail + i) % slots n ≠ s.tail := by
        have := slots_distinct (n := n) (t := s.tail) hpos (by have := h.fits; omega)
        rw [h.tail_eq] at this
        exact this.symm
      change Function.update s.buffer s.tail _ _ = o'
      rw [Function.update_of_ne hne]
      exact hcells id hi
    · have hne : s.head ≠ s.tail := fun heq => hsome (h.empty_iff.mp heq.symm)
      exact h.producer.mono (Nat.le_refl _) rfl (Function.update_of_ne hne ..)
  | storeTail t out =>
    rw [hc] at hknows
    obtain ⟨rfl, hout⟩ := hknows
    obtain ⟨rest, rfl⟩ := List.head?_eq_some_iff.mp hout
    have hshift : ∀ i, ((s.tail + 1) % slots n + i) % slots n = (s.tail + (i + 1)) % slots n := by
      intro i
      rw [Nat.mod_add_mod, Nat.add_assoc, Nat.add_comm 1 i]
    refine ⟨rest, ⟨Nat.le_of_succ_le h.fits, Nat.mod_lt _ (Nat.succ_pos n), ?_, ?_, ?_,
      trivial⟩, rfl⟩
    · change s.head = _
      rw [h.head, hshift]
      rfl
    · intro i o' hi _
      change s.buffer (((s.tail + 1) % slots n + i) % slots n) = o'
      rw [hshift]
      exact h.cells (i := i + 1) hi (.inl (Nat.succ_pos i))
    · exact h.producer.mono (Nat.le_succ _) rfl rfl
  | emptyLoadTail =>
    rw [hc] at hcells
    exact ⟨q, ⟨h.fits, h.tail, h.head, fun hi _ => hcells id hi, h.producer, rfl⟩, rfl⟩
  | emptyLoadHead t =>
    rw [hc] at hknows hcells
    obtain rfl : t = s.tail := hknows
    refine ⟨q, ⟨h.fits, h.tail, h.head, fun hi _ => hcells id hi, h.producer, trivial⟩, ?_, rfl⟩
    rw [decide_eq_true_iff, h.empty_iff]

/-- Every step of either side keeps the queue, and a step at which a call
returns does to it what the call says. -/
theorem step (moved : α → α) (a : Action α) :
    ∃ q', Holds n q' (s.step n moved a).1 ∧ After n q (s.step n moved a).2 q' := by
  have hcells : ∀ {i o}, s.consumer = .idle → q[i]? = some o →
      s.buffer ((s.tail + i) % slots n) = o :=
    fun hidle hi => h.cells hi (.inr (by rw [hidle]; exact id))
  cases a with
  | producer => exact h.stepProducer
  | consumer => exact h.stepConsumer moved
  | callPush o =>
    unfold SpscQueue.step
    cases hp : s.producer with
    | idle => exact ⟨q, ⟨h.fits, h.tail, h.head, h.cells, trivial, h.consumer⟩, rfl⟩
    | _ => exact ⟨q, h, rfl⟩
  | callPop =>
    unfold SpscQueue.step
    cases hc : s.consumer with
    | idle =>
      exact ⟨q, ⟨h.fits, h.tail, h.head, fun hi _ => hcells hc hi, h.producer, trivial⟩, rfl⟩
    | _ => exact ⟨q, h, rfl⟩
  | callEmpty =>
    unfold SpscQueue.step
    cases hc : s.consumer with
    | idle =>
      exact ⟨q, ⟨h.fits, h.tail, h.head, fun hi _ => hcells hc hi, h.producer, trivial⟩, rfl⟩
    | _ => exact ⟨q, h, rfl⟩

/-- Over a whole interleaving, what was pushed is what was popped and what the
ring holds. -/
theorem run (moved : α → α) (as : List (Action α)) :
    ∃ q', Holds n q' (s.run n moved as).1 ∧
      q ++ accepted (s.run n moved as).2 = taken (s.run n moved as).2 ++ q' := by
  induction as generalizing s q with
  | nil => exact ⟨q, h, List.append_nil q⟩
  | cons a as ih =>
    obtain ⟨q₁, h₁, heffect⟩ := h.step moved a
    obtain ⟨q₂, h₂, hrest⟩ := ih h₁
    refine ⟨q₂, h₂, ?_⟩
    simp only [SpscQueue.run]
    cases hout : (s.step n moved a).2 with
    | none =>
      rw [hout] at heffect
      obtain rfl : q₁ = q := heffect
      exact hrest
    | some out =>
      rw [hout] at heffect
      have hcons := Effect.conserves heffect
      simp only [accepted, taken, Option.toList_some, List.filterMap_append] at hcons hrest ⊢
      rw [← List.append_assoc, hcons, List.append_assoc, hrest, List.append_assoc]

end Holds

def SpscQueue.slotOf (n : Nat) (s : SpscQueue α) (i : Nat) : Nat := (s.tail + i) % slots n

/-- Whatever the interleaving, the ring is a bounded queue: what was pushed is
what was popped and what is held; the slot that is written holds no value; and a
call that finds the ring full or empty is right at the step that loads the other
side's index. -/
theorem refines_fifo (n : Nat) (moved : α → α) (buffer : Nat → α) (as : List (Action α)) :
    let s := ((SpscQueue.initial buffer).run n moved as).1
    let tr := ((SpscQueue.initial buffer).run n moved as).2
    ∃ held, accepted tr = taken tr ++ held ∧ taken tr <+: accepted tr ∧ held.length ≤ n ∧
      (∀ i o, held[i]? = some o → 0 < i ∨ ¬s.consumer.moving → s.buffer (s.slotOf n i) = o) ∧
      (∀ o h, s.producer = .writeSlot o h → h < slots n ∧ ∀ i < held.length, s.slotOf n i ≠ h) ∧
      ∀ a out, (s.step n moved a).2 = some out →
        match out with
        | .pushed _ false => held.length = n
        | .popped none => held = []
        | .empty true => held = []
        | _ => True := by
  obtain ⟨held, hheld, hcons⟩ := (holds_initial n buffer).run moved as
  rw [List.nil_append] at hcons
  refine ⟨held, hcons, ?_, hheld.fits, fun i o hi hread => hheld.cells hi hread, ?_, ?_⟩
  · rw [hcons]
    exact List.prefix_append _ _
  · intro o h hp
    have hknows := hheld.producer
    rw [hp] at hknows
    obtain ⟨rfl, -⟩ := hknows
    refine ⟨?_, fun i hi => hheld.head_free hheld.fits hi⟩
    rw [hheld.head]
    exact Nat.mod_lt _ (Nat.succ_pos n)
  · intro a out hout
    obtain ⟨q', -, heffect⟩ := hheld.step moved a
    rw [hout] at heffect
    cases out with
    | pushed o ok =>
      cases ok with
      | true => trivial
      | false => exact heffect.1
    | popped out =>
      cases out with
      | some o => trivial
      | none => exact heffect.1
    | empty b =>
      cases b with
      | true => exact heffect.1.mp rfl
      | false => trivial

end OrderMatching.Spsc
