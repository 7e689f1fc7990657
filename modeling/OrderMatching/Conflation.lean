import Mathlib.Data.List.Basic

namespace OrderMatching.Conflation

variable {α : Type}

/-- A queue whose consumer takes everything there is and keeps the last of it.
`pending` is what the producer has built and not pushed yet, `latest` what the
consumer has taken last and not shown yet. `built` and `shown` are history. -/
structure Channel (α : Type) where
  pending : List α
  queue : List α
  latest : Option α
  shown : List α
  built : List α

inductive Channel.Moves (c : Channel α) : Channel α → Prop where
  | idle : Channel.Moves c c
  | build (xs : List α) (h : c.pending = []) :
      Channel.Moves c { c with pending := xs, built := c.built ++ xs }
  | push {x : α} {xs : List α} (h : c.pending = x :: xs) :
      Channel.Moves c { c with pending := xs, queue := c.queue ++ [x] }
  | pop {x : α} {xs : List α} (h : c.queue = x :: xs) :
      Channel.Moves c { c with queue := xs, latest := some x }
  | reveal {x : α} (hqueue : c.queue = []) (h : c.latest = some x) :
      Channel.Moves c { c with latest := none, shown := c.shown ++ [x] }

def Channel.drop (c : Channel α) : Channel α := { c with pending := c.pending.tail }

/-- Everything in the channel, from the first that was shown to the last that
was built. -/
def Channel.contents (c : Channel α) : List α :=
  c.shown ++ (c.latest.toList ++ (c.queue ++ c.pending))

def Channel.Faithful (c : Channel α) : Prop := c.contents.Sublist c.built

theorem Channel.Faithful.moves {c c' : Channel α} (h : c.Faithful) (hm : c.Moves c') :
    c'.Faithful := by
  unfold Channel.Faithful Channel.contents at h ⊢
  cases hm with
  | idle => exact h
  | build xs hp =>
    rw [hp, List.append_nil] at h
    have hsplit : c.shown ++ (c.latest.toList ++ (c.queue ++ xs)) =
        c.shown ++ (c.latest.toList ++ c.queue) ++ xs := by simp only [List.append_assoc]
    rw [hsplit]
    exact h.append (List.Sublist.refl xs)
  | push hp =>
    rw [hp] at h
    simpa only [List.append_assoc, List.singleton_append] using h
  | @pop x xs hq =>
    rw [hq] at h
    refine List.Sublist.trans ?_ h
    exact List.Sublist.append_left
      (List.sublist_append_right c.latest.toList (x :: xs ++ c.pending)) c.shown
  | reveal hq hl =>
    rw [hl] at h
    simpa only [Option.toList, List.nil_append, List.append_assoc] using h

theorem Channel.Faithful.drop {c : Channel α} (h : c.Faithful) : c.drop.Faithful := by
  refine List.Sublist.trans ?_ h
  refine List.Sublist.append_left (List.Sublist.append_left (List.Sublist.append_left ?_ _) _) _
  exact List.tail_sublist c.pending

def Channel.seen (c : Channel α) : List α := c.shown ++ c.latest.toList

/-- Everything that was built is still in the channel or was taken out of it,
and the last element taken out is the last one seen. -/
def Channel.Lossless (c : Channel α) : Prop :=
  ∃ taken, c.built = taken ++ (c.queue ++ c.pending) ∧ c.seen.getLast? = taken.getLast?

theorem Channel.Lossless.moves {c c' : Channel α} (h : c.Lossless) (hm : c.Moves c') :
    c'.Lossless := by
  obtain ⟨taken, hbuilt, hseen⟩ := h
  cases hm with
  | idle => exact ⟨taken, hbuilt, hseen⟩
  | build xs hp =>
    refine ⟨taken, ?_, hseen⟩
    rw [hbuilt, hp, List.append_nil, List.append_assoc]
  | push hp =>
    refine ⟨taken, ?_, hseen⟩
    rw [hbuilt, hp]
    simp only [List.append_assoc, List.singleton_append]
  | @pop x xs hq =>
    refine ⟨taken ++ [x], ?_, ?_⟩
    · rw [hbuilt, hq]
      simp only [List.append_assoc, List.cons_append, List.nil_append]
    · simp [Channel.seen]
  | reveal hq hl =>
    refine ⟨taken, hbuilt, ?_⟩
    rw [← hseen]
    simp [Channel.seen, hl]

theorem Channel.Faithful.lossless {c : Channel α} (h : c.Faithful) (hbuilt : c.built = []) :
    c.Lossless := by
  have hnone : c.contents = [] := by
    rw [Channel.Faithful, hbuilt] at h
    exact List.sublist_nil.mp h
  simp only [Channel.contents, List.append_eq_nil_iff] at hnone
  obtain ⟨hshown, hlatest, hqueue, hpending⟩ := hnone
  refine ⟨[], ?_, ?_⟩
  · rw [hbuilt, hqueue, hpending]
    rfl
  · rw [Channel.seen, hshown, hlatest]
    rfl

theorem Channel.Lossless.newest {c : Channel α} (h : c.Lossless) (hqueue : c.queue = []) :
    ∃ done, c.built = done ++ c.pending ∧ c.seen.getLast? = done.getLast? := by
  obtain ⟨taken, hbuilt, hseen⟩ := h
  rw [hqueue, List.nil_append] at hbuilt
  exact ⟨taken, hbuilt, hseen⟩

end OrderMatching.Conflation
