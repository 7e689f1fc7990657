import Mathlib.Data.Nat.Notation

namespace OrderMatching.Loop

variable {σ τ : Type}

/-- A `while` loop, cut off after a given number of rounds. -/
def loop (guard : σ → Bool) (body : σ → σ) : Nat → σ → σ
  | 0, s => s
  | n + 1, s => if guard s then loop guard body n (body s) else s

variable {guard : σ → Bool} {body : σ → σ}

theorem loop_false {s : σ} (h : guard s = false) (n : Nat) : loop guard body n s = s := by
  cases n <;> simp [loop, h]

theorem loop_true {s : σ} (h : guard s = true) (n : Nat) :
    loop guard body (n + 1) s = loop guard body n (body s) := by simp [loop, h]

theorem loop_invariant {I : σ → Prop} (hbody : ∀ s, I s → guard s = true → I (body s))
    (n : Nat) (s : σ) (hs : I s) : I (loop guard body n s) := by
  induction n generalizing s with
  | zero => exact hs
  | succ n ih =>
    cases hg : guard s with
    | false => rwa [loop_false hg]
    | true =>
      rw [loop_true hg]
      exact ih (body s) (hbody s hs hg)

theorem loop_ends (measure : σ → Nat) (hbody : ∀ s, guard s = true → measure (body s) < measure s)
    {n : Nat} {s : σ} (hn : measure s ≤ n) : guard (loop guard body n s) = false := by
  induction n generalizing s with
  | zero =>
    cases hg : guard s with
    | false => exact hg
    | true => exact absurd (hbody s hg) (by omega)
  | succ n ih =>
    cases hg : guard s with
    | false => rwa [loop_false hg]
    | true =>
      rw [loop_true hg]
      have hless := hbody s hg
      exact ih (by omega)

/-- A loop with a stronger guard that ends where the weaker one fails as well is
the loop with the weaker guard. -/
theorem loop_extend {guard' : σ → Bool} (himp : ∀ s, guard' s = true → guard s = true) {n : Nat}
    {s : σ} (hdone : guard (loop guard' body n s) = false) :
    loop guard body n s = loop guard' body n s := by
  induction n generalizing s with
  | zero => rfl
  | succ n ih =>
    cases hg : guard' s with
    | false =>
      rw [loop_false hg] at hdone ⊢
      rw [loop_false hdone]
    | true =>
      rw [loop_true hg] at hdone ⊢
      rw [loop_true (himp s hg)]
      exact ih hdone

/-- Two loops run in lockstep as long as one relation links their states and
gives their guards the same value. -/
theorem loop_simulation {guard' : τ → Bool} {body' : τ → τ} {R : σ → τ → Prop}
    (hguard : ∀ s t, R s t → guard s = guard' t)
    (hbody : ∀ s t, R s t → guard s = true → R (body s) (body' t))
    (n : Nat) (s : σ) (t : τ) (h : R s t) : R (loop guard body n s) (loop guard' body' n t) := by
  induction n generalizing s t with
  | zero => exact h
  | succ n ih =>
    have he := hguard s t h
    cases hg : guard s with
    | false =>
      rw [loop_false hg, loop_false (he ▸ hg)]
      exact h
    | true =>
      rw [loop_true hg, loop_true (he ▸ hg)]
      exact ih _ _ (hbody s t h hg)

end OrderMatching.Loop
