import Mathlib.Algebra.Order.Field.Rat
import Mathlib.Algebra.Order.Ring.NNRat
import Mathlib.Algebra.Order.Sub.Basic
import Mathlib.Tactic.Positivity
import OrderMatching.Moves

namespace OrderMatching.RateLimit

open OrderMatching.Commands OrderMatching.Network OrderMatching.Moves

/-- The limiter of one session. The rate, the capacity and the tokens are exact
numbers here, and doubles in the source. -/
structure TokenBucket where
  rate : NNRat
  capacity : NNRat
  tokens : NNRat
  lastNs : UInt64

def TokenBucket.create (ratePerSec capacity : NNRat) (now : UInt64) : TokenBucket :=
  ⟨ratePerSec, capacity, capacity, now⟩

def TokenBucket.refill (b : TokenBucket) (now : UInt64) : TokenBucket :=
  if now ≤ b.lastNs then b
  else
    let elapsed : NNRat := (now - b.lastNs).toNat / 1000000000
    let tokens := b.tokens + elapsed * b.rate
    { b with lastNs := now, tokens := if tokens > b.capacity then b.capacity else tokens }

def TokenBucket.allow (b : TokenBucket) (now : UInt64) : Bool × TokenBucket :=
  let b := b.refill now
  if b.tokens < 1 then (false, b) else (true, { b with tokens := b.tokens - 1 })

/-- What a number of calls of `allow` return, and the bucket they leave. -/
def TokenBucket.answers (b : TokenBucket) : List UInt64 → List Bool
  | [] => []
  | now :: ts => (b.allow now).1 :: (b.allow now).2.answers ts

def TokenBucket.after (b : TokenBucket) (ts : List UInt64) : TokenBucket :=
  ts.foldl (fun b now => (b.allow now).2) b

def latest (start : UInt64) (ts : List UInt64) : Nat :=
  ts.foldl (fun t now => max t now.toNat) start.toNat

def TokenBucket.accrued (b : TokenBucket) (ns : Nat) : NNRat := b.rate * (ns / 1000000000)

variable (b : TokenBucket) (now : UInt64) (ts : List UInt64)

@[simp] theorem rate_refill : (b.refill now).rate = b.rate := by
  unfold TokenBucket.refill
  split <;> rfl

@[simp] theorem capacity_refill : (b.refill now).capacity = b.capacity := by
  unfold TokenBucket.refill
  split <;> rfl

theorem lastNs_refill : (b.refill now).lastNs.toNat = max b.lastNs.toNat now.toNat := by
  unfold TokenBucket.refill
  split
  · rename_i hstale
    exact (Nat.max_eq_left (UInt64.le_iff_toNat_le.mp hstale)).symm
  · rename_i hnew
    exact (Nat.max_eq_right
      (UInt64.le_iff_toNat_le.mp (UInt64.le_of_lt (UInt64.not_le.mp hnew)))).symm

theorem tokens_refill_le :
    (b.refill now).tokens ≤
      b.tokens + b.accrued ((b.refill now).lastNs.toNat - b.lastNs.toNat) := by
  unfold TokenBucket.refill
  split
  · exact le_self_add
  · rename_i hnew
    have hsub : (now - b.lastNs).toNat = now.toNat - b.lastNs.toNat :=
      UInt64.toNat_sub_of_le _ _ (UInt64.le_of_lt (UInt64.not_le.mp hnew))
    dsimp only
    rw [hsub, TokenBucket.accrued, mul_comm b.rate]
    split
    · rename_i hover
      exact hover.le
    · exact le_refl _

theorem tokens_refill_capped (h : b.tokens ≤ b.capacity) : (b.refill now).tokens ≤ b.capacity := by
  unfold TokenBucket.refill
  split
  · exact h
  · dsimp only
    split
    · exact le_refl _
    · rename_i hunder
      exact not_lt.mp hunder

theorem allow_cases :
    (b.allow now = (false, b.refill now)) ∨
      (1 ≤ (b.refill now).tokens ∧
        b.allow now = (true, { b.refill now with tokens := (b.refill now).tokens - 1 })) := by
  unfold TokenBucket.allow
  dsimp only
  split
  · exact Or.inl rfl
  · rename_i henough
    exact Or.inr ⟨not_lt.mp henough, rfl⟩

theorem spent_allow :
    ((b.allow now).1.toNat : NNRat) + (b.allow now).2.tokens = (b.refill now).tokens ∧
      (b.allow now).2.rate = b.rate ∧ (b.allow now).2.capacity = b.capacity ∧
      (b.allow now).2.lastNs = (b.refill now).lastNs := by
  obtain h | ⟨henough, h⟩ := allow_cases b now
  · rw [h]
    exact ⟨by simp, rate_refill b now, capacity_refill b now, rfl⟩
  · rw [h]
    exact ⟨by simpa using add_tsub_cancel_of_le henough, rate_refill b now,
      capacity_refill b now, rfl⟩

theorem tokens_allow_capped (h : b.tokens ≤ b.capacity) :
    (b.allow now).2.tokens ≤ (b.allow now).2.capacity := by
  obtain ⟨hspent, -, hcap, -⟩ := spent_allow b now
  rw [hcap]
  calc
    (b.allow now).2.tokens ≤ ((b.allow now).1.toNat : NNRat) + (b.allow now).2.tokens :=
      le_add_self
    _ = (b.refill now).tokens := hspent
    _ ≤ b.capacity := tokens_refill_capped b now h

@[simp] theorem after_nil : b.after [] = b := rfl

@[simp] theorem after_cons : b.after (now :: ts) = (b.allow now).2.after ts := rfl

theorem after_append (ts' : List UInt64) : b.after (ts ++ ts') = (b.after ts).after ts' :=
  List.foldl_append

theorem answers_append (ts' : List UInt64) :
    b.answers (ts ++ ts') = b.answers ts ++ (b.after ts).answers ts' := by
  induction ts generalizing b with
  | nil => rfl
  | cons now ts ih => rw [List.cons_append, TokenBucket.answers, ih]; rfl

@[simp] theorem length_answers : (b.answers ts).length = ts.length := by
  induction ts generalizing b with
  | nil => rfl
  | cons now ts ih => rw [TokenBucket.answers, List.length_cons, ih, List.length_cons]

theorem lastNs_after : (b.after ts).lastNs.toNat = latest b.lastNs ts := by
  induction ts generalizing b with
  | nil => rfl
  | cons now ts ih =>
    obtain ⟨-, -, -, hlast⟩ := spent_allow b now
    rw [after_cons, ih, latest, hlast, lastNs_refill]
    rfl

theorem rate_after : (b.after ts).rate = b.rate := by
  induction ts generalizing b with
  | nil => rfl
  | cons now ts ih => rw [after_cons, ih, (spent_allow b now).2.1]

theorem capacity_after : (b.after ts).capacity = b.capacity := by
  induction ts generalizing b with
  | nil => rfl
  | cons now ts ih => rw [after_cons, ih, (spent_allow b now).2.2.1]

theorem tokens_after_capped (h : b.tokens ≤ b.capacity) :
    (b.after ts).tokens ≤ (b.after ts).capacity := by
  induction ts generalizing b with
  | nil => exact h
  | cons now ts ih => exact ih _ (tokens_allow_capped b now h)

theorem latest_append_le (start : UInt64) (ts' : List UInt64) :
    latest start ts ≤ latest start (ts ++ ts') := by
  rw [latest, latest, List.foldl_append]
  generalize ts.foldl (fun t now => max t now.toNat) start.toNat = t
  induction ts' generalizing t with
  | nil => exact Nat.le_refl t
  | cons now ts' ih => exact (Nat.le_max_left _ _).trans (ih _)

theorem accrued_add (m n : Nat) : b.accrued m + b.accrued n = b.accrued (m + n) := by
  simp only [TokenBucket.accrued, Nat.cast_add, add_div, mul_add]

theorem accrued_allow (n : Nat) : (b.allow now).2.accrued n = b.accrued n := by
  rw [TokenBucket.accrued, TokenBucket.accrued, (spent_allow b now).2.1]

theorem count_answers_cons :
    (b.answers (now :: ts)).count true =
      (b.allow now).1.toNat + ((b.allow now).2.answers ts).count true := by
  rw [TokenBucket.answers, List.count_cons, Nat.add_comm]
  cases (b.allow now).1 <;> rfl

theorem latest_cons : latest b.lastNs (now :: ts) = latest (b.allow now).2.lastNs ts := by
  rw [← lastNs_after, after_cons, lastNs_after]

/-- What a number of calls let through is paid for by the tokens there were and
those that accrued meanwhile. -/
theorem count_answers_le :
    ((b.answers ts).count true : NNRat) + (b.after ts).tokens ≤
      b.tokens + b.accrued (latest b.lastNs ts - b.lastNs.toNat) := by
  induction ts generalizing b with
  | nil => simp [TokenBucket.answers]
  | cons now ts ih =>
    obtain ⟨hspent, -, -, hlast⟩ := spent_allow b now
    have hrefill := tokens_refill_le b now
    have hrest := ih (b.allow now).2
    have hclock := lastNs_refill b now
    have hlater : (b.allow now).2.lastNs.toNat ≤ latest (b.allow now).2.lastNs ts :=
      latest_append_le [] _ ts
    rw [count_answers_cons, latest_cons, after_cons, Nat.cast_add]
    rw [accrued_allow] at hrest
    rw [hlast] at hrest hlater ⊢
    generalize (b.refill now).lastNs = last at *
    calc
      ((b.allow now).1.toNat : NNRat) + ((b.allow now).2.answers ts).count true +
            ((b.allow now).2.after ts).tokens
          ≤ (b.allow now).1.toNat +
            ((b.allow now).2.tokens + b.accrued (latest last ts - last.toNat)) := by
        rw [add_assoc]
        exact add_le_add_right hrest _
      _ = (b.refill now).tokens + b.accrued (latest last ts - last.toNat) := by
        rw [← add_assoc, hspent]
      _ ≤ b.tokens + b.accrued (last.toNat - b.lastNs.toNat) +
        b.accrued (latest last ts - last.toNat) :=
          add_le_add_left hrefill _
      _ = b.tokens + b.accrued (latest last ts - b.lastNs.toNat) := by
          rw [add_assoc, accrued_add]
          congr 2
          omega

theorem count_window_le (h : b.tokens ≤ b.capacity) :
    ((b.answers (now :: ts)).count true : NNRat) ≤
      b.capacity + b.accrued (latest b.lastNs (now :: ts) - latest b.lastNs [now]) := by
  obtain ⟨hspent, -, -, -⟩ := spent_allow b now
  have hrest := count_answers_le (b.allow now).2 ts
  have hfirst : latest b.lastNs [now] = (b.allow now).2.lastNs.toNat := by rw [← lastNs_after]; rfl
  rw [accrued_allow] at hrest
  rw [count_answers_cons, latest_cons, hfirst, Nat.cast_add]
  calc
    ((b.allow now).1.toNat : NNRat) + ((b.allow now).2.answers ts).count true
      ≤ (b.allow now).1.toNat +
          (((b.allow now).2.answers ts).count true + ((b.allow now).2.after ts).tokens) :=
        add_le_add_right le_self_add _
    _ ≤ (b.allow now).1.toNat + ((b.allow now).2.tokens +
          b.accrued (latest (b.allow now).2.lastNs ts - (b.allow now).2.lastNs.toNat)) :=
        add_le_add_right hrest _
    _ = (b.refill now).tokens +
          b.accrued (latest (b.allow now).2.lastNs ts - (b.allow now).2.lastNs.toNat) := by
        rw [← add_assoc, hspent]
    _ ≤ b.capacity + b.accrued (latest (b.allow now).2.lastNs ts - (b.allow now).2.lastNs.toNat) :=
        add_le_add_left (tokens_refill_capped b now h) _

theorem latest_after (ts' : List UInt64) :
    latest (b.after ts).lastNs ts' = latest b.lastNs (ts ++ ts') := by
  rw [← lastNs_after, ← after_append, lastNs_after]

/-- The calls from the `i`-th to the `j`-th, on their own. -/
theorem answers_window {i j : Nat} (hij : i ≤ j) (hj : j < ts.length) :
    ∃ now rest, ts.take (i + 1) = ts.take i ++ [now] ∧ ts.take (j + 1) = ts.take i ++ now :: rest ∧
      ((b.answers ts).take (j + 1)).drop i = (b.after (ts.take i)).answers (now :: rest) := by
  have hi : i < ts.length := by omega
  have hwhole : ts.take (j + 1) = ts.take i ++ ts[i] :: (ts.drop (i + 1)).take (j - i) := by
    rw [show j + 1 = i + (j - i + 1) by omega, List.take_add, List.drop_eq_getElem_cons hi,
      List.take_succ_cons]
  refine ⟨ts[i], (ts.drop (i + 1)).take (j - i), List.take_succ_eq_append_getElem hi, hwhole, ?_⟩
  have hall : b.answers ts =
      b.answers (ts.take (j + 1)) ++ (b.after (ts.take (j + 1))).answers (ts.drop (j + 1)) := by
    rw [← answers_append, List.take_append_drop]
  rw [hall, List.take_left' (by simp; omega), hwhole, answers_append,
    List.drop_left' (by simp; omega)]

/-- In every window of calls, at whatever times they are made, no more orders are
let through than the capacity and what the rate allows for the window. -/
theorem count_answers_bounded (rate capacity : NNRat) (start : UInt64) (ts : List UInt64)
    {i j : Nat} (hij : i ≤ j) (hj : j < ts.length) :
    (((((TokenBucket.create rate capacity start).answers ts).take (j + 1)).drop i).count
      true : Rat) ≤
      capacity + rate *
        ((latest start (ts.take (j + 1)) : Rat) - latest start (ts.take (i + 1))) / 10 ^ 9 := by
  let b := TokenBucket.create rate capacity start
  obtain ⟨now, rest, hfirst, hlast, hanswers⟩ := answers_window b ts hij hj
  have hcapped : (b.after (ts.take i)).tokens ≤ (b.after (ts.take i)).capacity :=
    tokens_after_capped b _ (le_refl _)
  have hwindow := count_window_le (b.after (ts.take i)) now rest hcapped
  have hrate : (b.after (ts.take i)).rate = rate := rate_after b _
  have hcapacity : (b.after (ts.take i)).capacity = capacity := capacity_after b _
  have hlater : latest start (ts.take (i + 1)) ≤ latest start (ts.take (j + 1)) := by
    have hmore := latest_append_le (ts.take (i + 1)) start rest
    rwa [hfirst, ← List.append_cons, ← hlast, ← hfirst] at hmore
  rw [← hanswers, latest_after, latest_after, ← hfirst, ← hlast, TokenBucket.accrued,
    hrate, hcapacity,
    show b.lastNs = start from rfl] at hwindow
  rw [mul_div_assoc, ← Nat.cast_sub hlater]
  generalize latest start (ts.take (j + 1)) - latest start (ts.take (i + 1)) = span at hwindow ⊢
  have hcast := NNRat.coe_le_coe.mpr hwindow
  push_cast at hcast
  exact hcast

theorem count_answers_pause :
    (((((TokenBucket.create 1 2 0).answers [0, 0, 0, 1000000000, 5]).take (3 + 1)).drop 1).count
      true : Rat) ≤
      (2 : NNRat) + (1 : NNRat) *
        ((latest 0 [0, 0, 0, 1000000000] : Rat) - latest 0 [0, 0]) / 10 ^ 9 :=
  count_answers_bounded 1 2 0 [0, 0, 0, 1000000000, 5] (show 1 ≤ 3 by decide) (by decide)

example :
    (TokenBucket.create 1 2 0).answers [0, 0, 0, 1000000000, 5] =
      [true, true, false, true, false] := by
  decide +kernel

/-- The limiter is asked about every frame but a heartbeat and one of another
version. -/
def limited : Frame → Bool
  | .wrongVersion => false
  | .heartbeat => false
  | _ => true

/-- A frame as `dispatch` gets it. Whatever else happens between two frames of a
client, its bucket is asked here only. -/
structure Arrival where
  now : UInt64
  frame : Frame
  inbound : List OrderCommand
  conn : Connection

def submitted (b : TokenBucket) : List Arrival → Nat
  | [] => 0
  | x :: xs =>
    let r := if limited x.frame then b.allow x.now else (true, b)
    ((dispatch x.inbound x.conn r.1 x.frame).1.length - x.inbound.length) + submitted r.2 xs

def askedAt (xs : List Arrival) : List UInt64 :=
  (xs.filter fun x => limited x.frame).map Arrival.now

theorem length_dispatch_le (inbound : List OrderCommand) (c : Connection) (allowed : Bool)
    (f : Frame) :
    (dispatch inbound c allowed f).1.length - inbound.length ≤ (limited f && allowed).toNat := by
  have hone : (dispatch inbound c allowed f).1.length - inbound.length ≤ 1 := by
    have hhandled := handled_dispatch inbound c allowed f
    generalize dispatch inbound c allowed f = r at hhandled
    cases hhandled with
    | answered => simp
    | forwarded => simp
  cases allowed with
  | false => cases f <;> simp [dispatch]
  | true =>
    cases f with
    | wrongVersion => simp [dispatch]
    | heartbeat => simp [dispatch]
    | _ => exact hone

theorem submitted_le_count (b : TokenBucket) (xs : List Arrival) :
    submitted b xs ≤ (b.answers (askedAt xs)).count true := by
  induction xs generalizing b with
  | nil => exact Nat.zero_le _
  | cons x xs ih =>
    rw [submitted]
    cases hlimited : limited x.frame with
    | false =>
      have hnone := length_dispatch_le x.inbound x.conn true x.frame
      have hskip : askedAt (x :: xs) = askedAt xs := by simp [askedAt, hlimited]
      have hrest := ih b
      rw [hlimited, Bool.false_and, Bool.toNat_false] at hnone
      rw [hskip, if_neg Bool.false_ne_true]
      dsimp only
      omega
    | true =>
      have hthis := length_dispatch_le x.inbound x.conn (b.allow x.now).1 x.frame
      have hasked : askedAt (x :: xs) = x.now :: askedAt xs := by simp [askedAt, hlimited]
      have hrest := ih (b.allow x.now).2
      rw [hlimited, Bool.true_and] at hthis
      rw [hasked, if_pos rfl, count_answers_cons]
      omega

/-- The matching thread gets no more from one client than the capacity of its
bucket and what accrues while it sends. -/
theorem submitted_bounded (rate capacity : NNRat) (start : UInt64) (xs : List Arrival) :
    (submitted (.create rate capacity start) xs : NNRat) ≤
      capacity + rate * ((latest start (askedAt xs) - start.toNat : Nat) / 1000000000) := by
  let b := TokenBucket.create rate capacity start
  calc
    (submitted b xs : NNRat) ≤ (b.answers (askedAt xs)).count true :=
      Nat.cast_le.mpr (submitted_le_count b xs)
    _ ≤ (b.answers (askedAt xs)).count true + (b.after (askedAt xs)).tokens := le_self_add
    _ ≤ capacity + rate * ((latest start (askedAt xs) - start.toNat : Nat) / 1000000000) :=
      count_answers_le b _

end OrderMatching.RateLimit
