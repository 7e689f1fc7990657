import OrderMatching.FailedAppends
import OrderMatching.Uncrossed

namespace OrderMatching.Truncation

open OrderMatching.Commands OrderMatching.Log OrderMatching.LogRead OrderMatching.Durability
open OrderMatching.Exchange OrderMatching.MatchingThread OrderMatching.LedgerStep
open OrderMatching.LogFold OrderMatching.EventStreams OrderMatching.FailedAppends
open OrderMatching.Uncrossed

abbrev Files := String → Option (List UInt8)

/-- The answers of the calls `truncate_before` makes: the bytes that `read_wal` gets
before a `read` gives nothing more, or the error of its `open`, then the errors of the
calls on the temporary file, which takes so many bytes, and of the last `open`. -/
structure Calls where
  read : Except String Nat
  create : Option String
  written : Written
  rename : Option String
  reopen : Option String

structure Attempt where
  result : Except String Unit
  wal : Wal
  files : Files

def tmpPath (path : String) : String := path ++ ".tmp"

/-- `Wal::truncate_before` call by call, on the log and the temporary file next to it. -/
def truncateCalls (w : Wal) (d : Files) (keepAfter : UInt64) (k : Calls) : Attempt :=
  if w.isOpen = false then ⟨.error "wal not open", w, d⟩
  else
    let w := { w.sync with isOpen := false }
    let rd := readWal w.path (k.read.map fun n => ((d w.path).getD []).take n)
    if rd.error ≠ "" then ⟨.error rd.error, w, d⟩
    else
      let out := keptRecords keepAfter rd.firstSeq rd.commands
      match k.create with
      | some e => ⟨.error ("truncate: cannot create temp: " ++ e), w, d⟩
      | none =>
        let d := Function.update d (tmpPath w.path) (some (out.1.take k.written.count))
        if k.written.count < out.1.length then
          ⟨.error ("truncate: write failed: " ++ k.written.error), w,
            Function.update d (tmpPath w.path) none⟩
        else
          match k.rename with
          | some e => ⟨.error ("truncate: rename failed: " ++ e), w,
              Function.update d (tmpPath w.path) none⟩
          | none =>
            let d := Function.update (Function.update d w.path (d (tmpPath w.path)))
              (tmpPath w.path) none
            match k.reopen with
            | some e => ⟨.error ("truncate: cannot reopen: " ++ e), { w with file := out.1 }, d⟩
            | none =>
              ⟨.ok (), { w with
                isOpen := true, file := out.1,
                truncated := w.truncated + (UInt64.ofNat rd.commands.length - out.2) }, d⟩

theorem path_ne_tmpPath (path : String) : path ≠ tmpPath path := by
  intro h
  have hlen := congrArg String.length h
  simp [tmpPath] at hlen

theorem sync_path (w : Wal) : w.sync.path = w.path := by
  unfold Wal.sync
  split <;> rfl

/-- An attempt either goes through and opens the log again, or leaves it closed;
the file at the log's path changes with the rename only. -/
theorem truncateCalls_cases {w : Wal} (hopen : w.isOpen = true) (d : Files) (keepAfter : UInt64)
    (k : Calls) :
    ((truncateCalls w d keepAfter k).result = .ok () ∧
      (truncateCalls w d keepAfter k).wal.isOpen = true ∧
        k.create = none ∧ k.rename = none ∧ k.reopen = none) ∨
      ((truncateCalls w d keepAfter k).result ≠ .ok () ∧
        (truncateCalls w d keepAfter k).wal.isOpen = false ∧
        (k.reopen = none → (truncateCalls w d keepAfter k).files w.path = d w.path ∧
          (truncateCalls w d keepAfter k).wal.file = w.file)) := by
  have htmp : ∀ (d : Files) c, Function.update d (tmpPath w.sync.path) c w.path = d w.path := by
    intro d c
    rw [sync_path]
    exact Function.update_of_ne (path_ne_tmpPath w.path) _ _
  have hfile := sync_file w
  simp only [truncateCalls, hopen, Bool.true_eq_false, if_false]
  split
  · exact .inr ⟨by simp, rfl, fun _ => ⟨rfl, hfile⟩⟩
  · cases hcreate : k.create with
    | some e => exact .inr ⟨by simp, rfl, fun _ => ⟨rfl, hfile⟩⟩
    | none =>
      dsimp only
      split
      · exact .inr ⟨by simp, rfl, fun _ => ⟨(htmp _ _).trans (htmp _ _), hfile⟩⟩
      · cases hrename : k.rename with
        | some e => exact .inr ⟨by simp, rfl, fun _ => ⟨(htmp _ _).trans (htmp _ _), hfile⟩⟩
        | none =>
          cases hreopen : k.reopen with
          | some e => exact .inr ⟨by simp, rfl, by simp⟩
          | none => exact .inl ⟨rfl, rfl, rfl, rfl, rfl⟩

def Calls.fault (k : Calls) (out : List UInt8) : Option (TruncateFault × String) :=
  match k.read with
  | .error e => some (.read, e)
  | .ok _ =>
    match k.create with
    | some e => some (.create, e)
    | none =>
      if k.written.count < out.length then some (.write, k.written.error)
      else
        match k.rename with
        | some e => some (.rename, e)
        | none => k.reopen.map fun e => (.reopen, e)

/-- The log without the records up to `keepAfter`. -/
def rewritten (w : Wal) (keepAfter : UInt64) : List UInt8 :=
  (keptRecords keepAfter (readWal w.path (.ok w.file)).firstSeq
    (readWal w.path (.ok w.file)).commands).1

theorem truncateCalls_eq {w : Wal} {d : Files} (hd : d w.path = some w.file) (keepAfter : UInt64)
    {k : Calls} (hread : ∀ n, k.read = .ok n → w.file.length ≤ n) :
    ((truncateCalls w d keepAfter k).result, (truncateCalls w d keepAfter k).wal) =
      w.truncateBefore keepAfter (k.fault (rewritten w keepAfter)) := by
  cases hopen : w.isOpen with
  | false => simp [truncateCalls, Wal.truncateBefore, hopen]
  | true =>
    simp only [truncateCalls, Wal.truncateBefore, Calls.fault, rewritten, hopen, Bool.true_eq_false,
      if_false, sync_path, sync_file, hd, Option.getD_some]
    cases hk : k.read with
    | error e =>
      have hne : "cannot open " ++ w.path ++ ": " ++ e ≠ "" := by
        intro h
        have hlen := congrArg String.length h
        simp at hlen
      simp [Except.map, readWal, WalReadResult.empty, hne]
    | ok n =>
      have herror : (readWal w.path (.ok w.file)).error = "" := error_readLoop _ _ _
      rw [show (Except.ok n : Except String Nat).map (fun n => w.file.take n) = .ok w.file by
        rw [Except.map, List.take_of_length_le (hread n hk)]]
      rw [if_neg (by simp [herror])]
      cases k.create with
      | some e => rfl
      | none =>
        dsimp only
        by_cases hcut :
          k.written.count <
            (keptRecords keepAfter (readWal w.path (.ok w.file)).firstSeq
              (readWal w.path (.ok w.file)).commands).1.length
        · simp only [hcut, if_true]
        · simp only [hcut, if_false]
          cases k.rename with
          | some e => rfl
          | none =>
            cases k.reopen with
            | some e => rfl
            | none => rfl

/-- An append that is asked for later, and what the kernel takes of its record. -/
structure Later where
  command : OrderCommand
  nowNs : UInt64
  written : Written

def outcomes : Wal → List Later → List Bool
  | _, [] => []
  | w, a :: later =>
    let r := w.append a.command a.nowNs a.written
    r.1 :: outcomes r.2 later

theorem outcomes_open {w : Wal} (hopen : w.isOpen = true) (later : List Later) :
    outcomes w later = later.map fun a => decide (47 ≤ a.written.count) := by
  induction later generalizing w with
  | nil => rfl
  | cons a later ih =>
    rw [outcomes, List.map_cons]
    by_cases hk : (record (w.seq + 1) a.command).length ≤ a.written.count
    · obtain ⟨hok, hstill, -⟩ := append_whole hopen a.command a.nowNs a.written hk
      rw [length_record] at hk
      rw [hok, ih hstill, decide_eq_true hk]
    · obtain ⟨hok, hstill, -⟩ := append_cut hopen a.nowNs hk
      rw [length_record] at hk
      rw [hok, ih hstill, decide_eq_false hk]

theorem outcomes_closed {w : Wal} (hclosed : w.isOpen = false) (later : List Later) :
    outcomes w later = later.map fun _ => false := by
  induction later with
  | nil => rfl
  | cons a later ih =>
    have happend : w.append a.command a.nowNs a.written = (false, w) := by
      simp [Wal.append, hclosed]
    rw [outcomes, happend, List.map_cons, ih]

/-- Up to the rename a failed attempt leaves the bytes of the log as they were. But
it leaves the log closed, so that later appends go as they would have gone just if they
would all have failed. -/
theorem usable_iff {w : Wal} (hopen : w.isOpen = true) (d : Files) (keepAfter : UInt64) (k : Calls)
    (later : List Later) :
    ((truncateCalls w d keepAfter k).result ≠ .ok () → k.reopen = none →
      (truncateCalls w d keepAfter k).files w.path = d w.path ∧
        (truncateCalls w d keepAfter k).wal.file = w.file) ∧
    (outcomes (truncateCalls w d keepAfter k).wal later = outcomes w later ↔
      (truncateCalls w d keepAfter k).result = .ok () ∨ ∀ a ∈ later, a.written.count < 47) := by
  obtain ⟨hok, hreopened, -⟩ | ⟨hfail, hclosed, hkept⟩ := truncateCalls_cases hopen d keepAfter k
  · refine ⟨fun hfail => absurd hok hfail, ?_⟩
    rw [outcomes_open hopen, outcomes_open hreopened]
    simp [hok]
  · refine ⟨fun _ => hkept, ?_⟩
    rw [outcomes_open hopen, outcomes_closed hclosed, List.map_inj_left]
    simp [hfail]

def logged : Wal :=
  ((⟨true, [], "wal", "", .default, 0, 0, 0, 0, 0⟩ : Wal).append (.newOrder 1 1 100 10 .bid .limit)
    0 ⟨47, ""⟩).2

theorem logged_open : logged.isOpen = true :=
  (append_whole rfl _ _ _ (by rw [length_record])).2.1

def onDisk : Files := Function.update (fun _ => none) logged.path (some logged.file)

def noRoom : Calls := ⟨.ok 63, some "No space left on device", ⟨0, ""⟩, none, none⟩

theorem noRoom_fails : (truncateCalls logged onDisk 0 noRoom).result ≠ .ok () ∧
    (truncateCalls logged onDisk 0 noRoom).wal.isOpen = false := by
  obtain ⟨-, -, hcreate, -⟩ | ⟨hfails, hclosed, -⟩ :=
    truncateCalls_cases logged_open onDisk 0 noRoom
  · cases hcreate
  · exact ⟨hfails, hclosed⟩

theorem outcomes_full_disk :
    outcomes (truncateCalls logged onDisk 0 noRoom).wal
      [⟨.cancel 1 1, 1, ⟨12, "No space left on device"⟩⟩] =
      outcomes logged [⟨.cancel 1 1, 1, ⟨12, "No space left on device"⟩⟩] :=
  (usable_iff logged_open onDisk 0 noRoom _).2.mpr (.inr (by simp))

/-- There is room again, and the append that would have succeeded fails. -/
theorem unusable_after_failure :
    ¬∀ (w : Wal) (d : Files) (keepAfter : UInt64) (k : Calls), w.isOpen = true →
    d w.path = some w.file → k.reopen = none → (truncateCalls w d keepAfter k).result ≠ .ok () →
    (truncateCalls w d keepAfter k).files w.path = d w.path ∧
      ∀ later, outcomes (truncateCalls w d keepAfter k).wal later = outcomes w later := by
  intro h
  obtain ⟨hfails, hclosed⟩ := noRoom_fails
  have hlater := (h logged onDisk 0 noRoom logged_open (Function.update_self _ _ _) rfl hfails).2
    [⟨.cancel 1 1, 1, ⟨47, ""⟩⟩]
  rw [outcomes_open logged_open, outcomes_closed hclosed] at hlater
  simp at hlater

structure Stalled (t : Thread) : Prop where
  serving : t.replaying = false
  closed : ∃ w, t.wal = some w ∧ w.isOpen = false

theorem truncateBefore_closed {w : Wal} {keepAfter : UInt64}
    {fault : Option (TruncateFault × String)} (h : w.isOpen = false ∨ fault ≠ none) :
    (w.truncateBefore keepAfter fault).2.isOpen = false := by
  cases hopen : w.isOpen with
  | false => simp [Wal.truncateBefore, hopen]
  | true =>
    obtain h | h := h
    · rw [hopen] at h
      cases h
    · obtain ⟨⟨f, e⟩, rfl⟩ := Option.ne_none_iff_exists'.mp h
      rw [Wal.truncateBefore, if_neg (by simp [hopen])]
      cases f <;> rfl

theorem Stalled.apply {t : Thread} (h : Stalled t) (env : Env) (c : OrderCommand) :
    Stalled (t.apply env c) ∧ (t.apply env c).ledger = t.ledger := by
  obtain ⟨w, hw, hclosed⟩ := h.closed
  cases hc : isLoggable c.type with
  | false =>
    have hcore := core_apply_unlogged env (t := t) hc
    exact ⟨⟨(congrArg Core.replaying hcore).trans h.serving, w,
      (congrArg Core.wal hcore).trans hw, hclosed⟩,
      congrArg Core.ledger hcore⟩
  | true =>
    have happend : w.append c (env.monotonicNs t.asked) (env.written t.asked) = (false, w) := by
      simp [Wal.append, hclosed]
    have hcore := core_apply_logged env h.serving hc hw
    dsimp only at hcore
    rw [happend, if_neg (by simp)] at hcore
    exact ⟨⟨(congrArg Core.replaying hcore).trans h.serving, w, congrArg Core.wal hcore, hclosed⟩,
      congrArg Core.ledger hcore⟩

/-- The turn of `maybe_snapshot` that calls `truncate_before`. -/
def Truncates (env : Env) (t : Thread) (w : Wal) : Prop :=
  ¬(t.snap.path.isEmpty ∨ t.snap.everyN = 0 ∨ w.seq < t.nextSnapshotAt) ∧
    env.snapshotWritten t.asked = true ∧ t.lastSnapshotSeq > 0

theorem wal_maybeSnapshot (env : Env) {t : Thread} {w : Wal} (hw : t.wal = some w) :
    (Truncates env t w ∧ (t.maybeSnapshot env).wal =
        some (w.truncateBefore t.lastSnapshotSeq (env.truncateFault t.asked)).2) ∨
      (¬Truncates env t w ∧ (t.maybeSnapshot env).wal = some w) := by
  unfold Truncates Thread.maybeSnapshot
  rw [hw]
  dsimp only
  by_cases hdue : t.snap.path.isEmpty ∨ t.snap.everyN = 0 ∨ w.seq < t.nextSnapshotAt
  · rw [if_pos hdue]
    exact .inr ⟨fun h => h.1 hdue, hw⟩
  · rw [if_neg hdue]
    by_cases hwritten : env.snapshotWritten t.asked = true
    · rw [if_pos hwritten]
      by_cases hlast : t.lastSnapshotSeq > 0
      · rw [if_pos hlast]
        exact .inl ⟨⟨hdue, hwritten, hlast⟩, rfl⟩
      · rw [if_neg hlast]
        exact .inr ⟨fun h => hlast h.2.2, rfl⟩
    · rw [if_neg hwritten]
      refine .inr ⟨fun h => hwritten h.2.1, ?_⟩
      dsimp only
      split
      · rfl
      · exact hw

theorem serving_maybeSnapshot (env : Env) (t : Thread) :
    (t.maybeSnapshot env).replaying = t.replaying := by
  obtain ⟨wal, -, hcore⟩ := core_maybeSnapshot env t
  exact congrArg Core.replaying hcore

theorem stalled_of_fault {env : Env} {t : Thread} {w : Wal} (hserving : t.replaying = false)
    (hw : t.wal = some w) (htruncates : Truncates env t w)
    (hfault : env.truncateFault t.asked ≠ none) : Stalled (t.maybeSnapshot env) := by
  refine ⟨(serving_maybeSnapshot env t).trans hserving, ?_⟩
  obtain ⟨-, hwal⟩ | ⟨hno, -⟩ := wal_maybeSnapshot env hw
  · exact ⟨_, hwal, truncateBefore_closed (.inr hfault)⟩
  · exact absurd htruncates hno

theorem Stalled.turn {t : Thread} (h : Stalled t) (env : Env) (a : Turn) :
    Stalled (turn env t a) ∧ (turn env t a).ledger = t.ledger := by
  cases a with
  | pop c =>
    obtain ⟨⟨hserving, hclosed⟩, hledger⟩ := h.apply env c
    exact ⟨⟨hserving, hclosed⟩, hledger⟩
  | sync =>
    obtain ⟨w, hw, hclosed⟩ := h.closed
    refine ⟨⟨h.serving, w.pollSync (env.monotonicNs t.asked), ?_, ?_⟩, rfl⟩
    · simp [EventStreams.turn, Thread.pollSync, hw]
    · exact (maybeSync_same w _).1.trans hclosed
  | snapshot =>
    obtain ⟨w, hw, hclosed⟩ := h.closed
    refine ⟨⟨(serving_maybeSnapshot env t).trans h.serving, ?_⟩, ledger_maybeSnapshot env t⟩
    obtain ⟨-, hwal⟩ | ⟨-, hwal⟩ := wal_maybeSnapshot env hw
    · exact ⟨_, hwal, truncateBefore_closed (.inl hclosed)⟩
    · exact ⟨w, hwal, hclosed⟩

theorem Stalled.turns {t : Thread} (h : Stalled t) (env : Env) (as : List Turn) :
    (turns env t as).ledger = t.ledger := by
  induction as generalizing t with
  | nil => rfl
  | cons a as ih =>
    obtain ⟨hstalled, hledger⟩ := h.turn env a
    exact (ih hstalled).trans hledger

/-- `maybe_snapshot` ignores the result: after a failed truncation no command ever
reaches the book again. -/
theorem turns_of_fault {env : Env} {t : Thread} {w : Wal} (hserving : t.replaying = false)
    (hw : t.wal = some w) (htruncates : Truncates env t w)
    (hfault : env.truncateFault t.asked ≠ none) (as : List Turn) :
    (turns env t (.snapshot :: as)).ledger = t.ledger :=
  ((stalled_of_fault hserving hw htruncates hfault).turns env as).trans (ledger_maybeSnapshot env t)

end OrderMatching.Truncation
