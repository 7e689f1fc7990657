import OrderMatching.Checkpoint
import OrderMatching.EventStreams

namespace OrderMatching.FailedAppends

open OrderMatching.Commands OrderMatching.Log OrderMatching.LogRead OrderMatching.Exchange
open OrderMatching.MatchingThread OrderMatching.LedgerStep OrderMatching.LogFold
open OrderMatching.Answers OrderMatching.Durability OrderMatching.Checkpoint
open OrderMatching.EventStreams

def logFile (t : Thread) : List UInt8 := (t.wal.map Wal.file).getD []

def applied (env : Env) : Thread → List Turn → List OrderCommand
  | _, [] => []
  | t, .pop c :: ts =>
    if isLoggable c.type && admits env t c then c :: applied env (turn env t (.pop c)) ts
    else applied env (turn env t (.pop c)) ts
  | t, a :: ts => applied env (turn env t a) ts

def refuses (env : Env) (t : Thread) : Turn → Bool
  | .pop c => !admits env t c
  | _ => false

/-- After an append that fails on a log that is not empty, or leaves a part of
its record there, nothing more is written. -/
def Halting (env : Env) : Thread → List Turn → Prop
  | _, [] => True
  | t, a :: ts =>
    (refuses env t a = true → logFile (turn env t a) ≠ [] →
      logFile (turns env (turn env t a) ts) = logFile (turn env t a)) ∧
        Halting env (turn env t a) ts

instance decidableHalting (env : Env) :
    ∀ (t : Thread) (ts : List Turn), Decidable (Halting env t ts)
  | _, [] => isTrue trivial
  | t, a :: ts =>
    have := decidableHalting env (turn env t a) ts
    inferInstanceAs (Decidable (_ ∧ _))

structure Logging (t : Thread) (w : Wal) : Prop where
  serving : t.replaying = false
  wal : t.wal = some w
  isOpen : w.isOpen = true
  noSnapshots : t.snap.path = ""

inductive Wrote (env : Env) (t : Thread) (w : Wal) (a : Turn) (t' : Thread) (w' : Wal) : Prop where
  | nothing (hrefuses : refuses env t a = false) (hfile : w'.file = w.file) (hseq : w'.seq = w.seq)
      (happended : t'.appended = t.appended)
      (happlied : ∀ ts, applied env t (a :: ts) = applied env t' ts)
  | whole {c : OrderCommand} (hrefuses : refuses env t a = false)
      (hfile : w'.file = w.file ++ record (w.seq + 1) c) (hseq : w'.seq = w.seq + 1)
      (happended : t'.appended = t.appended ++ [c])
      (happlied : ∀ ts, applied env t (a :: ts) = c :: applied env t' ts)
  | cut {c : OrderCommand} {k : Nat} (hrefuses : refuses env t a = true) (hk : k < 47)
      (hfile : w'.file = w.file ++ (record (w.seq + 1) c).take k)
      (hseq : w'.seq = w.seq + 1) (happended : t'.appended = t.appended)
      (happlied : ∀ ts, applied env t (a :: ts) = applied env t' ts)

/-- An append that fails leaves the part of the record that the kernel took. -/
theorem append_cut {w : Wal} (hw : w.isOpen = true) {c : OrderCommand} (nowNs : UInt64)
    {k : Written} (hk : ¬(record (w.seq + 1) c).length ≤ k.count) :
    (w.append c nowNs k).1 = false ∧ (w.append c nowNs k).2.isOpen = true ∧
      (w.append c nowNs k).2.file = w.file ++ (record (w.seq + 1) c).take k.count ∧
      (w.append c nowNs k).2.seq = w.seq + 1 := by
  let w' : Wal :=
    { w with
      seq := w.seq + 1
      file := w.file ++ (record (w.seq + 1) c).take k.count
      error := "wal write failed: " ++ k.error }
  have hwrite : ({ w with seq := w.seq + 1 } : Wal).writeAll (record (w.seq + 1) c) k =
      (false, w') := if_neg hk
  rw [Wal.append, if_pos hw, hwrite]
  exact ⟨rfl, hw, rfl, rfl⟩

theorem wrote_pop (env : Env) {t : Thread} {w : Wal} (h : Logging t w) (c : OrderCommand) :
    ∃ w', Logging (turn env t (.pop c)) w' ∧ Wrote env t w (.pop c) (turn env t (.pop c)) w' := by
  have hbase : (turn env t (.pop c)).snap = t.snap := congrArg Prod.fst (baseline_apply env t c)
  have hsnap : (turn env t (.pop c)).snap.path = "" := by rw [hbase, h.noSnapshots]
  have hcore : core (turn env t (.pop c)) = core (t.apply env c) := rfl
  cases hc : isLoggable c.type with
  | false =>
    rw [core_apply_unlogged env hc] at hcore
    have hadm : admits env t c = true := by simp [admits, hc]
    refine ⟨w, ⟨?_, ?_, h.isOpen, hsnap⟩,
      .nothing (by simp [refuses, hadm]) rfl rfl ?_ (by simp [applied, hc])⟩
    · exact (congrArg Core.replaying hcore).trans h.serving
    · exact (congrArg Core.wal hcore).trans h.wal
    · exact congrArg Core.appended hcore
  | true =>
    have hgate : admits env t c =
        (w.append c (env.monotonicNs t.asked) (env.written t.asked)).1 := by
      simp [admits, h.serving, hc, h.wal]
    rw [core_apply_logged env h.serving hc h.wal] at hcore
    by_cases hk : (record (w.seq + 1) c).length ≤ (env.written t.asked).count
    · obtain ⟨hadm, hopen, hfile, hseq⟩ := append_whole h.isOpen c (env.monotonicNs t.asked) _ hk
      rw [hadm, if_pos rfl] at hcore
      refine ⟨_, ⟨?_, congrArg Core.wal hcore, hopen, hsnap⟩,
        .whole ?_ hfile hseq (congrArg Core.appended hcore) ?_⟩
      · exact (congrArg Core.replaying hcore).trans h.serving
      · simp [refuses, hgate, hadm]
      · simp [applied, hc, hgate, hadm]
    · obtain ⟨hadm, hopen, hfile, hseq⟩ := append_cut h.isOpen (env.monotonicNs t.asked) hk
      rw [hadm, if_neg (by simp)] at hcore
      rw [length_record, Nat.not_le] at hk
      refine ⟨_, ⟨?_, congrArg Core.wal hcore, hopen, hsnap⟩,
        .cut ?_ hk hfile hseq (congrArg Core.appended hcore) ?_⟩
      · exact (congrArg Core.replaying hcore).trans h.serving
      · simp [refuses, hgate, hadm]
      · simp [applied, hgate, hadm]

theorem wrote_turn (env : Env) {t : Thread} {w : Wal} (h : Logging t w) (a : Turn) :
    ∃ w', Logging (turn env t a) w' ∧ Wrote env t w a (turn env t a) w' := by
  cases a with
  | pop c => exact wrote_pop env h c
  | sync =>
    obtain ⟨hopen, hfile, hseq⟩ := maybeSync_same w (env.monotonicNs t.asked)
    refine ⟨w.maybeSync (env.monotonicNs t.asked),
      ⟨h.serving, ?_, hopen.trans h.isOpen, h.noSnapshots⟩,
      .nothing rfl hfile hseq rfl fun _ => rfl⟩
    simp [turn, Thread.pollSync, h.wal, Wal.pollSync]
  | snapshot =>
    have hsame : turn env t .snapshot = t := by
      simp [turn, Thread.maybeSnapshot, h.wal, h.noSnapshots]
    rw [hsame]
    exact ⟨w, h, .nothing rfl rfl rfl rfl fun ts => by simp [applied, hsame]⟩

theorem logFile_eq {t : Thread} {w : Wal} (h : Logging t w) : logFile t = w.file := by
  simp [logFile, h.wal]

theorem grows_turns (env : Env) (ts : List Turn) {t : Thread} {w : Wal} (h : Logging t w) :
    (turns env t ts).appended = t.appended ++ applied env t ts ∧
      (logFile t).length + (applied env t ts).length ≤ (logFile (turns env t ts)).length := by
  induction ts generalizing t w with
  | nil => simp [turns, applied]
  | cons a ts ih =>
    obtain ⟨w', h', hwrote⟩ := wrote_turn env h a
    obtain ⟨happ, hlen⟩ := ih h'
    have hrun : turns env t (a :: ts) = turns env (turn env t a) ts := rfl
    rw [hrun, happ, logFile_eq h]
    rw [logFile_eq h'] at hlen
    cases hwrote with
    | nothing _ hfile _ happended happlied =>
      rw [happended, happlied]
      exact ⟨rfl, by rwa [hfile] at hlen⟩
    | whole _ hfile _ happended happlied =>
      rw [hfile, List.length_append, length_record] at hlen
      rw [happended, happlied, List.length_cons]
      exact ⟨by simp, by omega⟩
    | cut _ hk hfile _ happended happlied =>
      rw [hfile, List.length_append] at hlen
      rw [happended, happlied]
      exact ⟨rfl, by omega⟩

/-- Reading the log gives exactly the commands whose append returned true. -/
def ReadsBack (path : String) (t : Thread) : Prop :=
  (readWal path (.ok (logFile t))).commands = t.appended.map detached ∧
    (readWal path (.ok (logFile t))).sequenceGap = false

theorem readsBack_of {path : String} {t : Thread} (start : UInt64) {tail : List UInt8}
    (ht : Torn tail) (hfile : logFile t = records start t.appended ++ tail) : ReadsBack path t := by
  rw [ReadsBack, hfile, readWal_records ht]
  exact ⟨rfl, rfl⟩

/-- The induction over the run: the log is in order up to the first append that
fails for good, and stays as that one left it. -/
theorem readsBack_turns {env : Env} (path : String) (ts : List Turn) {t : Thread} {w : Wal}
    (h : Logging t w) (start : UInt64) (hfile : w.file = records start t.appended)
    (hseq : w.seq = start + UInt64.ofNat t.appended.length) (hrun : Halting env t ts) :
    ReadsBack path (turns env t ts) := by
  induction ts generalizing t w start with
  | nil =>
    exact readsBack_of start torn_nil
      (by rw [turns, List.foldl_nil, logFile_eq h, hfile, List.append_nil])
  | cons a ts ih =>
    obtain ⟨w', h', hwrote⟩ := wrote_turn env h a
    change ReadsBack path (turns env (turn env t a) ts)
    cases hwrote with
    | nothing _ hfile' hseq' happended _ =>
      exact ih h' start (by rw [hfile', happended, hfile]) (by rw [hseq', happended, hseq]) hrun.2
    | @whole c _ hfile' hseq' happended _ =>
      refine ih h' start ?_ ?_ hrun.2
      · rw [hfile', happended, records_append, hfile, hseq]
        simp [records]
      · rw [hseq', happended, hseq, List.length_append, List.length_singleton, UInt64.ofNat_add,
          ← UInt64.add_assoc]
        rfl
    | @cut c k hrefuses hk hfile' hseq' happended _ =>
      by_cases hempty : w'.file = []
      · -- nothing has been written yet, and the log starts one number later
        have hnone : t.appended = [] := by
          have hlen : (w.file ++ (record (w.seq + 1) c).take k).length = 0 := by
            rw [← hfile', hempty]; rfl
          rw [List.length_append, hfile, length_records] at hlen
          exact List.eq_nil_of_length_eq_zero (by omega)
        refine ih h' (w.seq + 1) ?_ ?_ hrun.2
        · rw [hempty, happended, hnone]
          rfl
        · rw [hseq', happended, hnone]
          simp
      · have hstuck := hrun.1 hrefuses (by rwa [logFile_eq h'])
        obtain ⟨happ, hlen⟩ := grows_turns env ts h'
        have hnone : applied env (turn env t a) ts = [] := by
          rw [hstuck] at hlen
          exact List.eq_nil_of_length_eq_zero (by omega)
        refine readsBack_of start (torn_take (w.seq + 1) c hk) ?_
        rw [hstuck, happ, hnone, List.append_nil, happended, logFile_eq h', hfile', hfile]

def logging (risk : RiskConfig) (path : String) (nowNs startSeq : UInt64) (cfg : WalConfig)
    (everyN : UInt64) : Thread :=
  Thread.fresh risk
    (some (Wal.initial.openLog path (.error "No such file or directory") nowNs startSeq cfg none).2)
    ⟨"", everyN⟩

/-- When the thread writes nothing more after an append that failed, the log
holds exactly the commands that were applied. -/
theorem failed_appends_harmless (env : Env) (risk : RiskConfig) (path : String)
    (nowNs startSeq : UInt64) (cfg : WalConfig) (everyN : UInt64) (ts : List Turn)
    (hrun : Halting env (logging risk path nowNs startSeq cfg everyN) ts) :
    let t₀ := logging risk path nowNs startSeq cfg everyN
    ReadsBack path (turns env t₀ ts) ∧ (turns env t₀ ts).appended = applied env t₀ ts := by
  have h : Logging (logging risk path nowNs startSeq cfg everyN)
      (Wal.initial.openLog path (.error "No such file or directory") nowNs startSeq cfg none).2 :=
    ⟨rfl, rfl, rfl, rfl⟩
  refine ⟨readsBack_turns path ts h startSeq rfl ?_ hrun, (grows_turns env ts h).1⟩
  simp [Wal.openLog, logging, Thread.fresh]

def accepting (counts : Nat → Nat) : Env :=
  { Env.obliging with written := fun n => ⟨counts n, "No space left on device"⟩ }

def threeSells : List Turn :=
  [.pop (.newOrder 1 1 100 5 .ask .limit), .pop (.newOrder 1 2 101 5 .ask .limit), .sync,
    .pop (.newOrder 1 3 102 5 .ask .limit)]

def fullAtEnds (n : Nat) : Nat := if n = 0 then 0 else if n = 1 then 47 else 12

theorem fullAtEnds_harmless :
    let t₀ := logging .default "wal" 0 0 .default 0
    ReadsBack "wal" (turns (accepting fullAtEnds) t₀ threeSells) ∧
      (turns (accepting fullAtEnds) t₀ threeSells).appended =
        applied (accepting fullAtEnds) t₀ threeSells :=
  failed_appends_harmless (accepting fullAtEnds) .default "wal" 0 0 .default 0 threeSells
    (by decide +kernel)

def fullOnce (n : Nat) : Nat := if n = 1 then 0 else 47

theorem fullOnce_not_readsBack :
    ¬∀ (env : Env) (risk : RiskConfig) (path : String) (nowNs startSeq : UInt64) (cfg : WalConfig)
      (everyN : UInt64) (ts : List Turn),
      ReadsBack path (turns env (logging risk path nowNs startSeq cfg everyN) ts) := by
  intro h
  have hread := (h (accepting fullOnce) .default "wal" 0 0 .default 0 threeSells).1
  revert hread
  decide +kernel

end OrderMatching.FailedAppends
