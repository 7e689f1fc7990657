import Mathlib.Data.List.Induction
import OrderMatching.Startup

namespace OrderMatching.Compaction

open OrderMatching.Commands OrderMatching.Log OrderMatching.LogRead OrderMatching.Durability
open OrderMatching.Startup

theorem record_detached (seq : UInt64) (c : OrderCommand) :
    record seq (detached c) = record seq c :=
  rfl

theorem keptRecords_drop (keepAfter base : Nat) (cs : List OrderCommand)
    (hkeep : keepAfter < 2 ^ 64) (hfit : base + cs.length < 2 ^ 64) :
    (keptRecords (UInt64.ofNat keepAfter) (UInt64.ofNat base + 1) (cs.map detached)).1 =
      records (UInt64.ofNat (max base keepAfter)) (cs.drop (keepAfter - base)) := by
  induction cs generalizing base with
  | nil => simp [keptRecords, records]
  | cons c cs ih =>
    rw [List.length_cons] at hfit
    have hnext : UInt64.ofNat base + 1 = UInt64.ofNat (base + 1) := by simp
    have hrest := ih (base + 1) (by omega)
    rw [List.map_cons, keptRecords, hnext]
    have hcmp : UInt64.ofNat (base + 1) ≤ UInt64.ofNat keepAfter ↔ base + 1 ≤ keepAfter := by
      rw [UInt64.le_iff_toNat_le, UInt64.toNat_ofNat_of_lt' (show _ < 2 ^ 64 by omega),
        UInt64.toNat_ofNat_of_lt' hkeep]
    by_cases h : base + 1 ≤ keepAfter
    · rw [if_pos (hcmp.mpr h), hrest, Nat.max_eq_right (by omega), Nat.max_eq_right (by omega),
        show keepAfter - base = keepAfter - (base + 1) + 1 by omega]
      rfl
    · rw [if_neg (fun h' => h (hcmp.mp h')), Nat.max_eq_left (by omega),
        Nat.sub_eq_zero_of_le (by omega)]
      rw [Nat.max_eq_left (by omega), Nat.sub_eq_zero_of_le (by omega)] at hrest
      simp only [hrest, List.drop_zero, records, hnext, record_detached]

/-- `truncate_before` on a log whose numbers do not wrap: the records up to the
given number go, and the writer goes on where it was. -/
theorem truncateBefore_records {w : Wal} (hopen : w.isOpen = true) {base : Nat}
    {cs : List OrderCommand} (hfile : w.file = records (UInt64.ofNat base) cs)
    (hfit : base + cs.length < 2 ^ 64) (keepAfter : UInt64) :
    (w.truncateBefore keepAfter none).1 = .ok () ∧
    (w.truncateBefore keepAfter none).2.isOpen = true ∧
      (w.truncateBefore keepAfter none).2.seq = w.seq ∧
      (w.truncateBefore keepAfter none).2.file =
        records (UInt64.ofNat (max base keepAfter.toNat)) (cs.drop (keepAfter.toNat - base)) := by
  have hread := readWal_records torn_nil w.sync.path (UInt64.ofNat base) cs
  rw [List.append_nil, ← hfile, ← sync_file] at hread
  rw [Wal.truncateBefore, if_neg (by simp [hopen])]
  refine ⟨rfl, rfl, sync_seq w, ?_⟩
  change (keptRecords keepAfter (readWal w.sync.path (.ok w.sync.file)).firstSeq
    (readWal w.sync.path (.ok w.sync.file)).commands).1 = _
  rw [hread]
  cases cs with
  | nil => simp [keptRecords, records]
  | cons c cs =>
    have hdrop := keptRecords_drop keepAfter.toNat base (c :: cs) keepAfter.toNat_lt hfit
    rw [UInt64.ofNat_toNat] at hdrop
    simpa using hdrop

inductive LogCall where
  | append (c : OrderCommand) (nowNs : UInt64)
  | truncate (keepAfter : UInt64)

def LogCall.run (w : Wal) : LogCall → Wal
  | .append c nowNs => (w.append c nowNs ⟨(record (w.seq + 1) c).length, ""⟩).2
  | .truncate keepAfter => (w.truncateBefore keepAfter none).2

/-- The log after a number of calls, from a file that did not exist. -/
def logAfter (path : String) (nowNs : UInt64) (cfg : WalConfig) (startSeq : Nat)
    (calls : List LogCall) : Wal :=
  calls.foldl LogCall.run
    (Wal.initial.openLog path (.error "No such file or directory") nowNs
      (UInt64.ofNat startSeq) cfg none).2

def LogCall.cuts (q : Nat) : LogCall → Bool
  | .append .. => false
  | .truncate keepAfter => q ≤ keepAfter.toNat

/-- The appended commands with their numbers, without those that a later call
cuts off. -/
def surviving : Nat → List LogCall → List (Nat × OrderCommand)
  | _, [] => []
  | n, .append c _ :: calls =>
    if calls.any (LogCall.cuts (n + 1)) then surviving (n + 1) calls
    else (n + 1, c) :: surviving (n + 1) calls
  | n, .truncate _ :: calls => surviving n calls

def appends : List LogCall → Nat
  | [] => 0
  | .append .. :: calls => appends calls + 1
  | .truncate _ :: calls => appends calls

theorem appends_append (calls more : List LogCall) :
    appends (calls ++ more) = appends calls + appends more := by
  induction calls with
  | nil => simp [appends]
  | cons call calls ih =>
    cases call with
    | append => simp only [List.cons_append, appends, ih]; omega
    | truncate => exact ih

theorem surviving_append (n : Nat) (calls : List LogCall) (c : OrderCommand) (nowNs : UInt64) :
    surviving n (calls ++ [.append c nowNs]) =
      surviving n calls ++ [(n + appends calls + 1, c)] := by
  induction calls generalizing n with
  | nil => simp [surviving, appends]
  | cons call calls ih =>
    cases call with
    | append d =>
      simp only [List.cons_append, surviving, List.any_append, List.any_cons, LogCall.cuts,
        List.any_nil, Bool.or_false, ih, appends]
      have hnum : n + 1 + appends calls + 1 = n + (appends calls + 1) + 1 := by omega
      split <;> simp [hnum]
    | truncate => exact ih n

theorem surviving_truncate (n : Nat) (calls : List LogCall) (keepAfter : UInt64) :
    surviving n (calls ++ [.truncate keepAfter]) =
      (surviving n calls).filter fun p => keepAfter.toNat < p.1 := by
  induction calls generalizing n with
  | nil => simp [surviving]
  | cons call calls ih =>
    cases call with
    | append d =>
      simp only [List.cons_append, surviving, List.any_append, List.any_cons, LogCall.cuts,
        List.any_nil, Bool.or_false, Bool.or_eq_true, decide_eq_true_eq, ih]
      by_cases hcut : calls.any (LogCall.cuts (n + 1)) = true
      · rw [if_pos (Or.inl hcut), if_pos hcut]
      · by_cases hk : n + 1 ≤ keepAfter.toNat
        · rw [if_pos (Or.inr hk), if_neg hcut, List.filter_cons_of_neg]
          simp only [decide_eq_true_eq]
          omega
        · rw [if_neg (not_or.mpr ⟨hcut, hk⟩), if_neg hcut, List.filter_cons_of_pos]
          simp only [decide_eq_true_eq]
          omega
    | truncate => exact ih n

/-- Commands with the numbers from `base + 1` on. -/
def numbered : Nat → List OrderCommand → List (Nat × OrderCommand)
  | _, [] => []
  | base, c :: cs => (base + 1, c) :: numbered (base + 1) cs

theorem numbered_append (base : Nat) (cs ds : List OrderCommand) :
    numbered base (cs ++ ds) = numbered base cs ++ numbered (base + cs.length) ds := by
  induction cs generalizing base with
  | nil => rfl
  | cons c cs ih =>
    simp only [List.cons_append, numbered, ih, List.length_cons]
    rw [Nat.add_right_comm, Nat.add_assoc base]

theorem filter_numbered (k base : Nat) (cs : List OrderCommand) :
    (numbered base cs).filter (fun p => k < p.1) = numbered (max base k) (cs.drop (k - base)) := by
  induction cs generalizing base with
  | nil => simp [numbered]
  | cons c cs ih =>
    by_cases h : k < base + 1
    · have hmax : max base k = base := by omega
      have hmax' : max (base + 1) k = base + 1 := by omega
      have hzero : k - base = 0 := by omega
      have hzero' : k - (base + 1) = 0 := by omega
      simp [numbered, h, ih, hmax, hmax', hzero, hzero']
    · have hmax : max base k = max (base + 1) k := by omega
      have hsucc : k - base = k - (base + 1) + 1 := by omega
      simp [numbered, h, ih, hmax, hsucc]

theorem map_numbered (base : Nat) (cs : List OrderCommand) :
    (numbered base cs).map Prod.snd = cs := by
  induction cs generalizing base with
  | nil => rfl
  | cons c cs ih => simp [numbered, ih]

theorem last_numbered (base : Nat) {cs : List OrderCommand} (h : cs ≠ []) :
    (numbered base cs).getLast?.map Prod.fst = some (base + cs.length) := by
  obtain h' | ⟨ds, d, rfl⟩ := List.eq_nil_or_concat cs
  · exact absurd h' h
  · simp [numbered_append, numbered, Nat.add_assoc]

/-- The records in the file are those of the survivors, and they end at the
number the writer has reached. -/
structure Compact (startSeq : Nat) (calls : List LogCall) (w : Wal) (base : Nat)
    (cs : List OrderCommand) : Prop where
  isOpen : w.isOpen = true
  seq : w.seq = UInt64.ofNat (startSeq + appends calls)
  ends : base + cs.length = startSeq + appends calls
  file : w.file = records (UInt64.ofNat base) cs
  survivors : surviving startSeq calls = numbered base cs

theorem Compact.append {startSeq : Nat} {calls : List LogCall} {w : Wal} {base : Nat}
    {cs : List OrderCommand} (h : Compact startSeq calls w base cs) (c : OrderCommand)
    (nowNs : UInt64) :
    Compact startSeq (calls ++ [.append c nowNs]) (LogCall.run w (.append c nowNs)) base
      (cs ++ [c]) := by
  have hlen : (cs ++ [c]).length = cs.length + 1 := by simp
  have happ : appends (calls ++ [.append c nowNs]) = appends calls + 1 := by
    simp [appends_append, appends]
  have hends := h.ends
  obtain ⟨-, hopen, hfile, hseq⟩ :=
    append_whole h.isOpen c nowNs ⟨(record (w.seq + 1) c).length, ""⟩ (Nat.le_refl _)
  refine ⟨hopen, ?_, by omega, ?_, ?_⟩
  · rw [LogCall.run, hseq, h.seq, happ, ← Nat.add_assoc,
      UInt64.ofNat_add (startSeq + appends calls)]
    rfl
  · rw [LogCall.run, hfile, records_append, h.file, h.seq, ← h.ends, UInt64.ofNat_add]
    simp [records]
  · rw [surviving_append, numbered_append, h.survivors, ← h.ends]
    rfl

theorem Compact.truncate {startSeq : Nat} {calls : List LogCall} {w : Wal} {base : Nat}
    {cs : List OrderCommand} (h : Compact startSeq calls w base cs)
    (hfit : startSeq + appends calls < 2 ^ 64) (keepAfter : UInt64) :
    ∃ base' cs', Compact startSeq (calls ++ [.truncate keepAfter])
      (LogCall.run w (.truncate keepAfter)) base' cs' := by
  have happ : appends (calls ++ [.truncate keepAfter]) = appends calls := by
    simp [appends_append, appends]
  have hends := h.ends
  obtain ⟨-, hopen, hseq, hfile⟩ := truncateBefore_records h.isOpen h.file (by omega) keepAfter
  have hsurvivors : surviving startSeq (calls ++ [.truncate keepAfter]) =
      numbered (max base keepAfter.toNat) (cs.drop (keepAfter.toNat - base)) := by
    rw [surviving_truncate, h.survivors, filter_numbered]
  by_cases hall : keepAfter.toNat ≤ base + cs.length
  · refine ⟨max base keepAfter.toNat, cs.drop (keepAfter.toNat - base), hopen, ?_, ?_,
      hfile, hsurvivors⟩
    · rw [LogCall.run, hseq, h.seq, happ]
    · rw [List.length_drop, happ]
      omega
  · -- nothing is left, and the numbers go on
    have hnil : cs.drop (keepAfter.toNat - base) = [] := List.drop_eq_nil_of_le (by omega)
    rw [hnil] at hfile hsurvivors
    refine ⟨startSeq + appends calls, [], hopen, ?_, ?_, hfile, hsurvivors⟩
    · rw [LogCall.run, hseq, h.seq, happ]
    · rw [happ]
      rfl

theorem compact_run (path : String) (nowNs : UInt64) (cfg : WalConfig) (startSeq : Nat)
    (calls : List LogCall) (hfit : startSeq + appends calls < 2 ^ 64) :
    ∃ base cs, Compact startSeq calls (logAfter path nowNs cfg startSeq calls) base cs := by
  induction calls using List.reverseRecOn with
  | nil => exact ⟨startSeq, [], rfl, rfl, rfl, rfl, rfl⟩
  | append_singleton calls call ih =>
    rw [appends_append] at hfit
    obtain ⟨base, cs, h⟩ := ih (by omega)
    have hstep : logAfter path nowNs cfg startSeq (calls ++ [call]) =
        LogCall.run (logAfter path nowNs cfg startSeq calls) call := by simp [logAfter]
    rw [hstep]
    cases call with
    | append c nowNs => exact ⟨_, _, h.append c nowNs⟩
    | truncate keepAfter => exact h.truncate (by omega) keepAfter

/-- A log that is appended to and truncated reads back as the commands that no
truncation has cut off, under their old numbers. -/
theorem readWal_surviving (path : String) (nowNs : UInt64) (cfg : WalConfig) (startSeq : Nat)
    (calls : List LogCall) (hfit : startSeq + appends calls < 2 ^ 64) :
    readWal path (.ok (logAfter path nowNs cfg startSeq calls).file) =
      ⟨(surviving startSeq calls).map fun p => detached p.2,
        UInt64.ofNat (((surviving startSeq calls).head?.map Prod.fst).getD 0),
        UInt64.ofNat (((surviving startSeq calls).getLast?.map Prod.fst).getD 0), 0,
        false, 0, ""⟩ := by
  obtain ⟨base, cs, h⟩ := compact_run path nowNs cfg startSeq calls hfit
  have hread := readWal_records torn_nil path (UInt64.ofNat base) cs
  rw [List.append_nil, ← h.file] at hread
  have hcommands : (numbered base cs).map (fun p => detached p.2) = cs.map detached := by
    have hcomp : (fun p : Nat × OrderCommand => detached p.2) = detached ∘ Prod.snd := rfl
    rw [hcomp, ← List.map_map, map_numbered]
  rw [hread, h.survivors, hcommands]
  cases cs with
  | nil => rfl
  | cons c cs =>
    rw [last_numbered base (List.cons_ne_nil c cs)]
    have hfirst : UInt64.ofNat base + 1 = UInt64.ofNat (base + 1) := by simp
    simp [numbered, hfirst, ← UInt64.ofNat_add]

/-- Three orders, of which the first two are cut off, then everything, then one
more. -/
def cutTwice : List LogCall :=
  [.append (.newOrder 1 1 100 5 .ask .limit) 1, .append (.newOrder 1 2 101 5 .ask .limit) 2,
    .append (.newOrder 1 3 102 5 .ask .limit) 3, .truncate 2, .truncate 9, .append (.cancel 1 3) 4]

theorem cutTwice_survivor : readWal "wal" (.ok (logAfter "wal" 0 .default 0 cutTwice).file) =
    ⟨[.cancel 1 3], 4, 4, 0, false, 0, ""⟩ :=
  readWal_surviving "wal" 0 .default 0 cutTwice (by decide)

end OrderMatching.Compaction
