import OrderMatching.SnapshotFormat
import OrderMatching.Startup

namespace OrderMatching.Fallback

open OrderMatching.Log OrderMatching.LogRead OrderMatching.SnapshotFile OrderMatching.SnapshotFormat
open OrderMatching.Durability OrderMatching.Startup

/-- The header that `read_snapshot` stores in the caller's data: that of a file
with the right magic and version, whatever comes behind. -/
def storedHeader (file : Except String (List UInt8)) : Option Header :=
  match file with
  | .error _ => none
  | .ok buf =>
    let h := header buf
    if snapshotHeaderSize ≤ buf.length ∧ h.magic = snapshotMagic ∧ h.version = snapshotVersion then
      some h
    else none

theorem storedHeader_none {buf : List UInt8}
    (h : ¬(snapshotHeaderSize ≤ buf.length ∧ (header buf).magic = snapshotMagic ∧
      (header buf).version = snapshotVersion)) : storedHeader (.ok buf) = none := if_neg h

/-- The reader gives up before the header and leaves the data as it was, or it
stores the header for good. -/
theorem readSnapshot_cases (path : String) (file : Except String (List UInt8)) :
    (storedHeader file = none ∧ ∃ e, ∀ out, readSnapshot path file out = (.error e, out)) ∨
      ∃ h, storedHeader file = some h ∧
        ∀ out, ∃ orders,
          (readSnapshot path file out).2 = { h.store out with orders := orders } := by
  cases file with
  | error e => exact .inl ⟨rfl, _, fun _ => rfl⟩
  | ok buf =>
    by_cases hlong : snapshotHeaderSize ≤ buf.length
    · have hread := readSnapshot_eq path hlong
      by_cases hmagic : (header buf).magic = snapshotMagic
      · by_cases hversion : (header buf).version = snapshotVersion
        · refine .inr ⟨header buf, if_pos ⟨hlong, hmagic, hversion⟩, fun out => ?_⟩
          rw [hread, if_neg (not_not.mpr hmagic), if_neg (not_not.mpr hversion)]
          split
          · exact ⟨out.orders, rfl⟩
          · split
            · exact ⟨out.orders, rfl⟩
            · exact ⟨_, rfl⟩
        · refine .inl ⟨storedHeader_none fun h => hversion h.2.2, "unsupported snapshot version",
            fun out => ?_⟩
          rw [hread, if_neg (not_not.mpr hmagic), if_pos hversion]
      · refine .inl ⟨storedHeader_none fun h => hmagic h.2.1, "not a snapshot file", fun out => ?_⟩
        rw [hread, if_pos hmagic]
    · refine .inl ⟨storedHeader_none fun h => hlong h.1, "snapshot too short", fun out => ?_⟩
      rw [readSnapshot, if_pos (Nat.not_le.mp hlong)]

theorem lastSeq_readSnapshot (path : String) (file : Except String (List UInt8)) (out : Image) :
    (readSnapshot path file out).2.lastSeq =
      (storedHeader file).elim out.lastSeq Header.lastSeq := by
  rcases readSnapshot_cases path file with ⟨hnone, e, hread⟩ | ⟨h, hsome, hread⟩
  · rw [hread, hnone]
    rfl
  · obtain ⟨orders, horders⟩ := hread out
    rw [horders, hsome]
    rfl

/-- The reader leaves the caller's data as it was. -/
def Untouched (path : String) (file : Except String (List UInt8)) : Prop :=
  ∀ out, (readSnapshot path file out).2 = out

theorem untouched_iff (path : String) (file : Except String (List UInt8)) :
    Untouched path file ↔ storedHeader file = none := by
  constructor
  · intro h
    cases hstored : storedHeader file with
    | none => rfl
    | some stored =>
      -- data with another number does not keep it
      have hseq := lastSeq_readSnapshot path file { Image.blank with lastSeq := stored.lastSeq + 1 }
      rw [h, hstored] at hseq
      have hsame : stored.lastSeq + 1 = stored.lastSeq := hseq
      simp at hsame
  · intro hnone
    rcases readSnapshot_cases path file with ⟨-, e, hread⟩ | ⟨h, hsome, -⟩
    · exact fun out => congrArg Prod.snd (hread out)
    · rw [hnone] at hsome
      cases hsome

/-- A file that the reader refuses. -/
def Unusable (path : String) (file : Except String (List UInt8)) : Prop :=
  ∀ out, ∃ e, (readSnapshot path file out).1 = .error e

/-- What two refused files leave in `snap_data.last_seq`. -/
def leftover (f : Files) : UInt64 :=
  ((storedHeader f.prev).or (storedHeader f.snapshot)).elim 0 Header.lastSeq

theorem chooseSnapshot_unusable {cfg : Config} {f : Files}
    (hread : ¬(cfg.snapPath = "" ∨ cfg.recover = false))
    (hsnapshot : Unusable cfg.snapPath f.snapshot)
    (hprev : Unusable (cfg.snapPath ++ ".prev") f.prev) :
    (chooseSnapshot cfg f).haveSnapshot = false ∧
      (chooseSnapshot cfg f).data.lastSeq = leftover f := by
  obtain ⟨e, he⟩ := hsnapshot .blank
  obtain ⟨e', he'⟩ := hprev (readSnapshot cfg.snapPath f.snapshot .blank).2
  have hseq := lastSeq_readSnapshot cfg.snapPath f.snapshot .blank
  have hseq' := lastSeq_readSnapshot (cfg.snapPath ++ ".prev") f.prev
    (readSnapshot cfg.snapPath f.snapshot .blank).2
  rw [chooseSnapshot, if_neg hread]
  generalize readSnapshot cfg.snapPath f.snapshot .blank = first at he he' hseq hseq' ⊢
  obtain ⟨r, d⟩ := first
  subst he
  dsimp only at he' hseq hseq' ⊢
  generalize readSnapshot (cfg.snapPath ++ ".prev") f.prev d = second at he' hseq' ⊢
  obtain ⟨r', d'⟩ := second
  subst he'
  refine ⟨rfl, hseq'.trans ?_⟩
  rw [hseq, leftover]
  cases storedHeader f.prev with
  | none => rfl
  | some h => rfl

def unsaved (cfg : Config) : Config := { cfg with snapPath := "" }

theorem recovery_unsaved (cfg : Config) (f : Files) :
    recovery (unsaved cfg) f =
      if cfg.walPath = "" ∨ cfg.recover = false then some ⟨[], 0⟩
      else recoverLog false 0 (readWal cfg.walPath f.log) := by
  have hchosen : chooseSnapshot (unsaved cfg) f = ⟨false, .blank⟩ := if_pos (.inl rfl)
  rw [recovery, hchosen]
  rfl

theorem recoverLog_false (snapSeq : UInt64) (rd : WalReadResult) :
    recoverLog false snapSeq rd =
      if rd.error ≠ "" then some ⟨[], 0⟩
      else if rd.sequenceGap then none
      else some ⟨rd.commands, if rd.lastSeq > snapSeq then rd.lastSeq else snapSeq⟩ := by
  rw [recoverLog, skipCovered_none]

theorem resume_zero (last : UInt64) : (if last > 0 then last else 0) = last := by
  split
  · rfl
  · rename_i h
    exact (UInt64.le_zero_iff.mp (UInt64.not_lt.mp h)).symm

theorem resume_eq_iff (last snapSeq : UInt64) :
    (if last > snapSeq then last else snapSeq) = (if last > 0 then last else 0) ↔
      snapSeq ≤ last := by
  rw [resume_zero]
  split
  · rename_i h
    exact ⟨fun _ => UInt64.le_of_lt h, fun _ => rfl⟩
  · rename_i h
    exact ⟨fun heq => UInt64.le_of_eq heq, fun hle => UInt64.le_antisymm hle (UInt64.not_lt.mp h)⟩

/-- The commands to replay do not depend on what is left in the data, and the
number to go on from only if it exceeds the log's. -/
theorem recoverLog_leftover (snapSeq : UInt64) (rd : WalReadResult) :
    (recoverLog false snapSeq rd).map Recovery.pending =
      (recoverLog false 0 rd).map Recovery.pending ∧
      (recoverLog false snapSeq rd = recoverLog false 0 rd ↔
        rd.error ≠ "" ∨ rd.sequenceGap = true ∨ snapSeq ≤ rd.lastSeq) := by
  rw [recoverLog_false, recoverLog_false]
  by_cases herror : rd.error ≠ ""
  · rw [if_pos herror, if_pos herror]
    exact ⟨rfl, fun _ => .inl herror, fun _ => rfl⟩
  · rw [if_neg herror, if_neg herror]
    by_cases hgap : rd.sequenceGap = true
    · rw [if_pos hgap, if_pos hgap]
      exact ⟨rfl, fun _ => .inr (.inl hgap), fun _ => rfl⟩
    · rw [if_neg hgap, if_neg hgap]
      refine ⟨rfl, ?_⟩
      rw [or_iff_right herror, or_iff_right hgap, Option.some.injEq, Recovery.mk.injEq,
        and_iff_right rfl]
      exact resume_eq_iff rd.lastSeq snapSeq

def Ignored (cfg : Config) (f : Files) : Prop :=
  (cfg.snapPath = "" ∨ cfg.recover = false) ∨ cfg.walPath = "" ∨
    (readWal cfg.walPath f.log).error ≠ "" ∨ (readWal cfg.walPath f.log).sequenceGap = true ∨
    leftover f ≤ (readWal cfg.walPath f.log).lastSeq

theorem recovery_leftover {cfg : Config} {f : Files} (hsnapshot : Unusable cfg.snapPath f.snapshot)
    (hprev : Unusable (cfg.snapPath ++ ".prev") f.prev) :
    (recovery cfg f).map Recovery.pending = (recovery (unsaved cfg) f).map Recovery.pending ∧
      (recovery cfg f = recovery (unsaved cfg) f ↔ Ignored cfg f) := by
  rw [recovery_unsaved, recovery]
  by_cases hread : cfg.snapPath = "" ∨ cfg.recover = false
  · have hchosen : chooseSnapshot cfg f = ⟨false, .blank⟩ := if_pos hread
    rw [hchosen]
    exact ⟨rfl, fun _ => .inl hread, fun _ => rfl⟩
  · have hrecover : cfg.recover ≠ false := fun h => hread (.inr h)
    obtain ⟨hnone, hseq⟩ := chooseSnapshot_unusable hread hsnapshot hprev
    rw [hnone, hseq, Ignored, or_iff_right hread]
    by_cases hwal : cfg.walPath = ""
    · rw [if_pos (.inl hwal), if_pos (.inl hwal)]
      exact ⟨rfl, fun _ => .inl hwal, fun _ => rfl⟩
    · have hlog : ¬(cfg.walPath = "" ∨ cfg.recover = false) := not_or.mpr ⟨hwal, hrecover⟩
      rw [if_neg hlog, if_neg hlog, or_iff_right hwal]
      exact recoverLog_leftover (leftover f) (readWal cfg.walPath f.log)

theorem lastSeq_of_error {path : String} {file : Except String (List UInt8)}
    (h : (readWal path file).error ≠ "") :
    (readWal path file).lastSeq = 0 := by
  cases file with
  | error e => rfl
  | ok buf => exact absurd (error_readLoop _ buf _) h

theorem resumeSeq_unsaved {cfg : Config} {f : Files} (hwal : cfg.walPath ≠ "")
    (hrecover : cfg.recover = true) {r : Recovery} (h : recovery (unsaved cfg) f = some r) :
    r.resumeSeq = (readWal cfg.walPath f.log).lastSeq := by
  rw [recovery_unsaved, if_neg (by simp [hwal, hrecover]), recoverLog_false] at h
  split at h
  · rename_i herror
    rw [lastSeq_of_error herror, ← Option.some.inj h]
  · split at h
    · cases h
    · rw [← Option.some.inj h]
      exact resume_zero _

/-- A refused snapshot leaves the data as it was only if its header is not
reached. It never changes what is replayed, but a number behind the log's moves
the place to go on from. -/
theorem recovery_unusable {cfg : Config} {f : Files} (hsnapshot : Unusable cfg.snapPath f.snapshot)
    (hprev : Unusable (cfg.snapPath ++ ".prev") f.prev) :
    (Untouched cfg.snapPath f.snapshot ↔ storedHeader f.snapshot = none) ∧
      (Untouched (cfg.snapPath ++ ".prev") f.prev ↔ storedHeader f.prev = none) ∧
      (recovery cfg f).map Recovery.pending = (recovery (unsaved cfg) f).map Recovery.pending ∧
      (recovery cfg f = recovery (unsaved cfg) f ↔ Ignored cfg f) ∧
      ∀ r, cfg.walPath ≠ "" → cfg.recover = true → recovery (unsaved cfg) f = some r →
        r.resumeSeq = (readWal cfg.walPath f.log).lastSeq := by
  obtain ⟨hpending, hsame⟩ := recovery_leftover hsnapshot hprev
  exact ⟨untouched_iff _ _, untouched_iff _ _, hpending, hsame,
    fun _ hwal hrecover => resumeSeq_unsaved hwal hrecover⟩

theorem unusable_missing (path e : String) : Unusable path (.error e) := fun _ => ⟨_, rfl⟩

def wholeLog : Files :=
  ⟨.error "No such file or directory", .error "No such file or directory",
    .ok (records 0 (stretch sellHistory 0 2))⟩

theorem recovery_unusable_wholeLog :
    storedHeader wholeLog.snapshot = none ∧
      recovery recovering wholeLog = recovery (unsaved recovering) wholeLog := by
  have h := @recovery_unusable recovering wholeLog (unusable_missing _ _) (unusable_missing _ _)
  have hignored : Ignored recovering wholeLog := .inr (.inr (.inr (.inr UInt64.zero_le)))
  exact ⟨rfl, h.2.2.2.1.mpr hignored⟩

def ninthSnapshot : Stored := ⟨⟨9, 100, 2, [⟨1, 1, 10, 100, 5, 0, 0⟩]⟩, by decide⟩

def stale : Files :=
  ⟨.ok ((writeSnapshot ninthSnapshot.image).take 60), .error "No such file or directory",
    .ok (records 0 [.newOrder 1 1 100 5 .ask .limit])⟩

theorem stale_moves_resumeSeq :
    Unusable "snap" stale.snapshot ∧ Unusable "snap.prev" stale.prev ∧
    ¬Untouched "snap" stale.snapshot ∧
      (recovery recovering stale).map Recovery.resumeSeq = some 9 ∧
      (recovery (unsaved recovering) stale).map Recovery.resumeSeq = some 1 := by
  have hcut : 60 < (writeSnapshot ninthSnapshot.image).length := by
    rw [length_writeSnapshot]
    decide
  refine ⟨readSnapshot_take "snap" ninthSnapshot hcut, unusable_missing _ _, ?_, ?_, ?_⟩
  · rw [untouched_iff]
    decide +kernel
  · decide +kernel
  · decide +kernel

end OrderMatching.Fallback
