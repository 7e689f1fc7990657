import OrderMatching.Numbering
import OrderMatching.Truncation

namespace OrderMatching.GroupCommit

open OrderMatching.Commands OrderMatching.Log OrderMatching.LogRead OrderMatching.MatchingThread
open OrderMatching.Durability OrderMatching.LedgerStep OrderMatching.LogFold OrderMatching.Startup
open OrderMatching.Numbering OrderMatching.Truncation OrderMatching.Checkpoint

/-- What the group commit keeps true of a log. A closed one has synced what it
had. -/
structure Bounded (cfg : WalConfig) (w : Wal) : Prop where
  config : w.cfg = cfg
  count : w.sinceSync < cfg.syncEveryN
  closed : w.isOpen = false → w.sinceSync = 0

variable {cfg : WalConfig}

theorem bounded_openLog (hn : 1 ≤ cfg.syncEveryN) (path : String)
    (file : Except String (List UInt8)) (nowNs startSeq : UInt64) :
    Bounded cfg (Wal.initial.openLog path file nowNs startSeq cfg none).2 :=
  ⟨rfl, hn, fun _ => rfl⟩

theorem sinceSync_sync {w : Wal} (hclosed : w.isOpen = false → w.sinceSync = 0) :
    w.sync.sinceSync = 0 := by
  rw [Wal.sync]
  split
  · rename_i h
    exact h.elim hclosed id
  · rfl

theorem cfg_sync (w : Wal) : w.sync.cfg = w.cfg := by
  rw [Wal.sync]
  split <;> rfl

/-- The condition of `maybe_sync`. -/
def Due (w : Wal) (nowNs : UInt64) : Prop :=
  w.sinceSync ≥ w.cfg.syncEveryN ∨
    (nowNs > w.lastSyncNs ∧ nowNs - w.lastSyncNs ≥ w.cfg.syncIntervalNs)

def InWindow (cfg : WalConfig) (w : Wal) (nowNs : UInt64) : Prop :=
  w.sinceSync ≠ 0 → nowNs.toNat < w.lastSyncNs.toNat + cfg.syncIntervalNs.toNat

theorem bounded_maybeSync {w : Wal} (hn : 1 ≤ cfg.syncEveryN) (hcfg : w.cfg = cfg)
    (hclosed : w.isOpen = false → w.sinceSync = 0) (nowNs : UInt64) :
    Bounded cfg (w.maybeSync nowNs) ∧
      (cfg.syncIntervalNs ≠ 0 → InWindow cfg (w.maybeSync nowNs) nowNs) := by
  by_cases hdue : Due w nowNs
  · have hsync : w.maybeSync nowNs = { w.sync with lastSyncNs := nowNs } := if_pos hdue
    have hzero : (w.maybeSync nowNs).sinceSync = 0 := by
      rw [hsync]
      exact sinceSync_sync hclosed
    refine ⟨⟨?_, ?_, fun _ => hzero⟩, fun _ hne => absurd hzero hne⟩
    · rw [hsync]
      exact (cfg_sync w).trans hcfg
    · rw [hzero]
      exact hn
  · have hsame : w.maybeSync nowNs = w := if_neg hdue
    rw [hsame]
    obtain ⟨hcount, htime⟩ := not_or.mp hdue
    rw [hcfg] at hcount htime
    refine ⟨⟨hcfg, UInt64.not_le.mp hcount, hclosed⟩, fun hinterval _ => ?_⟩
    have hpos : 0 < cfg.syncIntervalNs.toNat := UInt64.pos_iff_ne_zero.mpr hinterval
    by_cases hlater : nowNs > w.lastSyncNs
    · have hless : nowNs - w.lastSyncNs < cfg.syncIntervalNs :=
        UInt64.not_le.mp fun h => htime ⟨hlater, h⟩
      have hsub : (nowNs - w.lastSyncNs).toNat = nowNs.toNat - w.lastSyncNs.toNat :=
        UInt64.toNat_sub_of_le _ _ (UInt64.le_of_lt hlater)
      have := UInt64.lt_iff_toNat_lt.mp hless
      omega
    · have := UInt64.le_iff_toNat_le.mp (UInt64.not_lt.mp hlater)
      omega

theorem append_cases (w : Wal) (c : OrderCommand) (nowNs : UInt64) (k : Written) :
    (w.append c nowNs k).2 = w ∨
      ∃ w' : Wal, w'.isOpen = true ∧ w'.cfg = w.cfg ∧ w'.lastSyncNs = w.lastSyncNs ∧
        ((w'.sinceSync = w.sinceSync ∧ (w.append c nowNs k).2 = w') ∨
          (w'.sinceSync = w.sinceSync + 1 ∧ (w.append c nowNs k).2 = w'.maybeSync nowNs)) := by
  by_cases hopen : w.isOpen = true
  · let next : Wal := { w with seq := w.seq + 1 }
    let data := record (w.seq + 1) c
    by_cases hk : data.length ≤ k.count
    · have hwrite : next.writeAll data k = (true, { next with file := w.file ++ data }) := if_pos hk
      refine .inr ⟨{ next with file := w.file ++ data, sinceSync := w.sinceSync + 1 }, hopen, rfl,
        rfl, .inr ⟨rfl, ?_⟩⟩
      rw [Wal.append, if_pos hopen, hwrite]
      rfl
    · let cut : Wal :=
        { next with file := w.file ++ data.take k.count, error := "wal write failed: " ++ k.error }
      have hwrite : next.writeAll data k = (false, cut) := if_neg hk
      refine .inr ⟨cut, hopen, rfl, rfl, .inl ⟨rfl, ?_⟩⟩
      rw [Wal.append, if_pos hopen, hwrite]
      rfl
  · exact .inl (by rw [Wal.append, if_neg hopen])

theorem Bounded.append {w : Wal} (hn : 1 ≤ cfg.syncEveryN) (h : Bounded cfg w) (c : OrderCommand)
    (nowNs : UInt64) (k : Written) : Bounded cfg (w.append c nowNs k).2 := by
  obtain hsame | ⟨w', hopen, hcfg, -, ⟨hsince, heq⟩ | ⟨-, heq⟩⟩ := append_cases w c nowNs k
  · rw [hsame]
    exact h
  · rw [heq]
    refine ⟨hcfg.trans h.config, hsince ▸ h.count, fun hclosed => ?_⟩
    rw [hopen] at hclosed
    cases hclosed
  · rw [heq]
    apply (bounded_maybeSync hn (hcfg.trans h.config) _ nowNs).1
    intro hclosed
    rw [hopen] at hclosed
    cases hclosed

theorem Bounded.truncateBefore {w : Wal} (h : Bounded cfg w) (keepAfter : UInt64)
    (fault : Option (TruncateFault × String)) :
    (w.truncateBefore keepAfter fault).2.cfg = cfg ∧
      (w.truncateBefore keepAfter fault).2.sinceSync = 0 := by
  cases hopen : w.isOpen with
  | false =>
    rw [Wal.truncateBefore, if_pos hopen]
    exact ⟨h.config, h.closed hopen⟩
  | true =>
    have hcfg : w.sync.cfg = cfg := (cfg_sync w).trans h.config
    have hzero : w.sync.sinceSync = 0 := sinceSync_sync h.closed
    rw [Wal.truncateBefore, if_neg (by simp [hopen])]
    cases fault with
    | none => exact ⟨hcfg, hzero⟩
    | some f =>
      obtain ⟨fault, e⟩ := f
      cases fault <;> exact ⟨hcfg, hzero⟩

theorem bounded_of_synced {w : Wal} (hn : 1 ≤ cfg.syncEveryN) (hcfg : w.cfg = cfg)
    (hzero : w.sinceSync = 0) :
    Bounded cfg w :=
  ⟨hcfg, hzero ▸ hn, fun _ => hzero⟩

theorem wal_apply (env : Env) (t : Thread) (c : OrderCommand) :
    (t.apply env c).wal = t.wal ∨
      ∃ w, t.wal = some w ∧
        (t.apply env c).wal =
          some (w.append c (env.monotonicNs t.asked) (env.written t.asked)).2 := by
  have hdispatch : ∀ t : Thread, (t.dispatch env c).wal = t.wal :=
    fun t => congrArg Core.wal (core_dispatch env t c)
  rw [Thread.apply]
  split
  · exact .inl (hdispatch t)
  · rename_i w hgate
    have hw : t.wal = some w := by
      split at hgate
      · exact hgate
      · cases hgate
    refine .inr ⟨w, hw, ?_⟩
    dsimp only
    split
    · exact hdispatch _
    · rfl

def Commits (cfg : WalConfig) (t : Thread) : Prop := ∃ w, t.wal = some w ∧ Bounded cfg w

theorem Commits.applyPopped {t : Thread} (hn : 1 ≤ cfg.syncEveryN) (h : Commits cfg t) (env : Env)
    (c : OrderCommand) :
    Commits cfg (t.applyPopped env c) := by
  obtain ⟨w, hw, hbounded⟩ := h
  obtain hsame | ⟨w', hw', hwal⟩ := wal_apply env t c
  · exact ⟨w, hsame.trans hw, hbounded⟩
  · obtain rfl := Option.some.inj (hw.symm.trans hw')
    exact ⟨_, hwal, hbounded.append hn c _ _⟩

theorem Commits.batch {t : Thread} (hn : 1 ≤ cfg.syncEveryN) (h : Commits cfg t) (env : Env)
    (cs : List OrderCommand) :
    Commits cfg (cs.foldl (Thread.applyPopped env) t) := by
  induction cs generalizing t with
  | nil => exact h
  | cons c cs ih => exact ih (h.applyPopped hn env c)

theorem wal_maybeSnapshot_cases (env : Env) {t : Thread} {w : Wal} (hw : t.wal = some w)
    (h : Bounded cfg w) :
    (t.maybeSnapshot env).wal = some w ∨
      ∃ w', (t.maybeSnapshot env).wal = some w' ∧ w'.cfg = cfg ∧ w'.sinceSync = 0 := by
  obtain ⟨-, hwal⟩ | ⟨-, hwal⟩ := wal_maybeSnapshot env hw
  · obtain ⟨hcfg, hzero⟩ := h.truncateBefore t.lastSnapshotSeq (env.truncateFault t.asked)
    exact .inr ⟨_, hwal, hcfg, hzero⟩
  · exact .inl hwal

theorem Commits.maybeSnapshot {t : Thread} (hn : 1 ≤ cfg.syncEveryN) (h : Commits cfg t)
    (env : Env) :
    Commits cfg (t.maybeSnapshot env) := by
  obtain ⟨w, hw, hbounded⟩ := h
  obtain hwal | ⟨w', hwal, hcfg, hzero⟩ := wal_maybeSnapshot_cases env hw hbounded
  · exact ⟨w, hwal, hbounded⟩
  · exact ⟨w', hwal, bounded_of_synced hn hcfg hzero⟩

/-- The unsynced records of a thread are not older than the interval. -/
def Timely (cfg : WalConfig) (t : Thread) (nowNs : UInt64) : Prop :=
  ∃ w, t.wal = some w ∧ InWindow cfg w nowNs

theorem Commits.pollSync {t : Thread} (hn : 1 ≤ cfg.syncEveryN) (h : Commits cfg t) (env : Env) :
    ∃ w, (t.pollSync env).wal = some w ∧ Bounded cfg w ∧
      (cfg.syncIntervalNs ≠ 0 → InWindow cfg w (env.monotonicNs t.asked)) := by
  obtain ⟨w, hw, hbounded⟩ := h
  refine ⟨w.pollSync (env.monotonicNs t.asked), ?_, ?_⟩
  · rw [Thread.pollSync, hw]
    rfl
  · exact bounded_maybeSync hn hbounded.config hbounded.closed _

theorem Commits.drain {t : Thread} (hn : 1 ≤ cfg.syncEveryN) (h : Commits cfg t) (env : Env)
    (cs : List OrderCommand) :
    Commits cfg (t.drain env cs) := by
  have hbatch := h.batch hn env cs
  rw [Thread.drain]
  apply Commits.maybeSnapshot hn
  split
  · exact hbatch
  · obtain ⟨w, hw, hbounded, -⟩ := hbatch.pollSync hn env
    exact ⟨w, hw, hbounded⟩

/-- A call of `drain` at a time, with what the outside answers during it. -/
structure Drain where
  time : UInt64
  env : Env
  batch : List OrderCommand

def Drain.clock (d : Drain) : Env := { d.env with monotonicNs := fun _ => d.time }

def drained (t : Thread) (ds : List Drain) : Thread :=
  ds.foldl (fun t d => t.drain d.clock d.batch) t

/-- A call that pops something ends with a check of the clock. -/
theorem timely_drain {t : Thread} (hn : 1 ≤ cfg.syncEveryN) (hinterval : cfg.syncIntervalNs ≠ 0)
    (h : Commits cfg t) {d : Drain} (hbatch : d.batch ≠ []) :
    Timely cfg (t.drain d.clock d.batch) d.time := by
  obtain ⟨w, hw, hbounded, hwindow⟩ := (h.batch hn d.clock d.batch).pollSync hn d.clock
  rw [Thread.drain, if_neg (by simpa using hbatch)]
  obtain hwal | ⟨w', hwal, -, hzero⟩ := wal_maybeSnapshot_cases d.clock hw hbounded
  · exact ⟨w, hwal, hwindow hinterval⟩
  · exact ⟨w', hwal, fun hne => absurd hzero hne⟩

theorem timely_of_one {t : Thread} (hone : cfg.syncEveryN = 1) (h : Commits cfg t)
    (nowNs : UInt64) :
    Timely cfg t nowNs := by
  obtain ⟨w, hw, hbounded⟩ := h
  have hlt := UInt64.lt_iff_toNat_lt.mp (hone ▸ hbounded.count)
  refine ⟨w, hw, fun hne => absurd ?_ hne⟩
  apply UInt64.toNat_inj.mp
  have : w.sinceSync.toNat < 1 := hlt
  show w.sinceSync.toNat = 0
  omega

/-- Calls of `drain` in the order of time, from the opening of the log on. -/
structure Run (cfg : WalConfig) where
  start : Thread
  openedNs : UInt64
  opened : ∃ path file seq, start.wal = some (Wal.initial.openLog path file openedNs seq cfg none).2
  earlier : List Drain
  last : Drain
  ordered : (openedNs :: (earlier ++ [last]).map Drain.time).Pairwise (· ≤ ·)

def Run.before (r : Run cfg) : Thread := drained r.start r.earlier

def Run.amid (r : Run cfg) (k : Nat) : Thread :=
  (r.last.batch.take k).foldl (Thread.applyPopped r.last.clock) r.before

def Run.after (r : Run cfg) : Thread := r.before.drain r.last.clock r.last.batch

theorem Run.commits (hn : 1 ≤ cfg.syncEveryN) (r : Run cfg) : Commits cfg r.before := by
  obtain ⟨path, file, seq, hw⟩ := r.opened
  have hstart : Commits cfg r.start := ⟨_, hw, bounded_openLog hn path file r.openedNs seq⟩
  have hdrained : ∀ (ds : List Drain) (t : Thread), Commits cfg t → Commits cfg (drained t ds) := by
    intro ds
    induction ds with
    | nil => exact fun t h => h
    | cons d ds ih => exact fun t h => ih _ (h.drain hn d.clock d.batch)
  exact hdrained r.earlier r.start hstart

theorem Run.commits_after (hn : 1 ≤ cfg.syncEveryN) (r : Run cfg) : Commits cfg r.after :=
  (r.commits hn).drain hn r.last.clock r.last.batch

theorem opened_start {c : Config} {env : Env} {f : Startup.Files} {nowNs : UInt64} {t : Thread}
    (hwal : c.walPath ≠ "") (h : start c env f nowNs none = some t) :
    ∃ path file seq, t.wal = some (Wal.initial.openLog path file nowNs seq c.walCfg none).2 := by
  cases hr : recovery c f with
  | none => simp [start, hr] at h
  | some r => exact ⟨_, _, _, wal_start hwal hr h⟩

theorem maybeSync_early {w : Wal} {nowNs : UInt64} (hcount : w.sinceSync < w.cfg.syncEveryN)
    (htime : nowNs ≤ w.lastSyncNs) : w.maybeSync nowNs = w := by
  apply if_neg
  rintro (h | ⟨h, -⟩)
  · exact UInt64.not_le.mpr hcount h
  · exact UInt64.not_lt.mpr htime h

theorem maybeSnapshot_off {t : Thread} (h : t.snap.path = "") (env : Env) :
    t.maybeSnapshot env = t := by
  rw [Thread.maybeSnapshot]
  split
  · rfl
  · rw [if_pos (.inl (by rw [h]; rfl))]

theorem drain_nil {t : Thread} (h : t.snap.path = "") (env : Env) : t.drain env [] = t :=
  maybeSnapshot_off h env

theorem append_early {w : Wal} (hopen : w.isOpen = true) (c : OrderCommand) {nowNs : UInt64}
    {k : Written} (hk : 47 ≤ k.count) (hcount : w.sinceSync + 1 < w.cfg.syncEveryN)
    (htime : nowNs ≤ w.lastSyncNs) :
    ∃ w' : Wal, w.append c nowNs k = (true, w') ∧ w'.sinceSync = w.sinceSync + 1 ∧
      w'.lastSyncNs = w.lastSyncNs ∧ w'.cfg = w.cfg := by
  let next : Wal := { w with seq := w.seq + 1, file := w.file ++ record (w.seq + 1) c }
  have hwrite : ({ w with seq := w.seq + 1 } : Wal).writeAll (record (w.seq + 1) c) k =
      (true, next) :=
    if_pos ((length_record _ _).trans_le hk)
  refine ⟨{ next with sinceSync := w.sinceSync + 1 }, ?_, rfl, rfl, rfl⟩
  rw [Wal.append, if_pos hopen, hwrite]
  exact congrArg (Prod.mk true) (maybeSync_early hcount htime)

theorem wal_drain_early {t : Thread} {env : Env} {c : OrderCommand} {w : Wal}
    (hlive : t.replaying = false) (hc : isLoggable c.type = true) (hw : t.wal = some w)
    (hsnap : t.snap.path = "") (hopen : w.isOpen = true) (hk : ∀ i, 47 ≤ (env.written i).count)
    (hcount : w.sinceSync + 1 < w.cfg.syncEveryN) (htime : ∀ i, env.monotonicNs i ≤ w.lastSyncNs) :
    ∃ w', (t.drain env [c]).wal = some w' ∧ w'.sinceSync = w.sinceSync + 1 ∧
      w'.lastSyncNs = w.lastSyncNs ∧ (t.drain env [c]).snap.path = "" := by
  obtain ⟨w', happend, hsince, hlast, hcfg⟩ :=
    append_early hopen c (hk t.asked) hcount (htime t.asked)
  have hcore := core_apply_logged env hlive hc hw
  dsimp only at hcore
  rw [happend, if_pos rfl] at hcore
  have hwal : (t.apply env c).wal = some w' := congrArg Core.wal hcore
  have hbase : (t.apply env c).snap = t.snap := congrArg Prod.fst (baseline_apply env t c)
  have hsnap' : ((t.applyPopped env c).pollSync env).snap.path = "" := by
    show (t.apply env c).snap.path = ""
    rw [hbase, hsnap]
  have hdrain : t.drain env [c] = (t.applyPopped env c).pollSync env := maybeSnapshot_off hsnap' env
  have hpoll : w'.pollSync (env.monotonicNs (t.apply env c).asked) = w' := by
    apply maybeSync_early
    · rw [hsince, hcfg]
      exact hcount
    · rw [hlast]
      exact htime _
  rw [hdrain]
  refine ⟨w', ?_, hsince, hlast, hsnap'⟩
  show (t.apply env c).wal.map
    (fun w => w.pollSync (env.monotonicNs (t.apply env c).asked)) = some w'
  rw [hwal]
  exact congrArg some hpoll

def burst : Drain := ⟨0, .obliging, [.newOrder 1 1 100 5 .bid .limit]⟩

def idle (cfg : WalConfig) : Thread :=
  Thread.fresh .default (some (Wal.initial.openLog "wal" (.ok []) 0 0 cfg none).2) ⟨"", 0⟩

theorem wal_burst (hn : 1 < cfg.syncEveryN) :
    ∃ w, ((idle cfg).drain burst.clock burst.batch).wal = some w ∧ w.sinceSync = 1 ∧
      w.lastSyncNs = 0 ∧ ((idle cfg).drain burst.clock burst.batch).snap.path = "" := by
  have hroom : ∀ i, 47 ≤ (burst.clock.written i).count := fun _ => (by decide : 47 ≤ 1000)
  exact wal_drain_early (w := (Wal.initial.openLog "wal" (.ok []) 0 0 cfg none).2) rfl rfl rfl rfl
    rfl hroom hn fun _ => UInt64.le_refl 0

def quietUntil (cfg : WalConfig) (nowNs : UInt64) : Run cfg where
  start := idle cfg
  openedNs := 0
  opened := ⟨"wal", .ok [], 0, rfl⟩
  earlier := [burst]
  last := ⟨nowNs, .obliging, []⟩
  ordered := by simp [burst]

def busy (cfg : WalConfig) : Run cfg where
  start := idle cfg
  openedNs := 0
  opened := ⟨"wal", .ok [], 0, rfl⟩
  earlier := []
  last := burst
  ordered := by simp [burst]

theorem wal_quietUntil (hn : 1 < cfg.syncEveryN) (nowNs : UInt64) :
    ∃ w, (quietUntil cfg nowNs).after.wal = some w ∧ w.sinceSync = 1 ∧ w.lastSyncNs = 0 := by
  obtain ⟨w, hw, hsince, hlast, hsnap⟩ := wal_burst hn
  refine ⟨w, ?_, hsince, hlast⟩
  simp only [Run.after, Run.before, drained, quietUntil, List.foldl_cons, List.foldl_nil]
  rw [drain_nil hsnap]
  exact hw

theorem not_timely {t : Thread} {nowNs : UInt64} {w : Wal} (hw : t.wal = some w)
    (hsince : w.sinceSync = 1) (hlast : w.lastSyncNs = 0) (hlate : cfg.syncIntervalNs ≤ nowNs) :
    ¬Timely cfg t nowNs := by
  rintro ⟨w', hw', hwindow⟩
  obtain rfl := Option.some.inj (hw.symm.trans hw')
  have hless := hwindow (by rw [hsince]; decide)
  rw [hlast] at hless
  have hlate' := UInt64.le_iff_toNat_le.mp hlate
  have hzero : (0 : UInt64).toNat = 0 := rfl
  omega

theorem one_lt_of_ne (hn : 1 ≤ cfg.syncEveryN) (hne : cfg.syncEveryN ≠ 1) : 1 < cfg.syncEveryN :=
  UInt64.lt_of_le_of_ne hn hne.symm

/-- The count bounds the loss after every append. The interval bounds it at the
end of every call that pops something, but in a quiet queue a single record is
too many. -/
theorem groupCommit_bounds (cfg : WalConfig) (hn : 1 ≤ cfg.syncEveryN) :
    (∀ (r : Run cfg) (k : Nat), ∃ w, (r.amid k).wal = some w ∧ w.sinceSync < cfg.syncEveryN) ∧
      ((∀ r : Run cfg, r.last.batch ≠ [] → Timely cfg r.after r.last.time) ↔
        cfg.syncIntervalNs ≠ 0 ∨ cfg.syncEveryN = 1) ∧
      ((∀ r : Run cfg, Timely cfg r.after r.last.time) ↔ cfg.syncEveryN = 1) := by
  refine ⟨fun r k => ?_, ⟨fun h => ?_, fun h r hbatch => ?_⟩, ⟨fun h => ?_, fun hone r => ?_⟩⟩
  · obtain ⟨w, hw, hbounded⟩ := (r.commits hn).batch hn r.last.clock (r.last.batch.take k)
    exact ⟨w, hw, hbounded.count⟩
  · -- with no interval at all, the clock has to move before it counts
    by_contra hno
    obtain ⟨hinterval, hone⟩ := not_or.mp hno
    obtain ⟨w, hw, hsince, hlast, -⟩ := wal_burst (one_lt_of_ne hn hone)
    have hzero : cfg.syncIntervalNs ≤ 0 := UInt64.le_of_eq (not_not.mp hinterval)
    exact not_timely hw hsince hlast hzero (h (busy cfg) (List.cons_ne_nil _ _))
  · obtain hinterval | hone := h
    · exact timely_drain hn hinterval (r.commits hn) hbatch
    · exact timely_of_one hone (r.commits_after hn) _
  · by_contra hone
    let late := UInt64.ofNat (2 ^ 64 - 1)
    obtain ⟨w, hw, hsince, hlast⟩ := wal_quietUntil (one_lt_of_ne hn hone) late
    have hlate : cfg.syncIntervalNs ≤ late :=
      UInt64.le_iff_toNat_le.mpr (Nat.le_pred_of_lt cfg.syncIntervalNs.toNat_lt)
    exact not_timely hw hsince hlast hlate (h (quietUntil cfg late))
  · exact timely_of_one hone (r.commits_after hn) _

theorem groupCommit_bounds_default :
    1 ≤ WalConfig.default.syncEveryN ∧
      ∀ r : Run .default, r.last.batch ≠ [] → Timely .default r.after r.last.time :=
  ⟨by decide, (groupCommit_bounds .default (by decide)).2.1.mpr (.inl (by decide))⟩

/-- An hour after the last command its record is still not synced. -/
theorem quiet_not_timely :
    1 ≤ WalConfig.default.syncEveryN ∧
      ¬Timely .default (quietUntil .default 3600000000000).after
        (quietUntil .default 3600000000000).last.time := by
  have hn : 1 < WalConfig.default.syncEveryN := by decide
  obtain ⟨w, hw, hsince, hlast⟩ := wal_quietUntil hn 3600000000000
  exact ⟨UInt64.le_of_lt hn, not_timely hw hsince hlast (by decide)⟩

end OrderMatching.GroupCommit
