import OrderMatching.Compaction

namespace OrderMatching.Checkpoint

open OrderMatching.Orders OrderMatching.Commands OrderMatching.Log OrderMatching.LogRead
open OrderMatching.Exchange OrderMatching.Snapshot OrderMatching.SnapshotFile
open OrderMatching.MatchingThread OrderMatching.Views OrderMatching.LedgerStep OrderMatching.LogFold
open OrderMatching.Durability OrderMatching.Startup OrderMatching.Compaction

structure Disk where
  snapshot : Option (List UInt8)
  prev : Option (List UInt8)
  snapshotTmp : Option (List UInt8)
  log : Option (List UInt8)
  logTmp : Option (List UInt8)

def Disk.empty : Disk := ⟨none, none, none, none, none⟩

def openFile (file : Option (List UInt8)) : Except String (List UInt8) :=
  match file with
  | none => .error "No such file or directory"
  | some bytes => .ok bytes

def Disk.files (d : Disk) : Files := ⟨openFile d.snapshot, openFile d.prev, openFile d.log⟩

/-- How far the matching thread is in `maybe_snapshot`: the old snapshot is
kept under its second name, then the new one is in place. -/
inductive Phase where
  | serving
  | kept
  | placed
  deriving DecidableEq

/-- A gateway, running or not, on its disk. `history` is every command whose
append returned true, in all of its lives. -/
structure Machine where
  disk : Disk
  process : Option (Thread × Phase)
  history : List OrderCommand

def Machine.empty : Machine := ⟨.empty, none, []⟩

/-- The steps of a life. Writing a temporary file may stop after any number of
bytes and start over. -/
inductive Action where
  | pop (env : Env) (c : OrderCommand)
  | sync (env : Env)
  | keepPrevious
  | stage (n : Nat)
  | place
  | stageLog (n : Nat)
  | finish
  | crash
  | restart (env : Env) (nowNs : UInt64)

def lastSeq (t : Thread) : UInt64 := (t.wal.map Wal.seq).getD 0

/-- The test at the head of `maybe_snapshot`. -/
def snapshotDue (t : Thread) : Bool :=
  t.wal.isSome && !t.snap.path.isEmpty && t.snap.everyN ≠ 0 && t.nextSnapshotAt ≤ lastSeq t

def newSnapshot (t : Thread) : List UInt8 :=
  writeSnapshot (.of (exportSnapshot t.ledger (lastSeq t)))

/-- The log as `truncate_before` rewrites it behind the previous snapshot. -/
def newLog (t : Thread) : Option Wal :=
  if t.lastSnapshotSeq > 0 then
    t.wal.map fun w => (w.truncateBefore t.lastSnapshotSeq none).2 else t.wal

def finished (t : Thread) : Thread :=
  { t with
    wal := newLog t
    lastSnapshotSeq := lastSeq t
    nextSnapshotAt := lastSeq t + t.snap.everyN
    stats := { t.stats with snapshots := t.stats.snapshots + 1 } }

def Disk.withLog (d : Disk) (wal : Option Wal) : Disk :=
  { d with log := (wal.map Wal.file).or d.log }

def Machine.during (m : Machine) (phase : Phase) (f : Thread → Machine) : Machine :=
  match m.process with
  | none => m
  | some (t, p) => if p = phase then f t else m

def Machine.pop (m : Machine) (env : Env) (c : OrderCommand) (t : Thread) : Machine :=
  let t' := t.applyPopped env c
  ⟨m.disk.withLog t'.wal, some (t', .serving), m.history ++ t'.appended.drop t.appended.length⟩

def Machine.keepPrevious (m : Machine) (t : Thread) : Machine :=
  if snapshotDue t then
    ⟨{ m.disk with prev := m.disk.snapshot.or m.disk.prev, snapshot := none },
      some (t, .kept), m.history⟩
  else m

def Machine.place (m : Machine) (t : Thread) : Machine :=
  if m.disk.snapshotTmp = some (newSnapshot t) then
    ⟨{ m.disk with snapshot := some (newSnapshot t), snapshotTmp := none },
      some (t, .placed), m.history⟩
  else m

def Machine.stageLog (m : Machine) (n : Nat) (t : Thread) : Machine :=
  if t.lastSnapshotSeq > 0 then
    { m with disk := { m.disk with logTmp := (newLog t).map fun w => w.file.take n } }
  else m

/-- The rename of the rewritten log, if there is a snapshot to cut it behind,
and the end of `maybe_snapshot`. -/
def Machine.finish (m : Machine) (t : Thread) : Machine :=
  if t.lastSnapshotSeq > 0 then
    if m.disk.logTmp = (newLog t).map Wal.file then
      ⟨{ m.disk.withLog (newLog t) with logTmp := none }, some (finished t, .serving), m.history⟩
    else m
  else { m with process := some (finished t, .serving) }

def Machine.restart (cfg : Config) (m : Machine) (env : Env) (nowNs : UInt64) : Machine :=
  match m.process, start cfg env m.disk.files nowNs none with
  | none, some t => ⟨m.disk.withLog t.wal, some (t, .serving), m.history⟩
  | _, _ => m

def Machine.step (cfg : Config) (m : Machine) : Action → Machine
  | .pop env c => m.during .serving (m.pop env c)
  | .sync env => m.during .serving fun t => { m with process := some (t.pollSync env, .serving) }
  | .keepPrevious => m.during .serving m.keepPrevious
  | .stage n => m.during .kept fun t =>
      { m with disk := { m.disk with snapshotTmp := some ((newSnapshot t).take n) } }
  | .place => m.during .kept m.place
  | .stageLog n => m.during .placed (m.stageLog n)
  | .finish => m.during .placed m.finish
  | .crash => { m with process := none }
  | .restart env nowNs => m.restart cfg env nowNs

def Machine.run (cfg : Config) (m : Machine) (as : List Action) : Machine :=
  as.foldl (Machine.step cfg) m

/-- Where nothing fails, the steps of a snapshot do to the thread what
`maybe_snapshot` does. -/
theorem maybeSnapshot_finished {env : Env} {t : Thread} (hdue : snapshotDue t = true)
    (hren : env.renamed t.asked = true) (hwrite : env.snapshotWritten t.asked = true)
    (htrunc : env.truncateFault t.asked = none) :
    t.maybeSnapshot env =
      { finished t with
        asked := t.asked + 1
        snapshotFile := some (exportSnapshot t.ledger (lastSeq t))
        prevFile := t.snapshotFile.or t.prevFile } := by
  cases hw : t.wal with
  | none => simp [snapshotDue, hw] at hdue
  | some w =>
    have hgo : ¬(t.snap.path.isEmpty = true ∨ t.snap.everyN = 0 ∨ w.seq < t.nextSnapshotAt) := by
      simpa [snapshotDue, hw, lastSeq, and_assoc] using hdue
    have hlog : newLog t = some
        (if t.lastSnapshotSeq > 0 then (w.truncateBefore t.lastSnapshotSeq none).2 else w) := by
      rw [newLog, hw]
      split <;> rfl
    have hseq : lastSeq t = w.seq := by rw [lastSeq, hw]; rfl
    simp only [Thread.maybeSnapshot, hw, hgo, if_false, hwrite, if_true, hren, htrunc, true_and,
      finished, hlog, hseq]
    cases t.snapshotFile with
    | none => simp
    | some d => simp

theorem run_snapshot (cfg : Config) {m : Machine} {t : Thread} (hp : m.process = some (t, .serving))
    (hdue : snapshotDue t = true) {n k : Nat} (hn : (newSnapshot t).length ≤ n)
    (hk : ∀ w, newLog t = some w → w.file.length ≤ k) :
    ∃ d, m.run cfg [.keepPrevious, .stage n, .place, .stageLog k, .finish] =
        ⟨d, some (finished t, .serving), m.history⟩ ∧
      d.snapshot = some (newSnapshot t) ∧ d.prev = m.disk.snapshot.or m.disk.prev := by
  have htake : (newSnapshot t).take n = newSnapshot t := List.take_of_length_le hn
  have hlog : (newLog t).map (fun w => w.file.take k) = (newLog t).map Wal.file := by
    cases h : newLog t with
    | none => rfl
    | some w => exact congrArg some (List.take_of_length_le (hk w h))
  let d : Disk :=
    { m.disk with
      prev := m.disk.snapshot.or
        m.disk.prev, snapshot := some (newSnapshot t), snapshotTmp := none }
  have hbefore : m.run cfg [.keepPrevious, .stage n, .place] =
      ⟨d, some (t, .placed), m.history⟩ := by
    simp only [Machine.run, List.foldl_cons, List.foldl_nil, Machine.step, Machine.during, hp,
      if_true, Machine.keepPrevious, hdue, htake, Machine.place]
    rfl
  have hrun : m.run cfg [.keepPrevious, .stage n, .place, .stageLog k, .finish] =
      (m.run cfg [.keepPrevious, .stage n, .place]).run cfg [.stageLog k, .finish] := rfl
  rw [hrun, hbefore]
  by_cases hpos : t.lastSnapshotSeq > 0
  · refine ⟨{ d.withLog (newLog t) with logTmp := none }, ?_, rfl, rfl⟩
    simp only [Machine.run, List.foldl_cons, List.foldl_nil, Machine.step, Machine.during, if_true,
      Machine.stageLog, hpos, hlog, Machine.finish]
    rfl
  · refine ⟨d, ?_, rfl, rfl⟩
    simp only [Machine.run, List.foldl_cons, List.foldl_nil, Machine.step, Machine.during, if_true,
      Machine.stageLog, hpos, if_false, Machine.finish]

/-- A file that `maybe_snapshot` wrote when `seq` commands of the history had
been applied. The log still has everything behind it. -/
structure Stored (risk : RiskConfig) (history : List OrderCommand) (base seq : Nat)
    (bytes : List UInt8) : Prop where
  written : ∃ l, Built risk (history.take seq) l ∧
    bytes = writeSnapshot (.of (exportSnapshot l (UInt64.ofNat seq)))
  reaches : base ≤ seq
  known : seq ≤ history.length

/-- The log holds all but the first `base` commands, and every snapshot file is
a stored one. Without any, nothing has been cut off. -/
structure Recoverable (risk : RiskConfig) (history : List OrderCommand) (base : Nat)
    (d : Disk) : Prop where
  log : d.log = some (records (UInt64.ofNat base) (history.drop base)) ∨
    (d.log = none ∧ history = [])
  within : base ≤ history.length
  snapshot : ∀ b, d.snapshot = some b → ∃ seq, Stored risk history base seq b
  prev : ∀ b, d.prev = some b → ∃ seq, Stored risk history base seq b
  bare : d.snapshot = none → d.prev = none → base = 0

theorem Stored.grow {risk : RiskConfig} {history : List OrderCommand} {base seq : Nat}
    {bytes : List UInt8} (h : Stored risk history base seq bytes) (more : List OrderCommand) :
    Stored risk (history ++ more) base seq bytes := by
  obtain ⟨l, hl, hb⟩ := h.written
  refine ⟨⟨l, ?_, hb⟩, h.reaches, ?_⟩
  · rwa [List.take_append_of_le_length h.known]
  · rw [List.length_append]
    exact h.known.trans (Nat.le_add_right _ _)

theorem Stored.cut {risk : RiskConfig} {history : List OrderCommand} {base base' seq : Nat}
    {bytes : List UInt8} (h : Stored risk history base seq bytes) (hb : base' ≤ seq) :
    Stored risk history base' seq bytes :=
  ⟨h.written, hb, h.known⟩

theorem Stored.read {risk : RiskConfig} {history : List OrderCommand} {base seq : Nat}
    {bytes : List UInt8} (h : Stored risk history base seq bytes) (hfit : history.length < 2 ^ 64)
    (path : String) (out : Image) :
    ∃ d, readSnapshot path (.ok bytes) out = (.ok (), d) ∧ d.lastSeq.toNat = seq ∧
      Built risk (history.take seq) (restore Ledger.initial d.data) := by
  obtain ⟨l, hl, rfl⟩ := h.written
  refine ⟨_, readSnapshot_export path l _ out, ?_, hl.restored _⟩
  rw [lastSeq_reread]
  exact UInt64.toNat_ofNat_of_lt' (h.known.trans_lt hfit)

/-- A restart would find a snapshot that reaches up to `p` at least. -/
structure Anchored (risk : RiskConfig) (history : List OrderCommand) (base : Nat) (d : Disk)
    (p : Nat) : Prop where
  snapshot : ∀ b, d.snapshot = some b → ∃ seq, Stored risk history base seq b ∧ p ≤ seq
  prev : d.snapshot = none → ∀ b, d.prev = some b → ∃ seq, Stored risk history base seq b ∧ p ≤ seq
  bare : d.snapshot = none → d.prev = none → p = 0

theorem Recoverable.chosen {cfg : Config} (hsnap : cfg.snapPath ≠ "")
    (hrecover : cfg.recover = true) {history : List OrderCommand} {base : Nat} {d : Disk}
    (h : Recoverable cfg.risk history base d) (hfit : history.length < 2 ^ 64) :
    let chosen := chooseSnapshot cfg d.files
    chosen.data.lastSeq.toNat = coveredBy chosen ∧ base ≤ coveredBy chosen ∧
      coveredBy chosen ≤ history.length ∧
      Built cfg.risk (history.take (coveredBy chosen)) (baseLedger chosen) ∧
      Anchored cfg.risk history base d (coveredBy chosen) := by
  have hgo : ¬(cfg.snapPath = "" ∨ cfg.recover = false) := by simp [hsnap, hrecover]
  cases hs : d.snapshot with
  | some b =>
    obtain ⟨seq, hb⟩ := h.snapshot b hs
    obtain ⟨i, hread, hseq, hbuilt⟩ := hb.read hfit cfg.snapPath .blank
    have hchosen : chooseSnapshot cfg d.files = ⟨true, i⟩ := by
      simp only [chooseSnapshot, hgo, if_false, Disk.files, hs, openFile, hread]
    rw [hchosen]
    simp only [coveredBy, baseLedger, if_true, hseq]
    refine ⟨trivial, hb.reaches, hb.known, hbuilt, fun b' hb' => ?_, by simp [hs], by simp [hs]⟩
    obtain rfl := Option.some.inj (hs.symm.trans hb')
    exact ⟨seq, hb, Nat.le_refl _⟩
  | none =>
    cases hp : d.prev with
    | some b =>
      obtain ⟨seq, hb⟩ := h.prev b hp
      obtain ⟨i, hread, hseq, hbuilt⟩ := hb.read hfit (cfg.snapPath ++ ".prev") .blank
      have hchosen : chooseSnapshot cfg d.files = ⟨true, i⟩ := by
        simp only [chooseSnapshot, hgo, if_false, Disk.files, hs, hp, openFile,
          readSnapshot] at hread ⊢
        rw [hread]
      rw [hchosen]
      simp only [coveredBy, baseLedger, if_true, hseq]
      refine ⟨trivial, hb.reaches, hb.known, hbuilt, by simp [hs], fun _ b' hb' => ?_, by simp [hp]⟩
      obtain rfl := Option.some.inj (hp.symm.trans hb')
      exact ⟨seq, hb, Nat.le_refl _⟩
    | none =>
      have hchosen : chooseSnapshot cfg d.files = ⟨false, .blank⟩ := by
        simp only [chooseSnapshot, hgo, if_false, Disk.files, hs, hp, openFile, readSnapshot]
      rw [hchosen, h.bare hs hp]
      exact ⟨rfl, Nat.le_refl 0, Nat.zero_le _, .empty, by simp [hs], by simp [hp], fun _ _ => rfl⟩

/-- The fields that only `maybe_snapshot` and a restart set. -/
def baseline (t : Thread) : SnapshotPolicy × UInt64 × UInt64 :=
  (t.snap, t.nextSnapshotAt, t.lastSnapshotSeq)

theorem ignoresEvents_baseline : IgnoresEvents baseline := fun _ _ _ _ _ _ _ => rfl

theorem ignoresBook_baseline : IgnoresBook baseline := fun _ _ _ _ _ => rfl

theorem baseline_dispatch (env : Env) (t : Thread) (c : OrderCommand) :
    baseline (t.dispatch env c) = baseline t := by
  unfold Thread.dispatch
  cases c.type with
  | sessionOpened => rfl
  | subscribe =>
    exact (ignoresBook_baseline.publishBook env _).trans (ignoresEvents_baseline.emit env _ _ _)
  | newOrder => exact ignoresEvents_baseline.applyNewOrder env ignoresBook_baseline t c
  | cancel => exact ignoresEvents_baseline.applyCancel env ignoresBook_baseline t c
  | modify => exact ignoresEvents_baseline.applyModify env ignoresBook_baseline t c
  | cancelAllForSession =>
    refine (ignoresBook_baseline.publishBook env _).trans ?_
    exact ignoresEvents_baseline.pushTombstone env _ c.session

theorem replay_frame (env : Env) (cs : List OrderCommand) {t : Thread} (ht : t.replaying = true) :
    baseline (cs.foldl (Thread.apply env) t) = baseline t ∧
    (cs.foldl (Thread.apply env) t).wal = t.wal ∧
      (cs.foldl (Thread.apply env) t).risk = t.risk ∧
      (cs.foldl (Thread.apply env) t).appended = t.appended := by
  induction cs generalizing t with
  | nil => exact ⟨rfl, rfl, rfl, rfl⟩
  | cons c cs ih =>
    have happly : t.apply env c = t.dispatch env c := by simp [Thread.apply, ht]
    have hcore := core_dispatch env t c
    obtain ⟨h1, h2, h3, h4⟩ := ih ((congrArg Core.replaying hcore).trans ht)
    rw [List.foldl_cons, happly]
    exact ⟨h1.trans (baseline_dispatch env t c), h2.trans (congrArg Core.wal hcore),
      h3.trans (congrArg Core.risk hcore), h4.trans (congrArg Core.appended hcore)⟩

/-- A running gateway: its log is open behind the last command of the history,
and its ledger is built from all of them. -/
structure Serves (cfg : Config) (history : List OrderCommand) (base : Nat) (t : Thread) : Prop where
  wal : ∃ w, t.wal = some w ∧ w.isOpen = true ∧ w.seq = UInt64.ofNat history.length ∧
    w.file = records (UInt64.ofNat base) (history.drop base)
  risk : t.risk = cfg.risk
  live : t.replaying = false
  built : Built cfg.risk history t.ledger

theorem Recoverable.recovers {cfg : Config} (hwal : cfg.walPath ≠ "") (hsnap : cfg.snapPath ≠ "")
    (hrecover : cfg.recover = true) {history : List OrderCommand} {base : Nat} {d : Disk}
    (h : Recoverable cfg.risk history base d) (hfit : history.length < 2 ^ 64) :
    let chosen := chooseSnapshot cfg d.files
    ∃ r, recovery cfg d.files = some r ∧
      r.pending = (history.drop (coveredBy chosen)).map detached ∧
      r.resumeSeq.toNat = history.length ∧ coveredBy chosen ≤ history.length ∧
      Built cfg.risk history (fold cfg.risk (baseLedger chosen) r.pending) := by
  obtain ⟨hseq, hbase, hle, hbuilt, -⟩ := h.chosen hsnap hrecover hfit
  have hall : ∀ r : Recovery,
      r.pending = (history.drop (coveredBy (chooseSnapshot cfg d.files))).map detached →
      Built cfg.risk history
        (fold cfg.risk (baseLedger (chooseSnapshot cfg d.files)) r.pending) := by
    intro r hr
    have := hbuilt.fold (history.drop (coveredBy (chooseSnapshot cfg d.files)))
    rwa [List.take_append_drop, ← hr] at this
  have hwithin := h.within
  obtain hlog | ⟨hlog, hnil⟩ := h.log
  · have hdrop : (history.drop base).length = history.length - base := List.length_drop
    have hfile : d.files.log = .ok (records (UInt64.ofNat base) (history.drop base)) := by
      rw [Disk.files, hlog]
      rfl
    obtain ⟨r, hr, hpending, hresume⟩ := recovery_intact hwal hrecover hfile (by omega)
    have hpending' :
        r.pending = (history.drop (coveredBy (chooseSnapshot cfg d.files))).map detached := by
      rw [hpending, ← List.map_drop, List.drop_drop, Nat.add_sub_cancel' hbase]
    refine ⟨r, hr, hpending', ?_, hle, hall r hpending'⟩
    rw [hresume, hseq]
    split
    · rename_i hempty
      rw [hempty, List.length_nil] at hdrop
      omega
    · omega
  · have hrec : recovery cfg d.files = some ⟨[], 0⟩ := by
      have herr : (readWal cfg.walPath (openFile none)).error ≠ "" := by simp [readWal, openFile]
      rw [recovery, if_neg (by simp [hwal, hrecover]), Disk.files, hlog, recoverLog, if_pos herr]
    have hpending : ([] : List OrderCommand) =
        (history.drop (coveredBy (chooseSnapshot cfg d.files))).map detached := by simp [hnil]
    exact ⟨_, hrec, hpending, by simp [hnil], hle, hall ⟨[], 0⟩ hpending⟩

/-- A restart serves the whole history, with the chosen snapshot as its
baseline. -/
theorem Recoverable.restart {cfg : Config} (hwal : cfg.walPath ≠ "") (hsnap : cfg.snapPath ≠ "")
    (hrecover : cfg.recover = true) {history : List OrderCommand} {base : Nat} {d : Disk}
    (h : Recoverable cfg.risk history base d) (hfit : history.length < 2 ^ 64) (env : Env)
    (nowNs : UInt64) :
    ∃ t, start cfg env d.files nowNs none = some t ∧ Serves cfg history base t ∧
      t.lastSnapshotSeq.toNat = coveredBy (chooseSnapshot cfg d.files) := by
  obtain ⟨hseq, hbase, -⟩ := h.chosen hsnap hrecover hfit
  obtain ⟨r, hr, -, hresume, -, hbuilt⟩ := h.recovers hwal hsnap hrecover hfit
  generalize hc : chooseSnapshot cfg d.files = chosen at hseq hbase hbuilt
  let w := (Wal.initial.openLog cfg.walPath d.files.log nowNs r.resumeSeq cfg.walCfg none).2
  have hfile : w.file = records (UInt64.ofNat base) (history.drop base) := by
    show d.files.log.toOption.getD [] = _
    obtain hlog | ⟨hlog, hnil⟩ := h.log
    · rw [Disk.files, hlog]
      rfl
    · rw [Disk.files, hlog, hnil, List.drop_nil]
      rfl
  let t₀ := Thread.fresh cfg.risk (some w) ⟨cfg.snapPath, cfg.snapEvery⟩
  let t₁ :=
    if chosen.haveSnapshot then
      (t₀.restore chosen.data.data).setSnapshotBaseline chosen.data.lastSeq
    else t₀
  let t₂ := if r.pending.isEmpty then t₁ else t₁.recover env r.pending
  have hstart : start cfg env d.files nowNs none = some t₂ := by
    simp only [start, hr, hc, hwal, Wal.openLog, Bool.true_eq_false, and_false, if_false]
    rfl
  have hframe : t₁.wal = some w ∧ t₁.risk = cfg.risk ∧ t₁.replaying = false ∧
      t₁.lastSnapshotSeq.toNat = coveredBy chosen := by
    simp only [t₁, coveredBy]
    split <;> exact ⟨rfl, rfl, rfl, rfl⟩
  have hframe₂ : t₂.wal = some w ∧ t₂.risk = cfg.risk ∧ t₂.replaying = false ∧
      t₂.lastSnapshotSeq.toNat = coveredBy chosen := by
    simp only [t₂]
    split
    · exact hframe
    · obtain ⟨h1, h2, h3, -⟩ := replay_frame env r.pending (t := { t₁ with replaying := true }) rfl
      refine ⟨h2.trans hframe.1, h3.trans hframe.2.1, rfl, ?_⟩
      exact (congrArg UInt64.toNat (congrArg (fun b => b.2.2) h1)).trans hframe.2.2.2
  have hseq : r.resumeSeq = UInt64.ofNat history.length := by rw [← hresume, UInt64.ofNat_toNat]
  refine ⟨t₂, hstart, ⟨⟨w, hframe₂.1, rfl, hseq, hfile⟩, hframe₂.2.1, hframe₂.2.2.1, ?_⟩,
    hframe₂.2.2.2⟩
  rw [ledger_start hr hstart, hc]
  exact hbuilt

theorem Serves.pop {cfg : Config} {history : List OrderCommand} {base : Nat} {t : Thread}
    (h : Serves cfg history base t) (hbase : base ≤ history.length) {env : Env}
    (henv : ∀ n, 47 ≤ (env.written n).count) (c : OrderCommand) :
    ∃ more, (t.applyPopped env c).appended = t.appended ++ more ∧
      Serves cfg (history ++ more) base (t.applyPopped env c) := by
  obtain ⟨w, hw, hopen, hseq, hfile⟩ := h.wal
  cases hc : isLoggable c.type with
  | false =>
    have hcore := core_apply_unlogged env (t := t) hc
    refine ⟨[], ?_, ⟨⟨w, ?_, hopen, ?_, ?_⟩, ?_, ?_, ?_⟩⟩
    · rw [List.append_nil]
      exact congrArg Core.appended hcore
    · exact (congrArg Core.wal hcore).trans hw
    · rw [List.append_nil, hseq]
    · rw [List.append_nil, hfile]
    · exact (congrArg Core.risk hcore).trans h.risk
    · exact (congrArg Core.replaying hcore).trans h.live
    · rw [List.append_nil,
        show (t.applyPopped env c).ledger = t.ledger from congrArg Core.ledger hcore]
      exact h.built
  | true =>
    have hcore := core_apply_logged env h.live hc hw
    obtain ⟨h1, h2, h3, h4⟩ := append_whole hopen c (env.monotonicNs t.asked) (env.written t.asked)
      (by rw [length_record]; exact henv _)
    simp only [h1, if_true] at hcore
    refine ⟨[c], congrArg Core.appended hcore,
      ⟨⟨_, congrArg Core.wal hcore, h2, ?_, ?_⟩, ?_, ?_, ?_⟩⟩
    · rw [h4, hseq, List.length_append, List.length_singleton, UInt64.ofNat_add]
      rfl
    · have hnext : UInt64.ofNat base + UInt64.ofNat (history.drop base).length =
          UInt64.ofNat history.length := by
        rw [← UInt64.ofNat_add, List.length_drop, Nat.add_sub_cancel' hbase]
      rw [h3, hfile, hseq, List.drop_append_of_le_length hbase, records_append, hnext]
      simp [records]
    · exact (congrArg Core.risk hcore).trans h.risk
    · exact (congrArg Core.replaying hcore).trans h.live
    · rw [show (t.applyPopped env c).ledger =
        (step t.risk t.ledger c).1 from congrArg Core.ledger hcore, h.risk]
      exact h.built.applied c

theorem Serves.truncate {cfg : Config} {history : List OrderCommand} {base : Nat} {t : Thread}
    (h : Serves cfg history base t) (hbase : base ≤ history.length)
    (hfit : history.length < 2 ^ 64) :
    Serves cfg history (max base t.lastSnapshotSeq.toNat) (finished t) := by
  obtain ⟨w, hw, hopen, hseq, hfile⟩ := h.wal
  let p := t.lastSnapshotSeq.toNat
  refine ⟨?_, h.risk, h.live, h.built⟩
  by_cases hpos : t.lastSnapshotSeq > 0
  · have hlen : base + (history.drop base).length < 2 ^ 64 := by
      rw [List.length_drop]
      omega
    obtain ⟨-, hopen', hseq', hfile'⟩ := truncateBefore_records hopen hfile hlen t.lastSnapshotSeq
    have hkept : (w.truncateBefore t.lastSnapshotSeq none).2.file =
        records (UInt64.ofNat (max base p)) (history.drop (max base p)) := by
      rw [hfile', List.drop_drop]
      congr 2
      omega
    refine ⟨_, ?_, hopen', hseq'.trans hseq, hkept⟩
    show newLog t = _
    rw [newLog, if_pos hpos, hw]
    rfl
  · have hzero : t.lastSnapshotSeq = 0 := UInt64.le_zero_iff.mp (UInt64.not_lt.mp hpos)
    refine ⟨w, ?_, hopen, hseq, ?_⟩
    · show newLog t = _
      rw [newLog, if_neg hpos, hw]
    · rw [hzero]
      simpa using hfile

theorem baseline_apply (env : Env) (t : Thread) (c : OrderCommand) :
    baseline (t.apply env c) = baseline t := by
  unfold Thread.apply
  split
  · exact baseline_dispatch env t c
  · dsimp only
    split
    · exact baseline_dispatch env _ c
    · rfl

/-- The new snapshot is in place, and the one behind it reaches up to `p`. -/
structure Placed (risk : RiskConfig) (history : List OrderCommand) (base : Nat) (d : Disk)
    (p : Nat) : Prop where
  snapshot : ∃ b, d.snapshot = some b ∧ Stored risk history base history.length b
  prev : ∀ b, d.prev = some b → ∃ seq, Stored risk history base seq b ∧ p ≤ seq
  bare : d.prev = none → p = 0

def InPhase (risk : RiskConfig) (history : List OrderCommand) (base : Nat) (d : Disk) (p : Nat) :
    Phase → Prop
  | .serving => Anchored risk history base d p
  | .kept => Anchored risk history base d p ∧ d.snapshot = none
  | .placed => Placed risk history base d p

def Covered (cfg : Config) (m : Machine) : Prop :=
  ∃ base, Recoverable cfg.risk m.history base m.disk ∧ ∀ t phase, m.process = some (t, phase) →
    Serves cfg m.history base t ∧
      InPhase cfg.risk m.history base m.disk t.lastSnapshotSeq.toNat phase

theorem covered_empty (cfg : Config) : Covered cfg .empty := by
  refine ⟨0, ⟨Or.inr ⟨rfl, rfl⟩, Nat.le_refl 0, ?_, ?_, fun _ _ => rfl⟩, ?_⟩
  all_goals simp [Machine.empty, Disk.empty]

theorem Recoverable.withLog {cfg : Config} {history : List OrderCommand} {base : Nat} {d : Disk}
    {t : Thread} (h : Recoverable cfg.risk history base d) (ht : Serves cfg history base t) :
    Recoverable cfg.risk history base (d.withLog t.wal) := by
  obtain ⟨w, hw, -, -, hfile⟩ := ht.wal
  refine ⟨Or.inl ?_, h.within, h.snapshot, h.prev, h.bare⟩
  rw [Disk.withLog, hw, ← hfile]
  rfl

theorem Anchored.withLog {risk : RiskConfig} {history : List OrderCommand} {base p : Nat} {d : Disk}
    (h : Anchored risk history base d p) (wal : Option Wal) :
    Anchored risk history base (d.withLog wal) p :=
  ⟨h.snapshot, h.prev, h.bare⟩

theorem Anchored.grow {risk : RiskConfig} {history : List OrderCommand} {base p : Nat} {d : Disk}
    (h : Anchored risk history base d p) (more : List OrderCommand) :
    Anchored risk (history ++ more) base d p := by
  refine ⟨fun b hb => ?_, fun hs b hb => ?_, h.bare⟩
  · obtain ⟨seq, hstored, hp⟩ := h.snapshot b hb
    exact ⟨seq, hstored.grow more, hp⟩
  · obtain ⟨seq, hstored, hp⟩ := h.prev hs b hb
    exact ⟨seq, hstored.grow more, hp⟩

theorem covered_pop {cfg : Config} {m : Machine} (h : Covered cfg m) {env : Env}
    (henv : ∀ n, 47 ≤ (env.written n).count) (c : OrderCommand) {t : Thread}
    (hp : m.process = some (t, .serving)) :
    Covered cfg (m.pop env c t) := by
  obtain ⟨base, hdisk, hproc⟩ := h
  obtain ⟨hserves, hphase⟩ := hproc t .serving hp
  obtain ⟨more, hmore, hserves'⟩ := hserves.pop hdisk.within henv c
  have hpop : m.pop env c t =
      ⟨m.disk.withLog (t.applyPopped env c).wal, some (t.applyPopped env c, .serving),
        m.history ++ more⟩ := by
    rw [Machine.pop, hmore, List.drop_left]
  have hgrown : Recoverable cfg.risk (m.history ++ more) base
      (m.disk.withLog (t.applyPopped env c).wal) := by
    obtain ⟨w, hw, -, -, hfile⟩ := hserves'.wal
    refine ⟨Or.inl ?_, ?_, fun b hb => ?_, fun b hb => ?_, hdisk.bare⟩
    · rw [Disk.withLog, hw, ← hfile]
      rfl
    · rw [List.length_append]
      exact hdisk.within.trans (Nat.le_add_right _ _)
    · obtain ⟨seq, hstored⟩ := hdisk.snapshot b hb
      exact ⟨seq, hstored.grow more⟩
    · obtain ⟨seq, hstored⟩ := hdisk.prev b hb
      exact ⟨seq, hstored.grow more⟩
  have hlast : (t.applyPopped env c).lastSnapshotSeq = t.lastSnapshotSeq :=
    congrArg (fun b => b.2.2) (baseline_apply env t c)
  rw [hpop]
  refine ⟨base, hgrown, fun t' phase' hp' => ?_⟩
  obtain ⟨rfl, rfl⟩ := Prod.mk.inj (Option.some.inj hp')
  refine ⟨hserves', ?_⟩
  rw [hlast]
  exact (Anchored.grow hphase more).withLog _

theorem covered_sync {cfg : Config} {m : Machine} (h : Covered cfg m) (env : Env) {t : Thread}
    (hp : m.process = some (t, .serving)) :
    Covered cfg { m with process := some (t.pollSync env, .serving) } := by
  obtain ⟨base, hdisk, hproc⟩ := h
  obtain ⟨⟨⟨w, hw, hopen, hseq, hfile⟩, hrisk, hlive, hbuilt⟩, hphase⟩ := hproc t .serving hp
  refine ⟨base, hdisk, fun t' phase' hp' => ?_⟩
  obtain ⟨rfl, rfl⟩ := Prod.mk.inj (Option.some.inj hp')
  obtain ⟨h1, h2, h3⟩ := maybeSync_same w (env.monotonicNs t.asked)
  refine ⟨⟨⟨w.pollSync (env.monotonicNs t.asked), ?_, h1.trans hopen, h3.trans hseq,
    h2.trans hfile⟩, hrisk, hlive, hbuilt⟩, hphase⟩
  rw [Thread.pollSync, hw]
  rfl

theorem covered_keepPrevious {cfg : Config} {m : Machine} (h : Covered cfg m) {t : Thread}
    (hp : m.process = some (t, .serving)) : Covered cfg (m.keepPrevious t) := by
  obtain ⟨base, hdisk, hproc⟩ := h
  obtain ⟨hserves, hphase⟩ := hproc t .serving hp
  have hprev : ∀ b, m.disk.snapshot.or m.disk.prev = some b →
      m.disk.snapshot = some b ∨ (m.disk.snapshot = none ∧ m.disk.prev = some b) :=
    fun b hb => Option.or_eq_some_iff.mp hb
  have hbare : m.disk.snapshot.or m.disk.prev = none → m.disk.snapshot = none ∧
      m.disk.prev = none :=
    Option.or_eq_none_iff.mp
  unfold Machine.keepPrevious
  split
  · refine ⟨base, ⟨hdisk.log, hdisk.within, nofun, fun b hb => ?_, fun _ hb => ?_⟩,
      fun t' phase' hp' => ?_⟩
    · obtain hs | ⟨-, hb⟩ := hprev b hb
      · exact hdisk.snapshot b hs
      · exact hdisk.prev b hb
    · exact hdisk.bare (hbare hb).1 (hbare hb).2
    · obtain ⟨rfl, rfl⟩ := Prod.mk.inj (Option.some.inj hp')
      refine ⟨hserves, ⟨nofun, fun _ b hb => ?_, fun _ hb => ?_⟩, rfl⟩
      · obtain hs | ⟨hs, hb⟩ := hprev b hb
        · exact hphase.snapshot b hs
        · exact hphase.prev hs b hb
      · exact hphase.bare (hbare hb).1 (hbare hb).2
  · exact ⟨base, hdisk, hproc⟩

theorem covered_place {cfg : Config} {m : Machine} (h : Covered cfg m) {t : Thread}
    (hp : m.process = some (t, .kept)) : Covered cfg (m.place t) := by
  obtain ⟨base, hdisk, hproc⟩ := h
  obtain ⟨hserves, hphase, hnone⟩ := hproc t .kept hp
  unfold Machine.place
  split
  · have hnew : Stored cfg.risk m.history base m.history.length (newSnapshot t) := by
      obtain ⟨w, hw, -, hseq, -⟩ := hserves.wal
      refine ⟨⟨t.ledger, ?_, ?_⟩, hdisk.within, Nat.le_refl _⟩
      · rw [List.take_length]
        exact hserves.built
      · rw [newSnapshot, lastSeq, hw, ← hseq]
        rfl
    refine ⟨base, ⟨hdisk.log, hdisk.within, fun b hb => ?_, hdisk.prev, nofun⟩,
      fun t' phase' hp' => ?_⟩
    · obtain rfl := Option.some.inj hb
      exact ⟨_, hnew⟩
    · obtain ⟨rfl, rfl⟩ := Prod.mk.inj (Option.some.inj hp')
      exact ⟨hserves, ⟨_, rfl, hnew⟩, hphase.prev hnone, hphase.bare hnone⟩
  · exact ⟨base, hdisk, hproc⟩

theorem Placed.last_le {risk : RiskConfig} {history : List OrderCommand} {base p : Nat} {d : Disk}
    (h : Placed risk history base d p) : p ≤ history.length := by
  cases hprev : d.prev with
  | none =>
    rw [h.bare hprev]
    exact Nat.zero_le _
  | some b =>
    obtain ⟨seq, hstored, hp⟩ := h.prev b hprev
    exact hp.trans hstored.known

/-- The log is cut only behind what the snapshot before the new one covers. -/
theorem covered_finish {cfg : Config} {m : Machine} (h : Covered cfg m)
    (hfit : m.history.length < 2 ^ 64) {t : Thread} (hp : m.process = some (t, .placed)) :
    Covered cfg (m.finish t) := by
  obtain ⟨base, hdisk, hproc⟩ := h
  obtain ⟨hserves, hphase⟩ := hproc t .placed hp
  have hplaced : Placed cfg.risk m.history base m.disk t.lastSnapshotSeq.toNat := hphase
  have hlast := hplaced.last_le
  have hwithin := hdisk.within
  have hserves' := hserves.truncate hdisk.within hfit
  obtain ⟨b, hb, hnew⟩ := hplaced.snapshot
  have hseq : (finished t).lastSnapshotSeq.toNat = m.history.length := by
    obtain ⟨w, hw, -, hwseq, -⟩ := hserves.wal
    show (lastSeq t).toNat = _
    rw [lastSeq, hw]
    show w.seq.toNat = _
    rw [hwseq, UInt64.toNat_ofNat_of_lt' hfit]
  let base' := max base t.lastSnapshotSeq.toNat
  have hcut : Stored cfg.risk m.history base' m.history.length b :=
    hnew.cut (Nat.max_le.mpr ⟨hwithin, hlast⟩)
  have hkept : ∀ d : Disk, d.snapshot = m.disk.snapshot → d.prev = m.disk.prev →
      (d.log = some (records (UInt64.ofNat base') (m.history.drop base')) ∨
        (d.log = none ∧ m.history = [])) →
      Covered cfg ⟨d, some (finished t, .serving), m.history⟩ := by
    intro d hs hprev hlog
    refine ⟨base',
      ⟨hlog, Nat.max_le.mpr ⟨hwithin, hlast⟩, fun b' hb' => ?_, fun b' hb' => ?_, fun hnone => ?_⟩,
      fun t' phase' hp' => ?_⟩
    · obtain rfl := Option.some.inj (hb.symm.trans (hs.symm.trans hb'))
      exact ⟨_, hcut⟩
    · obtain ⟨seq, hstored, hle⟩ := hplaced.prev b' (hprev.symm.trans hb')
      exact ⟨seq, hstored.cut (Nat.max_le.mpr ⟨hstored.reaches, hle⟩)⟩
    · rw [hs, hb] at hnone
      cases hnone
    · obtain ⟨rfl, rfl⟩ := Prod.mk.inj (Option.some.inj hp')
      refine ⟨hserves', fun b' hb' => ?_, fun hnone => ?_, fun hnone => ?_⟩
      · obtain rfl := Option.some.inj (hb.symm.trans (hs.symm.trans hb'))
        exact ⟨_, hcut, hseq.le⟩
      · rw [hs, hb] at hnone
        cases hnone
      · rw [hs, hb] at hnone
        cases hnone
  unfold Machine.finish
  split
  · split
    · refine hkept _ rfl rfl (Or.inl ?_)
      obtain ⟨w, hw, -, -, hfile⟩ := hserves'.wal
      show ((newLog t).map Wal.file).or m.disk.log = _
      rw [show newLog t = some w from hw, ← hfile]
      rfl
    · exact ⟨base, hdisk, hproc⟩
  · rename_i hpos
    have hsame : base' = base := by
      simp only [base', UInt64.le_zero_iff.mp (UInt64.not_lt.mp hpos)]
      exact Nat.max_eq_left (Nat.zero_le base)
    exact hkept m.disk rfl rfl (hsame ▸ hdisk.log)

theorem covered_during {cfg : Config} {m : Machine} (h : Covered cfg m) {phase : Phase}
    {f : Thread → Machine} (hf : ∀ t, m.process = some (t, phase) → Covered cfg (f t)) :
    Covered cfg (m.during phase f) := by
  unfold Machine.during
  split
  · exact h
  · rename_i t p hp
    split
    · rename_i hphase
      exact hf t (hphase ▸ hp)
    · exact h

theorem covered_tmp {cfg : Config} {m : Machine} (h : Covered cfg m)
    (tmp tmp' : Option (List UInt8)) :
    Covered cfg { m with disk := { m.disk with snapshotTmp := tmp, logTmp := tmp' } } := by
  obtain ⟨base, hdisk, hproc⟩ := h
  refine ⟨base, ⟨hdisk.log, hdisk.within, hdisk.snapshot, hdisk.prev, hdisk.bare⟩,
    fun t phase hp => ?_⟩
  obtain ⟨hserves, hphase⟩ := hproc t phase hp
  refine ⟨hserves, ?_⟩
  cases phase with
  | serving => exact ⟨hphase.snapshot, hphase.prev, hphase.bare⟩
  | kept => exact ⟨⟨hphase.1.snapshot, hphase.1.prev, hphase.1.bare⟩, hphase.2⟩
  | placed => exact ⟨hphase.snapshot, hphase.prev, hphase.bare⟩

/-- Every write of the log takes the whole record. -/
def Action.Whole : Action → Prop
  | .pop env _ => ∀ n, 47 ≤ (env.written n).count
  | _ => True

theorem history_step (cfg : Config) (m : Machine) (a : Action) :
    m.history.length ≤ (m.step cfg a).history.length := by
  have hduring : ∀ (phase : Phase) (f : Thread → Machine),
      (∀ t, m.history.length ≤ (f t).history.length) →
      m.history.length ≤ (m.during phase f).history.length := by
    intro phase f hf
    unfold Machine.during
    split
    · exact Nat.le_refl _
    · split
      · exact hf _
      · exact Nat.le_refl _
  cases a with
  | pop env c =>
    refine hduring _ _ fun t => ?_
    show _ ≤ (m.history ++ _).length
    rw [List.length_append]
    exact Nat.le_add_right _ _
  | keepPrevious =>
    refine hduring _ _ fun t => ?_
    unfold Machine.keepPrevious
    split <;> exact Nat.le_refl _
  | place =>
    refine hduring _ _ fun t => ?_
    unfold Machine.place
    split <;> exact Nat.le_refl _
  | stageLog n =>
    refine hduring _ _ fun t => ?_
    unfold Machine.stageLog
    split <;> exact Nat.le_refl _
  | finish =>
    refine hduring _ _ fun t => ?_
    unfold Machine.finish
    split
    · split <;> exact Nat.le_refl _
    · exact Nat.le_refl _
  | restart env nowNs =>
    show _ ≤ (m.restart cfg env nowNs).history.length
    unfold Machine.restart
    split <;> exact Nat.le_refl _
  | crash => exact Nat.le_refl _
  | sync env => exact hduring _ _ fun _ => Nat.le_refl _
  | stage n => exact hduring _ _ fun _ => Nat.le_refl _

theorem history_run (cfg : Config) (m : Machine) (as : List Action) :
    m.history.length ≤ (m.run cfg as).history.length := by
  induction as generalizing m with
  | nil => exact Nat.le_refl _
  | cons a as ih => exact (history_step cfg m a).trans (ih _)

section Lives

variable {cfg : Config} (hwal : cfg.walPath ≠ "") (hsnap : cfg.snapPath ≠ "")
  (hrecover : cfg.recover = true)

include hwal hsnap hrecover

theorem covered_restart {m : Machine} (h : Covered cfg m) (hfit : m.history.length < 2 ^ 64)
    (env : Env) (nowNs : UInt64) : Covered cfg (m.restart cfg env nowNs) := by
  obtain ⟨base, hdisk, hproc⟩ := h
  obtain ⟨t, hstart, hserves, hlast⟩ := hdisk.restart hwal hsnap hrecover hfit env nowNs
  obtain ⟨-, -, -, -, hanchored⟩ := hdisk.chosen hsnap hrecover hfit
  unfold Machine.restart
  rw [hstart]
  cases hp : m.process with
  | some x => exact ⟨base, hdisk, hproc⟩
  | none =>
    refine ⟨base, hdisk.withLog hserves, fun t' phase' hp' => ?_⟩
    obtain ⟨rfl, rfl⟩ := Prod.mk.inj (Option.some.inj hp')
    refine ⟨hserves, ?_⟩
    rw [hlast]
    exact hanchored.withLog _

theorem covered_step {m : Machine} (h : Covered cfg m) (hfit : m.history.length < 2 ^ 64)
    {a : Action} (ha : a.Whole) : Covered cfg (m.step cfg a) := by
  cases a with
  | pop env c => exact covered_during h fun t hp => covered_pop h ha c hp
  | sync env => exact covered_during h fun t hp => covered_sync h env hp
  | keepPrevious => exact covered_during h fun t hp => covered_keepPrevious h hp
  | stage n => exact covered_during h fun t hp => covered_tmp h _ m.disk.logTmp
  | place => exact covered_during h fun t hp => covered_place h hp
  | stageLog n =>
    refine covered_during h fun t hp => ?_
    unfold Machine.stageLog
    split
    · exact covered_tmp h m.disk.snapshotTmp _
    · exact h
  | finish => exact covered_during h fun t hp => covered_finish h hfit hp
  | crash =>
    obtain ⟨base, hdisk, -⟩ := h
    refine ⟨base, hdisk, fun t phase hp => ?_⟩
    cases hp
  | restart env nowNs => exact covered_restart hwal hsnap hrecover h hfit env nowNs

theorem covered_run {m : Machine} (h : Covered cfg m) {as : List Action} (has : ∀ a ∈ as, a.Whole)
    (hfit : (m.run cfg as).history.length < 2 ^ 64) : Covered cfg (m.run cfg as) := by
  induction as generalizing m with
  | nil => exact h
  | cons a as ih =>
    have hstep := covered_step hwal hsnap hrecover h ((history_run cfg m (a :: as)).trans_lt hfit)
      (has a (by simp))
    exact ih hstep (fun b hb => has b (by simp [hb])) hfit

/-- Wherever a life ends, the next one replays exactly what the snapshot it
chooses does not cover, and serves every command ever appended, once each. -/
theorem restarts_cover_history (as : List Action) (has : ∀ a ∈ as, a.Whole) :
    let m := Machine.empty.run cfg as
    m.history.length < 2 ^ 64 →
      let covered := coveredBy (chooseSnapshot cfg m.disk.files)
      covered ≤ m.history.length ∧
        (∃ r, recovery cfg m.disk.files = some r ∧
          r.pending = (m.history.drop covered).map detached ∧
          r.resumeSeq.toNat = m.history.length) ∧
        ∀ env nowNs, ∃ t, start cfg env m.disk.files nowNs none = some t ∧
          Built cfg.risk m.history t.ledger := by
  intro m hfit
  obtain ⟨base, hdisk, -⟩ := covered_run hwal hsnap hrecover (covered_empty cfg) has hfit
  obtain ⟨r, hr, hpending, hresume, hle, -⟩ := hdisk.recovers hwal hsnap hrecover hfit
  refine ⟨hle, ⟨r, hr, hpending, hresume⟩, fun env nowNs => ?_⟩
  obtain ⟨t, hstart, hserves, -⟩ := hdisk.restart hwal hsnap hrecover hfit env nowNs
  exact ⟨t, hstart, hserves.built⟩

end Lives

/-- A gateway that takes a snapshot of its first order and dies in the second
snapshot, right after the rename. -/
def diesBetweenNames : List Action :=
  [.restart .obliging 0, .pop .obliging (.newOrder 1 1 100 10 .bid .limit), .keepPrevious,
    .stage 1000, .place, .finish,
    .pop .obliging (.newOrder 1 2 101 5 .bid .limit), .keepPrevious, .crash]

def everyCommand : Config := ⟨.default, "wal", .default, true, "snap", 1⟩

theorem covered_diesBetweenNames :
    let m := Machine.empty.run everyCommand diesBetweenNames
    m.disk.snapshot = none ∧ ∃ r, recovery everyCommand m.disk.files = some r ∧
      r.pending = [.newOrder 1 2 101 5 .bid .limit] ∧ r.resumeSeq.toNat = 2 := by
  have has : ∀ a ∈ diesBetweenNames, a.Whole := by
    intro a ha
    simp only [diesBetweenNames, List.mem_cons, List.not_mem_nil, or_false] at ha
    obtain rfl | rfl | rfl | rfl | rfl | rfl | rfl | rfl | rfl :=
      ha <;> simp [Action.Whole, Env.obliging]
  have hpath : everyCommand.walPath ≠ "" := by decide
  obtain ⟨-, ⟨r, hr, hpending, hresume⟩, -⟩ :=
    restarts_cover_history hpath (by decide) rfl diesBetweenNames has (by decide +kernel)
  refine ⟨by decide +kernel, r, hr, hpending.trans ?_, hresume.trans ?_⟩
  · decide +kernel
  · decide +kernel

end OrderMatching.Checkpoint
