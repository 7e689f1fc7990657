import OrderMatching.Checkpoint

namespace OrderMatching.Numbering

open OrderMatching.Commands OrderMatching.Log OrderMatching.LogRead OrderMatching.Exchange
open OrderMatching.Snapshot OrderMatching.SnapshotFile OrderMatching.MatchingThread
open OrderMatching.Durability OrderMatching.Startup OrderMatching.Checkpoint

theorem readWal_gap (path : String) (seq next : UInt64) {cs : List OrderCommand} (hcs : cs ≠ [])
    (hlast : seq + UInt64.ofNat cs.length ≠ 0) (hjump : next ≠ seq + UInt64.ofNat cs.length)
    (d : OrderCommand) (ds : List OrderCommand) :
    (readWal path (.ok (records seq cs ++ records next (d :: ds)))).sequenceGap = true := by
  have hn : (records seq cs ++ records next (d :: ds)).length =
      46 * cs.length + 47 * ds.length + 46 + 1 + cs.length := by
    rw [List.length_append, length_records, length_records, List.length_cons]
    omega
  have hlen : walHeaderSize ≤ (records next (d :: ds)).length := by
    rw [length_records, List.length_cons, walHeaderSize]
    omega
  have hnext : nextRecord (records next (d :: ds)) =
      .record (next + 1) (detached d) (records (next + 1) ds) :=
    nextRecord_record _ _ _
  have hseq : (collect .empty seq cs).lastSeq = seq + UInt64.ofNat cs.length := if_neg hcs
  have hgap : (collect .empty seq cs).lastSeq ≠ 0 ∧
      next + 1 ≠ (collect .empty seq cs).lastSeq + 1 := by
    rw [hseq]
    exact ⟨hlast, fun h => hjump (UInt64.add_left_inj 1 |>.mp h)⟩
  rw [readWal, hn, readLoop_records _ seq cs _ .empty (Or.inl rfl), readLoop, if_pos hlen, hnext]
  simp only [hgap, ne_eq, not_false_eq_true, and_self, if_true]

theorem wal_start {cfg : Config} {env : Env} {f : Files} {nowNs : UInt64} {t : Thread}
    {r : Recovery} (hwal : cfg.walPath ≠ "") (hr : recovery cfg f = some r)
    (h : start cfg env f nowNs none = some t) :
    t.wal = some (Wal.initial.openLog cfg.walPath f.log nowNs r.resumeSeq cfg.walCfg none).2 := by
  simp only [start, hr, Wal.openLog, Bool.true_eq_false, and_false, if_false, hwal,
    Option.some.injEq] at h
  generalize chooseSnapshot cfg f = chosen at h
  rw [← h]
  have hbase : ∀ t₁ : Thread,
      (if r.pending.isEmpty then t₁ else t₁.recover env r.pending).wal = t₁.wal := by
    intro t₁
    split
    · rfl
    · exact (replay_frame env r.pending (t := { t₁ with replaying := true }) rfl).2.1
  rw [hbase]
  split <;> rfl

def afterAppends (f : Files) (w : Wal) (ds : List (OrderCommand × UInt64)) : Files :=
  { f with log := .ok (appendAll w ds).2.file }

/-- Recovery does not refuse to start, and replays all of `ds` in the end. -/
def Continues (cfg : Config) (f : Files) (ds : List OrderCommand) : Prop :=
  ∃ r replayed, recovery cfg f = some r ∧ r.pending = replayed ++ ds.map detached

section

variable {cfg : Config} {f : Files} {base : Nat} {cs : List OrderCommand}

theorem resumed_log (hwal : cfg.walPath ≠ "") (hrecover : cfg.recover = true)
    (hlog : f.log = .ok (records (UInt64.ofNat base) cs)) (hfit : base + cs.length < 2 ^ 64)
    {env : Env} {nowNs : UInt64} {t : Thread} {w : Wal} (h : start cfg env f nowNs none = some t)
    (hw : t.wal = some w) :
    w.isOpen = true ∧ w.file = records (UInt64.ofNat base) cs ∧
      w.seq.toNat = max (if cs = [] then 0 else base + cs.length)
        (chooseSnapshot cfg f).data.lastSeq.toNat := by
  obtain ⟨r, hr, -, hresume⟩ := recovery_intact hwal hrecover hlog hfit
  rw [wal_start hwal hr h, Option.some.injEq] at hw
  rw [← hw, ← hresume, hlog]
  exact ⟨rfl, rfl, rfl⟩

theorem appended_log {w : Wal} (hopen : w.isOpen = true)
    (hfile : w.file = records (UInt64.ofNat base) cs) (ds : List (OrderCommand × UInt64)) :
    (afterAppends f w ds).log =
      .ok (records (UInt64.ofNat base) cs ++ records w.seq (ds.map Prod.fst)) := by
  rw [afterAppends, (appendAll_spec ds hopen).2, hfile]

theorem continues_behind (base : Nat) (cs : List OrderCommand) (hwal : cfg.walPath ≠ "")
    (hrecover : cfg.recover = true) (hsnap : (chooseSnapshot cfg f).haveSnapshot = true)
    {f' : Files} (hsame : chooseSnapshot cfg f' = chooseSnapshot cfg f) {ds : List OrderCommand}
    (hlog : f'.log = .ok (records (UInt64.ofNat base) (cs ++ ds)))
    (hfit : base + (cs ++ ds).length < 2 ^ 64)
    (hbehind : (chooseSnapshot cfg f).data.lastSeq.toNat ≤ base + cs.length) :
    Continues cfg f' ds := by
  obtain ⟨r, hr, hpending, -⟩ := recovery_intact hwal hrecover hlog hfit
  have hcovered : coveredBy (chooseSnapshot cfg f') =
      (chooseSnapshot cfg f).data.lastSeq.toNat := by
    rw [hsame, coveredBy, hsnap, if_pos rfl]
  refine ⟨r, (cs.map detached).drop ((chooseSnapshot cfg f).data.lastSeq.toNat - base), hr, ?_⟩
  rw [hpending, hcovered, List.map_append, List.drop_append_of_le_length]
  rw [List.length_map]
  omega

theorem continues_of_behind (hwal : cfg.walPath ≠ "") (hrecover : cfg.recover = true)
    (hsnap : (chooseSnapshot cfg f).haveSnapshot = true)
    (hlog : f.log = .ok (records (UInt64.ofNat base) cs)) (hfit : base + cs.length < 2 ^ 64)
    (hcond : cs = [] ∨ (chooseSnapshot cfg f).data.lastSeq.toNat ≤ base + cs.length) {env : Env}
    {nowNs : UInt64} {t : Thread} {w : Wal} {ds : List (OrderCommand × UInt64)}
    (h : start cfg env f nowNs none = some t) (hw : t.wal = some w)
    (hroom : w.seq.toNat + ds.length < 2 ^ 64) :
    Continues cfg (afterAppends f w ds) (ds.map Prod.fst) := by
  obtain ⟨hopen, hfile, hseq⟩ := resumed_log hwal hrecover hlog hfit h hw
  have hlog' := appended_log (f := f) hopen hfile ds
  have hsame : chooseSnapshot cfg (afterAppends f w ds) = chooseSnapshot cfg f := rfl
  have hw' : UInt64.ofNat w.seq.toNat = w.seq := UInt64.ofNat_toNat
  by_cases hnil : cs = []
  · -- an empty log goes on from the number of the snapshot
    rw [if_pos hnil, Nat.zero_max] at hseq
    refine continues_behind w.seq.toNat [] hwal hrecover hsnap hsame ?_ ?_ ?_
    · rw [hlog', hw', hnil]
      rfl
    · simpa using hroom
    · simp [hseq]
  · have hle := hcond.resolve_left hnil
    rw [if_neg hnil, Nat.max_eq_left hle] at hseq
    refine continues_behind base cs hwal hrecover hsnap hsame ?_ ?_ hle
    · rw [hlog', records_append, ← hw', hseq, UInt64.ofNat_add]
    · rw [List.length_append, List.length_map]
      omega

theorem starts (hwal : cfg.walPath ≠ "") (hrecover : cfg.recover = true)
    (hlog : f.log = .ok (records (UInt64.ofNat base) cs)) (hfit : base + cs.length < 2 ^ 64)
    (env : Env) (nowNs : UInt64) : ∃ t w, start cfg env f nowNs none = some t ∧ t.wal = some w := by
  obtain ⟨r, hr, -⟩ := recovery_intact hwal hrecover hlog hfit
  have hstart : ∃ t, start cfg env f nowNs none = some t := by
    simp only [start, hr, Wal.openLog, Bool.true_eq_false, and_false, if_false]
    exact ⟨_, rfl⟩
  obtain ⟨t, ht⟩ := hstart
  exact ⟨t, _, ht, wal_start hwal hr ht⟩

theorem refused_of_ahead (hwal : cfg.walPath ≠ "") (hrecover : cfg.recover = true)
    (hlog : f.log = .ok (records (UInt64.ofNat base) cs)) (hfit : base + cs.length < 2 ^ 64)
    (hcs : cs ≠ []) (hahead : base + cs.length < (chooseSnapshot cfg f).data.lastSeq.toNat)
    {env : Env} {nowNs : UInt64} {t : Thread} {w : Wal} (h : start cfg env f nowNs none = some t)
    (hw : t.wal = some w) (d : OrderCommand × UInt64) (ds : List (OrderCommand × UInt64)) :
    recovery cfg (afterAppends f w (d :: ds)) = none := by
  obtain ⟨hopen, hfile, hseq⟩ := resumed_log hwal hrecover hlog hfit h hw
  rw [if_neg hcs, Nat.max_eq_right (by omega)] at hseq
  have hpos : 0 < cs.length := List.length_pos_iff.mpr hcs
  have hlast : (UInt64.ofNat base + UInt64.ofNat cs.length).toNat = base + cs.length := by
    rw [← UInt64.ofNat_add, UInt64.toNat_ofNat_of_lt' hfit]
  have hgap := readWal_gap cfg.walPath (UInt64.ofNat base) w.seq hcs
    (fun h => by rw [h] at hlast; simp at hlast; omega) (fun h => by rw [h] at hseq; omega) d.1
    (ds.map Prod.fst)
  have herror : (readWal cfg.walPath (afterAppends f w (d :: ds)).log).error = "" :=
    error_readLoop _ _ _
  rw [recovery, if_neg (by simp [hwal, hrecover]), recoverLog, if_neg (by simp [herror]),
    appended_log hopen hfile, List.map_cons, hgap, if_pos rfl]

/-- What is appended after a restart is there at the next one, exactly if the
log did not end before the snapshot did. -/
theorem continues_iff (hwal : cfg.walPath ≠ "") (hrecover : cfg.recover = true)
    (hsnap : (chooseSnapshot cfg f).haveSnapshot = true)
    (hlog : f.log = .ok (records (UInt64.ofNat base) cs)) (hfit : base + cs.length < 2 ^ 64)
    (hleft : (chooseSnapshot cfg f).data.lastSeq.toNat + 1 < 2 ^ 64) :
    (∀ env nowNs t w ds, start cfg env f nowNs none = some t → t.wal = some w →
      w.seq.toNat + ds.length < 2 ^ 64 → Continues cfg (afterAppends f w ds) (ds.map Prod.fst)) ↔
      (cs = [] ∨ (chooseSnapshot cfg f).data.lastSeq.toNat ≤ base + cs.length) := by
  constructor
  · intro hall
    by_contra hnot
    obtain ⟨hcs, hahead⟩ := not_or.mp hnot
    obtain ⟨t, w, ht, hw⟩ := starts hwal hrecover hlog hfit .obliging 0
    obtain ⟨-, -, hseq⟩ := resumed_log hwal hrecover hlog hfit ht hw
    rw [if_neg hcs, Nat.max_eq_right (by omega)] at hseq
    obtain ⟨r, replayed, hr, -⟩ :=
      hall .obliging 0 t w [(.cancel 1 1, 0)] ht hw (by simp [hseq]; omega)
    rw [refused_of_ahead hwal hrecover hlog hfit hcs (by omega) ht hw] at hr
    cases hr
  · intro hcond env nowNs t w ds ht hw hroom
    exact continues_of_behind hwal hrecover hsnap hlog hfit hcond ht hw hroom

end

/-- A snapshot that reaches up to `lastSeq`, and a log with one order in it. -/
def snapshotAt (lastSeq : UInt64) : Files :=
  ⟨.ok (writeSnapshot { Image.blank with lastSeq := lastSeq }), .error "No such file or directory",
    .ok (records 0 [.newOrder 1 1 100 5 .ask .limit])⟩

theorem snapshotAt_one_continues : (chooseSnapshot recovering (snapshotAt 1)).haveSnapshot = true ∧
    ∀ env nowNs t w ds, start recovering env (snapshotAt 1) nowNs none = some t → t.wal = some w →
      w.seq.toNat + ds.length < 2 ^ 64 →
      Continues recovering (afterAppends (snapshotAt 1) w ds) (ds.map Prod.fst) := by
  have hlog : (snapshotAt 1).log =
      .ok (records (UInt64.ofNat 0) [.newOrder 1 1 100 5 .ask .limit]) := rfl
  exact ⟨by decide +kernel, (continues_iff (by decide) rfl (by decide +kernel) hlog (by decide)
    (by decide +kernel)).mpr (Or.inr (by decide +kernel))⟩

/-- The machine lost the second record, which the snapshot covers. -/
theorem snapshotAt_two_refused :
    ¬∀ (cfg : Config) (f : Files) (base : Nat) (cs : List OrderCommand), cfg.walPath ≠ "" →
      cfg.recover = true →
      (chooseSnapshot cfg f).haveSnapshot = true → f.log = .ok (records (UInt64.ofNat base) cs) →
      ∀ env nowNs t w ds, start cfg env f nowNs none = some t → t.wal = some w →
        w.seq.toNat + ds.length < 2 ^ 64 →
        Continues cfg (afterAppends f w ds) (ds.map Prod.fst) := by
  intro h
  have hlog : (snapshotAt 2).log =
      .ok (records (UInt64.ofNat 0) [.newOrder 1 1 100 5 .ask .limit]) := rfl
  have hwal : recovering.walPath ≠ "" := by decide
  obtain ⟨t, w, ht, hw⟩ := starts hwal rfl hlog (by decide) .obliging 0
  obtain ⟨-, -, hseq⟩ := resumed_log (by decide) rfl hlog (by decide) ht hw
  have hnum : w.seq.toNat = 2 := hseq.trans (by decide +kernel)
  obtain ⟨r, replayed, hr, -⟩ :=
    h recovering (snapshotAt 2) 0 _ (by decide) rfl (by decide +kernel) hlog .obliging 0 t w
      [(.cancel 1 1, 0)] ht hw (by simp [hnum])
  rw [refused_of_ahead (by decide) rfl hlog (by decide) (by simp) (by decide +kernel) ht hw] at hr
  cases hr

end OrderMatching.Numbering
