import OrderMatching.LogRead

namespace OrderMatching.Durability

open OrderMatching.Commands OrderMatching.Log OrderMatching.LogRead

structure Recovery where
  pending : List OrderCommand
  resumeSeq : UInt64

def skipCovered (haveSnapshot : Bool) (snapSeq : UInt64) :
    UInt64 → List OrderCommand → List OrderCommand
  | _, [] => []
  | seq, c :: cs =>
    let rest := skipCovered haveSnapshot snapSeq (seq + 1) cs
    if haveSnapshot = false ∨ seq > snapSeq then c :: rest else rest

/-- What `main` makes of the log it reads: nothing to replay when there is no
file, no start at all on a gap. Without a snapshot `snapSeq` is zero. -/
def recoverLog (haveSnapshot : Bool) (snapSeq : UInt64) (rd : WalReadResult) : Option Recovery :=
  if rd.error ≠ "" then some ⟨[], 0⟩
  else if rd.sequenceGap then none
  else
    some ⟨skipCovered haveSnapshot snapSeq rd.firstSeq rd.commands,
      if rd.lastSeq > snapSeq then rd.lastSeq else snapSeq⟩

def Wal.initial : Wal := ⟨false, [], "", "", WalConfig.default, 0, 0, 0, 0, 0⟩

/-- The log of a gateway started with `--recover` and no snapshot. -/
def startLog (path : String) (cfg : WalConfig) (nowNs : UInt64)
    (file : Except String (List UInt8)) : Option Wal :=
  match recoverLog false 0 (readWal path file) with
  | none => none
  | some r => some (Wal.initial.openLog path file nowNs r.resumeSeq cfg none).2

/-- Appends a list of commands at their times and collects those whose append
returned true. -/
def appendAll (w : Wal) : List (OrderCommand × UInt64) → List OrderCommand × Wal
  | [] => ([], w)
  | c :: cs =>
    let r := w.append c.1 c.2 ⟨(record (w.seq + 1) c.1).length, ""⟩
    let rest := appendAll r.2 cs
    (if r.1 then c.1 :: rest.1 else rest.1, rest.2)

/-- One life of the gateway: what it appends, and the record it was writing
when it died, of which the first `cut` bytes reached the file. -/
structure Cycle where
  startNs : UInt64
  appended : List (OrderCommand × UInt64)
  last : OrderCommand
  cut : Nat
  strict : ∀ seq, cut < (record seq last).length

structure Disk where
  file : Except String (List UInt8)
  acked : List OrderCommand

def Disk.initial : Disk := ⟨.error "No such file or directory", []⟩

def Cycle.run (path : String) (cfg : WalConfig) (d : Disk) (c : Cycle) : Disk :=
  match startLog path cfg c.startNs d.file with
  | none => d
  | some w =>
    let r := appendAll w c.appended
    ⟨.ok (r.2.file ++ (record (r.2.seq + 1) c.last).take c.cut), d.acked ++ r.1⟩

def runCycles (path : String) (cfg : WalConfig) (d : Disk) (cs : List Cycle) : Disk :=
  cs.foldl (Cycle.run path cfg) d

/-- Every acknowledged command can be read back, in order and without a gap. -/
def Durable (path : String) (d : Disk) : Prop :=
  (readWal path d.file).commands = d.acked.map detached ∧ (readWal path d.file).sequenceGap = false

def StartsClean (path : String) (d : Disk) (c : Cycle) : Prop :=
  (readWal path d.file).truncatedBytes = 0 ∨ (c.appended = [] ∧ c.cut = 0)

def CleanRun (path : String) (cfg : WalConfig) : Disk → List Cycle → Prop
  | _, [] => True
  | d, c :: cs => StartsClean path d c ∧ CleanRun path cfg (c.run path cfg d) cs

/-- The file holds the records of the acknowledged commands, then a tail no
record starts in. -/
def Intact (d : Disk) (tail : List UInt8) : Prop :=
  Torn tail ∧ (d.file = .ok (records 0 d.acked ++ tail) ∨ (d = .initial ∧ tail = []))

theorem intact_initial : Intact .initial [] := ⟨torn_nil, Or.inr ⟨rfl, rfl⟩⟩

theorem sync_isOpen (w : Wal) : w.sync.isOpen = w.isOpen := by
  unfold Wal.sync
  split <;> rfl

theorem sync_file (w : Wal) : w.sync.file = w.file := by
  unfold Wal.sync
  split <;> rfl

theorem sync_seq (w : Wal) : w.sync.seq = w.seq := by
  unfold Wal.sync
  split <;> rfl

theorem maybeSync_same (w : Wal) (nowNs : UInt64) :
    (w.maybeSync nowNs).isOpen = w.isOpen ∧ (w.maybeSync nowNs).file = w.file ∧
      (w.maybeSync nowNs).seq = w.seq := by
  unfold Wal.maybeSync
  split
  · exact ⟨sync_isOpen w, sync_file w, sync_seq w⟩
  · exact ⟨rfl, rfl, rfl⟩

theorem append_whole {w : Wal} (hw : w.isOpen = true) (c : OrderCommand) (nowNs : UInt64)
    (k : Written) (hk : (record (w.seq + 1) c).length ≤ k.count) :
    (w.append c nowNs k).1 = true ∧ (w.append c nowNs k).2.isOpen = true ∧
      (w.append c nowNs k).2.file = w.file ++ record (w.seq + 1) c ∧
      (w.append c nowNs k).2.seq = w.seq + 1 := by
  let w' : Wal := { w with seq := w.seq + 1, file := w.file ++ record (w.seq + 1) c }
  have hwrite : ({ w with seq := w.seq + 1 } : Wal).writeAll (record (w.seq + 1) c) k =
      (true, w') := if_pos hk
  obtain ⟨h1, h2, h3⟩ := maybeSync_same { w' with sinceSync := w'.sinceSync + 1 } nowNs
  rw [Wal.append, if_pos hw, hwrite]
  exact ⟨rfl, h1.trans hw, h2, h3⟩

theorem appendAll_spec (cs : List (OrderCommand × UInt64)) {w : Wal} (hw : w.isOpen = true) :
    (appendAll w cs).1 = cs.map Prod.fst ∧
      (appendAll w cs).2.file = w.file ++ records w.seq (cs.map Prod.fst) := by
  induction cs generalizing w with
  | nil => simp [appendAll, records]
  | cons c cs ih =>
    obtain ⟨h1, h2, h3, h4⟩ :=
      append_whole hw c.1 c.2 ⟨(record (w.seq + 1) c.1).length, ""⟩ (Nat.le_refl _)
    obtain ⟨i1, i2⟩ := ih h2
    rw [h3, h4] at i2
    constructor
    · simp only [appendAll, h1, if_true, i1, List.map_cons]
    · rw [List.map_cons, records, ← List.append_assoc]
      exact i2

theorem readWal_intact (path : String) {d : Disk} {tail : List UInt8} (h : Intact d tail) :
    Durable path d ∧ (readWal path d.file).truncatedBytes = tail.length := by
  obtain ⟨ht, hf | ⟨rfl, rfl⟩⟩ := h
  · simp [Durable, hf, readWal_records ht]
  · exact ⟨⟨rfl, rfl⟩, rfl⟩

theorem startLog_intact (path : String) (cfg : WalConfig) (nowNs : UInt64) {d : Disk}
    {tail : List UInt8} (h : Intact d tail) :
    ∃ w, startLog path cfg nowNs d.file = some w ∧ w.isOpen = true ∧
      w.file = records 0 d.acked ++ tail ∧ w.seq = UInt64.ofNat d.acked.length := by
  obtain ⟨ht, hf | ⟨rfl, rfl⟩⟩ := h
  · have hseq : (if d.acked = [] then (0 : UInt64) else 0 + UInt64.ofNat d.acked.length) =
        UInt64.ofNat d.acked.length := by
      split <;> simp_all
    have hmax (n : UInt64) : (if n > 0 then n else 0) = n := by
      by_cases hn : n = 0
      · simp [hn]
      · exact if_pos (UInt64.pos_iff_ne_zero.mpr hn)
    refine ⟨_, by rw [startLog, hf, readWal_records ht]; rfl, rfl, rfl, ?_⟩
    simp only [Wal.openLog]
    rw [hseq]
    exact hmax _
  · exact ⟨_, rfl, rfl, rfl, rfl⟩

theorem run_intact {path : String} (cfg : WalConfig) {d : Disk} {tail : List UInt8}
    (h : Intact d tail) {c : Cycle} (hc : StartsClean path d c) :
    ∃ tail', Intact (c.run path cfg d) tail' := by
  obtain ⟨w, hs, hopen, hfile, hseq⟩ := startLog_intact path cfg c.startNs h
  obtain ⟨a1, a2⟩ := appendAll_spec c.appended hopen
  have hrun : c.run path cfg d =
      ⟨.ok (records 0 d.acked ++ tail ++ records w.seq (c.appended.map Prod.fst) ++
      (record ((appendAll w c.appended).2.seq + 1) c.last).take c.cut),
        d.acked ++ c.appended.map Prod.fst⟩ := by
    simp only [Cycle.run, hs, a1, a2, hfile]
  obtain hz | ⟨hnone, hcut⟩ := hc
  · have hnil : tail = [] := by
      rw [(readWal_intact path h).2] at hz
      exact List.eq_nil_of_length_eq_zero hz
    have hall : records 0 d.acked ++ records w.seq (c.appended.map Prod.fst) =
        records 0 (d.acked ++ c.appended.map Prod.fst) := by
      rw [records_append, hseq, UInt64.zero_add]
    have hcut : c.cut < 47 := by simpa using c.strict 0
    refine ⟨_, torn_take ((appendAll w c.appended).2.seq + 1) c.last hcut, Or.inl ?_⟩
    rw [hrun, hnil, List.append_nil, hall]
  · refine ⟨tail, h.1, Or.inl ?_⟩
    rw [hrun, hnone, hcut]
    simp [records]

/-- No cycle writing behind a torn tail, the log keeps every acknowledged
command through any number of crashes. -/
theorem durable_of_cleanRun (path : String) (cfg : WalConfig) (cs : List Cycle)
    (h : CleanRun path cfg .initial cs) : Durable path (runCycles path cfg .initial cs) := by
  have hall : ∀ (d : Disk) (tail : List UInt8), Intact d tail → CleanRun path cfg d cs →
      Durable path (runCycles path cfg d cs) := by
    clear h
    induction cs with
    | nil => exact fun d tail hd _ => (readWal_intact path hd).1
    | cons c cs ih =>
      intro d tail hd hc
      obtain ⟨tail', hd'⟩ := run_intact cfg hd hc.1
      exact ih _ tail' hd' hc.2
  exact hall _ [] intact_initial h

def twoSells : List Cycle :=
  [⟨0, [(.newOrder 1 1 100 5 .ask .limit, 1)], .cancel 1 1, 0, by simp⟩,
    ⟨2, [(.newOrder 1 2 101 5 .ask .limit, 3)], .cancel 1 1, 12, by simp⟩]

theorem durable_twoSells : CleanRun "wal" .default .initial twoSells ∧
    Durable "wal" (runCycles "wal" .default .initial twoSells) := by
  have h : CleanRun "wal" .default .initial twoSells :=
    ⟨Or.inl rfl, Or.inl (by decide +kernel), trivial⟩
  exact ⟨h, durable_of_cleanRun "wal" .default twoSells h⟩

/-- One byte of a record survives the first crash. The next life appends behind
it, and its acknowledged order is never read again. -/
def tornThenSell : List Cycle :=
  [⟨0, [], .cancel 1 1, 1, by simp⟩,
    ⟨1, [(.newOrder 1 1 100 5 .ask .limit, 2)], .cancel 1 1, 0, by simp⟩]

theorem tornThenSell_lost : ¬∀ (path : String) (cfg : WalConfig) (cs : List Cycle),
    Durable path (runCycles path cfg .initial cs) := by
  intro h
  have hread := (h "wal" .default tornThenSell).1
  revert hread
  decide +kernel

/-- The file that a list of appends makes of a new log, numbered from
`startSeq + 1`. -/
def written (path : String) (nowNs startSeq : UInt64) (cfg : WalConfig)
    (cs : List (OrderCommand × UInt64)) :
    List UInt8 :=
  (appendAll (Wal.initial.openLog path (.error "No such file or directory") nowNs startSeq cfg
    none).2 cs).2.file

theorem written_eq (path : String) (nowNs startSeq : UInt64) (cfg : WalConfig)
    (cs : List (OrderCommand × UInt64)) :
    written path nowNs startSeq cfg cs = records startSeq (cs.map Prod.fst) := by
  have h :=
    (appendAll_spec cs
      (w := (Wal.initial.openLog path (.error "No such file or directory") nowNs startSeq cfg
        none).2) rfl).2
  rw [written, h]
  exact List.nil_append _

/-- A cut leaves whole records and the beginning of one more. -/
theorem take_records (startSeq : UInt64) (cs : List OrderCommand) (cut : Nat) :
    ∃ tail, Torn tail ∧
      (records startSeq cs).take cut = records startSeq (cs.take (cut / 47)) ++ tail ∧
      tail.length = ((records startSeq cs).take cut).length % 47 := by
  induction cs generalizing startSeq cut with
  | nil => exact ⟨[], torn_nil, by simp [records], by simp [records]⟩
  | cons c cs ih =>
    by_cases hcut : cut < 47
    · refine ⟨(record (startSeq + 1) c).take cut, torn_take _ c hcut, ?_, ?_⟩
      · rw [Nat.div_eq_of_lt hcut, records,
          List.take_append_of_le_length (by rw [length_record]; omega)]
        rfl
      · rw [records, List.take_append_of_le_length (by rw [length_record]; omega), List.length_take,
          length_record]
        omega
    · obtain ⟨tail, ht, htake, hlen⟩ := ih (startSeq + 1) (cut - 47)
      have hsplit : (records startSeq (c :: cs)).take cut =
          record (startSeq + 1) c ++ (records (startSeq + 1) cs).take (cut - 47) := by
        rw [records, List.take_append, length_record,
          List.take_of_length_le (by rw [length_record]; omega)]
      have hdiv : cut / 47 = (cut - 47) / 47 + 1 := by omega
      refine ⟨tail, ht, ?_, ?_⟩
      · rw [hsplit, htake, hdiv, List.take_succ_cons, records, List.append_assoc]
      · rw [hsplit, List.length_append, length_record, hlen]
        omega

/-- What was written reads back, cut anywhere: the commands whose records are
complete, then the bytes of the one that is not. -/
theorem readWal_written (path : String) (nowNs startSeq : UInt64) (cfg : WalConfig)
    (cs : List (OrderCommand × UInt64)) :
    readWal path (.ok (written path nowNs startSeq cfg cs)) =
        ⟨(cs.map Prod.fst).map detached, if cs = [] then 0 else startSeq + 1,
          if cs = [] then 0 else startSeq + UInt64.ofNat cs.length, 0, false, 0, ""⟩ ∧
      ∀ cut, let r := readWal path (.ok ((written path nowNs startSeq cfg cs).take cut))
        r.commands = ((cs.map Prod.fst).take (cut / 47)).map detached ∧
          r.truncatedBytes = ((written path nowNs startSeq cfg cs).take cut).length % 47 ∧
          r.sequenceGap = false := by
  rw [written_eq]
  constructor
  · have hread := readWal_records torn_nil path startSeq (cs.map Prod.fst)
    rw [List.append_nil] at hread
    simpa using hread
  · intro cut
    obtain ⟨tail, ht, htake, hlen⟩ := take_records startSeq (cs.map Prod.fst) cut
    simp only
    rw [← hlen, htake, readWal_records ht]
    exact ⟨rfl, rfl, rfl⟩

/-- An empty log has no first number. -/
theorem readWal_written_nil : ¬∀ (path : String) (nowNs startSeq : UInt64) (cfg : WalConfig)
    (cs : List (OrderCommand × UInt64)),
    (readWal path (.ok (written path nowNs startSeq cfg cs))).firstSeq = startSeq + 1 := by
  intro h
  exact absurd (h "wal" 0 0 .default []) (by decide)

end OrderMatching.Durability
