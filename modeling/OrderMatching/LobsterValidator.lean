import OrderMatching.BookRecords
import OrderMatching.Exchange
import OrderMatching.Lists
import OrderMatching.LobsterParser

namespace OrderMatching.LobsterValidator

open OrderMatching.Orders OrderMatching.Book OrderMatching.BookInvariant OrderMatching.BookUpdates
open OrderMatching.BookEdits OrderMatching.Engine OrderMatching.Exchange OrderMatching.Delimited
open OrderMatching.Numerals OrderMatching.Lobster OrderMatching.LobsterParser
open OrderMatching.BookRecords OrderMatching.Lists

structure SnapshotLevel where
  priceTicks : Int
  size : Nat
  deriving DecidableEq

def SnapshotLevel.zero : SnapshotLevel := ⟨0, 0⟩

structure Snapshot where
  side : Side → List SnapshotLevel
  ten : ∀ s, (side s).length = 10

def parseSnapshotLine (line : List Char) : Option SnapshotLevel :=
  let s := trimInPlace (line.takeWhile (· ≠ '#'))
  if ',' ∉ s then none
  else do
    let priceTicks ← stoll (s.takeWhile (· ≠ ','))
    let size ← stoull ((s.dropWhile (· ≠ ',')).drop 1)
    some ⟨priceTicks, size⟩

structure Loading where
  rows : List SnapshotLevel
  log : String

def Loading.line (l : Loading) (line : List Char) : Loading :=
  if 20 ≤ l.rows.length then l
  else if line = [] ∨ line.head? = some '#' then l
  else
    match parseSnapshotLine line with
    | none => { l with log := l.log ++ "snapshot: skipped malformed line\n" }
    | some lvl => { l with rows := l.rows ++ [lvl] }

def Loading.finish (l : Loading) : Loading :=
  if l.rows.length < 20 then
    ⟨l.rows ++ List.replicate (20 - l.rows.length) .zero,
      l.log ++ "snapshot: fewer than 20 data rows; padded remaining with zeros\n"⟩
  else l

theorem length_line {l : Loading} (h : l.rows.length ≤ 20) (line : List Char) :
    (l.line line).rows.length ≤ 20 := by
  unfold Loading.line
  split
  · exact h
  · rename_i hroom
    split
    · exact h
    · split
      · exact h
      · simp only [List.length_append, List.length_singleton]
        omega

theorem length_lines {l : Loading} (h : l.rows.length ≤ 20) (lines : List (List Char)) :
    (lines.foldl Loading.line l).rows.length ≤ 20 := by
  induction lines generalizing l with
  | nil => exact h
  | cons line lines ih => exact ih (length_line h line)

theorem length_finish {l : Loading} (h : l.rows.length ≤ 20) : l.finish.rows.length = 20 := by
  unfold Loading.finish
  split
  · simp only [List.length_append, List.length_replicate]
    omega
  · omega

def readSlots (input : List Char) : Loading :=
  ((pieces '\n' input).foldl Loading.line ⟨[], ""⟩).finish

theorem length_readSlots (input : List Char) : (readSlots input).rows.length = 20 :=
  length_finish (length_lines (Nat.zero_le _) _)

def loadSnapshot (input : List Char) : Snapshot × String :=
  let l := readSlots input
  (⟨fun | .bid => l.rows.take 10 | .ask => l.rows.drop 10, fun s => by
    have hlen := length_readSlots input
    cases s <;> simp [l, hlen]⟩, l.log)

def sideName : Side → String
  | .bid => "bid"
  | .ask => "ask"

def levelEqual (s : Side) (rank : Nat) (exp : SnapshotLevel) (ours : List (Int × Nat)) :
    Option String :=
  let head := sideName s ++ " rank " ++ toString rank ++ ": "
  if exp.size = 0 then
    match ours[rank]? with
    | none => none
    | some our =>
      some (head ++ "expected empty level, got tick " ++ toString our.1 ++ " size " ++
        toString our.2 ++ "\n")
  else
    match ours[rank]? with
    | none =>
      some (head ++ "missing level, expected tick " ++ toString exp.priceTicks ++ " size " ++
        toString exp.size ++ "\n")
    | some our =>
      if our.1 ≠ exp.priceTicks ∨ our.2 ≠ exp.size then
        some (head ++ "expected tick " ++ toString exp.priceTicks ++ " size " ++
          toString exp.size ++ " got tick " ++
          toString our.1 ++ " size " ++ toString our.2 ++ "\n")
      else none

structure Seeding where
  engine : MatchingEngine
  synth : Nat

def Seeding.initial : Seeding := ⟨MatchingEngine.empty, 2 ^ 64 - 1⟩

def Seeding.add (st : Seeding) (s : Side) (lvl : SnapshotLevel) : Seeding :=
  ⟨{ st.engine with
    book := st.engine.book.addOrder ⟨st.synth, lvl.priceTicks, lvl.size, s, .limit, 0⟩ },
    st.synth - 1⟩

def seedSide (s : Side) : Nat → List SnapshotLevel → Seeding → Except String Seeding
  | _, [], st => .ok st
  | i, lvl :: lvls, st =>
    if lvl.size = 0 ∨ lvl.priceTicks ≤ 0 then seedSide s (i + 1) lvls st
    else if lvl.size > 2 ^ 32 - 1 then
      .error ("seed: " ++ sideName s ++ " level " ++ toString i ++ " size overflow\n")
    else seedSide s (i + 1) lvls (st.add s lvl)

/-- `seed_book_from_snapshot` behind `load_snapshot`. -/
def seedBook (snap : Snapshot) : Except String MatchingEngine := do
  let st ← seedSide .bid 0 (snap.side .bid) .initial
  let st ← seedSide .ask 0 (snap.side .ask) st
  return st.engine

structure Result where
  totalEvents : Nat
  accuracyPercent : Nat
  firstMismatchLevelIndex : Option Nat
  mismatchLog : String

def Result.summary (r : Result) : String :=
  "total_events=" ++ toString r.totalEvents ++ " accuracy_percent=" ++ toString r.accuracyPercent ++
    match r.firstMismatchLevelIndex with
    | some i => " first_mismatch_level_index=" ++ toString i
    | none => " first_mismatch_level_index=none"

/-- The record that the replay writes behind message `i`. -/
def recordAfter (e : MatchingEngine) (i : Nat) (m : LobsterMessage) : Record :=
  ⟨m.timestampUs * 1000 % 2 ^ 64, i, levelsTicks e.book .bid 10, levelsTicks e.book .ask 10⟩

def replayFrom (e : MatchingEngine) (i : Nat) : List LobsterMessage → MatchingEngine × List Record
  | [] => (e, [])
  | m :: ms =>
    let e' := applyMessage e m
    let r := replayFrom e' (i + 1) ms
    (r.1, recordAfter e' i m :: r.2)

def compareSide (b : OrderBook) (s : Side) (slots : List SnapshotLevel) : List (Option String) :=
  slots.zipIdx.map fun slot => levelEqual s slot.2 slot.1 (levelsTicks b s 10)

def compare (b : OrderBook) (snap : Snapshot) : List (Option String) :=
  compareSide b .bid (snap.side .bid) ++ compareSide b .ask (snap.side .ask)

def divergence (i useN : Nat) : String :=
  "first mismatch at combined level index " ++ toString i ++
    " (0-9 bids best-first, 10-19 asks best-first); divergence observed after replaying " ++
      toString useN ++
    " events\n" ++
    "note: locating the exact culprit event needs per-event golden snapshots or a diff trace;\n" ++
    "this tool compares end state after n events to the provided snapshot only.\n"

/-- The end of `validate`, on the book that the replay has left. -/
def judge (b : OrderBook) (snap : Snapshot) (useN : Nat) (log : String) : Result :=
  let found := compare b snap
  let firstBad := found.findIdx? Option.isSome
  let note := firstBad.elim "" fun i => divergence i useN
  ⟨useN, found.countP Option.isNone * 100 / 20, firstBad,
    log ++ note ++ String.join (found.filterMap id)⟩

def validate (stamp : List Char → Option Nat) (messages snapshot : List Char) (nEvents : Nat)
    (snapshotInitial : Option (List Char)) : Result × List Record :=
  let all := parseMessages stamp messages
  let useN := min nEvents all.length
  let short := if useN < nEvents then
      "messages: requested " ++ toString nEvents ++ " events but only " ++ toString all.length ++
        " valid rows\n"
    else ""
  let (snap, log) := loadSnapshot snapshot
  let log := short ++ log
  match snapshotInitial with
  | none =>
    let (e, records) := replayFrom .empty 0 (all.take useN)
    (judge e.book snap useN log, records)
  | some initial =>
    let (snap0, log0) := loadSnapshot initial
    let log := log ++ log0
    match seedBook snap0 with
    | .error failure => (⟨useN, 0, none, log ++ failure⟩, [])
    | .ok e =>
      -- the first message is part of the seed
      let (e, records) := replayFrom e 1 ((all.take useN).drop 1)
      (judge e.book snap useN log, records)

theorem replayFrom_fst (e : MatchingEngine) (i : Nat) (ms : List LobsterMessage) :
    (replayFrom e i ms).1 = replay e ms := by
  induction ms generalizing e i with
  | nil => rfl
  | cons m ms ih => exact ih (applyMessage e m) (i + 1)

def slotText (lvl : SnapshotLevel) : List Char :=
  decimal lvl.priceTicks ++ ',' :: (digits lvl.size ++ ['\n'])

example : slotText .zero = ['0', ',', '0', '\n'] := by decide

/-- The two columns of a level in an orderbook row, with the empty slot for a
level that is not there. -/
def rowLevel (f : List (List Char)) (levels column i : Nat) : Option SnapshotLevel :=
  if min levels (f.length / 4) ≤ i then some .zero
  else do
    let px ← stoll (f.getD (4 * i + column) [])
    let sz ← stoull (f.getD (4 * i + column + 1) [])
    some (if px ≤ 0 ∨ sz = 0 then .zero else ⟨px, sz⟩)

def rowSide (f : List (List Char)) (levels : Nat) : Side → Option (List SnapshotLevel)
  | .bid => (List.range levels).mapM (rowLevel f levels 2)
  | .ask => (List.range levels).mapM (rowLevel f levels 0)

/-- `write_validator_snapshot_from_lobster_orderbook_row`. -/
def convertRow (csvLine : List Char) (levels : Nat) : Option (List Char) :=
  let f := splitCsvLine csvLine
  if f.length < 4 ∨ f.length % 4 ≠ 0 then none
  else do
    let bids ← rowSide f levels .bid
    let asks ← rowSide f levels .ask
    some ((bids ++ asks).flatMap slotText)

def Fits (lvl : SnapshotLevel) : Prop :=
  (-2 ^ 63 ≤ lvl.priceTicks ∧ lvl.priceTicks < 2 ^ 63) ∧ lvl.size < 2 ^ 64

theorem fits_rowLevel {f : List (List Char)} {levels column i : Nat} {lvl : SnapshotLevel}
    (h : rowLevel f levels column i = some lvl) : Fits lvl := by
  have hzero : Fits .zero := ⟨by decide, by decide⟩
  unfold rowLevel at h
  split at h
  · obtain rfl := Option.some.inj h
    exact hzero
  · obtain ⟨px, hpx, h⟩ := Option.bind_eq_some_iff.mp h
    obtain ⟨sz, hsz, h⟩ := Option.bind_eq_some_iff.mp h
    obtain rfl := Option.some.inj h
    split
    · exact hzero
    · exact ⟨stoSigned_bounds hpx, stoull_lt hsz⟩

theorem rowSide_spec {f : List (List Char)} {levels : Nat} {s : Side} {slots : List SnapshotLevel}
    (h : rowSide f levels s = some slots) : slots.length = levels ∧ ∀ lvl ∈ slots, Fits lvl := by
  cases s <;>
  · obtain ⟨hlen, hmem⟩ := mapM_length h
    refine ⟨hlen.trans List.length_range, fun lvl hlvl => ?_⟩
    obtain ⟨i, -, hi⟩ := hmem lvl hlvl
    exact fits_rowLevel hi

def slotLine (lvl : SnapshotLevel) : List Char := decimal lvl.priceTicks ++ ',' :: digits lvl.size

theorem slotText_eq (lvl : SnapshotLevel) : slotText lvl = slotLine lvl ++ ['\n'] := by
  simp [slotText, slotLine]

theorem mem_slotLine {lvl : SnapshotLevel} {c : Char} (hc : c ∈ slotLine lvl) :
    isNumeric c = true ∨ c = ',' := by
  simp only [slotLine, List.mem_append, List.mem_cons] at hc
  obtain hc | rfl | hc := hc
  · exact Or.inl (numeric_decimal hc)
  · exact Or.inr rfl
  · exact Or.inl (by simp [isNumeric, isDigit_digits hc])

theorem slotLine_avoids {lvl : SnapshotLevel} {d : Char} (hd : isNumeric d = false)
    (hcomma : d ≠ ',') :
    d ∉ slotLine lvl := by
  intro hmem
  obtain h | h := mem_slotLine hmem
  · exact Bool.false_ne_true (hd.symm.trans h)
  · exact hcomma h

theorem comma_not_mem_decimal (z : Int) : ',' ∉ decimal z := by
  intro h
  cases numeric_decimal h

theorem parseSnapshotLine_slotLine {lvl : SnapshotLevel} (h : Fits lvl) :
    parseSnapshotLine (slotLine lvl) = some lvl := by
  have hplain : ∀ c ∈ slotLine lvl, isSpace c = false := by
    intro c hc
    obtain h | rfl := mem_slotLine hc
    · exact not_isSpace_of_isNumeric h
    · rfl
  have hhash : '#' ∉ slotLine lvl := slotLine_avoids rfl (by decide)
  obtain ⟨htake, hdrop⟩ :=
    takeWhile_ne_append (comma_not_mem_decimal lvl.priceTicks) (digits lvl.size)
  have hcomma : ¬(',' ∉ slotLine lvl) := by simp [slotLine]
  rw [parseSnapshotLine, takeWhile_ne_self hhash, trimInPlace_of_plain hplain]
  simp only [hcomma, if_false]
  rw [slotLine, htake, hdrop, stoll_printed h.1]
  simp only [List.drop_succ_cons, List.drop_zero, stoull_printed h.2, Option.bind_eq_bind,
    Option.bind_some]

theorem line_slotLine {l : Loading} (hroom : l.rows.length < 20) {lvl : SnapshotLevel}
    (h : Fits lvl) :
    l.line (slotLine lvl) = { l with rows := l.rows ++ [lvl] } := by
  have hhash : '#' ∉ slotLine lvl := slotLine_avoids rfl (by decide)
  have hskip : ¬(slotLine lvl = [] ∨ (slotLine lvl).head? = some '#') := by
    rintro (hnil | hhead)
    · simp [slotLine] at hnil
    · exact hhash (List.mem_of_head? hhead)
  rw [Loading.line, if_neg (by omega), if_neg hskip, parseSnapshotLine_slotLine h]

theorem lines_slotLine {l : Loading} {slots : List SnapshotLevel}
    (hroom : l.rows.length + slots.length ≤ 20) (h : ∀ lvl ∈ slots, Fits lvl) :
    (slots.map slotLine).foldl Loading.line l = { l with rows := l.rows ++ slots } := by
  induction slots generalizing l with
  | nil => simp
  | cons lvl slots ih =>
    rw [List.length_cons] at hroom
    rw [List.map_cons, List.foldl_cons, line_slotLine (by omega) (h lvl (by simp)), ih]
    · simp
    · simp only [List.length_append, List.length_singleton]
      omega
    · exact fun m hm => h m (List.mem_cons_of_mem lvl hm)

theorem readSlots_written {slots : List SnapshotLevel} (hlen : slots.length = 20)
    (h : ∀ lvl ∈ slots, Fits lvl) :
    readSlots (slots.flatMap slotText) = ⟨slots, ""⟩ := by
  have hpieces : pieces '\n' (slots.flatMap slotText) = slots.map slotLine := by
    have hone : ∀ p ∈ slots.map slotLine, '\n' ∉ p := by
      intro p hp
      obtain ⟨lvl, -, rfl⟩ := List.mem_map.mp hp
      exact slotLine_avoids rfl (by decide)
    rw [← pieces_terminated hone, List.flatMap_map]
    exact congrArg (pieces '\n') (List.flatMap_congr fun lvl _ => slotText_eq lvl)
  rw [readSlots, hpieces, lines_slotLine (by simp [hlen]) h, Loading.finish]
  simp [hlen]

/-- What the converter makes of an orderbook row is loaded as the levels that
stand in the row, with nothing skipped and nothing padded. -/
theorem loadSnapshot_convertRow {csvLine text : List Char} (h : convertRow csvLine 10 = some text) :
    (∀ s, rowSide (splitCsvLine csvLine) 10 s = some ((loadSnapshot text).1.side s)) ∧
      (loadSnapshot text).2 = "" := by
  unfold convertRow at h
  dsimp only at h
  split at h
  · cases h
  · obtain ⟨bids, hbids, h⟩ := Option.bind_eq_some_iff.mp h
    obtain ⟨asks, hasks, h⟩ := Option.bind_eq_some_iff.mp h
    obtain rfl := Option.some.inj h
    obtain ⟨hb, hbf⟩ := rowSide_spec hbids
    obtain ⟨ha, haf⟩ := rowSide_spec hasks
    have hfits : ∀ lvl ∈ bids ++ asks, Fits lvl := fun lvl hlvl =>
      (List.mem_append.mp hlvl).elim (hbf lvl) (haf lvl)
    have hread := readSlots_written (by simp [hb, ha]) hfits
    refine ⟨fun s => ?_, congrArg Loading.log hread⟩
    cases s with
    | bid =>
      rw [hbids, loadSnapshot]
      simp only [hread, ← hb, List.take_left']
    | ask =>
      rw [hasks, loadSnapshot]
      simp only [hread, ← hb, List.drop_left']

def shown (slots : List SnapshotLevel) : List SnapshotLevel :=
  slots.takeWhile fun lvl => lvl.size ≠ 0

def Closed (slots : List SnapshotLevel) : Prop :=
  ∀ lvl ∈ slots.dropWhile (fun lvl => lvl.size ≠ 0), lvl.size = 0

def SnapshotLevel.pair (lvl : SnapshotLevel) : Int × Nat := (lvl.priceTicks, lvl.size)

theorem levelEqual_none_iff (s : Side) (rank : Nat) (exp : SnapshotLevel)
    (ours : List (Int × Nat)) :
    levelEqual s rank exp ours = none ↔
      ours[rank]? = if exp.size = 0 then none else some exp.pair := by
  unfold levelEqual
  by_cases hsize : exp.size = 0
  · rw [if_pos hsize, if_pos hsize]
    cases ours[rank]? with
    | none => simp
    | some our => simp
  · rw [if_neg hsize, if_neg hsize]
    cases ours[rank]? with
    | none => simp
    | some our =>
      obtain ⟨price, size⟩ := our
      by_cases hboth : price = exp.priceTicks ∧ size = exp.size
      · simp [hboth, SnapshotLevel.pair]
      · simp only [SnapshotLevel.pair, Option.some.injEq, Prod.mk.injEq, hboth, iff_false]
        rw [if_pos (by omega)]
        exact Option.some_ne_none _

/-- Slot by slot, the levels stand in the slots, and those left over are empty. -/
def Agrees : List SnapshotLevel → List (Int × Nat) → Prop
  | slots, [] => ∀ lvl ∈ slots, lvl.size = 0
  | [], _ :: _ => True
  | lvl :: slots, our :: ours => lvl.size ≠ 0 ∧ our = lvl.pair ∧ Agrees slots ours

theorem agrees_of_slots (slots : List SnapshotLevel) (ours : List (Int × Nat)) (k : Nat) :
    (∀ slot ∈ slots.zipIdx k, ours[slot.2]? = if slot.1.size = 0 then none else some slot.1.pair) ↔
      Agrees slots (ours.drop k) := by
  induction slots generalizing k with
  | nil => cases ours.drop k <;> simp [Agrees]
  | cons lvl slots ih =>
    have hfirst : ours[k]? = (ours.drop k).head? := List.head?_drop.symm
    have htail : ours.drop (k + 1) = (ours.drop k).tail := List.tail_drop.symm
    rw [List.zipIdx_cons, List.forall_mem_cons, ih, hfirst, htail]
    cases ours.drop k with
    | nil =>
      by_cases hsize : lvl.size = 0
      · simp [Agrees, hsize]
      · simp [Agrees, hsize]
    | cons our rest =>
      by_cases hsize : lvl.size = 0
      · simp [Agrees, hsize]
      · simp [Agrees, hsize]

theorem agrees_iff {slots : List SnapshotLevel} {ours : List (Int × Nat)}
    (hlen : ours.length ≤ slots.length) :
    Agrees slots ours ↔ ours = (shown slots).map SnapshotLevel.pair ∧ Closed slots := by
  induction ours generalizing slots with
  | nil =>
    cases slots with
    | nil => simp [Agrees, shown, Closed]
    | cons lvl slots =>
      by_cases hsize : lvl.size = 0
      · simp [Agrees, shown, Closed, hsize]
      · simp [Agrees, shown, hsize]
  | cons our ours ih =>
    cases slots with
    | nil => simp at hlen
    | cons lvl slots =>
      have hrest := ih (Nat.le_of_succ_le_succ hlen)
      by_cases hsize : lvl.size = 0
      · simp [Agrees, shown, hsize]
      · simp [Agrees, hrest, shown, Closed, hsize, and_assoc]

/-- The slots of a side list the best levels of a depth: as many as there are
slots, or all of them with empty slots behind. -/
structure Lists (s : Side) (d : Int → Int) (slots : List SnapshotLevel) : Prop where
  closed : Closed slots
  size : ∀ lvl ∈ shown slots, d lvl.priceTicks = lvl.size
  top : IsTop slots.length (fun k => 0 < d (rank s k))
    ((shown slots).map fun lvl => rank s lvl.priceTicks)

structure Standing (b : OrderBook) : Prop where
  valid : Valid b
  positive : ∀ o ∈ b.allOrders, 0 < o.quantity

theorem rank_rank (s : Side) (p : Int) : rank s (rank s p) = p := by cases s <;> simp [rank]

theorem depth_level {b : OrderBook} (h : Valid b) {s : Side} {lvl : PriceLevel}
    (hlvl : lvl ∈ b.levels s) :
    depth b s lvl.priceTicks = lvl.totalQty := by
  have hfind : b.levelAt s lvl.priceTicks = some lvl := KeyedList.find_of_mem (h.side s).sorted hlvl
  rw [depth, hfind]
  rfl

theorem mem_ranks {b : OrderBook} (h : Standing b) (s : Side) (k : Int) :
    k ∈ (b.levels s).map (levelKey s) ↔ 0 < (depth b s (rank s k) : Int) := by
  rw [List.mem_map]
  constructor
  · rintro ⟨lvl, hlvl, rfl⟩
    have hlevel := (h.valid.side s).level lvl hlvl
    obtain ⟨o, os, hos⟩ := List.exists_cons_of_ne_nil hlevel.nonempty
    have ho : o ∈ b.allOrders :=
      mem_allOrders.mpr ⟨s, List.mem_flatMap.mpr ⟨lvl, hlvl, by simp [hos]⟩⟩
    have hpos := h.positive o ho
    rw [levelKey, rank_rank, depth_level h.valid hlvl, hlevel.total, hos, quantities_cons]
    omega
  · intro hpos
    cases hfind : b.levelAt s (rank s k) with
    | none => simp [depth, hfind] at hpos
    | some lvl => exact ⟨lvl, KeyedList.mem_find hfind,
        (KeyedList.key_find hfind).trans (rank_rank s k)⟩

theorem isTop_levelsTicks {b : OrderBook} (h : Standing b) (s : Side) :
    IsTop 10 (fun k => 0 < (depth b s (rank s k) : Int))
      ((levelsTicks b s 10).map fun our => rank s our.1) := by
  have hkeys : (levelsTicks b s 10).map (fun our => rank s our.1) =
      ((b.levels s).map (levelKey s)).take 10 := by
    rw [levelsTicks, List.map_map, ← List.map_take]
    rfl
  rw [hkeys]
  exact isTop_take (List.pairwise_map.mpr (h.valid.side s).sorted) (mem_ranks h s) 10

theorem depth_levelsTicks {b : OrderBook} (h : Valid b) {s : Side} {n : Nat} {our : Int × Nat}
    (hour : our ∈ levelsTicks b s n) : depth b s our.1 = our.2 := by
  obtain ⟨lvl, hlvl, rfl⟩ := List.mem_map.mp hour
  exact depth_level h (List.mem_of_mem_take hlvl)

theorem levels_ext {s : Side} {d : Int → Nat} {xs ys : List (Int × Nat)}
    (hx : ∀ x ∈ xs, d x.1 = x.2) (hy : ∀ y ∈ ys, d y.1 = y.2)
    (h : xs.map (fun x => rank s x.1) = ys.map fun y => rank s y.1) : xs = ys := by
  have hback : ∀ zs : List (Int × Nat), (∀ z ∈ zs, d z.1 = z.2) →
      (zs.map fun z => rank s z.1).map (fun k => (rank s k, d (rank s k))) = zs := by
    intro zs hz
    rw [List.map_map]
    refine (List.map_congr_left fun z hmem => ?_).trans (List.map_id zs)
    show (rank s (rank s z.1), d (rank s (rank s z.1))) = z
    rw [rank_rank, hz z hmem]
  rw [← hback xs hx, h, hback ys hy]

theorem compareSide_none_iff {b : OrderBook} (h : Standing b) {s : Side}
    {slots : List SnapshotLevel} (hten : slots.length = 10) :
    (∀ found ∈ compareSide b s slots, found = none) ↔ Lists s (fun p => depth b s p) slots := by
  have hlen : (levelsTicks b s 10).length ≤ slots.length := by
    rw [levelsTicks, List.length_map, hten]
    exact List.length_take_le 10 _
  have hagrees : (∀ found ∈ compareSide b s slots, found = none) ↔
      levelsTicks b s 10 = (shown slots).map SnapshotLevel.pair ∧ Closed slots := by
    rw [compareSide, List.forall_mem_map, ← agrees_iff hlen,
      ← List.drop_zero (l := levelsTicks b s 10), ← agrees_of_slots, List.drop_zero]
    simp only [levelEqual_none_iff]
  have hranks : ((shown slots).map SnapshotLevel.pair).map (fun our => rank s our.1) =
      (shown slots).map fun lvl => rank s lvl.priceTicks := List.map_map
  rw [hagrees]
  constructor
  · rintro ⟨hshown, hclosed⟩
    refine ⟨hclosed, fun lvl hlvl => ?_, ?_⟩
    · have hmem : lvl.pair ∈ levelsTicks b s 10 := hshown ▸ List.mem_map_of_mem hlvl
      exact congrArg Nat.cast (depth_levelsTicks h.valid hmem)
    · rw [hten, ← hranks, ← hshown]
      exact isTop_levelsTicks h s
  · intro hlists
    refine ⟨?_, hlists.closed⟩
    have htop := hlists.top
    rw [hten] at htop
    refine levels_ext (fun our hour => depth_levelsTicks h.valid hour) (fun y hy => ?_)
      (((isTop_levelsTicks h s).unique htop).trans hranks.symm)
    obtain ⟨lvl, hlvl, rfl⟩ := List.mem_map.mp hy
    exact Int.ofNat_inj.mp (hlists.size lvl hlvl)

theorem compare_none_iff {b : OrderBook} (h : Standing b) (snap : Snapshot) :
    (compare b snap).findIdx? Option.isSome = none ↔
      ∀ s, Lists s (fun p => depth b s p) (snap.side s) := by
  have hall : (compare b snap).findIdx? Option.isSome = none ↔
      ∀ found ∈ compare b snap, found = none := by
    rw [List.findIdx?_eq_none_iff]
    simp
  rw [hall, compare, List.forall_mem_append, compareSide_none_iff h (snap.ten .bid),
    compareSide_none_iff h (snap.ten .ask)]
  constructor
  · rintro ⟨hbid, hask⟩ s
    cases s with
    | bid => exact hbid
    | ask => exact hask
  · exact fun hboth => ⟨hboth .bid, hboth .ask⟩

def Oversized (lvl : SnapshotLevel) : Prop := 0 < lvl.priceTicks ∧ 2 ^ 32 ≤ lvl.size

def offered (slots : List SnapshotLevel) (p : Int) : Nat :=
  ((slots.filter fun lvl => lvl.priceTicks = p ∧ 0 < p).map SnapshotLevel.size).sum

theorem offered_cons (lvl : SnapshotLevel) (slots : List SnapshotLevel) (p : Int) :
    offered (lvl :: slots) p = (if lvl.priceTicks = p ∧ 0 < p then lvl.size else 0) +
      offered slots p := by
  by_cases hat : lvl.priceTicks = p ∧ 0 < p
  · simp [offered, hat]
  · simp [offered, hat]

structure Seeded (st : Seeding) : Prop where
  standing : Standing st.engine.book
  above : ∀ o ∈ st.engine.book.allOrders, st.synth < o.id

theorem seeded_initial : Seeded .initial where
  standing :=
    ⟨valid_empty,
      by simp [Seeding.initial, MatchingEngine.empty, OrderBook.allOrders, OrderBook.empty,
      sideOrders]⟩
  above := by
    simp [Seeding.initial, MatchingEngine.empty, OrderBook.allOrders, OrderBook.empty, sideOrders]

section

variable {st st' : Seeding} {s : Side}

theorem Seeded.add (h : Seeded st) (s : Side) {lvl : SnapshotLevel} (hsize : lvl.size ≠ 0)
    (hroom : 0 < st.synth) :
    Seeded (st.add s lvl) ∧ ∀ t p, depth (st.add s lvl).engine.book t p =
      depth st.engine.book t p + if t = s ∧ p = lvl.priceTicks then lvl.size else 0 := by
  let o : Order := ⟨st.synth, lvl.priceTicks, lvl.size, s, .limit, 0⟩
  have hfresh : ¬Rests st.engine.book.allOrders o.id := by
    rintro ⟨r, hr, hid⟩
    exact (h.above r hr).ne' hid
  have hpatches : Patches s lvl.priceTicks [] [o] st.engine.book (st.add s lvl).engine.book :=
    addOrder_patches (o := o) h.standing.valid rfl hfresh
  have hmem : ∀ r ∈ (st.add s lvl).engine.book.allOrders, r ∈ st.engine.book.allOrders ∨ r = o := by
    intro r hr
    obtain ⟨pre, post, hall, hall'⟩ := hpatches.split
    rw [hall'] at hr
    rw [hall]
    simp only [List.mem_append, List.mem_singleton, List.not_mem_nil, or_false] at hr ⊢
    tauto
  refine ⟨⟨⟨hpatches.valid, fun r hr => ?_⟩, fun r hr => ?_⟩, fun t p => ?_⟩
  · obtain hr | rfl := hmem r hr
    · exact h.standing.positive r hr
    · exact Nat.pos_of_ne_zero hsize
  · have hless : (st.add s lvl).synth < st.synth := Nat.sub_lt hroom Nat.one_pos
    obtain hr | rfl := hmem r hr
    · exact hless.trans (h.above r hr)
    · exact hless
  · by_cases hat : t = s ∧ p = lvl.priceTicks
    · obtain ⟨rfl, rfl⟩ := hat
      have hdepth := hpatches.depth h.standing.valid
      rw [if_pos ⟨rfl, rfl⟩]
      simpa [o] using hdepth
    · rw [if_neg hat, depth, depth, hpatches.levelAt h.standing.valid hat, Nat.add_zero]

theorem seedSide_spec {i : Nat} {slots : List SnapshotLevel} (h : Seeded st)
    (hroom : slots.length < st.synth) (hok : seedSide s i slots st = .ok st') :
    Seeded st' ∧ st.synth ≤ st'.synth + slots.length ∧ ∀ t p, depth st'.engine.book t p =
      depth st.engine.book t p + if t = s then offered slots p else 0 := by
  induction slots generalizing st i with
  | nil =>
    obtain rfl := Except.ok.inj hok
    exact ⟨h, Nat.le_refl _, by simp [offered]⟩
  | cons lvl slots ih =>
    rw [seedSide] at hok
    rw [List.length_cons] at hroom
    split at hok
    · rename_i hskip
      obtain ⟨hseeded, hsynth, hdepth⟩ := ih h (by omega) hok
      refine ⟨hseeded, by rw [List.length_cons]; omega, fun t p => ?_⟩
      have hnone : offered (lvl :: slots) p = offered slots p := by
        rw [offered_cons]
        split
        · omega
        · omega
      rw [hdepth, hnone]
    · rename_i hkeep
      split at hok
      · cases hok
      · have hsize : lvl.size ≠ 0 := by omega
        obtain ⟨hadd, hstep⟩ := h.add s hsize (by omega)
        have hsub : (st.add s lvl).synth = st.synth - 1 := rfl
        obtain ⟨hseeded, hsynth, hdepth⟩ := ih hadd (by omega) hok
        refine ⟨hseeded, by rw [List.length_cons]; omega, fun t p => ?_⟩
        rw [hdepth, hstep, offered_cons]
        by_cases ht : t = s
        · by_cases hp : p = lvl.priceTicks
          · have hpos : lvl.priceTicks = p ∧ 0 < p := ⟨hp.symm, by omega⟩
            rw [if_pos ⟨ht, hp⟩, if_pos ht, if_pos ht, if_pos hpos, Nat.add_assoc]
          · rw [if_neg (fun hand => hp hand.2), if_pos ht, if_pos ht,
              if_neg (fun hand => hp hand.1.symm)]
            omega
        · simp [ht]

theorem seedSide_fails_iff {i : Nat} {slots : List SnapshotLevel} :
    (∃ failure, seedSide s i slots st = .error failure) ↔ ∃ lvl ∈ slots, Oversized lvl := by
  induction slots generalizing st i with
  | nil => simp [seedSide]
  | cons lvl slots ih =>
    rw [seedSide, List.exists_mem_cons_iff]
    split
    · rename_i hskip
      rw [ih]
      have hnot : ¬Oversized lvl := by
        unfold Oversized
        omega
      simp [hnot]
    · rename_i hkeep
      split
      · rename_i hover
        have hlvl : Oversized lvl := by
          unfold Oversized
          omega
        simp [hlvl]
      · rename_i hfit
        rw [ih]
        have hnot : ¬Oversized lvl := by
          unfold Oversized
          omega
        simp [hnot]

end

theorem seedBook_spec {snap : Snapshot} {e : MatchingEngine} (hok : seedBook snap = .ok e) :
    Standing e.book ∧ ∀ s p, depth e.book s p = offered (snap.side s) p := by
  unfold seedBook at hok
  cases hbid : seedSide .bid 0 (snap.side .bid) .initial with
  | error failure =>
    rw [hbid] at hok
    cases hok
  | ok st =>
    rw [hbid] at hok
    cases hask : seedSide .ask 0 (snap.side .ask) st with
    | error failure =>
      simp only [bind, Except.bind, hask] at hok
      cases hok
    | ok st' =>
      simp only [bind, Except.bind, hask] at hok
      obtain rfl := Except.ok.inj hok
      have htop : Seeding.initial.synth = 2 ^ 64 - 1 := rfl
      have hten := snap.ten
      obtain ⟨hseeded, hsynth, hdepth⟩ :=
        seedSide_spec seeded_initial (by rw [hten, htop]; decide) hbid
      rw [hten, htop] at hsynth
      obtain ⟨hseeded', -, hdepth'⟩ := seedSide_spec hseeded (by rw [hten]; omega) hask
      refine ⟨hseeded'.standing, fun s p => ?_⟩
      have hempty : depth Seeding.initial.engine.book s p = 0 := by cases s <;> rfl
      rw [hdepth', hdepth, hempty]
      cases s <;> simp

theorem seedBook_fails_iff (snap : Snapshot) :
    (∃ failure, seedBook snap = .error failure) ↔ ∃ s, ∃ lvl ∈ snap.side s, Oversized lvl := by
  have hsides : (∃ s, ∃ lvl ∈ snap.side s, Oversized lvl) ↔
      (∃ lvl ∈ snap.side .bid, Oversized lvl) ∨
        ∃ lvl ∈ snap.side .ask, Oversized lvl := by
    constructor
    · rintro ⟨s, h⟩
      cases s with
      | bid => exact Or.inl h
      | ask => exact Or.inr h
    · rintro (h | h)
      · exact ⟨.bid, h⟩
      · exact ⟨.ask, h⟩
  rw [hsides, seedBook]
  cases hbid : seedSide .bid 0 (snap.side .bid) .initial with
  | error failure =>
    have hover := seedSide_fails_iff.mp ⟨failure, hbid⟩
    exact ⟨fun _ => Or.inl hover, fun _ => ⟨failure, rfl⟩⟩
  | ok st =>
    have hfine : ¬∃ lvl ∈ snap.side .bid, Oversized lvl := by
      intro hover
      obtain ⟨failure, hfail⟩ := seedSide_fails_iff (i := 0) (s := .bid) |>.mpr hover
      rw [hbid] at hfail
      cases hfail
    simp only [hfine, false_or]
    rw [← seedSide_fails_iff]
    cases hask : seedSide .ask 0 (snap.side .ask) st with
    | error failure => simp [bind, Except.bind, hask]
    | ok st' => simp [bind, Except.bind, hask, pure, Except.pure]

end OrderMatching.LobsterValidator
