import OrderMatching.LobsterValidator

namespace OrderMatching.LobsterReplay

open OrderMatching.Orders OrderMatching.Book OrderMatching.BookInvariant OrderMatching.BookUpdates
open OrderMatching.BookEdits OrderMatching.Walk OrderMatching.Engine OrderMatching.Delimited
open OrderMatching.Numerals OrderMatching.Lobster OrderMatching.LobsterParser
open OrderMatching.BookRecords OrderMatching.LobsterValidator

def logicalLine (line : List Char) : Option (List Char) :=
  if line = [] then none
  else
    let line := trimInPlace line
    if line = [] ∨ line.head? = some '#' then none else some line

def readOrderbookLineAtIndex (file : List Char) (lineIndex : Nat) : Option (List Char) :=
  ((pieces '\n' file).filterMap logicalLine)[lineIndex]?

structure Row where
  line : List Char
  snapshot : List Char
  converts : convertRow line 10 = some snapshot

def Row.of (line : List Char) : Option Row :=
  match h : convertRow line 10 with
  | none => none
  | some snapshot => some ⟨line, snapshot, h⟩

def Row.slots (r : Row) (s : Side) : List SnapshotLevel :=
  (rowSide (splitCsvLine r.line) 10 s).getD []

/-- What the program meets: the files it can read, and those it can create and
write to their end. -/
structure Disk where
  read : String → Option (List Char)
  creates : String → Bool
  flushes : String → Bool

structure Outcome where
  code : Nat
  out : String
  err : String
  jsonl : Option (String × List Char)

def usage : String :=
  "usage: lobster_replay --messages <message.csv> --orderbook <orderbook.csv> --events N \\\n" ++
    "          [--orderbook-line L] [--seed-orderbook-zero] [--jsonl <out.jsonl>]\n" ++
    "  replays the first N events from the message file, builds a reference snapshot from\n" ++
    "  orderbook line L (0-based over non-empty non-comment lines). default L = N-1.\n" ++
    "  --seed-orderbook-zero: load LOBSTER orderbook row 0 then apply messages 1..N-1 " ++
    "(LOBSTER row sync).\n" ++
    "  --jsonl: write one top-10 book snapshot record per applied message, for\n" ++
    "           tools/book_replay.html. Format: include/ome/book_jsonl.hpp\n"

def hasFlag (args : List String) (key : String) : Bool := args.contains key

def getStr (key : String) : List String → Option String
  | a :: b :: args => if a = key then some b else getStr key (b :: args)
  | _ => none

structure Job where
  messages : List Char
  nEvents : Nat
  row : Row
  seed : Option Row
  jsonl : Option String

def need {α : Type} (x : Option α) (failure : String) : Except String α :=
  x.elim (.error failure) .ok

/-- `main` up to the replay. -/
def prepare (disk : Disk) (args : List String) : Except String Job := do
  let msgPath ← need (getStr "--messages" args) usage
  let bookPath ← need (getStr "--orderbook" args) usage
  let eventsStr ← need (getStr "--events" args) usage
  let nEvents ← need (stoull eventsStr.toList) "bad --events\n"
  if nEvents = 0 then throw "--events must be > 0\n"
  let orderbookLine ← match getStr "--orderbook-line" args with
    | none => pure (nEvents - 1)
    | some lineOverride => need (stoull lineOverride.toList) "bad --orderbook-line\n"
  let orderRow ← need ((disk.read bookPath).bind (readOrderbookLineAtIndex · orderbookLine))
    ("failed to read orderbook line " ++ toString orderbookLine ++ " from " ++ bookPath ++ "\n")
  let row ← need (Row.of orderRow)
    "failed to convert orderbook row to snapshot (need 4*10 columns for level-10 book)\n"
  -- a first row that cannot be read or converted is passed over in silence
  let seed := if hasFlag args "--seed-orderbook-zero" then
      ((disk.read bookPath).bind (readOrderbookLineAtIndex · 0)).bind Row.of
    else none
  let messages ← need (disk.read msgPath) ("cannot open messages: " ++ msgPath ++ "\n")
  match getStr "--jsonl" args with
  | none => return ⟨messages, nEvents, row, seed, none⟩
  | some path =>
    if !disk.creates path then throw ("cannot open --jsonl output: " ++ path ++ "\n")
    return ⟨messages, nEvents, row, seed, some path⟩

def report (r : Result) (out : String) (jsonl : Option (String × List Char)) : Outcome :=
  ⟨if r.firstMismatchLevelIndex.isSome then 1 else 0,
    out ++ r.summary ++ "\n" ++
      (if r.mismatchLog = "" then "" else "--- mismatch log ---\n" ++ r.mismatchLog),
    "", jsonl⟩

def Job.run (stamp : List Char → Option Nat) (disk : Disk) (job : Job) : Outcome :=
  let (r, records) :=
    validate stamp job.messages job.row.snapshot job.nEvents (job.seed.map Row.snapshot)
  match job.jsonl with
  | none => report r "" none
  | some path =>
    let file := (path, records.flatMap Record.write)
    if !disk.flushes path then ⟨1, "", "failed writing " ++ path ++ "\n", some file⟩
    else report r ("wrote book snapshots to " ++ path ++ "\n") (some file)

def main (stamp : List Char → Option Nat) (disk : Disk) (args : List String) : Outcome :=
  if args.head? = some "--help" then ⟨0, "", usage, none⟩
  else
    match prepare disk args with
    | .error failure => ⟨1, "", failure, none⟩
    | .ok job => job.run stamp disk

/-- What a feed guarantees of a message, where the book may have been seeded with
levels whose orders are not known one by one. Of partial deletions and hidden
executions these are the ones that the replay gets right. -/
def Fair (b : OrderBook) (m : LobsterMessage) : Prop :=
  match m.event with
  | .submission => 0 < m.size ∧ ¬Rests b.allOrders m.orderId ∧
      (b.addOrder m.order).isCrossed = false
  | .cancellation => 0 < m.size ∧ ∃ o, Names b m o ∧ o.quantity = 2 * m.size
  | .deletion => (∃ o, Names b m o ∧ m.size = o.quantity) ∨
      ¬Rests b.allOrders m.orderId ∧ m.size ≤ depth b m.side m.priceTicks
  | .execution => m.size ≤ depth b m.side m.priceTicks
  | .hiddenExecution => m.size = 0 ∨ depth b m.side m.priceTicks < m.size
  | _ => True

theorem consumed_positive {os : List Order} (h : ∀ o ∈ os, 0 < o.quantity) (n : Nat) :
    ∀ o ∈ consumed os n, 0 < o.quantity := by
  induction os generalizing n with
  | nil => simp [consumed, walk]
  | cons o os ih =>
    have hrest : ∀ r ∈ os, 0 < r.quantity := fun r hr => h r (List.mem_cons_of_mem o hr)
    by_cases hn : 0 < n
    · rw [consumed, walk_cons hn rfl]
      intro r hr
      obtain hr | hr := List.mem_append.mp hr
      · obtain ⟨hnil, -⟩ | ⟨hsome, hlt⟩ := remainder_cases n o
        · rw [hnil] at hr
          cases hr
        · rw [hsome] at hr
          obtain rfl := List.mem_singleton.mp hr
          exact Nat.sub_pos_of_lt hlt
      · exact ih hrest _ r hr
    · obtain rfl : n = 0 := by omega
      rw [consumed, walk_zero]
      exact h

section

variable {b : OrderBook}

theorem reduceLevel_positive (h : Standing b) (s : Side) (price : Int) (n : Nat) :
    ∀ o ∈ (b.reduceLevelAfterLobsterExecution s price n true).2.allOrders, 0 < o.quantity := by
  by_cases hrefused : n = 0 ∨ depth b s price < n
  · rw [reduceLevel_refused h.valid s price hrefused]
    exact h.positive
  · rw [depth_eq h.valid, not_or, Nat.not_lt] at hrefused
    obtain ⟨hzero, hn⟩ := hrefused
    have hsome : atPrice b.allOrders s price ≠ [] := by
      intro hnil
      rw [hnil] at hn
      exact hzero (Nat.le_zero.mp hn)
    have hedits := reduceLevel_edits h.valid (Nat.pos_of_ne_zero hzero) true hsome
    obtain ⟨pre, post, hall, hall', -⟩ := hedits.done (hedits.succeeds.mpr hn)
    have hat : ∀ o ∈ atPrice b.allOrders s price, 0 < o.quantity := fun o ho =>
      h.positive o (List.mem_filter.mp ho).1
    intro o ho
    rw [hall'] at ho
    obtain ho | ho := List.mem_append.mp ho
    · obtain ho | ho := List.mem_append.mp ho
      · exact h.positive o (hall ▸ by simp [ho])
      · exact consumed_positive hat n o ho
    · exact h.positive o (hall ▸ by simp [ho])

theorem replaceRemainingQuantity_positive (h : Standing b) (id : Nat) {n : Nat} (hn : 0 < n) :
    ∀ o ∈ (b.replaceRemainingQuantity id n).2.allOrders, 0 < o.quantity := by
  have hedits := replaceRemainingQuantity_edits h.valid id hn
  cases hdone : (b.replaceRemainingQuantity id n).1 with
  | false =>
    rw [hedits.refused hdone]
    exact h.positive
  | true =>
    obtain ⟨pre, r, post, hall, -, hall'⟩ := hedits.done hdone
    intro o ho
    rw [hall'] at ho
    obtain ho | ho := List.mem_append.mp ho
    · exact h.positive o (hall ▸ by simp [ho])
    · obtain rfl | ho := List.mem_cons.mp ho
      · exact hn
      · exact h.positive o (hall ▸ by simp [ho])

theorem cancelOrder_positive (h : Standing b) (id : Nat) :
    ∀ o ∈ (b.cancelOrder id).2.allOrders, 0 < o.quantity := by
  have hedits := cancelOrder_edits h.valid id
  cases hdone : (b.cancelOrder id).1 with
  | false =>
    rw [hedits.refused hdone]
    exact h.positive
  | true =>
    obtain ⟨pre, r, post, hall, -, hall'⟩ := hedits.done hdone
    intro o ho
    rw [hall'] at ho
    refine h.positive o (hall ▸ ?_)
    obtain ho | ho := List.mem_append.mp ho
    · exact List.mem_append_left _ ho
    · exact List.mem_append_right _ (List.mem_cons_of_mem r ho)

theorem addOrder_positive (h : Standing b) {o : Order} (hk : o.kind = .limit)
    (hpos : 0 < o.quantity) :
    ∀ r ∈ (b.addOrder o).allOrders, 0 < r.quantity := by
  intro r hr
  obtain rfl | hr := List.mem_cons.mp ((addOrder_perm h.valid hk).mem_iff.mp hr)
  · exact hpos
  · exact h.positive r hr

end

section

variable {e : MatchingEngine} {m : LobsterMessage}

theorem applyMessage_positive (h : Standing e.book) (hfair : Fair e.book m) :
    ∀ o ∈ (applyMessage e m).book.allOrders, 0 < o.quantity := by
  unfold applyMessage
  unfold Fair at hfair
  cases hevent : m.event with
  | submission =>
    rw [hevent] at hfair
    obtain ⟨hpos, -, hcross⟩ := hfair
    dsimp only
    rw [processOrder_rests e rfl hcross]
    exact addOrder_positive h rfl hpos
  | cancellation =>
    rw [hevent] at hfair
    exact replaceRemainingQuantity_positive h m.orderId hfair.1
  | deletion =>
    dsimp only
    split
    · exact cancelOrder_positive h m.orderId
    · rename_i hmissing
      rw [(cancelOrder_edits h.valid m.orderId).refused (Bool.eq_false_iff.mpr hmissing)]
      exact reduceLevel_positive h m.side m.priceTicks m.size
  | execution => exact reduceLevel_positive h m.side m.priceTicks m.size
  | hiddenExecution => exact reduceLevel_positive h m.side m.priceTicks m.size
  | halt => exact h.positive
  | other => exact h.positive

theorem applyMessage_fair (h : Valid e.book) (hfair : Fair e.book m) :
    ∃ old new, Patches m.side m.priceTicks old new e.book (applyMessage e m).book ∧
      (quantities new : Int) = quantities old + delta m := by
  have hconsistent : Consistent e.book m → Exact e.book m →
      ∃ old new, Patches m.side m.priceTicks old new e.book (applyMessage e m).book ∧
        (quantities new : Int) = quantities old + delta m := by
    intro hcons hexact
    obtain ⟨old, new, hpatches, hsum⟩ := applyMessage_patches h hcons
    rw [(drift_eq_zero _ _).mpr hexact, Int.add_zero] at hsum
    exact ⟨old, new, hpatches, hsum⟩
  have hreduce : ∀ {n}, n ≤ depth e.book m.side m.priceTicks →
      ∃ old new, Patches m.side m.priceTicks old new e.book
        (e.book.reduceLevelAfterLobsterExecution m.side m.priceTicks n true).2 ∧
        (quantities new : Int) = quantities old + -n := by
    intro n hn
    obtain ⟨old, new, hsum, hpatches⟩ := reduceLevel_patches h m.side m.priceTicks hn
    exact ⟨old, new, hpatches, by omega⟩
  unfold Fair at hfair
  cases hevent : m.event with
  | submission =>
    rw [hevent] at hfair
    refine hconsistent ?_ (by simp [Exact, hevent])
    rw [Consistent, hevent]
    exact hfair.2
  | cancellation =>
    rw [hevent] at hfair
    obtain ⟨-, o, hnames, hhalf⟩ := hfair
    refine hconsistent ?_ ⟨fun _ => ?_, by simp [hevent]⟩
    · rw [Consistent, hevent]
      exact ⟨o, hnames, by omega⟩
    · rw [← hnames.2.1, restingQty_of_mem h hnames.1, hhalf]
  | deletion =>
    rw [hevent] at hfair
    obtain hnamed | ⟨hunknown, hsize⟩ := hfair
    · refine hconsistent ?_ (by simp [Exact, hevent])
      rw [Consistent, hevent]
      exact hnamed
    · have hedits := cancelOrder_edits h m.orderId
      have hmissing : (e.book.cancelOrder m.orderId).1 = false :=
        Bool.eq_false_iff.mpr fun hdone => hunknown (hedits.succeeds.mp hdone)
      rw [applyMessage, delta, hevent]
      dsimp only
      rw [hmissing, if_neg Bool.false_ne_true, hedits.refused hmissing]
      exact hreduce hsize
  | execution =>
    rw [hevent] at hfair
    rw [applyMessage, delta, hevent]
    exact hreduce hfair
  | hiddenExecution =>
    rw [hevent] at hfair
    refine hconsistent ?_ ⟨by simp [hevent], fun _ => hfair⟩
    rw [Consistent, hevent]
    trivial
  | halt =>
    refine hconsistent ?_ (by simp [Exact, hevent])
    rw [Consistent, hevent]
    trivial
  | other =>
    refine hconsistent ?_ (by simp [Exact, hevent])
    rw [Consistent, hevent]
    trivial

end

/-- Every message is fair to the book that the replay has built so far. -/
def FairFeed : MatchingEngine → List LobsterMessage → Prop
  | _, [] => True
  | e, m :: ms => Fair e.book m ∧ FairFeed (applyMessage e m) ms

theorem depth_replay_fair {e : MatchingEngine} (h : Standing e.book) {ms : List LobsterMessage}
    (hfeed : FairFeed e ms) :
    Standing (replay e ms).book ∧
      ∀ s price, (depth (replay e ms).book s price : Int) =
        depth e.book s price + changes s price ms := by
  induction ms generalizing e with
  | nil => exact ⟨h, fun s price => by simp [replay, changes]⟩
  | cons m ms ih =>
    obtain ⟨hfair, hrest⟩ := hfeed
    obtain ⟨old, new, hpatches, hsum⟩ := applyMessage_fair h.valid hfair
    obtain ⟨hstanding, hdepth⟩ := ih ⟨hpatches.valid, applyMessage_positive h hfair⟩ hrest
    refine ⟨hstanding, fun s price => ?_⟩
    have hstep : (depth (applyMessage e m).book s price : Int) =
        depth e.book s price + fallsOn m s price (delta m) := by
      unfold fallsOn
      by_cases hat : s = m.side ∧ price = m.priceTicks
      · have hlevel := hpatches.depth h.valid
        obtain ⟨rfl, rfl⟩ := hat
        rw [if_pos ⟨rfl, rfl⟩]
        omega
      · rw [if_neg hat, depth, depth, hpatches.levelAt h.valid hat, Int.add_zero]
    have hreplay := hdepth s price
    rw [replay, List.foldl_cons, changes, List.map_cons, List.sum_cons]
    rw [replay, changes] at hreplay
    omega

def Job.start (job : Job) : Except String MatchingEngine :=
  match job.seed with
  | none => .ok .empty
  | some r => seedBook (loadSnapshot r.snapshot).1

def Job.feed (stamp : List Char → Option Nat) (job : Job) : List LobsterMessage :=
  ((parseMessages stamp job.messages).take job.nEvents).drop (if job.seed.isSome then 1 else 0)

def Job.opening (job : Job) (s : Side) (p : Int) : Nat :=
  job.seed.elim 0 fun r => offered (r.slots s) p

theorem Row.loads (r : Row) (s : Side) : (loadSnapshot r.snapshot).1.side s = r.slots s := by
  obtain ⟨hsides, -⟩ := loadSnapshot_convertRow r.converts
  rw [Row.slots, hsides s, Option.getD_some]

section

variable {job : Job}

theorem Job.start_spec {e : MatchingEngine} (h : job.start = .ok e) :
    Standing e.book ∧ ∀ s p, depth e.book s p = job.opening s p := by
  unfold Job.start at h
  cases hseed : job.seed with
  | none =>
    rw [hseed] at h
    obtain rfl := Except.ok.inj h
    refine ⟨seeded_initial.standing, fun s p => ?_⟩
    rw [Job.opening, hseed]
    cases s <;> rfl
  | some r =>
    rw [hseed] at h
    obtain ⟨hstanding, hdepth⟩ := seedBook_spec h
    refine ⟨hstanding, fun s p => ?_⟩
    rw [hdepth, Job.opening, hseed, r.loads s]
    rfl

variable {stamp : List Char → Option Nat}

theorem validate_started {e : MatchingEngine} (h : job.start = .ok e) :
    (validate stamp job.messages job.row.snapshot job.nEvents
      (job.seed.map Row.snapshot)).1.firstMismatchLevelIndex =
      (compare (replay e (job.feed stamp)).book (loadSnapshot job.row.snapshot).1).findIdx?
        Option.isSome := by
  unfold Job.start at h
  have htake : ∀ ms : List LobsterMessage,
      ms.take (min job.nEvents ms.length) = ms.take job.nEvents := fun ms => by
    rw [← List.take_take, List.take_length]
  cases hseed : job.seed with
  | none =>
    rw [hseed] at h
    obtain rfl := Except.ok.inj h
    rw [validate, Option.map_none]
    dsimp only
    rw [replayFrom_fst, htake, Job.feed, hseed]
    rfl
  | some r =>
    rw [hseed] at h
    rw [validate, Option.map_some]
    dsimp only at h ⊢
    rw [h]
    dsimp only
    rw [replayFrom_fst, htake, Job.feed, hseed]
    rfl

end

def Job.Flushes (job : Job) (disk : Disk) : Prop := ∀ path ∈ job.jsonl, disk.flushes path = true

theorem flushes_of_none {job : Job} {disk : Disk} (h : job.jsonl = none) : job.Flushes disk :=
  fun path hpath =>
  absurd ((Option.mem_def.mp hpath).symm.trans h) (Option.some_ne_none path)

theorem code_run {stamp : List Char → Option Nat} {disk : Disk} {job : Job}
    (hflush : job.Flushes disk) :
    (job.run stamp disk).code = 0 ↔
      (validate stamp job.messages job.row.snapshot job.nEvents
        (job.seed.map Row.snapshot)).1.firstMismatchLevelIndex =
        none := by
  have hreport : ∀ r out jsonl, (report r out jsonl).code = 0 ↔
      r.firstMismatchLevelIndex = none := by
    intro r out jsonl
    rw [report]
    cases r.firstMismatchLevelIndex <;> simp
  unfold Job.run
  cases hjsonl : job.jsonl with
  | none => exact hreport ..
  | some path =>
    have hok := hflush path hjsonl
    dsimp only
    rw [hok, if_neg (by decide)]
    exact hreport ..

theorem main_run {stamp : List Char → Option Nat} {disk : Disk} {args : List String} {job : Job}
    (hhelp : args.head? ≠ some "--help") (hjob : prepare disk args = .ok job) :
    main stamp disk args = job.run stamp disk := by
  rw [main, if_neg hhelp, hjob]

/-- On a fair feed the program ends with zero if the orderbook row lists the ten
best levels that the seed and the feed together say, and only then. -/
theorem replay_verdict (stamp : List Char → Option Nat) (disk : Disk) (args : List String)
    (job : Job) (e : MatchingEngine) (hhelp : args.head? ≠ some "--help")
    (hjob : prepare disk args = .ok job) (hflush : job.Flushes disk) (hstart : job.start = .ok e)
    (hfair : FairFeed e (job.feed stamp)) :
    (main stamp disk args).code = 0 ↔
      ∀ s, Lists s (fun p => job.opening s p + changes s p (job.feed stamp)) (job.row.slots s) := by
  obtain ⟨hstanding, hopening⟩ := job.start_spec hstart
  obtain ⟨hend, hdepth⟩ := depth_replay_fair hstanding hfair
  have hsides : ∀ s, (fun p => (depth (replay e (job.feed stamp)).book s p : Int)) =
      fun p => job.opening s p + changes s p (job.feed stamp) := by
    intro s
    funext p
    rw [hdepth, hopening]
  rw [main_run hhelp hjob, code_run hflush, validate_started hstart, compare_none_iff hend]
  simp only [Row.loads, hsides]

/-- A file with two rows of one level each side, and two messages. The second one
sells three to the bid of the first row. -/
def twoRows (size : Nat) : Disk where
  read path :=
    if path = "messages" then some "0,1,9,7,100,1\n1,4,0,3,100,1\n".toList
    else if path = "book" then some ("101,5,100,".toList ++ digits size ++ "\n101,5,100,4\n".toList)
    else none
  creates _ := true
  flushes _ := true

def seededArgs : List String :=
  ["--messages", "messages", "--orderbook", "book", "--events", "2", "--seed-orderbook-zero"]

def seededJob (seed : Row) : Job :=
  ⟨"0,1,9,7,100,1\n1,4,0,3,100,1\n".toList, 2, ⟨"101,5,100,4".toList, _, rfl⟩, some seed, none⟩

def seedOfSeven : Row := ⟨"101,5,100,7".toList, _, rfl⟩

def seededWithSeven : MatchingEngine :=
  ⟨(OrderBook.empty.addOrder ⟨2 ^ 64 - 1, 100, 7, .bid, .limit, 0⟩).addOrder
    ⟨2 ^ 64 - 2, 101, 5, .ask, .limit, 0⟩, []⟩

theorem replay_verdict_sold : (main microseconds (twoRows 7) seededArgs).code = 0 ∧
    Lists .bid (fun p =>
      (seededJob seedOfSeven).opening .bid p +
        changes .bid p ((seededJob seedOfSeven).feed microseconds))
      ((seededJob seedOfSeven).row.slots .bid) := by
  have hcode : (main microseconds (twoRows 7) seededArgs).code = 0 := rfl
  have hfair : Fair seededWithSeven.book ⟨1000000, 4, 0, 3, 100, 1⟩ := by
    show 3 ≤ depth seededWithSeven.book .bid 100
    decide
  exact ⟨hcode,
    (replay_verdict microseconds (twoRows 7) seededArgs (seededJob seedOfSeven) seededWithSeven
      (by decide) rfl (flushes_of_none rfl) rfl ⟨hfair, trivial⟩).mp hcode .bid⟩

/-- A seed row with an oversized level ends the program with zero, whatever the
messages and the row to compare with are: nothing is replayed or compared. -/
theorem oversized_seed_passes (stamp : List Char → Option Nat) (disk : Disk) (args : List String)
    (job : Job) (hhelp : args.head? ≠ some "--help") (hjob : prepare disk args = .ok job)
    (hflush : job.Flushes disk) (r : Row) (hseed : job.seed = some r) (s : Side)
    (lvl : SnapshotLevel) (hlvl : lvl ∈ r.slots s) (hover : Oversized lvl) :
    (main stamp disk args).code = 0 := by
  obtain ⟨failure, hfailure⟩ := (seedBook_fails_iff (loadSnapshot r.snapshot).1).mpr
    ⟨s, lvl, r.loads s ▸ hlvl, hover⟩
  rw [main_run hhelp hjob, code_run hflush, hseed, Option.map_some, validate]
  dsimp only
  rw [hfailure]

def seedOfTooMany : Row := ⟨"101,5,100,4294967296".toList, _, rfl⟩

theorem oversized_seed_passes_rows : (main microseconds (twoRows (2 ^ 32)) seededArgs).code = 0 :=
  oversized_seed_passes microseconds (twoRows (2 ^ 32)) seededArgs (seededJob seedOfTooMany)
    (by decide) rfl (flushes_of_none rfl) seedOfTooMany rfl .bid ⟨100, 2 ^ 32⟩ (by decide)
    ⟨by decide, by decide⟩

end OrderMatching.LobsterReplay
