import Mathlib.Data.List.DropRight
import OrderMatching.Delimited
import OrderMatching.Lobster
import OrderMatching.Numerals

namespace OrderMatching.LobsterParser

open OrderMatching.Orders OrderMatching.Delimited OrderMatching.Numerals OrderMatching.Lobster

deriving instance DecidableEq for LobsterMessage

def trimInPlace (cs : List Char) : List Char := (cs.dropWhile isSpace).rdropWhile isSpace

def splitCsvLine (line : List Char) : List (List Char) := (pieces ',' line).map trimInPlace

def lineAllWhitespace (line : List Char) : Bool := line.all isSpace

section

-- `parse_timestamp`, a function of the text that goes through `long double`
variable (stamp : List Char → Option Nat)

def parseHalt (ts : Nat) (id size price direction : List Char) : LobsterMessage :=
  ⟨ts, 7, (stoull id).getD 0, (stoull size).getD 0 % 2 ^ 32, (stoll price).getD (-1),
    (stoi direction).getD (-1)⟩

def parseRowMessage : List (List Char) → Option LobsterMessage
  | [time, type, id, size, price, direction] => do
    let ts ← stamp time
    let msgType ← stoi type
    if msgType < 1 ∨ (msgType > 5 ∧ msgType ≠ 7) then none
    else if msgType = 7 then some (parseHalt ts id size price direction)
    else do
      let orderId ← stoull id
      -- executions often carry the id zero
      if orderId = 0 ∧ msgType ≠ 4 ∧ msgType ≠ 5 then none
      else do
        let size ← stoull size
        if size > 2 ^ 32 - 1 then none
        else do
          let priceTicks ← stoll price
          if priceTicks < 0 then none
          else do
            let dir ← stoi direction
            if dir ≠ 1 ∧ dir ≠ -1 then none else some ⟨ts, msgType, orderId, size, priceTicks, dir⟩
  | _ => none

def mapMessageType : Int → Option Kind
  | 1 => some .limit
  | 2 => some .cancel
  | 3 => some .cancel
  | 4 => some .market
  | 5 => some .market
  | _ => none

def toOrder (m : LobsterMessage) : Option Order :=
  (mapMessageType m.type).map fun ty =>
    ⟨m.orderId, m.priceTicks, m.size, if m.direction = 1 then .bid else .ask, ty, m.timestampUs⟩

def parseRow (fields : List (List Char)) : Option Order :=
  (parseRowMessage stamp fields).bind toOrder

/-- The body of the loop that both readers are: lines of white space are passed
over, and so are rows that cannot be read. -/
def readLine {α : Type} (row : List (List Char) → Option α) (line : List Char) : Option α :=
  if line = [] ∨ lineAllWhitespace line then none else row (splitCsvLine line)

def readRows {α : Type} (row : List (List Char) → Option α) (input : List Char) : List α :=
  (pieces '\n' input).filterMap (readLine row)

def parse (input : List Char) : List Order := readRows (parseRow stamp) input

def parseMessages (input : List Char) : List LobsterMessage :=
  readRows (parseRowMessage stamp) input

variable {stamp}

/-- The fields of a message that a row must hold for the reader to take it. -/
structure WellFormed (m : LobsterMessage) : Prop where
  type : 1 ≤ m.type ∧ m.type ≤ 5 ∨ m.type = 7
  orderId : m.orderId < 2 ^ 64
  size : m.size < 2 ^ 32
  price : -2 ^ 63 ≤ m.priceTicks ∧ m.priceTicks < 2 ^ 63
  direction : -2 ^ 31 ≤ m.direction ∧ m.direction < 2 ^ 31
  trades : m.type ≠ 7 → (m.orderId = 0 → m.type = 4 ∨ m.type = 5) ∧ 0 ≤ m.priceTicks ∧
    (m.direction = 1 ∨ m.direction = -1)

theorem wellFormed_parseHalt (ts : Nat) (id size price direction : List Char) :
    WellFormed (parseHalt ts id size price direction) := by
  refine ⟨Or.inr rfl, ?_, Nat.mod_lt _ (by decide), ?_, ?_, fun hne => absurd rfl hne⟩
  · show (stoull id).getD 0 < 2 ^ 64
    cases h : stoull id with
    | none => decide
    | some n => exact stoull_lt h
  · show -2 ^ 63 ≤ (stoll price).getD (-1) ∧ (stoll price).getD (-1) < 2 ^ 63
    cases h : stoll price with
    | none => decide
    | some z => exact stoSigned_bounds h
  · show -2 ^ 31 ≤ (stoi direction).getD (-1) ∧ (stoi direction).getD (-1) < 2 ^ 31
    cases h : stoi direction with
    | none => decide
    | some z => exact stoSigned_bounds h

theorem wellFormed_of_parseRowMessage {fields : List (List Char)} {m : LobsterMessage}
    (h : parseRowMessage stamp fields = some m) :
    WellFormed m ∧ ∃ time, stamp time = some m.timestampUs := by
  unfold parseRowMessage at h
  split at h
  · rename_i time type id size price direction
    obtain ⟨ts, htime, h⟩ := Option.bind_eq_some_iff.mp h
    obtain ⟨msgType, -, h⟩ := Option.bind_eq_some_iff.mp h
    split at h
    · cases h
    · rename_i htype
      split at h
      · obtain rfl := Option.some.inj h
        exact ⟨wellFormed_parseHalt ts id size price direction, time, htime⟩
      · rename_i hhalt
        obtain ⟨orderId, hid, h⟩ := Option.bind_eq_some_iff.mp h
        split at h
        · cases h
        · rename_i hnamed
          obtain ⟨size, -, h⟩ := Option.bind_eq_some_iff.mp h
          split at h
          · cases h
          · rename_i hsize
            obtain ⟨price, hprice, h⟩ := Option.bind_eq_some_iff.mp h
            split at h
            · cases h
            · rename_i hpos
              obtain ⟨dir, hdir, h⟩ := Option.bind_eq_some_iff.mp h
              split at h
              · cases h
              · rename_i hsign
                obtain rfl := Option.some.inj h
                have hbounds := stoSigned_bounds hprice
                refine ⟨⟨?_, stoull_lt hid, ?_, hbounds, stoSigned_bounds hdir,
                  fun _ => ⟨?_, ?_, ?_⟩⟩, time, htime⟩ <;>
                  dsimp only at * <;> omega
  · cases h

def printed (time : List Char) (m : LobsterMessage) : List (List Char) :=
  [time, decimal m.type, digits m.orderId, digits m.size, decimal m.priceTicks, decimal m.direction]

theorem ends_nil : Ends [] := by simp [Ends]

theorem stoull_printed {n : Nat} (hn : n < 2 ^ 64) : stoull (digits n) = some n := by
  simpa using stoull_digits hn ends_nil

theorem stoll_printed {z : Int} (hz : -2 ^ 63 ≤ z ∧ z < 2 ^ 63) : stoll (decimal z) = some z := by
  simpa [stoll] using stoSigned_decimal hz.1 hz.2 ends_nil

theorem stoi_printed {z : Int} (hz : -2 ^ 31 ≤ z ∧ z < 2 ^ 31) : stoi (decimal z) = some z := by
  simpa [stoi] using stoSigned_decimal hz.1 hz.2 ends_nil

theorem parseRowMessage_printed {m : LobsterMessage} (hm : WellFormed m) {time : List Char}
    (htime : stamp time = some m.timestampUs) :
    parseRowMessage stamp (printed time m) = some m := by
  obtain ⟨htype, hid, hsize, hprice, hdir, htrades⟩ := hm
  have htype' : -2 ^ 31 ≤ m.type ∧ m.type < 2 ^ 31 := by omega
  have hsize' : m.size < 2 ^ 64 := by omega
  have hrange : ¬(m.type < 1 ∨ (m.type > 5 ∧ m.type ≠ 7)) := by omega
  simp only [parseRowMessage, printed, htime, stoi_printed htype', Option.bind_eq_bind,
    Option.bind_some, hrange, if_false]
  by_cases hhalt : m.type = 7
  · rw [if_pos hhalt, parseHalt, stoull_printed hid, stoull_printed hsize', stoll_printed hprice,
      stoi_printed hdir]
    simp only [Option.getD_some, Nat.mod_eq_of_lt hsize, ← hhalt]
  · obtain ⟨hnamed, hpos, hsign⟩ := htrades hhalt
    rw [if_neg hhalt, stoull_printed hid, Option.bind_some, if_neg (by omega),
      stoull_printed hsize', Option.bind_some, if_neg (by omega), stoll_printed hprice,
      Option.bind_some, if_neg (by omega), stoi_printed hdir, Option.bind_some, if_neg (by omega)]

/-- A line that holds a message: its fields, with white space around them. -/
structure Holds (stamp : List Char → Option Nat) (line : List Char)
    (m : LobsterMessage) : Prop where
  cells : ∃ time cells, stamp time = some m.timestampUs ∧ cells.map trimInPlace = printed time m ∧
    (∀ c ∈ cells, ',' ∉ c) ∧ line = [','].intercalate cells
  oneLine : '\n' ∉ line

theorem trimInPlace_nil_of_space {cs : List Char} (h : cs.all isSpace = true) :
    trimInPlace cs = [] := by
  rw [trimInPlace, List.dropWhile_eq_nil_iff.mpr (List.all_eq_true.mp h)]
  rfl

theorem readLine_holds {m : LobsterMessage} (hm : WellFormed m) {line : List Char}
    (h : Holds stamp line m) :
    readLine (parseRowMessage stamp) line = some m := by
  obtain ⟨time, cells, htime, hcells, hcomma, rfl⟩ := h.cells
  have hlast : ∀ c ∈ cells.getLast?, trimInPlace c = decimal m.direction := by
    intro c hc
    have hmap := congrArg List.getLast? hcells
    rw [List.getLast?_map, Option.mem_def.mp hc] at hmap
    exact Option.some.inj hmap
  have hne : ∀ c ∈ cells.getLast?, c ≠ [] := by
    rintro c hc rfl
    exact decimal_ne_nil m.direction (hlast [] hc).symm
  have hblank : ¬([','].intercalate cells = [] ∨
      lineAllWhitespace ([','].intercalate cells) = true) := by
    have hspace : lineAllWhitespace ([','].intercalate cells) = true → False := by
      intro hall
      obtain ⟨c, hc⟩ : ∃ c, cells.getLast? = some c := by
        cases hc : cells.getLast? with
        | none =>
          rw [List.getLast?_eq_none_iff.mp hc] at hcells
          cases hcells
        | some c => exact ⟨c, rfl⟩
      have hmem := List.mem_of_getLast? hc
      have hspace : c.all isSpace = true := List.all_eq_true.mpr fun x hx =>
        List.all_eq_true.mp hall x (mem_intercalate hmem hx)
      exact decimal_ne_nil m.direction ((hlast c hc).symm.trans (trimInPlace_nil_of_space hspace))
    rintro (hnil | hall)
    · exact hspace (by rw [hnil]; rfl)
    · exact hspace hall
  rw [readLine, if_neg hblank, splitCsvLine, pieces_intercalate hcomma hne, hcells]
  exact parseRowMessage_printed hm htime

theorem readRows_terminated {α : Type} (row : List (List Char) → Option α)
    {lines : List (List Char)} (h : ∀ line ∈ lines, '\n' ∉ line) :
    readRows row (lines.flatMap (· ++ ['\n'])) = lines.filterMap (readLine row) := by
  rw [readRows, pieces_terminated h]

/-- A file of message rows, with blank lines anywhere, is read back as the
messages it holds. -/
theorem parseMessages_rows (stamp : List Char → Option Nat)
    (rows : List (List Char × Option LobsterMessage))
    (hrows : ∀ r ∈ rows, ∀ m, r.2 = some m → WellFormed m ∧ Holds stamp r.1 m)
    (hblank : ∀ r ∈ rows, r.2 = none → r.1.all isSpace = true ∧ '\n' ∉ r.1) :
    parseMessages stamp ((rows.map Prod.fst).flatMap (· ++ ['\n'])) = rows.filterMap Prod.snd := by
  have hlines : ∀ line ∈ rows.map Prod.fst, '\n' ∉ line := by
    intro line hline
    obtain ⟨r, hr, rfl⟩ := List.mem_map.mp hline
    cases hm : r.2 with
    | none => exact (hblank r hr hm).2
    | some m => exact (hrows r hr m hm).2.oneLine
  rw [parseMessages, readRows_terminated _ hlines, List.filterMap_map]
  refine List.filterMap_congr fun r hr => ?_
  cases hm : r.2 with
  | none => exact if_pos (Or.inr (hblank r hr hm).1)
  | some m => exact readLine_holds (hrows r hr m hm).1 (hrows r hr m hm).2

/-- What `parse_timestamp` computes by way of `long double`, in exact arithmetic:
the microseconds of a time that is written with digits, and a point among them or
none. -/
def microseconds (cs : List Char) : Option Nat :=
  match cs.takeWhile Char.isDigit, cs.dropWhile Char.isDigit with
  | [], _ => none
  | whole, [] => some (value whole * 10 ^ 6)
  | whole, c :: frac =>
    if c = '.' ∧ frac.all Char.isDigit then
      -- to the nearest, and up where it is half way
      some ((2 * (value (whole ++ frac) * 10 ^ 6) + 10 ^ frac.length) / (2 * 10 ^ frac.length))
    else none

def paddedRows : List (List Char × Option LobsterMessage) :=
  [([' '], none), ("1.5,1, 7,5,9 ,-1".toList, some ⟨1500000, 1, 7, 5, 9, -1⟩)]

theorem parseMessages_rows_padded :
    parseMessages microseconds ((paddedRows.map Prod.fst).flatMap (· ++ ['\n'])) =
      [⟨1500000, 1, 7, 5, 9, -1⟩] := by
  refine parseMessages_rows microseconds paddedRows ?_ ?_
  · intro r hr m hm
    obtain rfl | rfl : r = ([' '], none) ∨ r = paddedRows[1] := by simpa [paddedRows] using hr
    · cases hm
    · cases hm
      exact ⟨⟨by decide, by decide, by decide, by decide, by decide, by decide⟩,
        ⟨"1.5".toList, ["1.5", "1", " 7", "5", "9 ", "-1"].map String.toList, by decide,
          by decide, by decide, by decide⟩, by decide⟩
  · decide

theorem trimInPlace_of_plain {cs : List Char} (h : ∀ c ∈ cs, isSpace c = false) :
    trimInPlace cs = cs := by
  have hdrop : cs.dropWhile isSpace = cs := by
    cases cs with
    | nil => rfl
    | cons c cs => exact List.dropWhile_cons_of_neg (by simp [h c (by simp)])
  rw [trimInPlace, hdrop, List.rdropWhile_eq_self_iff]
  exact fun hl => by simp [h _ (List.getLast_mem hl)]

/-- A way of printing times that `parse_timestamp` reads back, without white
space or commas. -/
structure Clock (stamp : List Char → Option Nat) (clock : Nat → List Char) : Prop where
  reads : ∀ time n, stamp time = some n → stamp (clock n) = some n
  plain : ∀ n, ∀ c ∈ clock n, isSpace c = false ∧ c ≠ ','

def renderRow (clock : Nat → List Char) (m : LobsterMessage) : List Char :=
  [','].intercalate (printed (clock m.timestampUs) m)

def render (clock : Nat → List Char) (ms : List LobsterMessage) : List Char :=
  ms.flatMap fun m => renderRow clock m ++ ['\n']

theorem plain_printed {clock : Nat → List Char} (hclock : Clock stamp clock) {m : LobsterMessage}
    {f : List Char} (hf : f ∈ printed (clock m.timestampUs) m) {c : Char} (hc : c ∈ f) :
    isSpace c = false ∧ c ≠ ',' := by
  have hnumeric : isNumeric c = true → isSpace c = false ∧ c ≠ ',' := by
    intro h
    refine ⟨not_isSpace_of_isNumeric h, ?_⟩
    rintro rfl
    cases h
  have hdigits : ∀ {n}, c ∈ digits n → isNumeric c = true :=
    fun h => by simp [isNumeric, isDigit_digits h]
  simp only [printed, List.mem_cons, List.not_mem_nil, or_false] at hf
  obtain rfl | rfl | rfl | rfl | rfl | rfl := hf
  · exact hclock.plain _ c hc
  · exact hnumeric (numeric_decimal hc)
  · exact hnumeric (hdigits hc)
  · exact hnumeric (hdigits hc)
  · exact hnumeric (numeric_decimal hc)
  · exact hnumeric (numeric_decimal hc)

theorem holds_renderRow {clock : Nat → List Char} (hclock : Clock stamp clock) {m : LobsterMessage}
    {time : List Char} (htime : stamp time = some m.timestampUs) :
    Holds stamp (renderRow clock m) m where
  cells := by
    refine ⟨clock m.timestampUs, printed (clock m.timestampUs) m,
      hclock.reads time _ htime, ?_, ?_, rfl⟩
    · calc
        (printed (clock m.timestampUs) m).map trimInPlace
          = (printed (clock m.timestampUs) m).map id :=
          List.map_congr_left fun f hf => trimInPlace_of_plain fun c hc =>
            (plain_printed hclock hf hc).1
        _ = printed (clock m.timestampUs) m := List.map_id _
    · exact fun f hf hc => (plain_printed hclock hf hc).2 rfl
  oneLine := by
    refine not_mem_intercalate (by decide) fun f hf hc => ?_
    have hspace := (plain_printed hclock hf hc).1
    cases hspace

theorem mem_parseMessages {input : List Char} {m : LobsterMessage}
    (hm : m ∈ parseMessages stamp input) :
    WellFormed m ∧ ∃ time, stamp time = some m.timestampUs := by
  obtain ⟨line, -, hline⟩ := List.mem_filterMap.mp hm
  rw [readLine] at hline
  split at hline
  · cases hline
  · exact wellFormed_of_parseRowMessage hline

/-- Writing out what was read, one row for a message, and reading that again
changes nothing: all that a file says is in the rows that are not skipped. -/
theorem parseMessages_canonical (stamp : List Char → Option Nat) (clock : Nat → List Char)
    (hclock : Clock stamp clock) (input : List Char) :
    parseMessages stamp (render clock (parseMessages stamp input)) = parseMessages stamp input := by
  have hholds : ∀ m ∈ parseMessages stamp input, Holds stamp (renderRow clock m) m := by
    intro m hm
    obtain ⟨-, time, htime⟩ := mem_parseMessages hm
    exact holds_renderRow hclock htime
  have hlines : ∀ line ∈ (parseMessages stamp input).map (renderRow clock), '\n' ∉ line := by
    intro line hline
    obtain ⟨m, hm, rfl⟩ := List.mem_map.mp hline
    exact (hholds m hm).oneLine
  have htext : render clock (parseMessages stamp input) =
      ((parseMessages stamp input).map (renderRow clock)).flatMap (· ++ ['\n']) := by
    rw [List.flatMap_map]
    rfl
  calc
    parseMessages stamp (render clock (parseMessages stamp input))
      = ((parseMessages stamp input).map (renderRow clock)).filterMap
          (readLine (parseRowMessage stamp)) := by
      rw [htext]
      exact readRows_terminated _ hlines
    _ = (parseMessages stamp input).filterMap some := by
      rw [List.filterMap_map]
      exact List.filterMap_congr fun m hm => readLine_holds (mem_parseMessages hm).1 (hholds m hm)
    _ = parseMessages stamp input := List.filterMap_some

def printTime (n : Nat) : List Char := digits (n / 10 ^ 6) ++ '.' :: padded 6 (n % 10 ^ 6)

theorem microseconds_printTime (n : Nat) : microseconds (printTime n) = some n := by
  have hpoint : Ends ('.' :: padded 6 (n % 10 ^ 6)) := by simp [Ends]
  have hrest : (printTime n).dropWhile Char.isDigit = '.' :: padded 6 (n % 10 ^ 6) := by
    rw [printTime, List.dropWhile_append_of_pos fun c hc => isDigit_digits hc]
    rfl
  have hfrac : (padded 6 (n % 10 ^ 6)).all Char.isDigit = true :=
    List.all_eq_true.mpr fun c hc => isDigit_padded hc
  have hvalue : value (digits (n / 10 ^ 6) ++ padded 6 (n % 10 ^ 6)) = n := by
    rw [value_append, value_digits, value_padded, length_padded, Nat.mod_mod]
    omega
  obtain ⟨c, cs, hcs⟩ := List.exists_cons_of_ne_nil (digits_ne_nil (n / 10 ^ 6))
  have hwhole : (printTime n).takeWhile Char.isDigit = c :: cs :=
    (takeWhile_digits _ hpoint).trans hcs
  rw [microseconds, hwhole, hrest]
  dsimp only
  rw [if_pos ⟨rfl, hfrac⟩, ← hcs, hvalue, length_padded]
  congr 1
  omega

theorem clock_microseconds : Clock microseconds printTime where
  reads _ n _ := microseconds_printTime n
  plain n c hc := by
    have hdigit : c.isDigit = true → isSpace c = false ∧ c ≠ ',' := by
      intro h
      refine ⟨not_isSpace_of_isDigit h, ?_⟩
      rintro rfl
      cases h
    obtain hc | hc := List.mem_append.mp hc
    · exact hdigit (isDigit_digits hc)
    · obtain rfl | hc := List.mem_cons.mp hc
      · decide
      · exact hdigit (isDigit_padded hc)

theorem parseMessages_canonical_padded :
    parseMessages microseconds
      (render printTime (parseMessages microseconds (paddedRows.flatMap Prod.fst))) =
      parseMessages microseconds (paddedRows.flatMap Prod.fst) ∧
      parseMessages microseconds (paddedRows.flatMap Prod.fst) = [⟨1500000, 1, 7, 5, 9, -1⟩] :=
  ⟨parseMessages_canonical microseconds printTime clock_microseconds _, by decide⟩

/-- Both readers take the same rows, but for trading halts. -/
theorem parse_eq (stamp : List Char → Option Nat) (input : List Char) :
    parse stamp input = (parseMessages stamp input).filterMap toOrder := by
  rw [parse, parseMessages, readRows, readRows, List.filterMap_filterMap]
  refine List.filterMap_congr fun line _ => ?_
  rw [readLine, readLine]
  split
  · rfl
  · rfl

end

end OrderMatching.LobsterParser
