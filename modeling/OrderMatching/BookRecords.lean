import OrderMatching.Delimited
import OrderMatching.Numerals

namespace OrderMatching.BookRecords

open OrderMatching.Delimited OrderMatching.Numerals

abbrev BookLevels := List (Int × Nat)

def writeLevel (lvl : Int × Nat) : List Char :=
  '[' :: (decimal lvl.1 ++ ',' :: (digits lvl.2 ++ [']']))

def writeLevels (levels : BookLevels) : List Char :=
  '[' :: ([','].intercalate (levels.map writeLevel) ++ [']'])

def key (name : List Char) : List Char := ',' :: '"' :: (name ++ ['"', ':'])

/-- `write_book_record` without the newline at its end. -/
def bookRecord (tNs seq : Nat) (bids asks : BookLevels) : List Char :=
  ['\x7b', '"', 't', '"', ':'] ++ (digits tNs ++ (key ['s', 'e', 'q'] ++ (digits seq ++
    (key ['b', 'i', 'd', 's'] ++
      (writeLevels bids ++ (key ['a', 's', 'k', 's'] ++ (writeLevels asks ++ ['\x7d'])))))))

def writeBookRecord (tNs seq : Nat) (bids asks : BookLevels) : List Char :=
  bookRecord tNs seq bids asks ++ ['\n']

theorem ends_cons {c : Char} (h : c.isDigit = false) (rest : List Char) : Ends (c :: rest) := by
  rintro d ⟨⟩
  exact h

theorem ends_key (name rest : List Char) : Ends (key name ++ rest) := ends_cons rfl _

theorem digits_append_inj {m n : Nat} {r r' : List Char} (hr : Ends r) (hr' : Ends r')
    (h : digits m ++ r = digits n ++ r') : m = n ∧ r = r' := by
  have hdigits : digits m = digits n := by rw [← takeWhile_digits m hr, h, takeWhile_digits n hr']
  rw [hdigits] at h
  exact ⟨digits_injective hdigits, List.append_cancel_left h⟩

theorem decimal_append_inj {y z : Int} {r r' : List Char} (hr : Ends r) (hr' : Ends r')
    (h : decimal y ++ r = decimal z ++ r') : y = z ∧ r = r' := by
  have hscan := scan_decimal y hr
  rw [h, scan_decimal z hr', Option.some.injEq, Prod.mk.injEq, decide_eq_decide] at hscan
  have heq : y = z := by omega
  rw [heq] at h
  exact ⟨heq, List.append_cancel_left h⟩

theorem writeLevel_append_inj {l l' : Int × Nat} {r r' : List Char}
    (h : writeLevel l ++ r = writeLevel l' ++ r') :
    l = l' ∧ r = r' := by
  simp only [writeLevel, List.cons_append, List.append_assoc, List.cons.injEq, true_and] at h
  obtain ⟨hprice, h⟩ := decimal_append_inj (ends_cons rfl _) (ends_cons rfl _) h
  obtain ⟨hqty, h⟩ := digits_append_inj (ends_cons rfl _) (ends_cons rfl _) (List.cons.inj h).2
  exact ⟨Prod.ext hprice hqty, (List.cons.inj h).2⟩

theorem levels_append_inj {ls ls' : BookLevels} {r r' : List Char}
    (h : [','].intercalate (ls.map writeLevel) ++ ']' :: r =
      [','].intercalate (ls'.map writeLevel) ++ ']' :: r') :
    ls = ls' ∧ r = r' := by
  induction ls generalizing ls' with
  | nil =>
    cases ls' with
    | nil => exact ⟨rfl, (List.cons.inj h).2⟩
    | cons l' ls' => cases ls' <;> simp [writeLevel] at h
  | cons l ls ih =>
    cases ls' with
    | nil => cases ls <;> simp [writeLevel] at h
    | cons l' ls' =>
      cases ls with
      | nil =>
        cases ls' with
        | nil =>
          simp only [List.map_cons, List.map_nil, List.intercalate_singleton] at h
          obtain ⟨hl, hr⟩ := writeLevel_append_inj h
          exact ⟨by rw [hl], (List.cons.inj hr).2⟩
        | cons k' ks' =>
          simp only [List.map_cons, List.map_nil, List.intercalate_singleton,
            List.intercalate_cons_cons, List.append_assoc] at h
          obtain ⟨-, h⟩ := writeLevel_append_inj h
          simp at h
      | cons k ks =>
        cases ls' with
        | nil =>
          simp only [List.map_cons, List.map_nil, List.intercalate_singleton,
            List.intercalate_cons_cons, List.append_assoc] at h
          obtain ⟨-, h⟩ := writeLevel_append_inj h
          simp at h
        | cons k' ks' =>
          simp only [List.map_cons, List.intercalate_cons_cons, List.append_assoc] at h
          obtain ⟨hl, h⟩ := writeLevel_append_inj h
          have htail : [','].intercalate ((k :: ks).map writeLevel) ++ ']' :: r =
              [','].intercalate ((k' :: ks').map writeLevel) ++ ']' :: r' :=
                List.append_cancel_left h
          obtain ⟨hrest, hr⟩ := ih htail
          exact ⟨by rw [hl, hrest], hr⟩

theorem writeLevels_append_inj {ls ls' : BookLevels} {r r' : List Char}
    (h : writeLevels ls ++ r = writeLevels ls' ++ r') : ls = ls' ∧ r = r' := by
  simp only [writeLevels, List.cons_append, List.append_assoc, List.cons.injEq, true_and,
    List.nil_append] at h
  exact levels_append_inj h

/-- A record determines all that it was written from. -/
theorem bookRecord_inj {t t' seq seq' : Nat} {bids bids' asks asks' : BookLevels}
    (h : bookRecord t seq bids asks = bookRecord t' seq' bids' asks') :
    t = t' ∧ seq = seq' ∧ bids = bids' ∧ asks = asks' := by
  obtain ⟨ht, h⟩ := digits_append_inj (ends_key _ _) (ends_key _ _) (List.append_cancel_left h)
  obtain ⟨hseq, h⟩ := digits_append_inj (ends_key _ _) (ends_key _ _) (List.append_cancel_left h)
  obtain ⟨hbids, h⟩ := writeLevels_append_inj (List.append_cancel_left h)
  obtain ⟨hasks, -⟩ := writeLevels_append_inj (List.append_cancel_left h)
  exact ⟨ht, hseq, hbids, hasks⟩

theorem not_newline_numeric {c : Char} (h : isNumeric c = true) : c ≠ '\n' := by
  rintro rfl
  cases h

theorem oneLine_digits (n : Nat) : '\n' ∉ digits n := fun h =>
  not_newline_numeric (by simp [isNumeric, isDigit_digits h]) rfl

theorem oneLine_decimal (z : Int) : '\n' ∉ decimal z :=
  fun h => not_newline_numeric (numeric_decimal h) rfl

theorem oneLine_writeLevels (levels : BookLevels) : '\n' ∉ writeLevels levels := by
  have hinner : '\n' ∉ [','].intercalate (levels.map writeLevel) := by
    refine not_mem_intercalate (by decide) fun p hp => ?_
    obtain ⟨lvl, -, rfl⟩ := List.mem_map.mp hp
    simp [writeLevel, oneLine_decimal, oneLine_digits]
  simp [writeLevels, hinner]

theorem oneLine_bookRecord (t seq : Nat) (bids asks : BookLevels) :
    '\n' ∉ bookRecord t seq bids asks := by
  simp only [bookRecord, List.mem_append, not_or]
  exact ⟨by decide, oneLine_digits t, by decide, oneLine_digits seq, by decide,
    oneLine_writeLevels bids, by decide, oneLine_writeLevels asks, by decide⟩

structure Record where
  tNs : Nat
  seq : Nat
  bids : BookLevels
  asks : BookLevels
  deriving DecidableEq

def Record.write (r : Record) : List Char := writeBookRecord r.tNs r.seq r.bids r.asks

/-- A file of records can be read in one way only. -/
theorem records_injective : Function.Injective fun rs : List Record => rs.flatMap Record.write := by
  intro rs rs' h
  have hpieces : ∀ rs : List Record, pieces '\n' (rs.flatMap Record.write) =
      rs.map fun r => bookRecord r.tNs r.seq r.bids r.asks := by
    intro rs
    have hone : ∀ p ∈ rs.map (fun r => bookRecord r.tNs r.seq r.bids r.asks), '\n' ∉ p := by
      intro p hp
      obtain ⟨r, -, rfl⟩ := List.mem_map.mp hp
      exact oneLine_bookRecord r.tNs r.seq r.bids r.asks
    have hread := pieces_terminated hone
    rwa [List.flatMap_map] at hread
  have hlines := congrArg (pieces '\n') h
  dsimp only at hlines
  rw [hpieces, hpieces] at hlines
  refine List.map_injective_iff.mpr ?_ hlines
  intro r r' hr
  obtain ⟨h1, h2, h3, h4⟩ := bookRecord_inj hr
  cases r
  cases r'
  simp_all

end OrderMatching.BookRecords
