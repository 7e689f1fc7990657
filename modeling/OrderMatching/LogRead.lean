import OrderMatching.Log

namespace OrderMatching.LogRead

open OrderMatching.Orders OrderMatching.Commands OrderMatching.Codec
open OrderMatching.Log

/-- A command as it comes back from the disk: the queue pointers are gone. -/
def detached (c : OrderCommand) : OrderCommand := { c with egress := none, mdQueue := none }

@[simp] theorem length_encodeCommand (c : OrderCommand) : (encodeCommand c).length = 31 := by
  simp [encodeCommand]

@[simp] theorem length_record (seq : UInt64) (c : OrderCommand) : (record seq c).length = 47 := by
  simp [record]

@[simp] theorem knownCommandType_code (t : CommandType) :
    knownCommandType (commandCode t) = some t := by
  cases t <;> rfl

@[simp] theorem knownSide_code (s : Side) : knownSide (sideCode s) = some s := by cases s <;> rfl

@[simp] theorem knownOrderType_code (o : Commands.OrderType) :
    knownOrderType (orderTypeCode o) = some o := by
  cases o <;> rfl

theorem decodeCommand_encodeCommand (c : OrderCommand) :
    decodeCommand (encodeCommand c) = some (detached c) := by
  have hlast : Reader.u8 ⟨putU8 (orderTypeCode c.orderType), true⟩ =
      (orderTypeCode c.orderType, ⟨[], true⟩) := by
    simpa using u8_putU8 (orderTypeCode c.orderType) []
  simp [decodeCommand, encodeCommand, hlast, Reader.remaining, detached]

theorem nextRecord_record (seq : UInt64) (c : OrderCommand) (rest : List UInt8) :
    nextRecord (record seq c ++ rest) = .record seq (detached c) rest := by
  let header := putU32 31 ++ (putU32 (crc32 (encodeCommand c) 0) ++ putU64 seq)
  have hlen : header.length = walHeaderSize := by simp [header, walHeaderSize]
  have hrec : record seq c ++ rest = header ++ (encodeCommand c ++ rest) := by
    simp [record, header]
  have htake : (record seq c ++ rest).take walHeaderSize = header := by
    rw [hrec, List.take_left' hlen]
  have hdrop : (record seq c ++ rest).drop walHeaderSize = encodeCommand c ++ rest := by
    rw [hrec, List.drop_left' hlen]
  have hpay : (encodeCommand c ++ rest).take 31 = encodeCommand c := List.take_left' (by simp)
  have hrest : (record seq c ++ rest).drop (walHeaderSize + 31) = rest :=
    List.drop_left' (by simp [walHeaderSize])
  have hseq : Reader.u64 ⟨putU64 seq, true⟩ = (seq, ⟨[], true⟩) := by simpa using u64_putU64 seq []
  have hroom : ¬walHeaderSize + 31 > (record seq c ++ rest).length := by
    simp only [walHeaderSize, List.length_append, length_record]
    omega
  have hsmall : ¬(31 : UInt32) > walMaxPayload := by decide
  simp only [nextRecord, htake, header, u32_putU32, hsmall, if_false,
    show (31 : UInt32).toNat = 31 from rfl, hroom, hdrop, hpay, ne_eq, not_true_eq_false,
    decodeCommand_encodeCommand, hrest, hseq]

theorem nextRecord_short {seq : UInt64} {c : OrderCommand} {k : Nat} (hlow : walHeaderSize ≤ k)
    (hk : k < 47) :
    nextRecord ((record seq c).take k) = .torn := by
  let tail := putU32 (crc32 (encodeCommand c) 0) ++ putU64 seq
  have hlen : (putU32 31 ++ tail).length = walHeaderSize := by simp [tail, walHeaderSize]
  have hrec : record seq c = (putU32 31 ++ tail) ++ encodeCommand c := by simp [record, tail]
  have htake : ((record seq c).take k).take walHeaderSize = putU32 31 ++ tail := by
    rw [List.take_take, Nat.min_eq_left hlow, hrec, List.take_left' hlen]
  have hroom : walHeaderSize + 31 > ((record seq c).take k).length := by
    simp only [walHeaderSize, List.length_take, length_record]
    omega
  have hsmall : ¬(31 : UInt32) > walMaxPayload := by decide
  simp only [nextRecord, htake, u32_putU32, hsmall, if_false,
    show (31 : UInt32).toNat = 31 from rfl, hroom, if_true]

/-- The records of a list of commands, numbered from `seq + 1`. -/
def records : UInt64 → List OrderCommand → List UInt8
  | _, [] => []
  | seq, c :: cs => record (seq + 1) c ++ records (seq + 1) cs

def Torn (tail : List UInt8) : Prop := tail.length < walHeaderSize ∨ nextRecord tail = .torn

theorem torn_nil : Torn [] := Or.inl (by decide)

theorem torn_take (seq : UInt64) (c : OrderCommand) {k : Nat} (hk : k < 47) :
    Torn ((record seq c).take k) := by
  by_cases h : walHeaderSize ≤ k
  · exact Or.inr (nextRecord_short h hk)
  · have hl : ((record seq c).take k).length ≤ k := List.length_take_le k _
    exact Or.inl (by omega)

theorem seq_succ (seq : UInt64) (n : Nat) :
    seq + 1 + UInt64.ofNat n = seq + UInt64.ofNat (n + 1) := by
  rw [UInt64.ofNat_add, UInt64.add_assoc, UInt64.add_comm 1]
  rfl

theorem records_append (seq : UInt64) (cs ds : List OrderCommand) :
    records seq (cs ++ ds) = records seq cs ++ records (seq + UInt64.ofNat cs.length) ds := by
  induction cs generalizing seq with
  | nil => simp [records]
  | cons c cs ih =>
    rw [List.cons_append, records, records, ih, List.length_cons, ← seq_succ, List.append_assoc]

theorem length_records (seq : UInt64) (cs : List OrderCommand) :
    (records seq cs).length = 47 * cs.length := by
  induction cs generalizing seq with
  | nil => rfl
  | cons c cs ih =>
    simp only [records, List.length_append, length_record, ih, List.length_cons]
    omega

theorem readLoop_torn {tail : List UInt8} (h : Torn tail) (n : Nat) (r : WalReadResult) :
    readLoop n tail r = { r with truncatedBytes := tail.length } := by
  cases n with
  | zero => rfl
  | succ n =>
    by_cases hl : walHeaderSize ≤ tail.length
    · have ht : nextRecord tail = .torn := by
        obtain h | h := h
        · omega
        · exact h
      simp [readLoop, hl, ht]
    · simp [readLoop, hl]

theorem error_readLoop (n : Nat) (rest : List UInt8) (r : WalReadResult) :
    (readLoop n rest r).error = r.error := by
  induction n generalizing rest r with
  | zero => rfl
  | succ n ih =>
    rw [readLoop]
    split
    · split
      · rfl
      · split
        · rfl
        · exact ih _ _
    · rfl

/-- What the reader has collected after the records of `cs`. -/
def collect (r : WalReadResult) (seq : UInt64) (cs : List OrderCommand) : WalReadResult :=
  { r with
    commands := r.commands ++ cs.map detached
    firstSeq := if r.commands = [] ∧ cs ≠ [] then seq + 1 else r.firstSeq
    lastSeq := if cs = [] then r.lastSeq else seq + UInt64.ofNat cs.length }

/-- The reader over intact records: it collects them all and goes on behind
them. The numbering it has seen so far, if any, must lead up to them. -/
theorem readLoop_records (rest : List UInt8) (seq : UInt64) (cs : List OrderCommand) (n : Nat)
    (r : WalReadResult) (hr : r.lastSeq = 0 ∨ r.lastSeq = seq) :
    readLoop (n + cs.length) (records seq cs ++ rest) r = readLoop n rest (collect r seq cs) := by
  induction cs generalizing seq r with
  | nil => simp [records, collect]
  | cons c cs ih =>
    have hlen : walHeaderSize ≤ (records seq (c :: cs) ++ rest).length := by
      simp only [records, List.length_append, length_record, walHeaderSize]
      omega
    have hnext : nextRecord (records seq (c :: cs) ++ rest) =
        .record (seq + 1) (detached c) (records (seq + 1) cs ++ rest) := by
      rw [records, List.append_assoc, nextRecord_record]
    have hgap : ¬(r.lastSeq ≠ 0 ∧ seq + 1 ≠ r.lastSeq + 1) := by
      obtain h | h := hr <;> simp [h]
    rw [List.length_cons, ← Nat.add_assoc, readLoop, if_pos hlen, hnext]
    simp only [hgap, if_false]
    rw [ih (seq + 1) _ (Or.inr rfl)]
    apply congrArg (readLoop n rest)
    cases cs with
    | nil => simp [collect]
    | cons d ds => simpa [collect] using seq_succ seq (d :: ds).length

/-- An intact log with a torn tail reads back as its commands. -/
theorem readWal_records {tail : List UInt8} (ht : Torn tail) (path : String) (seq : UInt64)
    (cs : List OrderCommand) :
    readWal path (.ok (records seq cs ++ tail)) =
      ⟨cs.map detached, if cs = [] then 0 else seq + 1,
        if cs = [] then 0 else seq + UInt64.ofNat cs.length,
        tail.length, false, 0, ""⟩ := by
  have hn : (records seq cs ++ tail).length = 46 * cs.length + tail.length + cs.length := by
    rw [List.length_append, length_records]
    omega
  rw [readWal, hn, readLoop_records tail seq cs _ WalReadResult.empty (Or.inl rfl),
    readLoop_torn ht]
  cases cs <;> simp [WalReadResult.empty, collect]

end OrderMatching.LogRead
