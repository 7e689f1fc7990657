import OrderMatching.Codec
import OrderMatching.Commands

namespace OrderMatching.Log

open OrderMatching.Orders OrderMatching.Commands OrderMatching.Codec

def walHeaderSize : Nat := 16

def walMaxPayload : UInt32 := 64 * 1024

def commandCode : CommandType → UInt8
  | .sessionOpened => 0
  | .newOrder => 1
  | .cancel => 2
  | .modify => 3
  | .subscribe => 4
  | .cancelAllForSession => 5

/-- `is_known_command_type` with the cast that follows it. -/
def knownCommandType (t : UInt8) : Option CommandType :=
  if t = 0 then some .sessionOpened
  else if t = 1 then some .newOrder
  else if t = 2 then some .cancel
  else if t = 3 then some .modify
  else if t = 4 then some .subscribe
  else if t = 5 then some .cancelAllForSession
  else none

def sideCode : Side → UInt8
  | .bid => 0
  | .ask => 1

def knownSide (t : UInt8) : Option Side :=
  if t > 1 then none else if t = 0 then some .bid else some .ask

def orderTypeCode : Commands.OrderType → UInt8
  | .market => 0
  | .limit => 1

def knownOrderType (t : UInt8) : Option Commands.OrderType :=
  if t > 1 then none else if t = 0 then some .market else some .limit

def encodeCommand (c : OrderCommand) : List UInt8 :=
  putU8 (commandCode c.type) ++
    (putU64 c.session ++ (putU64 c.clientOrderId ++ (putI64 c.priceTicks ++
    (putU32 c.quantity ++ (putU8 (sideCode c.side) ++ putU8 (orderTypeCode c.orderType))))))

def decodeCommand (data : List UInt8) : Option OrderCommand :=
  let (type, r) := Reader.u8 ⟨data, true⟩
  let (session, r) := r.u64
  let (clientOrderId, r) := r.u64
  let (priceTicks, r) := r.i64
  let (quantity, r) := r.u32
  let (side, r) := r.u8
  let (otype, r) := r.u8
  if r.ok = false ∨ r.remaining ≠ 0 then none
  else
    match knownCommandType type, knownSide side, knownOrderType otype with
    | some t, some s, some o =>
      some ⟨t, session, clientOrderId, priceTicks, quantity, s, o, none, none⟩
    | _, _, _ => none

def record (seq : UInt64) (c : OrderCommand) : List UInt8 :=
  putU32 (UInt32.ofNat (encodeCommand c).length) ++ (putU32 (crc32 (encodeCommand c) 0) ++
    (putU64 seq ++ encodeCommand c))

structure WalReadResult where
  commands : List OrderCommand
  firstSeq : UInt64
  lastSeq : UInt64
  truncatedBytes : Nat
  sequenceGap : Bool
  gapAfter : UInt64
  error : String
  deriving DecidableEq

def WalReadResult.empty : WalReadResult := ⟨[], 0, 0, 0, false, 0, ""⟩

inductive Found where
  | record (seq : UInt64) (c : OrderCommand) (rest : List UInt8)
  | torn

def nextRecord (rest : List UInt8) : Found :=
  let (len, r) := Reader.u32 ⟨rest.take walHeaderSize, true⟩
  let (wantCrc, r) := r.u32
  let (seq, _) := r.u64
  if len > walMaxPayload then .torn
  else if walHeaderSize + len.toNat > rest.length then .torn
  else
    let payload := (rest.drop walHeaderSize).take len.toNat
    if crc32 payload 0 ≠ wantCrc then .torn
    else
      match decodeCommand payload with
      | none => .torn
      | some c => .record seq c (rest.drop (walHeaderSize + len.toNat))

/-- The loop of `read_wal` over the bytes from its position on. A record takes
at least a header, so the number of bytes bounds the number of rounds. -/
def readLoop : Nat → List UInt8 → WalReadResult → WalReadResult
  | 0, rest, r => { r with truncatedBytes := rest.length }
  | n + 1, rest, r =>
    if walHeaderSize ≤ rest.length then
      match nextRecord rest with
      | .torn => { r with truncatedBytes := rest.length }
      | .record seq c rest' =>
        if r.lastSeq ≠ 0 ∧ seq ≠ r.lastSeq + 1 then
          { r with sequenceGap := true, gapAfter := r.lastSeq, truncatedBytes := rest.length }
        else
          readLoop n rest'
            { r with
              firstSeq := if r.commands.isEmpty then seq else r.firstSeq
              commands := r.commands ++ [c]
              lastSeq := seq }
    else { r with truncatedBytes := rest.length }

/-- A file is its bytes, or the text of the error that opening it gives. -/
def readWal (path : String) (file : Except String (List UInt8)) : WalReadResult :=
  match file with
  | .error e => { WalReadResult.empty with error := "cannot open " ++ path ++ ": " ++ e }
  | .ok buf => readLoop buf.length buf WalReadResult.empty

structure WalConfig where
  syncIntervalNs : UInt64
  syncEveryN : UInt64
  fullSync : Bool

def WalConfig.default : WalConfig := ⟨10 * 1000 * 1000, 100, true⟩

structure Wal where
  isOpen : Bool
  file : List UInt8
  path : String
  error : String
  cfg : WalConfig
  seq : UInt64
  sinceSync : UInt64
  lastSyncNs : UInt64
  syncs : UInt64
  truncated : UInt64

def Wal.sync (w : Wal) : Wal :=
  if w.isOpen = false ∨ w.sinceSync = 0 then w else { w with sinceSync := 0, syncs := w.syncs + 1 }

def Wal.close (w : Wal) : Wal := if w.isOpen then { w.sync with isOpen := false } else w

def Wal.maybeSync (w : Wal) (nowNs : UInt64) : Wal :=
  if w.sinceSync ≥ w.cfg.syncEveryN ∨
      (nowNs > w.lastSyncNs ∧ nowNs - w.lastSyncNs ≥ w.cfg.syncIntervalNs) then
    { w.sync with lastSyncNs := nowNs }
  else w

def Wal.pollSync (w : Wal) (nowNs : UInt64) : Wal := w.maybeSync nowNs

/-- `Wal::open`: append mode keeps the bytes that are there and creates a
missing file. `refused` is the error of a call that fails. -/
def Wal.openLog (w : Wal) (path : String) (file : Except String (List UInt8))
    (nowNs startSeq : UInt64) (cfg : WalConfig) (refused : Option String) : Bool × Wal :=
  let w := { w.close with cfg := cfg, seq := startSeq, lastSyncNs := nowNs }
  match refused with
  | some e => (false, { w with error := "cannot open " ++ path ++ ": " ++ e })
  | none => (true, { w with isOpen := true, file := file.toOption.getD [], path := path })

structure Written where
  count : Nat
  error : String

def Wal.writeAll (w : Wal) (data : List UInt8) (k : Written) : Bool × Wal :=
  if data.length ≤ k.count then (true, { w with file := w.file ++ data })
  else
    (false,
      { w with file := w.file ++ data.take k.count, error := "wal write failed: " ++ k.error })

def Wal.append (w : Wal) (c : OrderCommand) (nowNs : UInt64) (k : Written) : Bool × Wal :=
  if w.isOpen then
    let r := ({ w with seq := w.seq + 1 } : Wal).writeAll (record (w.seq + 1) c) k
    if r.1 then (true, ({ r.2 with sinceSync := r.2.sinceSync + 1 } : Wal).maybeSync nowNs)
    else (false, r.2)
  else (false, w)

/-- The call of `truncate_before` that fails, if one does. -/
inductive TruncateFault where
  | read
  | create
  | write
  | rename
  | reopen
  deriving DecidableEq

def keptRecords (keepAfter : UInt64) : UInt64 → List OrderCommand → List UInt8 × UInt64
  | _, [] => ([], 0)
  | seq, c :: cs =>
    let rest := keptRecords keepAfter (seq + 1) cs
    if seq ≤ keepAfter then rest else (record seq c ++ rest.1, rest.2 + 1)

/-- Rewrites the log without the records up to `keepAfter`. Its descriptor is
closed first and opened again only at the end. -/
def Wal.truncateBefore (w : Wal) (keepAfter : UInt64) (fault : Option (TruncateFault × String)) :
    Except String Unit × Wal :=
  if w.isOpen = false then (.error "wal not open", w)
  else
    let w := { w.sync with isOpen := false }
    let rd := readWal w.path (.ok w.file)
    let out := keptRecords keepAfter rd.firstSeq rd.commands
    match fault with
    | some (.read, e) => (.error ("cannot open " ++ w.path ++ ": " ++ e), w)
    | some (.create, e) => (.error ("truncate: cannot create temp: " ++ e), w)
    | some (.write, e) => (.error ("truncate: write failed: " ++ e), w)
    | some (.rename, e) => (.error ("truncate: rename failed: " ++ e), w)
    | some (.reopen, e) => (.error ("truncate: cannot reopen: " ++ e), { w with file := out.1 })
    | none =>
      (.ok (), { w with
        isOpen := true, file := out.1
        truncated := w.truncated + (UInt64.ofNat rd.commands.length - out.2) })

end OrderMatching.Log
