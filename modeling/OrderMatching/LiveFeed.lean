import OrderMatching.BookRecords
import OrderMatching.Clients
import OrderMatching.Outbound

namespace OrderMatching.LiveFeed

open OrderMatching.Orders OrderMatching.Codec OrderMatching.Protocol OrderMatching.Network
open OrderMatching.Wire OrderMatching.Messages OrderMatching.MatchingThread OrderMatching.Broadcast
open OrderMatching.MarketData OrderMatching.Sessions OrderMatching.Subscriptions
open OrderMatching.Sockets OrderMatching.StructPack OrderMatching.Clients OrderMatching.Numerals
open OrderMatching.BookRecords

def parseLevels : Nat → List UInt8 → Nat → Option (List (Int × Int))
  | 0, _, _ => some []
  | k + 1, payload, off =>
    match unpackFrom [formatSignedQ, formatQ] (payload.drop off) with
    | some [ticks, qty] => (parseLevels k payload (off + 16)).map ((ticks, qty) :: ·)
    | _ => none

def parseBookUpdate (payload : List UInt8) : Option (Int × List (Int × Int) × List (Int × Int)) :=
  match unpackFrom [formatQ, formatB, formatB] payload with
  | some [seq, nBids, nAsks] =>
    (parseLevels (nBids + nAsks).toNat payload 10).map fun levels =>
      (seq, levels.take nBids.toNat, levels.drop nBids.toNat)
  | _ => none

/-- The values that `json.dumps` is given here. -/
inductive Json where
  | int (z : Int)
  | list (xs : List Json)
  | dict (items : List (List Char × Json))

mutual

/-- `json.dumps` with the separators `,` and `:`. -/
def Json.dumps : Json → List Char
  | .int z => decimal z
  | .list xs => '[' :: ([','].intercalate (dumpsAll xs) ++ [']'])
  | .dict items => '\x7b' :: ([','].intercalate (dumpsItems items) ++ ['\x7d'])

def dumpsAll : List Json → List (List Char)
  | [] => []
  | x :: xs => x.dumps :: dumpsAll xs

def dumpsItems : List (List Char × Json) → List (List Char)
  | [] => []
  | (k, x) :: items => ('"' :: (k ++ '"' :: ':' :: x.dumps)) :: dumpsItems items

end

def levelsJson (levels : List (Int × Int)) : Json :=
  .list (levels.map fun l => .list [.int l.1, .int l.2])

def recordJson (t : Nat) (seq : Int) (bids asks : List (Int × Int)) : Json :=
  .dict [(['t'], .int t), (['s', 'e', 'q'], .int seq), (['b', 'i', 'd', 's'], levelsJson bids),
    (['a', 's', 'k', 's'], levelsJson asks)]

def subscribe (depth : Int) : Option (List UInt8) := (pack [formatB] [depth]).bind (frame 4)

def reasons (reason : Int) : Option String :=
  if reason = 6 then some "MALFORMED"
  else if reason = 7 then some "RATE_LIMITED"
  else if reason = 8 then some "NOT_SUBSCRIBED"
  else if reason = 11 then some "NOT_IMPLEMENTED"
  else none

def disconnectText : Disconnect → String
  | .closed got wanted =>
    "gateway closed after " ++ toString got ++ " of " ++ toString wanted ++ " bytes"
  | .timedOut => "timed out"

structure Args where
  depth : Int
  limit : Int

inductive Exit where
  | status (code : Nat)
  | traceback
  deriving DecidableEq

/-- What the script has written to its file, to the gateway and to the standard
error stream, and how many updates it counts. -/
structure Bridge where
  out : List Char
  sent : List (List UInt8)
  errors : List String
  count : Nat

def Bridge.empty : Bridge := ⟨[], [], [], 0⟩

def Bridge.say (b : Bridge) (line : String) : Bridge := { b with errors := b.errors ++ [line] }

def Bridge.sendall (b : Bridge) (bytes : List UInt8) : Bridge :=
  { b with sent := b.sent ++ [bytes] }

def Bridge.write (b : Bridge) (line : List Char) : Bridge :=
  { b with out := b.out ++ line, count := b.count + 1 }

def Bridge.summary (b : Bridge) : Bridge := b.say ("wrote " ++ toString b.count ++ " book updates")

/-- The body of the loop after a frame has come, and the end of the script if it
does not go on. `clock` is what `time_ns` says, update by update. -/
def Bridge.handle (clock : Nat → Nat) (limit : Int) (b : Bridge) (msgType : Int)
    (payload : List UInt8) :
    Bridge × Option Exit :=
  if msgType = 13 then
    match parseBookUpdate payload with
    | none => (b, some .traceback)
    | some (seq, bids, asks) =>
      let b := b.write ((recordJson (clock b.count) seq bids asks).dumps ++ ['\n'])
      -- a negative limit is one too, and reached at once
      if limit ≠ 0 ∧ b.count ≥ limit then (b.summary, some (.status 0)) else (b, none)
  else if msgType = 14 then
    match frame 14 payload with
    | none => (b, some .traceback)
    | some bytes => (b.sendall bytes, none)
  else if msgType = 11 then
    match unpack [formatQ, formatH] payload with
    | some [_, reason] =>
      (b.say ("rejected: " ++ (reasons reason).getD (toString reason)), some (.status 1))
    | _ => (b, some .traceback)
  else (b, none)

def Bridge.loop (clock : Nat → Nat) (limit : Int) (s : Socket) (b : Bridge) : Bridge × Exit :=
  match _h : recvFrame s with
  | .error (.disconnected d) => ((b.say ("disconnected: " ++ disconnectText d)).summary, .status 0)
  | .error .structError => (b, .traceback)
  | .ok ((msgType, _, payload), s) =>
    match b.handle clock limit msgType payload with
    | (b, some exit) => (b, exit)
    | (b, none) => b.loop clock limit s
termination_by s.bytes.length
decreasing_by exact recvFrame_lt _h

def main (clock : Nat → Nat) (args : Args) (s : Socket) : Bridge × Exit :=
  match subscribe args.depth with
  | none => (.empty, .traceback)
  | some bytes =>
    ((Bridge.empty.sendall bytes).say ("subscribed at depth " ++ toString args.depth)).loop
      clock args.limit s

def levelOf (l : BookLevel) : Int × Nat := (l.priceTicks.toInt, l.quantity.toNat)

def pairOf (l : Int × Nat) : Int × Int := (l.1, l.2)

def valuesOf (m : BookUpdate) : Int × List (Int × Int) × List (Int × Int) :=
  (m.seq.toNat, (m.bids.map levelOf).map pairOf, (m.asks.map levelOf).map pairOf)

theorem encodeLevel_eq (l : BookLevel) :
    encodeLevel l = formatSignedQ.put l.priceTicks.toInt ++ formatQ.put l.quantity.toNat := by
  rw [encodeLevel, putI64_eq, putU64_eq]

theorem unpackFrom_encodeLevel (l : BookLevel) (rest : List UInt8) :
    unpackFrom [formatSignedQ, formatQ] (encodeLevel l ++ rest) =
      some [l.priceTicks.toInt, (l.quantity.toNat : Int)] := by
  rw [encodeLevel_eq, List.append_assoc, unpackFrom_put (holds_i64 l.priceTicks),
    unpackFrom_put (holds_u64 l.quantity)]
  rfl

theorem parseLevels_encode (ls : List BookLevel) {payload rest : List UInt8} {off : Nat}
    (h : payload.drop off = ls.flatMap encodeLevel ++ rest) :
    parseLevels ls.length payload off = some ((ls.map levelOf).map pairOf) := by
  induction ls generalizing off with
  | nil => rfl
  | cons l ls ih =>
    rw [List.flatMap_cons, List.append_assoc] at h
    have hnext : payload.drop (off + 16) = ls.flatMap encodeLevel ++ rest := by
      rw [← List.drop_drop, h, List.drop_left' (length_encodeLevel l)]
    rw [List.length_cons, parseLevels, h, unpackFrom_encodeLevel]
    simp only [ih hnext, Option.map_some]
    rfl

theorem parseLevels_some {k off : Nat} {payload : List UInt8} {ls : List (Int × Int)}
    (h : parseLevels k payload off = some ls) :
    ls.length = k ∧
      ls.flatMap (fun l => formatSignedQ.put l.1 ++ formatQ.put l.2) <+: payload.drop off := by
  induction k generalizing off ls with
  | zero =>
    cases h
    exact ⟨rfl, List.nil_prefix⟩
  | succ k ih =>
    rw [parseLevels] at h
    split at h
    · rename_i ticks qty hlevel
      obtain ⟨ms, hms, rfl⟩ := Option.map_eq_some_iff.mp h
      obtain ⟨rest, hticks, -, hlevel⟩ := unpackFrom_cons hlevel
      obtain ⟨rest', hqty, -, -⟩ := unpackFrom_cons hlevel
      obtain ⟨hlen, hprefix⟩ := ih hms
      have hdrop : payload.drop off = (formatSignedQ.put ticks ++ formatQ.put qty) ++ rest' := by
        rw [hticks, hqty, List.append_assoc]
      have hnext : payload.drop (off + 16) = rest' := by
        rw [← List.drop_drop, hdrop]
        exact List.drop_left' (by simp [formatSignedQ, formatQ, Field.twos, Field.unsigned])
      rw [hnext] at hprefix
      refine ⟨by rw [List.length_cons, hlen], ?_⟩
      rw [List.flatMap_cons, hdrop]
      exact (List.prefix_append_right_inj _).mpr hprefix
    · cases h

theorem encodeBookUpdate_fields {m : BookUpdate} (hb : m.bids.length ≤ maxBookDepth)
    (ha : m.asks.length ≤ maxBookDepth) :
    encodeBookUpdate m =
      formatQ.put m.seq.toNat ++ (formatB.put m.bids.length ++ (formatB.put m.asks.length ++
      (m.bids ++ m.asks).flatMap encodeLevel)) := by
  have hcb := toNat_count hb
  have hca := toNat_count ha
  rw [encodeBookUpdate_eq hcb.symm hca.symm (hcb.trans_le hb) (hca.trans_le ha), putU64_eq,
    putU8_eq, putU8_eq, hcb, hca, List.flatMap_append]

theorem holds_count {n : Nat} (h : n ≤ maxBookDepth) : formatB.Holds n :=
  holds_natCast (by simp only [maxBookDepth] at h; omega)

theorem parseBookUpdate_encode {m : BookUpdate} (hb : m.bids.length ≤ maxBookDepth)
    (ha : m.asks.length ≤ maxBookDepth) (rest : List UInt8) :
    parseBookUpdate (encodeBookUpdate m ++ rest) = some (valuesOf m) := by
  have hfields := encodeBookUpdate_fields hb ha
  have hdrop : (encodeBookUpdate m ++ rest).drop 10 =
      (m.bids ++ m.asks).flatMap encodeLevel ++ rest := by
    have hlen :
        (formatQ.put m.seq.toNat ++
          (formatB.put m.bids.length ++ formatB.put m.asks.length)).length = 10 := by
      simp [formatQ, formatB, Field.unsigned]
    have hsplit : encodeBookUpdate m ++ rest =
        (formatQ.put m.seq.toNat ++ (formatB.put m.bids.length ++ formatB.put m.asks.length)) ++
          ((m.bids ++ m.asks).flatMap encodeLevel ++ rest) := by
      rw [hfields]
      simp only [List.append_assoc]
    rw [hsplit, List.drop_left' hlen]
  have hlevels := parseLevels_encode _ hdrop
  have hhead : unpackFrom [formatQ, formatB, formatB] (encodeBookUpdate m ++ rest) =
      some [(m.seq.toNat : Int), m.bids.length, m.asks.length] := by
    rw [hfields]
    simp only [List.append_assoc]
    rw [unpackFrom_put (holds_u64 m.seq), unpackFrom_put (holds_count hb),
      unpackFrom_put (holds_count ha)]
    rfl
  have hcount : ((m.bids.length : Int) + m.asks.length).toNat = (m.bids ++ m.asks).length := by
    rw [List.length_append]
    omega
  rw [parseBookUpdate, hhead]
  simp only [hcount, hlevels, Option.map_some, Int.toNat_natCast, List.map_append, valuesOf]
  rw [List.take_left' (by simp), List.drop_left' (by simp)]

theorem parseBookUpdate_some {payload : List UInt8} {seq : Int} {bids asks : List (Int × Int)}
    (h : parseBookUpdate payload = some (seq, bids, asks)) :
    formatQ.put seq ++ (formatB.put bids.length ++ (formatB.put asks.length ++
      (bids ++ asks).flatMap fun l => formatSignedQ.put l.1 ++ formatQ.put l.2)) <+: payload := by
  unfold parseBookUpdate at h
  split at h
  · rename_i number nBids nAsks hhead
    obtain ⟨levels, hlevels, hvalues⟩ := Option.map_eq_some_iff.mp h
    obtain ⟨rfl, hparts⟩ := Prod.mk.inj hvalues
    obtain ⟨hbids, hasks⟩ := Prod.mk.inj hparts
    obtain ⟨hlen, hprefix⟩ := parseLevels_some hlevels
    obtain ⟨r₁, hpayload, -, hhead₁⟩ := unpackFrom_cons hhead
    obtain ⟨r₂, hr₁, hnb, hhead₂⟩ := unpackFrom_cons hhead₁
    obtain ⟨r₃, hr₂, hna, -⟩ := unpackFrom_cons hhead₂
    have hcounts : nBids = bids.length ∧ nAsks = asks.length := by
      have hpos : 0 ≤ nBids ∧ 0 ≤ nAsks := ⟨hnb.1, hna.1⟩
      rw [← hbids, ← hasks, List.length_take, List.length_drop, hlen]
      omega
    have hdrop : payload.drop 10 = r₃ := by
      rw [hpayload, hr₁, hr₂, ← List.append_assoc, ← List.append_assoc]
      exact List.drop_left' (by simp [formatQ, formatB, Field.unsigned])
    rw [hdrop, ← List.take_append_drop nBids.toNat levels, hbids, hasks] at hprefix
    rw [hpayload, hr₁, hr₂, hcounts.1, hcounts.2]
    simpa only [List.prefix_append_right_inj] using hprefix
  · cases h

/-- The script and the gateway agree on the format: an update is found by the one
just where the other writes it. -/
theorem parseBookUpdate_iff (payload : List UInt8) (m : BookUpdate)
    (hb : m.bids.length ≤ maxBookDepth) (ha : m.asks.length ≤ maxBookDepth) :
    parseBookUpdate payload = some (valuesOf m) ↔ encodeBookUpdate m <+: payload := by
  constructor
  · intro h
    have hprefix := parseBookUpdate_some h
    have hlevels :
        (((m.bids.map levelOf).map pairOf) ++ ((m.asks.map levelOf).map pairOf)).flatMap
          (fun l => formatSignedQ.put l.1 ++ formatQ.put l.2) =
          (m.bids ++ m.asks).flatMap encodeLevel := by
      rw [← List.map_append, ← List.map_append, List.flatMap_map, List.flatMap_map]
      exact congrArg (List.flatMap · _) (funext fun l => (encodeLevel_eq l).symm)
    rw [hlevels, List.length_map, List.length_map, List.length_map, List.length_map] at hprefix
    rwa [encodeBookUpdate_fields hb ha]
  · rintro ⟨rest, rfl⟩
    exact parseBookUpdate_encode hb ha rest

theorem parseBookUpdate_iff_padded :
    parseBookUpdate (encodeBookUpdate ⟨7, [⟨-100, 10⟩], []⟩ ++ [0]) = some (7, [(-100, 10)], []) :=
  (parseBookUpdate_iff _ ⟨7, [⟨-100, 10⟩], []⟩ (by decide) (by decide)).mpr (List.prefix_append _ _)

theorem dumpsAll_eq (xs : List Json) : dumpsAll xs = xs.map Json.dumps := by
  induction xs with
  | nil => rfl
  | cons x xs ih => rw [dumpsAll, ih, List.map_cons]

theorem dumps_level (l : Int × Nat) : (Json.list [.int l.1, .int l.2]).dumps = writeLevel l := by
  simp [Json.dumps, dumpsAll, writeLevel, decimal]

theorem dumps_levels (ls : BookLevels) : (levelsJson (ls.map pairOf)).dumps = writeLevels ls := by
  have hmap : (ls.map pairOf).map (fun l => (Json.list [.int l.1, .int l.2]).dumps) =
      ls.map writeLevel := by
    rw [List.map_map]
    exact List.map_congr_left fun l _ => dumps_level l
  rw [levelsJson, Json.dumps, dumpsAll_eq, List.map_map, writeLevels, ← hmap]
  rfl

theorem dumps_record (t seq : Nat) (bids asks : BookLevels) :
    (recordJson t seq (bids.map pairOf) (asks.map pairOf)).dumps = bookRecord t seq bids asks := by
  simp [recordJson, Json.dumps, dumpsItems, dumps_levels, bookRecord, key, decimal]

def onWire (snap : BookSnapshot) : BookSnapshot :=
  let m := shortened (bookUpdate snap)
  ⟨m.seq.toNat, m.bids.map levelOf, m.asks.map levelOf⟩

def recordOf (tNs : Nat) (snap : BookSnapshot) : List Char :=
  writeBookRecord tNs snap.seq snap.bids snap.asks

def Bridge.heed (clock : Nat → Nat) (limit : Int) (b : Bridge) : Reply → Bridge × Option Exit
  | .bookUpdate seq bids asks =>
    let b := b.write (recordOf (clock b.count) (onWire ⟨seq, bids, asks⟩))
    if limit ≠ 0 ∧ b.count ≥ limit then (b.summary, some (.status 0)) else (b, none)
  | .heartbeat timestampNs => (b.sendall (replyBytes (.heartbeat timestampNs)), none)
  | .reject _ reason =>
    (b.say ("rejected: " ++ (reasons (reasonCode reason).toNat).getD
      (toString ((reasonCode reason).toNat : Int))),
      some (.status 1))
  | .ack _ _ | .fill _ _ _ _ => (b, none)

def Bridge.heedAll (clock : Nat → Nat) (limit : Int) (b : Bridge) :
    List Reply → Bridge × Option Exit
  | [] => (b, none)
  | r :: rs =>
    match b.heed clock limit r with
    | (b, some exit) => (b, some exit)
    | (b, none) => b.heedAll clock limit rs

theorem parse_onWire (snap : BookSnapshot) : parseBookUpdate (encodeBookUpdate (bookUpdate snap)) =
    some (((onWire snap).seq : Int), (onWire snap).bids.map pairOf,
      (onWire snap).asks.map pairOf) := by
  have hcut : encodeBookUpdate (bookUpdate snap) =
      encodeBookUpdate (shortened (bookUpdate snap)) := by
    have hmin : ∀ ls : List BookLevel,
        min (ls.take maxBookDepth).length maxBookDepth = min ls.length maxBookDepth := by
      intro ls
      rw [List.length_take]
      omega
    have htake : ∀ ls : List BookLevel, (ls.take maxBookDepth).take (min ls.length maxBookDepth) =
        ls.take (min ls.length maxBookDepth) := by
      intro ls
      rw [List.take_take, Nat.min_eq_left (Nat.min_le_right _ _)]
    simp only [encodeBookUpdate, shortened, hmin, htake]
  have hparse := @parseBookUpdate_encode (shortened (bookUpdate snap)) (List.length_take_le _ _)
    (List.length_take_le _ _) []
  rw [List.append_nil, ← hcut] at hparse
  exact hparse

theorem handle_reply (clock : Nat → Nat) (limit : Int) (b : Bridge) (r : Reply) :
    b.handle clock limit (replyMessage r).1.toNat (replyMessage r).2 = b.heed clock limit r := by
  cases r with
  | ack _ _ => rfl
  | fill _ _ _ _ => rfl
  | heartbeat timestampNs =>
    have hlen : (replyMessage (.heartbeat timestampNs)).2.length < 2 ^ 32 :=
      (length_replyMessage _).trans_lt (by decide)
    have hframe : frame 14 (replyMessage (.heartbeat timestampNs)).2 =
        some (replyBytes (.heartbeat timestampNs)) :=
      frame_eq heartbeatType hlen
    have htype : ((replyMessage (.heartbeat timestampNs)).1.toNat : Int) = 14 := rfl
    rw [htype, Bridge.handle, if_neg (by decide), if_pos rfl, hframe]
    rfl
  | reject clientOrderId reason =>
    have htype : ((replyMessage (.reject clientOrderId reason)).1.toNat : Int) = 11 := rfl
    rw [htype, Bridge.handle, if_neg (by decide), if_neg (by decide), if_pos rfl, replyMessage,
      unpack_reject]
    rfl
  | bookUpdate seq bids asks =>
    have htype : ((replyMessage (.bookUpdate seq bids asks)).1.toNat : Int) = 13 := rfl
    rw [htype, Bridge.handle, if_pos rfl, replyMessage, parse_onWire]
    simp only [dumps_record]
    rfl

def finish (d : Disconnect) : Bridge × Option Exit → Bridge × Exit
  | (b, some exit) => (b, exit)
  | (b, none) => ((b.say ("disconnected: " ++ disconnectText d)).summary, .status 0)

theorem loop_disconnected {clock : Nat → Nat} {limit : Int} {s : Socket} {d : Disconnect}
    (h : recvFrame s = .error (.disconnected d)) (b : Bridge) :
    b.loop clock limit s = finish d (b, none) := by
  rw [Bridge.loop]
  split <;> simp_all [finish]

theorem loop_frame {clock : Nat → Nat} {limit : Int} {s s' : Socket} {r : Reply}
    (h : recvFrame s = .ok (((replyMessage r).1.toNat, 1, (replyMessage r).2), s')) (b : Bridge) :
    b.loop clock limit s =
      match b.heed clock limit r with
      | (b, some exit) => (b, exit)
      | (b, none) => b.loop clock limit s' := by
  rw [Bridge.loop]
  split
  · simp_all
  · simp_all
  · rename_i hok
    rw [h] at hok
    cases hok
    rw [handle_reply]

/-- Whatever the portions in which the messages arrive, and wherever they break
off, the script does what it does on those that are whole. -/
theorem loop_heedAll (clock : Nat → Nat) (limit : Int) {rs : List Reply} {s : Socket} (b : Bridge)
    (h : s.bytes <+: rs.flatMap replyBytes) :
    ∃ d, b.loop clock limit s = finish d (b.heedAll clock limit (arrived s.bytes.length rs)) := by
  induction rs generalizing s b with
  | nil =>
    obtain ⟨hnone, d, hd⟩ | ⟨_, _, _, hcons, _⟩ := recvFrame_cases h
    · exact ⟨d, loop_disconnected hd b⟩
    · cases hcons
  | cons r rs ih =>
    obtain ⟨hnone, d, hd⟩ | ⟨r', rs', s', hcons, hframe, hrest, hfirst⟩ := recvFrame_cases h
    · rw [hnone]
      exact ⟨d, loop_disconnected hd b⟩
    · obtain ⟨rfl, rfl⟩ := List.cons.inj hcons
      rw [hfirst, Bridge.heedAll, loop_frame hframe]
      cases b.heed clock limit r with
      | mk b' exit =>
        cases exit with
        | some exit => exact ⟨.timedOut, rfl⟩
        | none => exact ih b' hrest

/-- The messages up to the one at which the script stops: the first reject, or
the update that reaches the limit. -/
def heard (limit : Int) : Nat → List Reply → List Reply
  | _, [] => []
  | count, .bookUpdate seq bids asks :: rs =>
    .bookUpdate seq bids asks ::
      if limit ≠ 0 ∧ ((count + 1 : Nat) : Int) ≥ limit then [] else heard limit (count + 1) rs
  | _, .reject clientOrderId reason :: _ => [.reject clientOrderId reason]
  | count, r :: rs => r :: heard limit count rs

def snapshotOf : Reply → Option BookSnapshot
  | .bookUpdate seq bids asks => some ⟨seq, bids, asks⟩
  | _ => none

def isHeartbeat : Reply → Bool
  | .heartbeat _ => true
  | _ => false

def lines (clock : Nat → Nat) (count : Nat) (snaps : List BookSnapshot) : List Char :=
  (snaps.zipIdx count).flatMap fun p => recordOf (clock p.2) p.1

theorem lines_cons (clock : Nat → Nat) (count : Nat) (snap : BookSnapshot)
    (snaps : List BookSnapshot) :
    lines clock count (snap :: snaps) =
      recordOf (clock count) snap ++ lines clock (count + 1) snaps := by
  rw [lines, List.zipIdx_cons, List.flatMap_cons, lines]

theorem heedAll_writes (clock : Nat → Nat) (limit : Int) (b : Bridge) (rs : List Reply) :
    (b.heedAll clock limit rs).1.out =
        b.out ++ lines clock b.count (((heard limit b.count rs).filterMap snapshotOf).map onWire) ∧
      (b.heedAll clock limit rs).1.sent =
        b.sent ++ ((heard limit b.count rs).filter isHeartbeat).map replyBytes ∧
      (b.heedAll clock limit rs).2 ≠ some .traceback := by
  induction rs generalizing b with
  | nil => simp [Bridge.heedAll, heard, lines]
  | cons r rs ih =>
    cases r with
    | ack _ _ => exact ih b
    | fill _ _ _ _ => exact ih b
    | heartbeat timestampNs =>
      obtain ⟨hout, hsent, hexit⟩ := ih (b.sendall (replyBytes (.heartbeat timestampNs)))
      exact ⟨hout, hsent.trans (List.append_assoc b.sent [_] _), hexit⟩
    | reject _ _ =>
      refine ⟨(List.append_nil b.out).symm, (List.append_nil b.sent).symm, ?_⟩
      simp [Bridge.heedAll, Bridge.heed]
    | bookUpdate seq bids asks =>
      let b' := b.write (recordOf (clock b.count) (onWire ⟨seq, bids, asks⟩))
      by_cases hlimit : limit ≠ 0 ∧ ((b.count + 1 : Nat) : Int) ≥ limit
      · have hheed : b.heed clock limit (.bookUpdate seq bids asks) =
            (b'.summary, some (.status 0)) := if_pos hlimit
        simp only [Bridge.heedAll, hheed, heard, if_pos hlimit]
        simp [b', Bridge.summary, Bridge.say, Bridge.write, snapshotOf, isHeartbeat, lines]
      · have hheed : b.heed clock limit (.bookUpdate seq bids asks) = (b', none) := if_neg hlimit
        obtain ⟨hout, hsent, hexit⟩ := ih b'
        simp only [Bridge.heedAll, hheed, heard, if_neg hlimit]
        refine ⟨hout.trans ?_, hsent.trans ?_, hexit⟩
        · simp [b', Bridge.write, snapshotOf, lines_cons]
        · simp [b', Bridge.write, isHeartbeat]

theorem prefix_heard (limit : Int) (count : Nat) (rs : List Reply) :
    heard limit count rs <+: rs := by
  induction rs generalizing count with
  | nil => exact List.nil_prefix
  | cons r rs ih =>
    cases r with
    | ack _ _ => exact List.cons_prefix_cons.mpr ⟨rfl, ih count⟩
    | fill _ _ _ _ => exact List.cons_prefix_cons.mpr ⟨rfl, ih count⟩
    | heartbeat _ => exact List.cons_prefix_cons.mpr ⟨rfl, ih count⟩
    | reject _ _ => exact List.cons_prefix_cons.mpr ⟨rfl, List.nil_prefix⟩
    | bookUpdate _ _ _ =>
      refine List.cons_prefix_cons.mpr ⟨rfl, ?_⟩
      split
      · exact List.nil_prefix
      · exact ih (count + 1)

theorem heard_all {rs : List Reply} (h : ∀ r ∈ rs, ∀ i reason, r ≠ .reject i reason) (count : Nat) :
    heard 0 count rs = rs := by
  induction rs generalizing count with
  | nil => rfl
  | cons r rs ih =>
    have hrest := ih fun r hr => h r (List.mem_cons_of_mem _ hr)
    cases r with
    | ack _ _ => exact congrArg _ (hrest count)
    | fill _ _ _ _ => exact congrArg _ (hrest count)
    | heartbeat _ => exact congrArg _ (hrest count)
    | reject i reason => exact absurd rfl (h _ List.mem_cons_self i reason)
    | bookUpdate _ _ _ =>
      rw [heard, if_neg (by simp)]
      exact congrArg _ (hrest (count + 1))

/-- The numbers of a snapshot are such as the types of its fields in the source
hold. -/
structure InRange (snap : BookSnapshot) : Prop where
  seq : snap.seq < 2 ^ 64
  levels : ∀ l ∈ snap.bids ++ snap.asks, -2 ^ 63 ≤ l.1 ∧ l.1 < 2 ^ 63 ∧ l.2 < 2 ^ 64

theorem onWire_eq {snap : BookSnapshot} (h : InRange snap) (hb : snap.bids.length ≤ maxBookDepth)
    (ha : snap.asks.length ≤ maxBookDepth) : onWire snap = snap := by
  have hlevels : ∀ {ls : List (Int × Nat)},
      (∀ l ∈ ls, -2 ^ 63 ≤ l.1 ∧ l.1 < 2 ^ 63 ∧ l.2 < 2 ^ 64) →
      ls.length ≤ maxBookDepth → ((ls.map bookLevel).take maxBookDepth).map levelOf = ls := by
    intro ls hls hlen
    have hid : ∀ l ∈ ls, (levelOf ∘ bookLevel) l = id l := by
      intro l hl
      obtain ⟨hlow, hhigh, hqty⟩ := hls l hl
      have hprice : (Int64.ofInt l.1).toInt = l.1 := Int64.toInt_ofInt_of_le hlow hhigh
      have hquantity : (UInt64.ofNat l.2).toNat = l.2 := UInt64.toNat_ofNat_of_lt' hqty
      exact Prod.ext hprice hquantity
    rw [← List.map_take, List.take_of_length_le hlen, List.map_map,
      List.map_congr_left hid, List.map_id]
  have hseq : (UInt64.ofNat snap.seq).toNat = snap.seq := UInt64.toNat_ofNat_of_lt' h.seq
  have hbids := hlevels (fun l hl => h.levels l (List.mem_append_left _ hl)) hb
  have hasks := hlevels (fun l hl => h.levels l (List.mem_append_right _ hl)) ha
  simp only [onWire, shortened, bookUpdate, hseq, hbids, hasks]

/-- The script on the messages of the gateway. -/
theorem main_heedAll (clock : Nat → Nat) (depth : UInt8) (limit : Int) {rs : List Reply}
    {s : Socket} (h : s.bytes <+: rs.flatMap replyBytes) :
    (main clock ⟨depth.toNat, limit⟩ s).1.out =
        lines clock 0
          (((heard limit 0 (arrived s.bytes.length rs)).filterMap snapshotOf).map onWire) ∧
      (main clock ⟨depth.toNat, limit⟩ s).1.sent = encodeFrame subscribeType (putU8 depth) ::
        ((heard limit 0 (arrived s.bytes.length rs)).filter isHeartbeat).map replyBytes ∧
      (main clock ⟨depth.toNat, limit⟩ s).2 ≠ .traceback := by
  have hsubscribe : subscribe depth.toNat = some (encodeFrame subscribeType (putU8 depth)) := by
    rw [subscribe, pack_cons (holds_u8 depth), ← putU8_eq]
    simp only [pack, Option.map_some, List.append_nil, Option.bind_some]
    exact frame_eq subscribeType (by rw [length_putU8]; decide)
  let b := (Bridge.empty.sendall (encodeFrame subscribeType (putU8 depth))).say
    ("subscribed at depth " ++ toString (depth.toNat : Int))
  obtain ⟨d, hloop⟩ := loop_heedAll clock limit b h
  obtain ⟨hout, hsent, hexit⟩ := heedAll_writes clock limit b (arrived s.bytes.length rs)
  have hmain : main clock ⟨depth.toNat, limit⟩ s =
      finish d (b.heedAll clock limit (arrived s.bytes.length rs)) := by
    rw [← hloop, main, hsubscribe]
  rw [hmain]
  cases hr : b.heedAll clock limit (arrived s.bytes.length rs) with
  | mk b' exit =>
    rw [hr] at hout hsent hexit
    cases exit with
    | some exit => exact ⟨hout, hsent, fun he => hexit (congrArg some he)⟩
    | none => exact ⟨hout, hsent, by simp [finish]⟩

theorem lines_onWire (clock : Nat → Nat) (count : Nat) {snaps : List BookSnapshot}
    (h : ∀ snap ∈ snaps, onWire snap = snap) :
    lines clock count (snaps.map onWire) = lines clock count snaps := by
  rw [List.map_congr_left (g := id) h, List.map_id]

/-- What the gateway has written to a connection was built for it, from a book
that was there. -/
theorem written_depicts {t : Thread} (h : Booted t) (cfg : ServerConfig) (ss : List Signal)
    (n : Nat) :
    (((Feed.initial t).run cfg ss).written n).Pairwise (fun a b => a.seq < b.seq) ∧
      ∀ snap ∈ ((Feed.initial t).run cfg ss).written n,
        ∃ rs, rs <+: ss ∧ Depicts ((Feed.initial t).run cfg rs).gateway n snap := by
  obtain ⟨-, hordered⟩ := run_ordered h cfg ss
  have hsub : (((Feed.initial t).run cfg ss).written n).Sublist
      (((Feed.initial t).run cfg ss).built n) :=
    (hordered.written n).trans ((List.sublist_append_left _ _).trans (hordered.faithful n))
  exact ⟨(hordered.increasing n).sublist hsub,
    fun snap hsnap => built_from h cfg ss n snap (hsub.subset hsnap)⟩

theorem length_of_depicts {g : Threads.Gateway} {n : Nat} {snap : BookSnapshot}
    (h : Depicts g n snap) :
    snap.bids.length ≤ maxBookDepth ∧ snap.asks.length ≤ maxBookDepth := by
  obtain ⟨sub, -, -, rfl⟩ := h
  constructor <;> exact (List.length_take_le' _ _).trans (length_levelsTicks _ _ _)

theorem prefix_arriving {capacity : Nat} {calls : List Outbound.Call} {rs : List Reply} {s : Socket}
    (hcalls : ((Outbound.Stream.create capacity).run calls).accepted = rs.map replyBytes)
    (hs : s.bytes <+: ((Outbound.Stream.create capacity).run calls).consumed) :
    s.bytes <+: rs.flatMap replyBytes := by
  have hstream := ((Outbound.sound_create capacity).run calls).stream
  rw [hcalls, ← List.flatMap_def] at hstream
  exact hs.trans ⟨_, hstream⟩

theorem lines_depict {t : Thread} (h : Booted t) (cfg : ServerConfig) (ss : List Signal) (n : Nat)
    (rs : List Reply) (hrs : rs.filterMap snapshotOf = ((Feed.initial t).run cfg ss).written n)
    (hrange : ∀ snap ∈ ((Feed.initial t).run cfg ss).written n, InRange snap) (capacity : Nat)
    (calls : List Outbound.Call)
    (hcalls : ((Outbound.Stream.create capacity).run calls).accepted = rs.map replyBytes)
    (s : Socket) (hs : s.bytes <+: ((Outbound.Stream.create capacity).run calls).consumed)
    (clock : Nat → Nat) (depth : UInt8) (limit : Int) :
    ∃ seen, seen <+: ((Feed.initial t).run cfg ss).written n ∧
      (main clock ⟨depth.toNat, limit⟩ s).1.out = lines clock 0 seen ∧
      seen.Pairwise (fun a b => a.seq < b.seq) ∧
      (∀ snap ∈ seen, ∃ rs, rs <+: ss ∧ Depicts ((Feed.initial t).run cfg rs).gateway n snap) ∧
      (limit = 0 → (∀ r ∈ rs, ∀ i reason, r ≠ .reject i reason) → s.bytes = rs.flatMap replyBytes →
        seen = ((Feed.initial t).run cfg ss).written n) := by
  obtain ⟨hincreasing, hdepicts⟩ := written_depicts h cfg ss n
  obtain ⟨hout, -, -⟩ := main_heedAll clock depth limit (prefix_arriving hcalls hs)
  have hseen : (heard limit 0 (arrived s.bytes.length rs)).filterMap snapshotOf <+:
      ((Feed.initial t).run cfg ss).written n := by
    rw [← hrs]
    exact ((prefix_heard _ _ _).trans (prefix_arrived _ _)).filterMap snapshotOf
  refine ⟨_, hseen, ?_, hincreasing.sublist hseen.sublist,
    fun snap hsnap => hdepicts snap (hseen.subset hsnap), ?_⟩
  · refine hout.trans (lines_onWire clock 0 fun snap hsnap => ?_)
    obtain ⟨_, -, hview⟩ := hdepicts snap (hseen.subset hsnap)
    obtain ⟨hb, ha⟩ := length_of_depicts hview
    exact onWire_eq (hrange snap (hseen.subset hsnap)) hb ha
  · rintro rfl haccepted hall
    rw [hall, arrived_all, heard_all haccepted, hrs]

/-- The messages to a subscriber that is sent one update, and the connection that
they arrive on, cut inside the first header. -/
def quoted : List Reply := [.heartbeat 5, .bookUpdate 1 [(100, 10)] []]

def quotedCalls : List Outbound.Call :=
  quoted.map (fun r => .append (replyBytes r)) ++ [.consume 1024]

def quotedSocket : Socket :=
  ⟨[⟨(quoted.flatMap replyBytes).take 3, by decide +kernel⟩,
    ⟨(quoted.flatMap replyBytes).drop 3, by decide +kernel⟩],
    .closed⟩

theorem lines_depict_quoted : (main (fun _ => 9) ⟨10, 0⟩ quotedSocket).1.out =
    lines (fun _ => 9) 0 [⟨1, [(100, 10)], []⟩] := by
  have hwritten : ((Feed.initial Flooding.newThread).run .default subscription).written 1 =
      [⟨1, [(100, 10)], []⟩] := by decide +kernel
  have hrange : InRange ⟨1, [(100, 10)], []⟩ := ⟨by decide, by decide⟩
  have hconsumed : ((Outbound.Stream.create 1024).run quotedCalls).consumed =
      quoted.flatMap replyBytes := by
    decide +kernel
  obtain ⟨seen, -, hout, -, -, hall⟩ :=
    lines_depict Flooding.booted_newThread .default subscription 1 quoted
      (by rw [hwritten]; rfl)
      (by rw [hwritten]; exact fun snap hsnap => List.mem_singleton.mp hsnap ▸ hrange) 1024
      quotedCalls (by decide +kernel) quotedSocket (by rw [hconsumed]; decide +kernel)
      (fun _ => 9) 10 0
  rw [hall rfl (by simp [quoted]) (by decide +kernel), hwritten] at hout
  exact hout

theorem read_request {r : Reply} (h : isHeartbeat r = true) :
    (request (replyMessage r).1 (replyMessage r).2).read = .heartbeat := by
  apply (read_heartbeat _).mpr
  cases r with
  | heartbeat _ => exact ⟨rfl, rfl⟩
  | _ => exact absurd h Bool.false_ne_true

theorem requests_understood (clock : Nat → Nat) (depth : UInt8) (limit : Int) (rs : List Reply)
    (s : Socket) (hs : s.bytes <+: rs.flatMap replyBytes) (chunks : List (List UInt8))
    (hchunks : chunks.flatten = (main clock ⟨depth.toNat, limit⟩ s).1.sent.flatten) :
    (main clock ⟨depth.toNat, limit⟩ s).2 ≠ .traceback ∧
      (∀ before, before <+: chunks → (Framing.FrameReader.empty.feedAll before).2.closes = false) ∧
      (Framing.FrameReader.empty.feedAll chunks).1.map WireFrame.read =
        .subscribe depth ::
          List.replicate ((heard limit 0 (arrived s.bytes.length rs)).countP isHeartbeat)
            .heartbeat := by
  obtain ⟨-, hsent, hexit⟩ := main_heedAll clock depth limit hs
  let beats := (heard limit 0 (arrived s.bytes.length rs)).filter isHeartbeat
  let messages := (subscribeType, putU8 depth) :: beats.map replyMessage
  have hsmall : ∀ m ∈ messages, m.2.length ≤ 65536 := by
    intro m hm
    obtain rfl | hm := List.mem_cons.mp hm
    · simp
    · obtain ⟨r, -, rfl⟩ := List.mem_map.mp hm
      exact length_replyMessage r
  have hflat : chunks.flatten = messages.flatMap fun m => encodeFrame m.1 m.2 := by
    rw [hchunks, hsent, List.flatten_cons, List.flatMap_cons, List.flatMap_map]
    rfl
  obtain ⟨hframes, hopen⟩ := feedAll_requests hsmall hflat
  refine ⟨hexit, hopen, ?_⟩
  have hbeats : ((beats.map replyMessage).map fun m => request m.1 m.2).map WireFrame.read =
      List.replicate beats.length .heartbeat := by
    rw [List.map_map, List.map_map]
    refine (List.map_congr_left fun r hr => ?_).trans List.map_const'
    exact read_request (List.mem_filter.mp hr).2
  rw [hframes, List.countP_eq_length_filter, List.map_cons, List.map_cons, hbeats]
  exact congrArg (· :: _) (read_subscribe depth)

theorem requests_understood_quoted :
    (Framing.FrameReader.empty.feedAll (main (fun _ => 9) ⟨10, 0⟩ quotedSocket).1.sent).1.map
      WireFrame.read =
      [.subscribe 10, .heartbeat] := by
  have hcount : (heard 0 0 (arrived quotedSocket.bytes.length quoted)).countP isHeartbeat = 1 := by
    decide +kernel
  obtain ⟨-, -, hread⟩ :=
    requests_understood (fun _ => 9) 10 0 quoted quotedSocket (by decide +kernel) _ rfl
  rw [hcount] at hread
  exact hread

end OrderMatching.LiveFeed
