import OrderMatching.Clients

namespace OrderMatching.SmokeClient

open OrderMatching.Orders OrderMatching.Codec OrderMatching.Log OrderMatching.Protocol
open OrderMatching.Network OrderMatching.Wire OrderMatching.Messages OrderMatching.Sockets
open OrderMatching.StructPack OrderMatching.Clients

def newOrder (clientOrderId priceTicks quantity side orderType : Int) : Option (List UInt8) :=
  (pack [formatQ, formatSignedQ, formatI, formatB, formatB] [clientOrderId, priceTicks, quantity,
    side, orderType]).bind (frame 1)

def reasons (reason : Int) : Option String :=
  if reason = 0 then some "NONE"
  else if reason = 1 then some "UNKNOWN_ORDER"
  else if reason = 2 then some "INVALID_PRICE"
  else if reason = 3 then some "INVALID_QTY"
  else if reason = 4 then some "RISK_MAX_ORDER_SIZE"
  else if reason = 5 then some "RISK_PRICE_BAND"
  else if reason = 6 then some "MALFORMED"
  else if reason = 7 then some "RATE_LIMITED"
  else if reason = 8 then some "NOT_SUBSCRIBED"
  else if reason = 9 then some "DUPLICATE_ORDER_ID"
  else if reason = 10 then some "UNKNOWN_MESSAGE_TYPE"
  else none

def disconnectText : Disconnect → String
  | .closed got wanted =>
    "peer closed after " ++ toString got ++ " of " ++ toString wanted ++ " bytes"
  | .timedOut => "timed out"

structure Args where
  price : Int
  qty : Int
  split : Bool

/-- The calls of `sendall`, what was printed last, and the status, which is none
after an error that nothing handles. -/
structure Run where
  sent : List (List UInt8)
  printed : String
  status : Option Nat

def ackText (clientOrderId exchangeOrderId version : Int) : String :=
  "<- Ack client_order_id=" ++ toString clientOrderId ++ " exchange_order_id=" ++
    toString exchangeOrderId ++
    " (v" ++ toString version ++ ")"

def rejectText (clientOrderId reason : Int) : String :=
  "<- Reject client_order_id=" ++ toString clientOrderId ++ " reason=" ++
    (reasons reason).getD (toString reason)

def unexpectedText (msgType : Int) : String := "<- unexpected message type " ++ toString msgType

def answer : Except Failure ((Int × Int × List UInt8) × Socket) → String × Option Nat
  | .error (.disconnected d) => ("error: " ++ disconnectText d, some 1)
  | .error .structError => ("", none)
  | .ok ((msgType, version, payload), _) =>
    if msgType = 10 then
      match unpack [formatQ, formatQ] payload with
      | some [clientOrderId, exchangeOrderId] =>
        (ackText clientOrderId exchangeOrderId version, some 0)
      | _ => ("", none)
    else if msgType = 11 then
      match unpack [formatQ, formatH] payload with
      | some [clientOrderId, reason] => (rejectText clientOrderId reason, some 1)
      | _ => ("", none)
    else (unexpectedText msgType, some 1)

def main (args : Args) (s : Socket) : Run :=
  match newOrder 1 args.price args.qty 0 1 with
  | none => ⟨[], "", none⟩
  | some bytes =>
    let sent := if args.split then bytes.map fun b => [b] else [bytes]
    let (printed, status) := answer (recvFrame s)
    ⟨sent, printed, status⟩

theorem newOrder_eq (clientOrderId : UInt64) (priceTicks : Int64) (quantity : UInt32) (side : Side)
    (orderType : Commands.OrderType) :
    newOrder clientOrderId.toNat priceTicks.toInt quantity.toNat (sideCode side).toNat
      (orderTypeCode orderType).toNat =
      some (encodeFrame newOrderType
        (NewOrder.encode ⟨clientOrderId, priceTicks, quantity, side, orderType⟩)) := by
  have hpack : pack [formatQ, formatSignedQ, formatI, formatB, formatB]
      [(clientOrderId.toNat : Int), priceTicks.toInt, quantity.toNat, (sideCode side).toNat,
        (orderTypeCode orderType).toNat] =
      some (NewOrder.encode ⟨clientOrderId, priceTicks, quantity, side, orderType⟩) := by
    rw [pack_cons (holds_u64 clientOrderId), pack_cons (holds_i64 priceTicks),
      pack_cons (holds_u32 quantity), pack_cons (holds_u8 (sideCode side)),
      pack_cons (holds_u8 (orderTypeCode orderType))]
    rw [NewOrder.encode, putU64_eq, putI64_eq, putU32_eq, putU8_eq, putU8_eq]
    simp only [pack, Option.map_some, List.append_nil]
  have hlen :
      (NewOrder.encode ⟨clientOrderId, priceTicks, quantity, side, orderType⟩).length < 2 ^ 32 := by
    simp [NewOrder.encode]
  rw [newOrder, hpack, Option.bind_some]
  exact frame_eq newOrderType hlen

theorem flatten_split (bytes : List UInt8) (split : Bool) :
    (if split then bytes.map (fun b => [b]) else [bytes]).flatten = bytes := by
  cases split with
  | false => simp
  | true => simp [← List.flatMap_def]

def verdict : Reply → String × Option Nat
  | .ack clientOrderId exchangeOrderId =>
    (ackText clientOrderId.toNat (UInt64.ofNat exchangeOrderId).toNat 1, some 0)
  | .reject clientOrderId reason =>
    (rejectText clientOrderId.toNat (reasonCode reason).toNat, some 1)
  | r => (unexpectedText (replyMessage r).1.toNat, some 1)

theorem answer_reply (r : Reply) (s : Socket) :
    answer (.ok (((replyMessage r).1.toNat, 1, (replyMessage r).2), s)) = verdict r := by
  cases r with
  | ack clientOrderId exchangeOrderId =>
    have hunpack :
        unpack [formatQ, formatQ] (Ack.encode ⟨clientOrderId, UInt64.ofNat exchangeOrderId⟩) =
        some [(clientOrderId.toNat : Int), (UInt64.ofNat exchangeOrderId).toNat] := by
      rw [unpack, if_pos (by simp only [Ack.encode, List.length_append, length_putU64]; rfl),
        Ack.encode, putU64_eq, putU64_eq, unpackFrom_put (holds_u64 clientOrderId),
        unpackFrom_last (holds_u64 _)]
      rfl
    simp only [answer, replyMessage, hunpack]
    rfl
  | reject clientOrderId reason =>
    simp only [answer, replyMessage, unpack_reject]
    rfl
  | fill _ _ _ _ => rfl
  | heartbeat _ => rfl
  | bookUpdate _ _ _ => rfl

theorem smoke_verdict (price : Int64) (qty : UInt32) (split : Bool) (rs : List Reply) (s : Socket)
    (hs : s.bytes <+: rs.flatMap replyBytes) (chunks : List (List UInt8))
    (hchunks : chunks.flatten = (main ⟨price.toInt, qty.toNat, split⟩ s).sent.flatten) :
    (Framing.FrameReader.empty.feedAll chunks).1.map WireFrame.read =
      [.newOrder 1 price qty .bid .limit] ∧
      (∀ before, before <+: chunks → (Framing.FrameReader.empty.feedAll before).2.closes = false) ∧
      match arrived s.bytes.length rs with
      | [] => (main ⟨price.toInt, qty.toNat, split⟩ s).status = some 1
      | r :: _ => ((main ⟨price.toInt, qty.toNat, split⟩ s).printed,
          (main ⟨price.toInt, qty.toNat, split⟩ s).status) =
          verdict r := by
  let payload := NewOrder.encode ⟨1, price, qty, .bid, .limit⟩
  have horder : newOrder 1 price.toInt qty.toNat 0 1 = some (encodeFrame newOrderType payload) :=
    newOrder_eq 1 price qty .bid .limit
  have hmain : main ⟨price.toInt, qty.toNat, split⟩ s =
      ⟨if split then (encodeFrame newOrderType payload).map (fun b => [b])
        else [encodeFrame newOrderType payload],
        (answer (recvFrame s)).1, (answer (recvFrame s)).2⟩ := by
    rw [main, horder]
  rw [hmain] at hchunks ⊢
  have hflat : chunks.flatten = [(newOrderType, payload)].flatMap fun m => encodeFrame m.1 m.2 := by
    rw [hchunks, flatten_split, List.flatMap_singleton]
  have hsmall : ∀ m ∈ [(newOrderType, payload)], m.2.length ≤ 65536 := by
    simp [payload, NewOrder.encode]
  obtain ⟨hframes, hopen⟩ := feedAll_requests hsmall hflat
  refine ⟨?_, hopen, ?_⟩
  · rw [hframes]
    exact congrArg (fun f => [f]) (read_newOrder 1 price qty .bid .limit)
  · obtain ⟨hnone, d, hd⟩ | ⟨r, rs', s', -, hframe, -, hfirst⟩ := recvFrame_cases hs
    · rw [hnone, hd]
      rfl
    · rw [hfirst, hframe, answer_reply]

def ackedSocket : Socket :=
  ⟨[⟨(replyBytes (.ack 1 7)).take 5, by decide +kernel⟩,
    ⟨(replyBytes (.ack 1 7)).drop 5, by decide +kernel⟩], .closed⟩

theorem smoke_verdict_acked :
    (Framing.FrameReader.empty.feedAll (main ⟨1000000, 10, true⟩ ackedSocket).sent).1.map
      WireFrame.read =
        [.newOrder 1 1000000 10 .bid .limit] ∧
          (main ⟨1000000, 10, true⟩ ackedSocket).status = some 0 := by
  have hfirst : arrived ackedSocket.bytes.length [.ack 1 7] = [.ack 1 7] :=
    if_pos (by decide +kernel)
  obtain ⟨hread, -, hstatus⟩ :=
    smoke_verdict 1000000 10 true [.ack 1 7] ackedSocket (by decide +kernel) _ rfl
  rw [hfirst] at hstatus
  exact ⟨hread, congrArg Prod.snd hstatus⟩

end OrderMatching.SmokeClient
