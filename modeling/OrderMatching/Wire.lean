import OrderMatching.Messages

namespace OrderMatching.Wire

open OrderMatching.Orders OrderMatching.Codec OrderMatching.Commands OrderMatching.Log
open OrderMatching.Network OrderMatching.Protocol OrderMatching.Messages

def newOrderType : UInt16 := 1

def cancelType : UInt16 := 2

def modifyType : UInt16 := 3

def subscribeType : UInt16 := 4

def heartbeatType : UInt16 := 14

/-- What the frame reader cuts out of the stream: a header and as many bytes as
it announces. -/
structure WireFrame where
  header : MessageHeader
  payload : List UInt8

def decodeNewOrder (data : List UInt8) : Option Frame := (NewOrder.decode data).map NewOrder.frame

def decodeCancel (data : List UInt8) : Option Frame := (Cancel.decode data).map Cancel.frame

def decodeModify (data : List UInt8) : Option Frame := (Modify.decode data).map Modify.frame

def decodeSubscribe (data : List UInt8) : Option Frame :=
  (Subscribe.decode data).map Subscribe.frame

/-- What `dispatch` finds in a frame. The version is looked at before the type,
and the payload of a heartbeat not at all. -/
def WireFrame.read (f : WireFrame) : Frame :=
  if f.header.version ≠ version then .wrongVersion
  else if f.header.type = newOrderType then (decodeNewOrder f.payload).getD .undecodable
  else if f.header.type = cancelType then (decodeCancel f.payload).getD .undecodable
  else if f.header.type = modifyType then (decodeModify f.payload).getD .undecodable
  else if f.header.type = subscribeType then (decodeSubscribe f.payload).getD .undecodable
  else if f.header.type = heartbeatType then .heartbeat
  else .unknownType

def request (type : UInt16) (payload : List UInt8) : WireFrame :=
  ⟨⟨UInt32.ofNat payload.length, type, version⟩, payload⟩

def encodeNewOrder (clientOrderId : UInt64) (priceTicks : Int64) (quantity : UInt32) (side : Side)
    (orderType : Commands.OrderType) : WireFrame :=
  request newOrderType (NewOrder.encode ⟨clientOrderId, priceTicks, quantity, side, orderType⟩)

def encodeCancel (clientOrderId : UInt64) : WireFrame :=
  request cancelType (Cancel.encode ⟨clientOrderId⟩)

def encodeModify (clientOrderId : UInt64) (newPriceTicks : Int64) (newQuantity : UInt32) :
    WireFrame :=
  request modifyType (Modify.encode ⟨clientOrderId, newPriceTicks, newQuantity⟩)

def encodeSubscribe (depth : UInt8) : WireFrame := request subscribeType (Subscribe.encode ⟨depth⟩)

theorem read_newOrder (clientOrderId : UInt64) (priceTicks : Int64) (quantity : UInt32)
    (side : Side) (orderType : Commands.OrderType) :
    (encodeNewOrder clientOrderId priceTicks quantity side orderType).read =
      .newOrder clientOrderId priceTicks quantity side orderType := by
  simp [WireFrame.read, encodeNewOrder, request, decodeNewOrder, newOrder_inverse.decode_encode,
    NewOrder.frame]

theorem read_cancel (clientOrderId : UInt64) :
    (encodeCancel clientOrderId).read = .cancel clientOrderId := by
  simp [WireFrame.read, encodeCancel, request, decodeCancel, cancel_inverse.decode_encode,
    Cancel.frame, newOrderType, cancelType]

theorem read_modify (clientOrderId : UInt64) (newPriceTicks : Int64) (newQuantity : UInt32) :
    (encodeModify clientOrderId newPriceTicks newQuantity).read =
      .modify clientOrderId newPriceTicks newQuantity := by
  simp [WireFrame.read, encodeModify, request, decodeModify, modify_inverse.decode_encode,
    Modify.frame, newOrderType, cancelType, modifyType]

theorem read_subscribe (depth : UInt8) : (encodeSubscribe depth).read = .subscribe depth := by
  simp [WireFrame.read, encodeSubscribe, request, decodeSubscribe,
    subscribe_inverse.decode_encode, Subscribe.frame, newOrderType, cancelType, modifyType,
    subscribeType]

theorem decoded_ne {α : Type} (frame : α → Frame) (hframe : ∀ m, frame m ≠ .heartbeat)
    (o : Option α) : (o.map frame).getD .undecodable ≠ .heartbeat := by
  cases o with
  | none => exact nofun
  | some m => exact hframe m

/-- The frames that are read as a heartbeat: those of its type and of the
version that is spoken here. -/
theorem read_heartbeat (f : WireFrame) :
    f.read = .heartbeat ↔ f.header.type = heartbeatType ∧ f.header.version = version := by
  have hnew : (decodeNewOrder f.payload).getD .undecodable ≠ .heartbeat :=
    decoded_ne NewOrder.frame (fun _ => nofun) _
  have hcancel : (decodeCancel f.payload).getD .undecodable ≠ .heartbeat :=
    decoded_ne Cancel.frame (fun _ => nofun) _
  have hmodify : (decodeModify f.payload).getD .undecodable ≠ .heartbeat :=
    decoded_ne Modify.frame (fun _ => nofun) _
  have hsubscribe : (decodeSubscribe f.payload).getD .undecodable ≠ .heartbeat :=
    decoded_ne Subscribe.frame (fun _ => nofun) _
  unfold WireFrame.read
  by_cases hv : f.header.version = version
  · rw [if_neg (not_not.mpr hv)]
    by_cases hn : f.header.type = newOrderType
    · simp [hn, hnew, newOrderType, heartbeatType]
    by_cases hc : f.header.type = cancelType
    · simp [hc, hcancel, newOrderType, cancelType, heartbeatType]
    by_cases hm : f.header.type = modifyType
    · simp [hm, hmodify, newOrderType, cancelType, modifyType, heartbeatType]
    by_cases hs : f.header.type = subscribeType
    · simp [hs, hsubscribe, newOrderType, cancelType, modifyType, subscribeType, heartbeatType]
    by_cases hh : f.header.type = heartbeatType
    · simp [hh, hv, newOrderType, cancelType, modifyType, subscribeType, heartbeatType]
    · simp [hn, hc, hm, hs, hh]
  · simp [hv]

end OrderMatching.Wire
