import OrderMatching.Codec
import OrderMatching.Snapshot

namespace OrderMatching.SnapshotFile

open OrderMatching.Codec OrderMatching.Snapshot

def snapshotMagic : UInt32 := 0x53454D4F

def snapshotVersion : UInt32 := 1

def snapshotHeaderSize : Nat := 44

def orderSize : Nat := 45

structure OrderImage where
  exchangeId : UInt64
  session : UInt64
  clientOrderId : UInt64
  priceTicks : Int64
  quantity : UInt32
  side : UInt8
  timestamp : UInt64
  deriving DecidableEq

structure Image where
  lastSeq : UInt64
  lastTradeTicks : Int64
  nextExchangeId : UInt64
  orders : List OrderImage
  deriving DecidableEq

def Image.blank : Image := ⟨0, 0, 1, []⟩

def OrderImage.of (so : SnapshotOrder) : OrderImage :=
  ⟨UInt64.ofNat so.exchangeId, so.session, so.clientOrderId, Int64.ofInt so.priceTicks,
    UInt32.ofNat so.quantity, so.side, UInt64.ofNat so.timestamp⟩

def Image.of (d : SnapshotData) : Image :=
  ⟨d.lastSeq, Int64.ofInt d.lastTradeTicks, UInt64.ofNat d.nextExchangeId,
    d.orders.map OrderImage.of⟩

def OrderImage.order (o : OrderImage) : SnapshotOrder :=
  ⟨o.exchangeId.toNat, o.session, o.clientOrderId, o.priceTicks.toInt, o.quantity.toNat, o.side,
    o.timestamp.toNat⟩

def Image.data (d : Image) : SnapshotData :=
  ⟨d.lastSeq, d.lastTradeTicks.toInt, d.nextExchangeId.toNat, d.orders.map OrderImage.order⟩

def encodeOrder (o : OrderImage) : List UInt8 :=
  putU64 o.exchangeId ++ (putU64 o.session ++ (putU64 o.clientOrderId ++ (putI64 o.priceTicks ++
    (putU32 o.quantity ++ (putU8 o.side ++ putU64 o.timestamp)))))

def encodeHeader (d : Image) (body : List UInt8) : List UInt8 :=
  putU32 snapshotMagic ++
    (putU32 snapshotVersion ++ (putU64 d.lastSeq ++ (putU64 (UInt64.ofNat d.orders.length) ++
    (putI64 d.lastTradeTicks ++ (putU64 d.nextExchangeId ++ putU32 (crc32 body 0))))))

/-- The bytes that `write_snapshot` leaves under the name of the snapshot. -/
def writeSnapshot (d : Image) : List UInt8 :=
  encodeHeader d (d.orders.flatMap encodeOrder) ++ d.orders.flatMap encodeOrder

def readOrder (br : Reader) : OrderImage × Reader :=
  let (exchangeId, br) := br.u64
  let (session, br) := br.u64
  let (clientOrderId, br) := br.u64
  let (priceTicks, br) := br.i64
  let (quantity, br) := br.u32
  let (side, br) := br.u8
  let (timestamp, br) := br.u64
  (⟨exchangeId, session, clientOrderId, priceTicks, quantity, side, timestamp⟩, br)

def readOrders : Nat → Reader → List OrderImage → Except String Unit × List OrderImage
  | 0, _, orders => (.ok (), orders)
  | n + 1, br, orders =>
    let (o, br) := readOrder br
    if br.ok = false ∨ o.side > 1 then (.error "snapshot order record malformed", orders)
    else readOrders n br (orders ++ [o])

/-- `read_snapshot` writes to `out` as it goes, also where it gives up later. -/
def readSnapshot (path : String) (file : Except String (List UInt8)) (out : Image) :
    Except String Unit × Image :=
  match file with
  | .error _ => (.error ("cannot open " ++ path), out)
  | .ok buf =>
    if buf.length < snapshotHeaderSize then (.error "snapshot too short", out)
    else
      let (magic, r) := Reader.u32 ⟨buf.take snapshotHeaderSize, true⟩
      if magic ≠ snapshotMagic then (.error "not a snapshot file", out)
      else
        let (version, r) := r.u32
        if version ≠ snapshotVersion then (.error "unsupported snapshot version", out)
        else
          let (lastSeq, r) := r.u64
          let (count, r) := r.u64
          let (lastTradeTicks, r) := r.i64
          let (nextExchangeId, r) := r.u64
          let (wantCrc, r) := r.u32
          let out :=
            { out with
              lastSeq := lastSeq, lastTradeTicks := lastTradeTicks, nextExchangeId :=
                nextExchangeId }
          let body := buf.drop snapshotHeaderSize
          if r.ok = false then (.error "snapshot header malformed", out)
          else if count.toNat > body.length / orderSize then
            (.error "snapshot order count exceeds file size", out)
          else if crc32 body 0 ≠ wantCrc then (.error "snapshot checksum mismatch", out)
          else
            let (res, orders) := readOrders count.toNat ⟨body, true⟩ []
            (res, { out with orders := orders })

@[simp] theorem length_encodeOrder (o : OrderImage) : (encodeOrder o).length = orderSize := by
  simp [encodeOrder, orderSize]

@[simp] theorem length_encodeHeader (d : Image) (body : List UInt8) :
    (encodeHeader d body).length = snapshotHeaderSize := by
  simp [encodeHeader, snapshotHeaderSize]

theorem length_body (os : List OrderImage) :
    (os.flatMap encodeOrder).length = orderSize * os.length := by
  induction os with
  | nil => rfl
  | cons o os ih => simp [ih, Nat.mul_add, Nat.add_comm]

theorem readOrder_encodeOrder (o : OrderImage) (rest : List UInt8) :
    readOrder ⟨encodeOrder o ++ rest, true⟩ = (o, ⟨rest, true⟩) := by
  simp [readOrder, encodeOrder]

theorem readOrders_encodeOrder {os : List OrderImage} (n : Nat)
    (hside : ∀ o ∈ os.take n, o.side ≤ 1) (hn : n ≤ os.length) (orders : List OrderImage) :
    readOrders n ⟨os.flatMap encodeOrder, true⟩ orders = (.ok (), orders ++ os.take n) := by
  induction os generalizing n orders with
  | nil =>
    obtain rfl := Nat.le_zero.mp hn
    simp [readOrders]
  | cons o os ih =>
    obtain _ | n := n
    · simp [readOrders]
    · have hno : ¬o.side > 1 := UInt8.not_lt.mpr (hside o (by simp))
      have hrest := ih n (fun d hd => hside d (by simp [hd])) (by simpa using hn) (orders ++ [o])
      rw [List.flatMap_cons, readOrders, readOrder_encodeOrder]
      simpa [hno] using hrest

/-- Whatever is written can be read back. Only the count has a width that the
orders in memory could exceed. -/
theorem readSnapshot_writeSnapshot (path : String) {d : Image} (hside : ∀ o ∈ d.orders, o.side ≤ 1)
    (out : Image) :
    readSnapshot path (.ok (writeSnapshot d)) out =
      (.ok (), { d with orders := d.orders.take (UInt64.ofNat d.orders.length).toNat }) := by
  let body := d.orders.flatMap encodeOrder
  have hcount : (UInt64.ofNat d.orders.length).toNat ≤ d.orders.length := by
    rw [UInt64.toNat_ofNat']
    exact Nat.mod_le _ _
  have hlong : ¬(writeSnapshot d).length < snapshotHeaderSize := by simp [writeSnapshot]
  have htake : (writeSnapshot d).take snapshotHeaderSize = encodeHeader d body :=
    List.take_left' (length_encodeHeader d body)
  have hdrop : (writeSnapshot d).drop snapshotHeaderSize = body :=
    List.drop_left' (length_encodeHeader d body)
  have hfits : ¬(UInt64.ofNat d.orders.length).toNat > body.length / orderSize := by
    rw [length_body, Nat.mul_div_cancel_left _ (by decide)]
    omega
  have hcrc : Reader.u32 ⟨putU32 (crc32 body 0), true⟩ = (crc32 body 0, ⟨[], true⟩) := by
    simpa using u32_putU32 (crc32 body 0) []
  have horders := readOrders_encodeOrder _ (fun o ho => hside o (List.mem_of_mem_take ho)) hcount []
  simp only [readSnapshot, hlong, if_false, htake, hdrop, encodeHeader, u32_putU32, u64_putU64,
    i64_putI64, hcrc, ne_eq, not_true_eq_false, Bool.true_eq_false, hfits]
  rw [horders]
  rfl

end OrderMatching.SnapshotFile
