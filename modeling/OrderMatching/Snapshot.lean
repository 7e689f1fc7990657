import OrderMatching.Exchange

namespace OrderMatching.Snapshot

open OrderMatching.Orders OrderMatching.Book OrderMatching.Engine OrderMatching.Exchange

structure SnapshotOrder where
  exchangeId : Nat
  session : UInt64
  clientOrderId : UInt64
  priceTicks : Int
  quantity : Nat
  side : UInt8
  timestamp : Nat
  deriving DecidableEq

structure SnapshotData where
  lastSeq : UInt64
  lastTradeTicks : Int
  nextExchangeId : Nat
  orders : List SnapshotOrder
  deriving DecidableEq

def exportOrder (l : Ledger) (o : Order) : SnapshotOrder :=
  ⟨o.id, (l.ownerOf o.id).getD 0, (l.clientIdOf o.id).getD 0, o.priceTicks, o.quantity,
    if o.side = .bid then 0 else 1, o.timestamp⟩

def exportSnapshot (l : Ledger) (lastSeq : UInt64) : SnapshotData :=
  ⟨lastSeq, l.lastTradeTicks, l.nextExchangeId, l.book.allOrders.map (exportOrder l)⟩

def restoredOrder (so : SnapshotOrder) : Order :=
  ⟨so.exchangeId, so.priceTicks, so.quantity, if so.side = 0 then .bid else .ask, .limit,
    so.timestamp⟩

def restoreOrder (l : Ledger) (so : SnapshotOrder) : Ledger :=
  let o := restoredOrder so
  { l with
    engine := { l.engine with book := l.book.addOrder o }
    ownerOf := Function.update l.ownerOf o.id (some so.session)
    clientIdOf := Function.update l.clientIdOf o.id (some so.clientOrderId)
    remainingOf := Function.update l.remainingOf o.id (some so.quantity)
    sideOf := Function.update l.sideOf o.id (some o.side)
    sessionOrders :=
      Function.update l.sessionOrders so.session
        (some (insertOrder (l.sessionOrders so.session) o.id))
    byClientId := Function.update l.byClientId (keyOf so.session so.clientOrderId) (some o.id) }

/-- The orders come back in book order, and the clock moves past their
timestamps. -/
def restore (l : Ledger) (d : SnapshotData) : Ledger :=
  let l := d.orders.foldl restoreOrder
    { l with lastTradeTicks := d.lastTradeTicks, nextExchangeId := d.nextExchangeId }
  { l with
    logicalClock :=
      d.orders.foldl (fun clock so => if so.timestamp > clock then so.timestamp else clock)
        l.logicalClock }

end OrderMatching.Snapshot
