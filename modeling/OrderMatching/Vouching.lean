import OrderMatching.Agreement
import OrderMatching.Startup

namespace OrderMatching.Vouching

open OrderMatching.Orders OrderMatching.Book OrderMatching.BookInvariant OrderMatching.Engine
open OrderMatching.Queues OrderMatching.Commands OrderMatching.Log OrderMatching.LogRead
open OrderMatching.Durability OrderMatching.Exchange OrderMatching.Snapshot
open OrderMatching.SnapshotFile OrderMatching.MatchingThread OrderMatching.LogFold
open OrderMatching.Registry OrderMatching.Acceptance OrderMatching.Bookkeeping
open OrderMatching.KeyIndex OrderMatching.Modify OrderMatching.Isolation OrderMatching.Rebuild
open OrderMatching.Resume OrderMatching.Startup OrderMatching.WalVerify OrderMatching.Mirror
open OrderMatching.Agreement

inductive Finding where
  | crossed (bid ask : Int)
  | emptyLevel (s : Side) (px : Int)
  | zeroQuantity (id : Nat)
  deriving DecidableEq

def inspectLevel (s : Side) (lvl : Int × List VOrder) : Option Finding :=
  if lvl.2 = [] then some (.emptyLevel s lvl.1)
  else (lvl.2.find? (fun o => o.quantity = 0)).map (fun o => .zeroQuantity o.id)

/-- The first finding, in the order of the checks: the spread, then the bids,
then the asks. -/
def inspect (b : SimpleBook) : Option Finding :=
  let levels := (b.bids.findSome? (inspectLevel .bid)).or (b.asks.findSome? (inspectLevel .ask))
  match best b.bids, best b.asks with
  | some bid, some ask => if bid ≥ ask then some (.crossed bid ask) else levels
  | _, _ => levels

/-- How `main` ends: with an error, or with the digest it prints. -/
inductive Verdict where
  | unreadable (error : String)
  | gap (after : UInt64)
  | insane (finding : Finding)
  | verified (applied truncatedBytes : Nat) (digest : UInt64)
  deriving DecidableEq

def loadOrder (b : SimpleBook) (so : SnapshotOrder) : SimpleBook :=
  ((b.setOwner so.exchangeId so.session).setClientId so.exchangeId so.clientOrderId).add
    so.priceTicks (if so.side = 0 then .bid else .ask) ⟨so.exchangeId, so.session,
      so.clientOrderId, so.quantity⟩

def load (d : SnapshotData) : Verifier :=
  ⟨{ d.orders.foldl loadOrder SimpleBook.empty with lastTrade := d.lastTradeTicks },
    d.nextExchangeId⟩

/-- The verifier, its `from_seq` and the number of commands applied. -/
structure Progress where
  verifier : Verifier
  fromSeq : UInt64
  applied : Nat

/-- The verifier when it comes to the log. A snapshot it cannot use changes
nothing. -/
def begin (snapPath : String) (snapshot : Except String (List UInt8)) : Progress :=
  if snapPath = "" then ⟨.initial, 0, 0⟩
  else
    match readSnapshot snapPath snapshot .blank with
    | (.ok _, d) => ⟨load d.data, d.lastSeq, 0⟩
    | (.error _, _) => ⟨.initial, 0, 0⟩

def Progress.replay (risk : RiskConfig) : UInt64 → Progress → List OrderCommand → Progress
  | _, p, [] => p
  | seq, p, c :: cs =>
    Progress.replay risk (seq + 1)
      (if seq > p.fromSeq then ⟨p.verifier.apply risk c, p.fromSeq, p.applied + 1⟩ else p) cs

/-- `main` once its arguments are read. -/
def main (risk : RiskConfig) (snapPath : String) (snapshot : Except String (List UInt8))
    (walPath : String) (log : Except String (List UInt8)) : Verdict :=
  let rd := readWal walPath log
  if rd.error ≠ "" then .unreadable rd.error
  else if rd.sequenceGap then .gap rd.gapAfter
  else
    let p := (begin snapPath snapshot).replay risk rd.firstSeq rd.commands
    match inspect p.verifier.book with
    | some finding => .insane finding
    | none => .verified p.applied rd.truncatedBytes p.verifier.book.digest

theorem replay_eq (risk : RiskConfig) (seq : UInt64) (p : Progress) (cs : List OrderCommand) :
    p.replay risk seq cs =
      ⟨(skipCovered true p.fromSeq seq cs).foldl (Verifier.apply risk) p.verifier, p.fromSeq,
      p.applied + (skipCovered true p.fromSeq seq cs).length⟩ := by
  induction cs generalizing seq p with
  | nil => rfl
  | cons c cs ih =>
    rw [Progress.replay, ih, skipCovered]
    by_cases h : seq > p.fromSeq
    · simp [h, Nat.add_assoc, Nat.add_comm]
    · simp [h]

/-- The verifier's book shows some settled book, in which its next id does not
rest: all that its checks depend on. -/
structure Shows (names : Nat → UInt64 × UInt64) (b : OrderBook) (v : Verifier) : Prop where
  view : View names b v.book
  settled : Settled b
  below : ∀ o ∈ b.allOrders, o.id < v.nextId

def Sane (v : Verifier) : Prop := ∃ names b, Shows names b v

variable {v : Verifier}

theorem Sane.initial : Sane .initial :=
  ⟨who Verifier.initial.book, OrderBook.empty, (mirrors_initial False).view, settled_empty,
    by simp [OrderBook.allOrders, OrderBook.empty, sideOrders]⟩

theorem Sane.cancel (h : Sane v) (id : Nat) : Sane (v.cancel id) := by
  obtain ⟨names, b, hb⟩ := h
  by_cases hrests : ∃ o ∈ b.allOrders, o.id = id
  · obtain ⟨o, ho, rfl⟩ := hrests
    exact ⟨names, _, view_cancel hb.view hb.settled.valid ho, settled_cancelOrder hb.settled o.id,
      fun r hr => hb.below r ((mem_cancelOrder hb.settled.valid).mp hr).1⟩
  · have habsent : (v.book.cancel id).2 = v.book :=
      cancel_absent hb.view fun o ho hid => hrests ⟨o, ho, hid⟩
    refine ⟨names, b, ?_, hb.settled, hb.below⟩
    rw [Verifier.cancel, habsent]
    exact hb.view

theorem Sane.cancels (h : Sane v) (ids : List Nat) : Sane (ids.foldl Verifier.cancel v) := by
  induction ids generalizing v with
  | nil => exact h
  | cons id ids ih => exact ih (h.cancel id)

theorem Sane.process {names : Nat → UInt64 × UInt64} {b : OrderBook} (hs : Settled b)
    (hbelow : ∀ o ∈ b.allOrders, o.id < v.nextId) (order : Order) (hk : order.kind ≠ .cancel)
    (hid : order.id = v.nextId) (hpos : 0 < order.quantity) {v' : SimpleBook}
    (hview : View names ((⟨b, []⟩ : MatchingEngine).processOrder order).2.book v') :
    Sane ⟨v', v.nextId + 1⟩ := by
  have hfresh : ∀ r ∈ b.allOrders, r.id ≠ order.id := fun r hr => hid ▸ (hbelow r hr).ne
  refine ⟨names, _, hview, settled_processOrder hs hk hfresh hpos, fun o ho => ?_⟩
  obtain ho | ⟨r, hr, ho⟩ := rests_processOrder hs hk hfresh hpos ho
  · rw [ho, hid]
    exact Nat.lt_succ_self _
  · rw [ho]
    exact (hbelow r hr).trans (Nat.lt_succ_self _)

theorem Sane.applyNewOrder (h : Sane v) (risk : RiskConfig) (c : OrderCommand) :
    Sane (v.applyNewOrder risk c) := by
  obtain ⟨names, b, hb⟩ := h
  unfold Verifier.applyNewOrder
  split
  · rename_i hpass
    have hpos : 0 < c.quantity.toNat := by
      refine Nat.pos_of_ne_zero fun hz => ?_
      have hzero : c.quantity = 0 := UInt32.toNat_inj.mp hz
      simp [SimpleBook.passesRisk, hzero] at hpass
    split
    · have hstart : InStep names v.book.lastTrade v.book ⟨b, c.quantity.toNat, []⟩ v.book :=
        ⟨hb.view, hb.settled.valid, rfl, rfl, rfl⟩
      exact Sane.process hb.settled hb.below ⟨v.nextId, 0, c.quantity.toNat, c.side, .market,
        0⟩ (by simp) rfl hpos (inStep_sweep hstart v.nextId 0 c.side).view
    · let order : Order := ⟨v.nextId, c.priceTicks.toInt, c.quantity.toNat, c.side, .limit, 0⟩
      let names' := Function.update names v.nextId (c.session, c.clientOrderId)
      have hfresh : ∀ r ∈ b.allOrders, r.id ≠ order.id := fun r hr => (hb.below r hr).ne
      have hnamed : View names' b (naming v c) := by
        have hside : ∀ s, (naming v c).side s = v.book.side s := fun s => side_congr rfl rfl s
        have hsame : View names b (naming v c) :=
          ⟨fun s => (hside s).trans (hb.view.side s), hb.view.loc⟩
        exact hsame.rename fun o ho => Function.update_of_ne (hfresh o ho) _ _
      have hadd := view_add hnamed hb.settled.valid (o := order) rfl hfresh
      have horder : viewOrder names' order =
          ⟨v.nextId, c.session, c.clientOrderId, c.quantity.toNat⟩ := by
        simp [viewOrder, names', order]
      rw [horder] at hadd
      let w : Sweep := ⟨b.addOrder order, c.quantity.toNat, []⟩
      have hstart : InStep names' (entering v c).lastTrade (entering v c) w (entering v c) :=
        ⟨hadd, addOrder_valid hb.settled.valid order hfresh, rfl, rfl, rfl⟩
      have hk : order.kind ≠ .cancel := by simp [order]
      have hdone : (crossLoop v.nextId w).book.isCrossed = false :=
        (settled_processOrder (e := ⟨b, []⟩) hb.settled hk hfresh hpos).uncrossed
      exact Sane.process hb.settled hb.below order hk rfl hpos
        (inStep_cross hstart v.nextId hdone).1.view
  · exact ⟨names, b, hb⟩

theorem Sane.apply (h : Sane v) (risk : RiskConfig) (c : OrderCommand) : Sane (v.apply risk c) := by
  unfold Verifier.apply
  cases c.type with
  | sessionOpened => exact h
  | subscribe => exact h
  | newOrder => exact h.applyNewOrder risk c
  | cancel =>
    dsimp only
    split
    · exact h.cancel _
    · exact h
  | modify =>
    dsimp only [Verifier.applyModify]
    split
    · exact h
    · split
      · exact h
      · exact (h.cancel _).applyNewOrder risk _
  | cancelAllForSession => exact h.cancels _

theorem Sane.run (h : Sane v) (risk : RiskConfig) (cs : List OrderCommand) :
    Sane (cs.foldl (Verifier.apply risk) v) := by
  induction cs generalizing v with
  | nil => exact h
  | cons c cs ih => exact ih (h.apply risk c)

theorem inspectLevel_view {names : Nat → UInt64 × UInt64} {b : OrderBook} (hs : Settled b)
    (s : Side) :
    ((b.levels s).map (viewLevel names)).findSome? (inspectLevel s) = none := by
  refine List.findSome?_eq_none_iff.mpr fun lvl hlvl => ?_
  obtain ⟨l, hl, rfl⟩ := List.mem_map.mp hlvl
  have hne : (viewLevel names l).2 ≠ [] := by
    simpa [viewLevel] using ((hs.valid.side s).level l hl).nonempty
  have hpos : (viewLevel names l).2.find? (fun o => o.quantity = 0) = none := by
    refine List.find?_eq_none.mpr fun r hr => ?_
    obtain ⟨o, ho, rfl⟩ := List.mem_map.mp hr
    have hrests : o ∈ b.allOrders := mem_queue.mpr ⟨s, List.mem_flatMap.mpr ⟨l, hl, ho⟩⟩
    exact decide_eq_true_iff.not.mpr (hs.positive o hrests).ne'
  rw [inspectLevel, if_neg hne, hpos]
  rfl

theorem Sane.inspect (h : Sane v) : inspect v.book = none := by
  obtain ⟨names, b, hb⟩ := h
  have hbids : v.book.bids.findSome? (inspectLevel .bid) = none := by
    rw [show v.book.bids = _ from hb.view.side .bid]
    exact inspectLevel_view hb.settled .bid
  have hasks : v.book.asks.findSome? (inspectLevel .ask) = none := by
    rw [show v.book.asks = _ from hb.view.side .ask]
    exact inspectLevel_view hb.settled .ask
  have hspread : v.book.crossed = false := (crossed_view hb.view).trans hb.settled.uncrossed
  rw [Vouching.inspect, hbids, hasks]
  rw [SimpleBook.crossed] at hspread
  split
  · rename_i bid ask hbid hask
    rw [hbid, hask] at hspread
    rw [if_neg (by simpa using hspread)]
    rfl
  · rfl

/-- A book into which the first orders of an export have been loaded, next to
the ledger into which they have been restored. -/
structure Loading (live : Nat → Option Entry) (os : List Order) (l' : Ledger)
    (b : SimpleBook) : Prop where
  rebuilding : Rebuilding live os l'
  view : View (who b) l'.book b
  sorted : KeyedList.Sorted Prod.fst b.owners
  named : ∀ o ∈ os, ∀ e, live o.id = some e → Named b e.owner e.client o.id

theorem loading_step {l l' : Ledger} {live : Nat → Option Entry} {b : SimpleBook} (h : Sound l live)
    {os rest : List Order} {o : Order} (hall : l.book.allOrders = os ++ o :: rest)
    (hl : Loading live os l' b) :
    Loading live (os ++ [o]) (restoreOrder l' (exportOrder l o))
      (loadOrder b (exportOrder l o)) := by
  have ho : o ∈ l.book.allOrders := by simp [hall]
  obtain ⟨s, hs⟩ := mem_queue.mp ho
  have hlimit : o.kind = .limit := ((h.settled.valid.side s).mem hs).2
  have hnew := exported_new h hall
  obtain ⟨e, he, -⟩ := h.rests o ho
  have howner : (exportOrder l o).session = e.owner := by simp [exportOrder, h.registers.owner, he]
  have hclient : (exportOrder l o).clientOrderId = e.client := by
    simp [exportOrder, h.registers.client, he]
  let b₁ := (b.setOwner o.id e.owner).setClientId o.id e.client
  have hb₁ : owner b₁ = Function.update (owner b) o.id (some e.owner) :=
    owner_setOwner b o.id e.owner
  have hnames : who b₁ = Function.update (who b) o.id (e.owner, e.client) := by
    funext x
    by_cases hx : x = o.id
    · subst hx
      rw [Function.update_self]
      exact who_named ⟨by rw [hb₁, Function.update_self], Function.update_self ..⟩
    · rw [Function.update_of_ne hx, who, who, hb₁, Function.update_of_ne hx]
      exact congrArg (Prod.mk _) (congrArg (Option.getD · 0) (Function.update_of_ne hx ..))
  have hfresh : ∀ r ∈ l'.book.allOrders, r.id ≠ o.id := by
    intro r hr
    obtain ⟨t, ht⟩ := mem_queue.mp hr
    rw [hl.rebuilding.queues] at ht
    exact fun hid => hnew (hid ▸ List.mem_map_of_mem (List.mem_of_mem_filter ht))
  have hview₁ : View (who b₁) l'.book b₁ := by
    have hside : ∀ s, b₁.side s = b.side s := fun s => side_congr rfl rfl s
    have hsame : View (who b) l'.book b₁ := ⟨fun s => (hside s).trans (hl.view.side s), hl.view.loc⟩
    refine hsame.rename fun r hr => ?_
    rw [hnames, Function.update_of_ne (hfresh r hr)]
  have hadd := view_add hview₁ hl.rebuilding.valid hlimit hfresh
  have hload : loadOrder b (exportOrder l o) =
      b₁.add o.priceTicks o.side (viewOrder (who b₁) o) := by
    have hside : (if (exportOrder l o).side = 0 then Side.bid else Side.ask) = o.side :=
      congrArg Order.side (restoredOrder_exportOrder (l := l) hlimit)
    rw [loadOrder, hside, howner, hclient, viewOrder, hnames, Function.update_self]
    rfl
  have hbook : (restoreOrder l' (exportOrder l o)).book = l'.book.addOrder o :=
    congrArg l'.book.addOrder (restoredOrder_exportOrder hlimit)
  have hframe : ∀ (b : SimpleBook) (px : Int) (s : Side) (r : VOrder),
      (b.add px s r).owners = b.owners ∧ (b.add px s r).clientIds = b.clientIds := by
    intro b px s r
    cases s <;> exact ⟨rfl, rfl⟩
  obtain ⟨howners, hids⟩ := hframe b₁ o.priceTicks o.side (viewOrder (who b₁) o)
  have hwho : who (loadOrder b (exportOrder l o)) = who b₁ := by
    funext x
    rw [hload, who, who, owner, owner, howners, hids]
  refine ⟨rebuilding_step h hall hl.rebuilding, ?_, ?_, fun r hr d hd => ?_⟩
  · rw [hwho, hbook, hload]
    exact hadd
  · rw [hload, howners]
    exact KeyedList.sorted_insert hl.sorted _
  · rw [hload, Named, owner, howners, hids]
    show owner b₁ r.id = some d.owner ∧ b₁.clientIds r.id = some d.client
    by_cases hx : r.id = o.id
    · rw [hx, he] at hd
      obtain rfl := Option.some.inj hd
      rw [hx, hb₁, Function.update_self]
      exact ⟨rfl, Function.update_self ..⟩
    · obtain hr | hr := List.mem_append.mp hr
      · rw [hb₁, Function.update_of_ne hx]
        exact ⟨(hl.named r hr d hd).1, (Function.update_of_ne hx ..).trans (hl.named r hr d hd).2⟩
      · exact absurd (congrArg Order.id (List.mem_singleton.mp hr)) hx

theorem loading_all {l l' : Ledger} {live : Nat → Option Entry} {b : SimpleBook} (h : Sound l live)
    {os rest : List Order} (hall : l.book.allOrders = os ++ rest) (hl : Loading live os l' b) :
    Loading live l.book.allOrders ((rest.map (exportOrder l)).foldl restoreOrder l')
      ((rest.map (exportOrder l)).foldl loadOrder b) := by
  induction rest generalizing os l' b with
  | nil => simpa [hall] using hl
  | cons o rest ih => exact ih (by simp [hall]) (loading_step h hall hl)

/-- The verifier that loads an export follows the engine that restores it. -/
theorem mirrors_load {l : Ledger} {live : Nat → Option Entry} (h : Sound l live)
    (lastSeq : UInt64) :
    Mirrors False (restore Ledger.initial (exportSnapshot l lastSeq))
      (load (exportSnapshot l lastSeq)) := by
  obtain ⟨hbook, hsound, htrade, hnext⟩ := sound_restore h lastSeq
  have hinitial : View (who SimpleBook.empty) OrderBook.empty SimpleBook.empty :=
    (mirrors_initial False).view
  have hl := loading_all h (l.book.allOrders.nil_append).symm
    ⟨rebuilding_initial live l.lastTradeTicks l.nextExchangeId, hinitial, List.Pairwise.nil, nofun⟩
  refine ⟨?_, hl.sorted, fun x s coid ho => ?_, htrade.symm, hnext.symm, False.elim⟩
  · exact ⟨hl.view.side, hl.view.loc⟩
  · obtain ⟨e, he, rfl, rfl⟩ := (owns_entry hsound.registers).mp ho
    obtain ⟨o, hrests, rfl⟩ := h.backed x e he
    exact hl.named o hrests e he

theorem Sane.load {l : Ledger} {live : Nat → Option Entry} (h : Sound l live) (lastSeq : UInt64) :
    Sane (load (exportSnapshot l lastSeq)) := by
  obtain ⟨hbook, -⟩ := sound_restore h lastSeq
  have hview := (mirrors_load h lastSeq).view
  rw [hbook] at hview
  exact ⟨_, l.book, hview, h.settled, fun o ho => (h.fresh o ho).2⟩

/-- The history of one bid and a market sell into it, with a snapshot taken
between the two. -/
def soldInto : List OrderCommand :=
  [.newOrder 1 1 100 10 .bid .limit, .newOrder 2 1 0 4 .ask .market]

def afterBid : Image := .of (exportSnapshot (fold .default Ledger.initial (soldInto.take 1)) 1)

def soldFiles : Startup.Files :=
  ⟨.ok (writeSnapshot afterBid), .error "No such file or directory", .ok (records 0 soldInto)⟩

theorem afterBid_data :
    afterBid.data = exportSnapshot (fold .default Ledger.initial (soldInto.take 1)) 1 := by
  decide +kernel

theorem read_soldFiles : readSnapshot "snap" soldFiles.snapshot .blank = (.ok (), afterBid) :=
  readSnapshot_writeSnapshot "snap" (by decide +kernel) .blank

/-- With a snapshot and a log, the verifier prints the digest of the book that
a gateway recovers from the same files. -/
theorem verifier_vouches (cfg : Config) (env : Env) (f : Startup.Files) (nowNs : UInt64) (d : Image)
    (r : Recovery) (before : List OrderCommand) (hwal : cfg.walPath ≠ "")
    (hrecover : cfg.recover = true) (hpath : cfg.snapPath ≠ "")
    (hread : readSnapshot cfg.snapPath f.snapshot .blank = (.ok (), d))
    (hexport : d.data = exportSnapshot (fold cfg.risk Ledger.initial before) d.lastSeq)
    (hdistinct : DistinctKeys cfg.risk Ledger.initial before)
    (hlog : (readWal cfg.walPath f.log).error = "") (hr : recovery cfg f = some r)
    (hreuse : Along cfg.risk NoReuse (restore Ledger.initial d.data) (load d.data) r.pending)
    (hkeys : Along cfg.risk (OwnKey cfg.risk) (restore Ledger.initial d.data)
      (load d.data) r.pending)
    (hstale : Along cfg.risk NoStale (restore Ledger.initial d.data) (load d.data) r.pending) :
    (start cfg env f nowNs none).map (fun t => Verdict.verified r.pending.length
        (readWal cfg.walPath f.log).truncatedBytes (OrderBook.digest t.ledger.book)) =
      some (main cfg.risk cfg.snapPath f.snapshot cfg.walPath f.log) := by
  obtain ⟨live, h, hi⟩ := indexed_fold sound_initial indexed_initial hdistinct
  obtain ⟨t, hstart⟩ := started_of_recovery hr env nowNs
  have hchosen : chooseSnapshot cfg f = ⟨true, d⟩ := by
    rw [chooseSnapshot, if_neg (by simp [hpath, hrecover]), hread]
  have hbegin : begin cfg.snapPath f.snapshot = ⟨load d.data, d.lastSeq, 0⟩ := by
    rw [begin, if_neg hpath, hread]
  have hledger := ledger_start hr hstart
  rw [hchosen, baseLedger, if_pos rfl] at hledger
  obtain ⟨-, hsound, hindexed, -⟩ := restore_exportSnapshot h hi d.lastSeq
  have hmirrors := mirrors_load h d.lastSeq
  rw [← hexport] at hsound hindexed hmirrors
  obtain ⟨⟨live', h'⟩, hm⟩ := mirrors_fold hsound hindexed hmirrors hreuse hkeys hstale
  rw [← hledger] at h' hm
  have hsane : Sane (r.pending.foldl (Verifier.apply cfg.risk) (load d.data)) := by
    refine Sane.run ?_ cfg.risk r.pending
    rw [hexport]
    exact Sane.load h d.lastSeq
  have hdigest : (r.pending.foldl (Verifier.apply cfg.risk) (load d.data)).book.digest =
      OrderBook.digest t.ledger.book :=
    digest_eq (mapDepth_view hm.view h'.settled.valid .bid)
      (mapDepth_view hm.view h'.settled.valid .ask)
  rw [recovery, if_neg (by simp [hwal, hrecover]), hchosen, recoverLog,
    if_neg (not_not.mpr hlog)] at hr
  rw [hstart, main, if_neg (not_not.mpr hlog), hbegin, replay_eq]
  cases hgap : (readWal cfg.walPath f.log).sequenceGap with
  | true => simp [hgap] at hr
  | false =>
    have hpending : skipCovered true d.lastSeq (readWal cfg.walPath f.log).firstSeq
        (readWal cfg.walPath f.log).commands = r.pending := by
      rw [hgap, if_neg Bool.false_ne_true] at hr
      exact congrArg Recovery.pending (Option.some.inj hr)
    rw [if_neg Bool.false_ne_true]
    dsimp only
    rw [hpending, hsane.inspect, hdigest, Nat.zero_add]
    rfl

theorem verifier_vouches_sold :
    (start recovering .obliging soldFiles 0 none).map (fun t => Verdict.verified 1
        (readWal "wal" soldFiles.log).truncatedBytes (OrderBook.digest t.ledger.book)) =
      some (main .default "snap" soldFiles.snapshot "wal" soldFiles.log) := by
  have hwal : recovering.walPath ≠ "" := by decide
  have hlog : soldFiles.log = .ok (records (UInt64.ofNat 0) soldInto) := rfl
  obtain ⟨r, hr, hpending, -⟩ := recovery_intact hwal rfl hlog (by decide)
  have hchosen : chooseSnapshot recovering soldFiles = ⟨true, afterBid⟩ := by
    rw [chooseSnapshot, if_neg (by decide), show recovering.snapPath = "snap" from rfl,
      read_soldFiles]
  rw [hchosen] at hpending
  have hsell : r.pending = [.newOrder 2 1 0 4 .ask .market] := hpending
  obtain ⟨live, h⟩ := sound_fold .default (soldInto.take 1)
  have hkeeps : KeepsBooks (restore Ledger.initial afterBid.data) := by
    rw [afterBid_data]
    exact keepsBooks_of_sound (sound_restore h 1).2.1
  have hbid : ∀ {x s coid}, Owns (restore Ledger.initial afterBid.data) s coid x →
      x = 1 ∧ s = 1 ∧ coid = 1 :=
    fun ho => owns_single hkeeps (by decide +kernel) ⟨by decide +kernel, by decide +kernel⟩ ho
  have hvouch :=
    verifier_vouches recovering .obliging soldFiles 0 afterBid r (soldInto.take 1) (by decide) rfl
      (by decide) read_soldFiles afterBid_data (distinctKeys_single _ _) (by decide +kernel) hr
  rw [hsell] at hvouch
  refine hvouch ⟨fun _ x ho => ?_, trivial⟩ ⟨fun _ x s coid ho hkey => ?_, trivial⟩ ⟨?_, trivial⟩
  · have hs := (hbid ho).2.1
    revert hs
    decide
  · obtain ⟨-, rfl, rfl⟩ := hbid ho
    revert hkey
    decide
  · rintro (hc | ⟨hc, -⟩) <;> cases hc

end OrderMatching.Vouching
