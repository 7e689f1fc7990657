import OrderMatching.Mirror
import OrderMatching.Resume

namespace OrderMatching.Agreement

open OrderMatching.Orders OrderMatching.Book OrderMatching.BookInvariant OrderMatching.Engine
open OrderMatching.Crossing OrderMatching.Priority OrderMatching.Queues OrderMatching.Commands
open OrderMatching.Log OrderMatching.Exchange OrderMatching.MatchingThread OrderMatching.LedgerStep
open OrderMatching.LogFold OrderMatching.Registry OrderMatching.Acceptance OrderMatching.Bookkeeping
open OrderMatching.Modify OrderMatching.KeyIndex OrderMatching.Isolation OrderMatching.Resume
open OrderMatching.WalVerify OrderMatching.Mirror

def depth (ls : List PriceLevel) : List (Int × Nat × Nat) :=
  ls.map (fun lvl => (lvl.priceTicks, lvl.totalQty, lvl.orders.length))

def mapDepth (m : PriceMap) : List (Int × Nat × Nat) :=
  m.map (fun lvl => (lvl.1, (lvl.2.map VOrder.quantity).sum, lvl.2.length))

/-- The same prices, quantities and order counts on both sides, and the same
digest. -/
structure Agrees (b : OrderBook) (v : SimpleBook) : Prop where
  bids : mapDepth v.bids = depth b.bids
  asks : mapDepth v.asks = depth b.asks
  digest : v.digest = OrderBook.digest b

theorem mapDepth_view {who : Nat → UInt64 × UInt64} {b : OrderBook} {v : SimpleBook}
    (h : View who b v) (hv : Valid b) (s : Side) : mapDepth (v.side s) = depth (b.levels s) := by
  rw [h.side, mapDepth, depth, List.map_map]
  refine List.map_congr_left fun lvl hl => ?_
  have htotal : (lvl.orders.map Order.quantity).sum = lvl.totalQty :=
    ((hv.side s).level lvl hl).total.symm
  simp [viewLevel, viewOrder, Function.comp_def, htotal]

/-- Both digests are the same function of the depth. -/
theorem digest_eq {b : OrderBook} {v : SimpleBook} (hbids : mapDepth v.bids = depth b.bids)
    (hasks : mapDepth v.asks = depth b.asks) : v.digest = OrderBook.digest b := by
  let row (h : UInt64) (r : Int × Nat × Nat) : UInt64 :=
    mix (mix (mix h (UInt64.ofInt r.1)) (UInt64.ofNat r.2.1)) (UInt64.ofNat r.2.2)
  have hside : ∀ (h tag : UInt64) (m : PriceMap) (ls : List PriceLevel), mapDepth m = depth ls →
      mixSide h m tag = digestSide h tag ls := by
    intro h tag m ls he
    have hlen : m.length = ls.length := by simpa [mapDepth, depth] using congrArg List.length he
    have hm : mixSide h m tag =
        (mapDepth m).foldl row (mix (mix h tag) (UInt64.ofNat m.length)) := by
      rw [mapDepth, List.foldl_map]
      rfl
    have hl : digestSide h tag ls =
        (depth ls).foldl row (mix (mix h tag) (UInt64.ofNat ls.length)) := by
      rw [depth, List.foldl_map]
      rfl
    rw [hm, hl, he, hlen]
  rw [SimpleBook.digest, OrderBook.digest, hside _ _ _ _ hbids, hside _ _ _ _ hasks]

def owner (b : SimpleBook) (x : Nat) : Option UInt64 :=
  (KeyedList.find Prod.fst x b.owners).map Prod.snd

def Named (b : SimpleBook) (s coid : UInt64) (x : Nat) : Prop :=
  owner b x = some s ∧ b.clientIds x = some coid

def who (b : SimpleBook) (x : Nat) : UInt64 × UInt64 := ((owner b x).getD 0, (b.clientIds x).getD 0)

theorem who_named {b : SimpleBook} {s coid : UInt64} {x : Nat} (h : Named b s coid x) :
    who b x = (s, coid) := by
  rw [who, h.1, h.2]
  rfl

/-- The verifier follows the engine: it shows its book, knows the names of its
live orders, and has the same last trade and next id. With `limits` for the
assumption that there are no market orders, its records are tidy as well. -/
structure Mirrors (limits : Prop) (l : Ledger) (v : Verifier) : Prop where
  view : View (who v.book) l.book v.book
  sorted : KeyedList.Sorted Prod.fst v.book.owners
  named : ∀ x s coid, Owns l s coid x → Named v.book s coid x
  lastTrade : v.book.lastTrade = l.lastTradeTicks
  nextId : v.nextId = l.nextExchangeId
  tidy : limits → Tidy l.book v.book

theorem mirrors_initial (limits : Prop) : Mirrors limits Ledger.initial Verifier.initial where
  view := ⟨fun s => by cases s <;> rfl, by
    simp [Ledger.book, Ledger.initial, MatchingEngine.empty, OrderBook.allOrders,
      OrderBook.empty, sideOrders]⟩
  sorted := List.Pairwise.nil
  named _ _ _ h := nomatch h.1
  lastTrade := rfl
  nextId := rfl
  tidy _ _ h := nomatch h

variable {limits : Prop}

theorem passesRisk_eq {l : Ledger} {v : Verifier} (hm : Mirrors limits l v) (risk : RiskConfig)
    (c : OrderCommand) :
    v.book.passesRisk c risk = decide (l.checkRisk risk c = .none) := by
  have hbid : best v.book.bids = bestTicks l.book .bid := by
    rw [show v.book.bids = _ from hm.view.side .bid, best_view]
    rfl
  have hask : best v.book.asks = bestTicks l.book .ask := by
    rw [show v.book.asks = _ from hm.view.side .ask, best_view]
    rfl
  have hband : ∀ (P : Prop) [Decidable P], (!decide P) =
      decide ((if P then RejectReason.riskPriceBand else RejectReason.none) =
        RejectReason.none) := by
    intro P _
    by_cases h : P <;> simp [h]
  simp only [SimpleBook.passesRisk, Ledger.checkRisk, Ledger.referencePrice,
    hm.lastTrade, hbid, hask]
  by_cases h1 : c.quantity = 0
  · simp [h1]
  by_cases h2 : c.quantity > risk.maxOrderQty
  · simp [h1, h2]
  by_cases h3 : c.orderType = .market
  · simp [h1, h2, h3]
  by_cases h4 : c.priceTicks.toInt ≤ 0
  · simp [h1, h2, h3, h4]
  by_cases h5 : risk.tickSize > 1 ∧ Int.tmod c.priceTicks.toInt risk.tickSize.toInt ≠ 0
  · simp [h1, h2, h3, h4, h5]
  by_cases h6 : risk.priceBandBp > 0
  · simp only [h1, h2, h3, h4, h5, h6, if_true, if_false, or_self]
    by_cases h7 : l.lastTradeTicks > 0
    · simp only [h7, if_true]
      exact hband _
    · simp only [h7, if_false]
      cases bestTicks l.book .bid with
      | none => simp
      | some bid =>
        cases bestTicks l.book .ask with
        | none => simp
        | some ask => exact hband _
  · simp [h1, h2, h3, h4, h5, h6]

/-- What the engine does with an accepted order carries over once the books
have gone through it in step. -/
theorem mirrors_of_inStep {l : Ledger} {live : Nat → Option Entry} (h : Sound l live)
    {risk : RiskConfig} {c : OrderCommand} (hrisk : l.checkRisk risk c = .none) {v₀ v : SimpleBook}
    {w : Sweep} (hs : InStep (who v₀) l.lastTradeTicks v₀ w v)
    (hw : (l.engine.processOrder (l.incoming c)).2 = ⟨w.book, w.trades⟩)
    (hsorted : KeyedList.Sorted Prod.fst v₀.owners)
    (hnamed : ∀ x s coid, Owns (stepNewOrder risk l c).1 s coid x → Named v₀ s coid x)
    (htidy : limits → Tidy w.book v) :
    Mirrors limits (stepNewOrder risk l c).1 ⟨v, l.nextExchangeId + 1⟩ := by
  have ha := h.accepted hrisk
  have hbook : (stepNewOrder risk l c).1.book = w.book := by
    rw [Ledger.book, engine_newOrder h hrisk, hw]
  have htrades : w.trades = (outcome l c).fills.map (tradeOf (l.incoming c)) := by
    obtain ⟨-, -, -, -, hlog⟩ :=
      processOrder_spec h.settled.valid h.settled.uncrossed (incoming_kind l c).1
        (h.fresh_incoming c) (quantity_pos hrisk)
    rw [hw, h.quiet] at hlog
    exact hlog
  have howner : owner v = owner v₀ := by
    funext x
    rw [owner, owner, hs.owners]
  have hwho : who v = who v₀ := by
    funext x
    rw [who, who, howner, hs.clientIds]
  refine ⟨?_, ?_, fun x s coid ho => ?_, ?_, ha.nextId.symm, ?_⟩
  · rw [hbook, hwho]
    exact hs.view
  · rw [hs.owners]
    exact hsorted
  · rw [Named, howner, hs.clientIds]
    exact hnamed x s coid ho
  · rw [hs.lastTrade, htrades, ha.lastTrade]
  · rw [hbook]
    exact htidy

theorem owns_newOrder {l : Ledger} {live : Nat → Option Entry} (h : Sound l live)
    {risk : RiskConfig} {c : OrderCommand} (hrisk : l.checkRisk risk c = .none) {x : Nat}
    {s coid : UInt64} (ho : Owns (stepNewOrder risk l c).1 s coid x) :
    (x = l.nextExchangeId ∧ c.orderType ≠ .market ∧ s = c.session ∧ coid = c.clientOrderId) ∨
      Owns l s coid x := by
  obtain ⟨e, he, rfl, rfl⟩ := (owns_entry (h.accepted hrisk).registers).mp ho
  obtain hnew | ⟨d, hd, h1, h2⟩ := liveAfter_names h (quantity_pos hrisk) he
  · exact Or.inl hnew
  · exact Or.inr ((owns_entry h.registers).mpr ⟨d, hd, h1.symm, h2.symm⟩)

theorem owner_setOwner (b : SimpleBook) (id : Nat) (session : UInt64) :
    owner (b.setOwner id session) = Function.update (owner b) id (some session) := by
  funext x
  by_cases hx : x = id
  · subst hx
    have hf : KeyedList.find Prod.fst x (KeyedList.insert Prod.fst (x, session) b.owners) =
        some (x, session) :=
      KeyedList.find_insert_self (x, session) b.owners
    rw [Function.update_self, owner, SimpleBook.setOwner, hf]
    rfl
  · have hf : KeyedList.find Prod.fst x (KeyedList.insert Prod.fst (id, session) b.owners) =
        KeyedList.find Prod.fst x b.owners := KeyedList.find_insert_of_ne hx _
    rw [Function.update_of_ne hx, owner, SimpleBook.setOwner, hf]
    rfl

theorem mirrors_market {l : Ledger} {live : Nat → Option Entry} {v : Verifier} (h : Sound l live)
    (hm : Mirrors limits l v) {risk : RiskConfig} {c : OrderCommand}
    (hrisk : l.checkRisk risk c = .none) (hmarket : c.orderType = .market) (hlimits : ¬limits) :
    Mirrors limits (stepNewOrder risk l c).1 ⟨v.book.sweep c.side c.quantity.toNat,
      l.nextExchangeId + 1⟩ := by
  have hkind : (l.incoming c).kind = .market := ((incoming_kind l c).2).mpr hmarket
  have hstart : InStep (who v.book) l.lastTradeTicks v.book ⟨l.book, c.quantity.toNat, []⟩ v.book :=
    ⟨hm.view, h.settled.valid, hm.lastTrade, rfl, rfl⟩
  have hprocess : (l.engine.processOrder (l.incoming c)).2 =
      ⟨(l.book.matchMarket l.nextExchangeId c.side c.quantity.toNat (l.logicalClock + 1) []).book,
        (l.book.matchMarket l.nextExchangeId c.side c.quantity.toNat (l.logicalClock + 1)
          []).trades⟩ := by
    simp only [MatchingEngine.processOrder, hkind, h.quiet]
    rfl
  refine mirrors_of_inStep h hrisk
    (inStep_sweep hstart l.nextExchangeId (l.logicalClock + 1) c.side) hprocess hm.sorted
    (fun x s coid ho => ?_) fun hl => absurd hl hlimits
  obtain ⟨-, hno, -⟩ | ho := owns_newOrder h hrisk ho
  · exact absurd hmarket hno
  · exact hm.named x s coid ho

def naming (v : Verifier) (c : OrderCommand) : SimpleBook :=
  (v.book.setOwner v.nextId c.session).setClientId v.nextId c.clientOrderId

def entering (v : Verifier) (c : OrderCommand) : SimpleBook :=
  (naming v c).add c.priceTicks.toInt c.side ⟨v.nextId, c.session, c.clientOrderId,
    c.quantity.toNat⟩

theorem naming_names (v : Verifier) (c : OrderCommand) :
    Named (naming v c) c.session c.clientOrderId v.nextId ∧
    ∀ x, x ≠ v.nextId → owner (naming v c) x = owner v.book x ∧
      (naming v c).clientIds x = v.book.clientIds x := by
  have howner : owner (naming v c) = Function.update (owner v.book) v.nextId (some c.session) :=
    owner_setOwner v.book v.nextId c.session
  have hclient : (naming v c).clientIds =
      Function.update v.book.clientIds v.nextId (some c.clientOrderId) := rfl
  rw [Named, howner, hclient]
  refine ⟨⟨Function.update_self .., Function.update_self ..⟩, fun x hx => ?_⟩
  exact ⟨Function.update_of_ne hx .., Function.update_of_ne hx ..⟩

theorem inStep_entering {l : Ledger} {live : Nat → Option Entry} {v : Verifier} (h : Sound l live)
    (hm : Mirrors limits l v) {c : OrderCommand} (hkind : (l.incoming c).kind = .limit) :
    InStep (who (naming v c)) l.lastTradeTicks (naming v c) ⟨l.book.addOrder (l.incoming c),
      c.quantity.toNat, []⟩ (entering v c) := by
  obtain ⟨hnew, hold⟩ := naming_names v c
  have hview : View (who (naming v c)) l.book (naming v c) := by
    have hside : ∀ s, (naming v c).side s = v.book.side s := fun s => side_congr rfl rfl s
    have hsame : View (who v.book) l.book (naming v c) :=
      ⟨fun s => (hside s).trans (hm.view.side s), hm.view.loc⟩
    refine hsame.rename fun o ho => ?_
    obtain ⟨h1, h2⟩ := hold o.id (hm.nextId ▸ (h.fresh o ho).2.ne)
    rw [who, who, h1, h2]
  have horder : viewOrder (who (naming v c)) (l.incoming c) =
      ⟨v.nextId, c.session, c.clientOrderId, c.quantity.toNat⟩ := by
    rw [viewOrder, show (l.incoming c).id = v.nextId from hm.nextId.symm, who_named hnew]
    rfl
  have hadd := view_add hview h.settled.valid hkind (h.fresh_incoming c)
  rw [horder] at hadd
  have hframe : (entering v c).owners = (naming v c).owners ∧
      (entering v c).clientIds = (naming v c).clientIds ∧
      (entering v c).lastTrade = v.book.lastTrade := by
    unfold entering
    cases c.side <;> exact ⟨rfl, rfl, rfl⟩
  exact ⟨hadd, addOrder_valid h.settled.valid _ (h.fresh_incoming c),
    hframe.2.2.trans hm.lastTrade, hframe.1, hframe.2.1⟩

theorem mirrors_limit {l : Ledger} {live : Nat → Option Entry} {v : Verifier} (h : Sound l live)
    (hm : Mirrors limits l v) {risk : RiskConfig} {c : OrderCommand}
    (hrisk : l.checkRisk risk c = .none) (hlimit : c.orderType ≠ .market) :
    Mirrors limits (stepNewOrder risk l c).1 ⟨(entering v c).cross, l.nextExchangeId + 1⟩ := by
  have hkind : (l.incoming c).kind = .limit := by simp [Ledger.incoming, hlimit]
  let w : Sweep := ⟨l.book.addOrder (l.incoming c), c.quantity.toNat, []⟩
  have hprocess : (l.engine.processOrder (l.incoming c)).2 =
      ⟨(crossLoop l.nextExchangeId w).book, (crossLoop l.nextExchangeId w).trades⟩ := by
    simp only [MatchingEngine.processOrder, hkind, h.quiet]
    rfl
  have hdone := (settled_processOrder h.settled (incoming_kind l c).1 (h.fresh_incoming c)
    (quantity_pos hrisk)).uncrossed
  rw [hprocess] at hdone
  obtain ⟨hstep, htidy⟩ := inStep_cross (inStep_entering h hm hkind) l.nextExchangeId hdone
  obtain ⟨hnew, hold⟩ := naming_names v c
  refine mirrors_of_inStep h hrisk hstep hprocess (KeyedList.sorted_insert hm.sorted _)
    (fun x s coid ho => ?_) fun hl => htidy (tidy_add h.settled.valid hkind (hm.tidy hl) hm.nextId)
  obtain ⟨rfl, -, rfl, rfl⟩ | ho := owns_newOrder h hrisk ho
  · exact hm.nextId ▸ hnew
  · have hx : x ≠ v.nextId := by
      obtain ⟨e, he, -⟩ := (owns_entry h.registers).mp ho
      rw [hm.nextId]
      rintro rfl
      rw [h.not_live] at he
      cases he
    rw [Named, (hold x hx).1, (hold x hx).2]
    exact hm.named x s coid ho

theorem mirrors_newOrder {l : Ledger} {live : Nat → Option Entry} {v : Verifier} (h : Sound l live)
    (hm : Mirrors limits l v) (risk : RiskConfig) {c : OrderCommand}
    (hlimits : limits → c.orderType ≠ .market) :
    Mirrors limits (stepNewOrder risk l c).1 (v.applyNewOrder risk c) := by
  have hpass := passesRisk_eq hm risk c
  by_cases hrisk : l.checkRisk risk c = .none
  · rw [decide_eq_true hrisk] at hpass
    by_cases hmarket : c.orderType = .market
    · have hafter := mirrors_market h hm hrisk hmarket fun hl => hlimits hl hmarket
      simpa only [Verifier.applyNewOrder, hpass, if_true, hmarket, hm.nextId] using hafter
    · have hafter := mirrors_limit h hm hrisk hmarket
      rw [← hm.nextId] at hafter
      simpa only [Verifier.applyNewOrder, hpass, if_true, hmarket, if_false, entering,
        naming] using hafter
  · rw [stepNewOrder_rejects hrisk]
    rw [decide_eq_false hrisk] at hpass
    simpa only [Verifier.applyNewOrder, hpass, Bool.false_eq_true, if_false] using hm

theorem cancel_frame (b : SimpleBook) (id : Nat) : (b.cancel id).2.owners = b.owners ∧
    (b.cancel id).2.clientIds = b.clientIds ∧ (b.cancel id).2.lastTrade = b.lastTrade := by
  unfold SimpleBook.cancel
  split
  · exact ⟨rfl, rfl, rfl⟩
  · split
    · exact ⟨rfl, rfl, rfl⟩
    · rename_i s _ _ _ _
      cases s <;> exact ⟨rfl, rfl, rfl⟩

theorem mirrors_cancel {l : Ledger} {live : Nat → Option Entry} {v : Verifier} (h : Sound l live)
    (hm : Mirrors limits l v) {x : Nat} {e : Entry} (hx : live x = some e) :
    Mirrors limits (withdrawn l x) (v.cancel x) := by
  obtain ⟨o, ho, rfl⟩ := h.backed x e hx
  obtain ⟨f1, f2, f3⟩ := cancel_frame v.book o.id
  have howner : owner (v.book.cancel o.id).2 = owner v.book := by
    funext y
    rw [owner, owner, f1]
  have hwho : who (v.cancel o.id).book = who v.book := by
    funext y
    rw [who, who, Verifier.cancel, howner, f2]
  refine ⟨?_, ?_, fun y s coid hy => ?_, ?_, ?_, fun hl => ?_⟩
  · rw [book_withdrawn, hwho]
    exact view_cancel hm.view h.settled.valid ho
  · rw [Verifier.cancel, f1]
    exact hm.sorted
  · have hlive : Owns l s coid y := by
      obtain ⟨d, hd, h1, h2⟩ := (owns_entry (h.cancel o.id).registers).mp hy
      have hne : y ≠ o.id := by
        rintro rfl
        simp at hd
      rw [Function.update_of_ne hne] at hd
      exact (owns_entry h.registers).mpr ⟨d, hd, h1, h2⟩
    rw [Named, Verifier.cancel, howner, f2]
    exact hm.named y s coid hlive
  · rw [Verifier.cancel, f3, hm.lastTrade, (withdrawn_frame l o.id).1]
  · rw [Verifier.cancel, hm.nextId, (withdrawn_frame l o.id).2]
  · rw [book_withdrawn]
    exact tidy_cancel hm.view h.settled.valid (hm.tidy hl) ho

theorem mirrors_cancelOrders {l : Ledger} {live : Nat → Option Entry} {v : Verifier}
    (h : Sound l live) (hm : Mirrors limits l v) {ids : List Nat} (hids : ids.Nodup)
    (hlive : ∀ x ∈ ids, (live x).isSome = true) :
    Mirrors limits (cancelOrders l ids) (ids.foldl Verifier.cancel v) := by
  induction ids generalizing l live v with
  | nil => exact hm
  | cons x ids ih =>
    obtain ⟨hx, hids⟩ := List.nodup_cons.mp hids
    obtain ⟨e, he⟩ := Option.isSome_iff_exists.mp (hlive x (by simp))
    refine ih (h.cancel x) (mirrors_cancel h hm he) hids fun y hy => ?_
    have hne : y ≠ x := fun heq => hx (heq ▸ hy)
    rw [Function.update_of_ne hne]
    exact hlive y (List.mem_cons_of_mem x hy)

def orders (b : SimpleBook) : List VOrder := b.bids.flatMap Prod.snd ++ b.asks.flatMap Prod.snd

theorem orders_view {names : Nat → UInt64 × UInt64} {b : OrderBook} {v : SimpleBook}
    (h : View names b v) :
    orders v = b.allOrders.map (viewOrder names) := by
  have hside : ∀ ls : List PriceLevel, (ls.map (viewLevel names)).flatMap Prod.snd =
      (sideOrders ls).map (viewOrder names) := by
    intro ls
    simp [sideOrders, List.flatMap_map, List.map_flatMap, viewLevel]
  rw [orders, show v.bids = _ from h.side .bid, show v.asks = _ from h.side .ask, hside, hside,
    ← List.map_append]
  rfl

theorem sessionIds_spec {l : Ledger} {live : Nat → Option Entry} {v : Verifier} (h : Sound l live)
    (hm : Mirrors limits l v) (s : UInt64) : (v.book.sessionIds s).Nodup ∧
      ∀ x, x ∈ v.book.sessionIds s ↔ (live x).map Entry.owner = some s := by
  have hids : v.book.sessionIds s =
      (l.book.allOrders.filter (fun o => (who v.book o.id).1 = s)).map Order.id := by
    rw [SimpleBook.sessionIds, show v.book.bids.flatMap Prod.snd ++ v.book.asks.flatMap Prod.snd =
      _ from orders_view hm.view, List.filter_map, List.map_map]
    rfl
  rw [hids]
  refine ⟨h.settled.valid.nodup.sublist (List.filter_sublist.map Order.id), fun x => ?_⟩
  simp only [List.mem_map, List.mem_filter, decide_eq_true_eq]
  have hwho : ∀ o ∈ l.book.allOrders, ∀ e, live o.id = some e → (who v.book o.id).1 = e.owner := by
    intro o ho e he
    rw [who_named (hm.named o.id e.owner e.client ((owns_entry h.registers).mpr ⟨e, he, rfl, rfl⟩))]
  constructor
  · rintro ⟨o, ⟨ho, hs⟩, rfl⟩
    obtain ⟨e, he, -⟩ := h.rests o ho
    rw [he, ← hs, hwho o ho e he]
    rfl
  · intro hx
    obtain ⟨e, he, rfl⟩ := Option.map_eq_some_iff.mp hx
    obtain ⟨o, ho, rfl⟩ := h.backed x e he
    exact ⟨o, ⟨ho, hwho o ho e he⟩, rfl⟩

theorem mirrors_cancelAll {l : Ledger} {live : Nat → Option Entry} {v : Verifier} (h : Sound l live)
    (hm : Mirrors limits l v) (c : OrderCommand) :
    Mirrors limits (stepCancelAll l c) ((v.book.sessionIds c.session).foldl Verifier.cancel v) := by
  obtain ⟨hnodup, hmem⟩ := sessionIds_spec h hm c.session
  have hm' := mirrors_cancelOrders h hm hnodup fun x hx => by
    have hsome := (hmem x).mp hx
    cases hl : live x with
    | none => simp [hl] at hsome
    | some e => rfl
  have hids : ∀ x, x ∈ (l.sessionOrders c.session).getD [] ↔ x ∈ v.book.sessionIds c.session :=
    fun x => (h.registers.session c.session x).trans (hmem x).symm
  have hwithout : without live ((l.sessionOrders c.session).getD []) =
      without live (v.book.sessionIds c.session) := by
    funext x
    simp [without, hids]
  -- the engine goes through the same orders in another order
  have ha := sound_cancelAll h c
  have hb := sound_cancelOrders h (v.book.sessionIds c.session)
  obtain ⟨c1, -, c3, c4⟩ := cancelOrders_spec h ((l.sessionOrders c.session).getD [])
  obtain ⟨d1, -, d3, d4⟩ := cancelOrders_spec h (v.book.sessionIds c.session)
  have hbook : (stepCancelAll l c).book = (cancelOrders l (v.book.sessionIds c.session)).book := by
    refine book_ext ha.settled.valid hb.settled.valid fun s => ?_
    rw [d1 s]
    refine (c1 s).trans ?_
    simp only [hids]
  refine ⟨hbook ▸ hm'.view, hm'.sorted, fun x s coid ho => hm'.named x s coid ?_, ?_, ?_,
    hbook ▸ hm'.tidy⟩
  · rw [owns_entry ha.registers, hwithout] at ho
    exact (owns_entry hb.registers).mpr ho
  · exact hm'.lastTrade.trans (d3.trans c3.symm)
  · exact hm'.nextId.trans (d4.trans c4.symm)

theorem mem_owners {b : SimpleBook} (hs : KeyedList.Sorted Prod.fst b.owners) {x : Nat}
    {s : UInt64} :
    (x, s) ∈ b.owners ↔ owner b x = some s := by
  constructor
  · intro hm
    have hf := KeyedList.find_of_mem hs hm
    rw [owner, hf]
    rfl
  · intro ho
    obtain ⟨⟨y, s'⟩, hf, rfl⟩ := Option.map_eq_some_iff.mp ho
    have hy : y = x := KeyedList.key_find hf
    exact hy ▸ KeyedList.mem_find hf

theorem findByClient_spec {b : SimpleBook} (hs : KeyedList.Sorted Prod.fst b.owners)
    (s coid : UInt64) :
    (b.findByClient s coid = 0 ∨
        Named b s coid (b.findByClient s coid) ∧ (b.loc (b.findByClient s coid)).isSome = true) ∧
      ∀ x, Named b s coid x → (b.loc x).isSome = true →
        Named b s coid (b.findByClient s coid) ∧ (b.loc (b.findByClient s coid)).isSome = true := by
  unfold SimpleBook.findByClient
  cases hf : b.owners.find?
    (fun p => decide (p.2 = s ∧ b.clientIds p.1 = some coid ∧ (b.loc p.1).isSome = true)) with
  | none =>
    refine ⟨Or.inl rfl, fun x hx hloc => ?_⟩
    have hno := List.find?_eq_none.mp hf (x, s) ((mem_owners hs).mpr hx.1)
    exact absurd (by simpa using ⟨hx.2, hloc⟩) hno
  | some p =>
    obtain ⟨y, s'⟩ := p
    obtain ⟨rfl, hc, hloc⟩ : s' = s ∧ b.clientIds y = some coid ∧ (b.loc y).isSome = true := by
      simpa using List.find?_some hf
    have hy : Named b s' coid y := ⟨(mem_owners hs).mp (List.mem_of_find?_eq_some hf), hc⟩
    exact ⟨Or.inr ⟨hy, hloc⟩, fun _ _ _ => ⟨hy, hloc⟩⟩

/-- An id of the pair is on record although its order has left the book. Only
an order that a market order fills completely leaves such a record. -/
def Stale (b : SimpleBook) (s coid : UInt64) : Prop :=
  ∃ x, Named b s coid x ∧ (b.loc x).isSome = true ∧ ∀ o ∈ orders b, o.id ≠ x

theorem owned_of_resting {l : Ledger} {live : Nat → Option Entry} {v : Verifier} (h : Sound l live)
    (hm : Mirrors limits l v) {x : Nat} {s coid : UInt64} (hx : Named v.book s coid x)
    (hrest : ∃ o ∈ orders v.book, o.id = x) : Owns l s coid x := by
  obtain ⟨o', ho', rfl⟩ := hrest
  rw [orders_view hm.view] at ho'
  obtain ⟨o, ho, rfl⟩ := List.mem_map.mp ho'
  obtain ⟨e, he, -⟩ := h.rests o ho
  have howns := (owns_entry h.registers).mpr ⟨e, he, rfl, rfl⟩
  have hnamed := hm.named o.id e.owner e.client howns
  have hs : e.owner = s := Option.some.inj (hnamed.1.symm.trans hx.1)
  have hc : e.client = coid := Option.some.inj (hnamed.2.symm.trans hx.2)
  exact hs ▸ hc ▸ howns

theorem loc_of_owned {l : Ledger} {live : Nat → Option Entry} {v : Verifier} (h : Sound l live)
    (hm : Mirrors limits l v) {x : Nat} {e : Entry} (hx : live x = some e) :
    ∃ px, v.book.loc x = some (px, e.side) := by
  obtain ⟨o, ho, rfl⟩ := h.backed x e hx
  obtain ⟨d, hd, -, hside⟩ := h.rests o ho
  rw [hx, Option.some.injEq] at hd
  exact ⟨o.priceTicks, by rw [hm.view.loc o ho, hd, hside]⟩

theorem findByClient_owned {l : Ledger} {live : Nat → Option Entry} {v : Verifier}
    (h : Sound l live) (hi : Indexed l live) (hm : Mirrors limits l v) {x : Nat} {s coid : UInt64}
    (hx : Owns l s coid x) (hstale : ¬Stale v.book s coid) : v.book.findByClient s coid = x := by
  obtain ⟨e, he, hfind, -⟩ := owned_found h hi hx
  obtain ⟨px, hloc⟩ := loc_of_owned h hm he
  obtain ⟨hnamed, hsome⟩ :=
    (findByClient_spec hm.sorted s coid).2 x (hm.named x s coid hx) (by rw [hloc]; rfl)
  have hrest : ∃ o ∈ orders v.book, o.id = v.book.findByClient s coid := by
    by_contra hno
    exact hstale ⟨_, hnamed, hsome, fun o ho hid => hno ⟨o, ho, hid⟩⟩
  obtain ⟨-, -, hfind', -⟩ := owned_found h hi (owned_of_resting h hm hnamed hrest)
  exact hfind'.symm.trans hfind

theorem findByClient_unowned {l : Ledger} {live : Nat → Option Entry} {v : Verifier}
    (h : Sound l live) (hm : Mirrors limits l v) {s coid : UInt64} (hno : ∀ x, ¬Owns l s coid x) :
    v.book.findByClient s coid = 0 ∨
      Stale v.book s coid ∧ ∀ o ∈ l.book.allOrders, o.id ≠ v.book.findByClient s coid := by
  obtain hz | ⟨hnamed, hsome⟩ := (findByClient_spec hm.sorted s coid).1
  · exact Or.inl hz
  · have hrest : ∀ o ∈ orders v.book, o.id ≠ v.book.findByClient s coid :=
      fun o ho hid => hno _ (owned_of_resting h hm hnamed ⟨o, ho, hid⟩)
    refine Or.inr ⟨⟨_, hnamed, hsome, hrest⟩, fun o ho => ?_⟩
    exact hrest (viewOrder _ o) (orders_view hm.view ▸ List.mem_map_of_mem ho)

/-- A new order does not reuse the pair of a live order. -/
def NoReuse (l : Ledger) (_ : Verifier) (c : OrderCommand) : Prop :=
  c.type = .newOrder → ∀ x, ¬Owns l c.session c.clientOrderId x

/-- The engine's lookup key is not shared: every live order under the key of the
command is of the command's pair. -/
def OwnKey (risk : RiskConfig) (l : Ledger) (_ : Verifier) (c : OrderCommand) : Prop :=
  (c.type = .newOrder ∧ l.checkRisk risk c = .none) ∨ c.type = .cancel ∨ c.type = .modify →
    ∀ x s coid, Owns l s coid x → keyOf s coid = keyOf c.session c.clientOrderId →
      s = c.session ∧ coid = c.clientOrderId

/-- The verifier's lookup meets no stale record: none at all for a Modify, none
next to a live order for a Cancel. -/
def NoStale (l : Ledger) (v : Verifier) (c : OrderCommand) : Prop :=
  c.type = .modify ∨ (c.type = .cancel ∧ ∃ x, Owns l c.session c.clientOrderId x) →
    ¬Stale v.book c.session c.clientOrderId

theorem keysApart_of {risk : RiskConfig} {l : Ledger} {v : Verifier} {c : OrderCommand}
    (hreuse : NoReuse l v c) (hkey : OwnKey risk l v c) : KeysApart risk l c := by
  unfold KeysApart
  cases hc : c.type with
  | newOrder =>
    intro hrisk x s coid ho hk
    obtain ⟨rfl, rfl⟩ := hkey (Or.inl ⟨hc, hrisk⟩) x s coid ho hk
    exact hreuse hc x ho
  | cancel => exact hkey (Or.inr (Or.inl hc))
  | modify => exact hkey (Or.inr (Or.inr hc))
  | sessionOpened => trivial
  | subscribe => trivial
  | cancelAllForSession => trivial

theorem mirrors_step {l : Ledger} {live : Nat → Option Entry} {v : Verifier} (h : Sound l live)
    (hi : Indexed l live) (hm : Mirrors limits l v) {risk : RiskConfig} {c : OrderCommand}
    (hkey : OwnKey risk l v c) (hstale : NoStale l v c)
    (hlimits : limits → c.type = .newOrder → c.orderType ≠ .market) :
    Mirrors limits (step risk l c).1 (v.apply risk c) := by
  unfold step Verifier.apply
  cases hc : c.type with
  | sessionOpened => exact hm
  | subscribe => exact hm
  | newOrder => exact mirrors_newOrder h hm risk fun hl => hlimits hl hc
  | cancel =>
    dsimp only
    by_cases hx : ∃ x, Owns l c.session c.clientOrderId x
    · have hclear := hstale (Or.inr ⟨hc, hx⟩)
      obtain ⟨x, hx⟩ := hx
      obtain ⟨e, he, hfind, hne⟩ := owned_found h hi hx
      rw [findByClient_owned h hi hm hx hclear, if_pos hne,
        stepCancel_found h (hfind.symm ▸ hne), hfind]
      exact mirrors_cancel h hm he
    · have hno : ∀ x, ¬Owns l c.session c.clientOrderId x := fun x ho => hx ⟨x, ho⟩
      have hsame : stepCancel l c = (l, [.reject c.session c.clientOrderId .unknownOrder]) := by
        simp only [stepCancel, unowned_not_found h (hkey (Or.inr (Or.inl hc))) hno, if_true]
      rw [hsame]
      obtain hz | ⟨-, habsent⟩ := findByClient_unowned h hm hno
      · rw [if_neg (not_not.mpr hz)]
        exact hm
      · split
        · rw [Verifier.cancel, cancel_absent hm.view habsent]
          exact hm
        · exact hm
  | modify =>
    have hclear := hstale (Or.inl hc)
    dsimp only
    by_cases hx : ∃ x, Owns l c.session c.clientOrderId x
    · obtain ⟨x, hx⟩ := hx
      obtain ⟨e, he, hfind, hne⟩ := owned_found h hi hx
      obtain ⟨px, hloc⟩ := loc_of_owned h hm he
      have happly : v.applyModify risk c =
          (v.cancel x).applyNewOrder risk (replacement c e.side) := by
        simp only [Verifier.applyModify, findByClient_owned h hi hm hx hclear, if_neg hne, hloc]
      rw [happly, stepModify_found h risk (hfind.symm ▸ hne) (hfind.symm ▸ he), hfind]
      exact mirrors_newOrder (h.cancel x) (mirrors_cancel h hm he) risk
        fun _ => by simp [replacement]
    · have hno : ∀ x, ¬Owns l c.session c.clientOrderId x := fun x ho => hx ⟨x, ho⟩
      obtain hz | ⟨hfound, -⟩ := findByClient_unowned h hm hno
      · have hsame : stepModify risk l c =
            (l, [.reject c.session c.clientOrderId .unknownOrder]) := by
          simp only [stepModify, unowned_not_found h (hkey (Or.inr (Or.inr hc))) hno, if_true]
        rw [hsame, Verifier.applyModify, if_pos hz]
        exact hm
      · exact absurd hfound hclear
  | cancelAllForSession => exact mirrors_cancelAll h hm c

/-- A property of every command in the states that engine and verifier are in
when they come to it. -/
def Along (risk : RiskConfig) (P : Ledger → Verifier → OrderCommand → Prop) :
    Ledger → Verifier → List OrderCommand → Prop
  | _, _, [] => True
  | l, v, c :: cs => P l v c ∧ Along risk P (step risk l c).1 (v.apply risk c) cs

theorem mirrors_fold {risk : RiskConfig} {cs : List OrderCommand} {l : Ledger}
    {live : Nat → Option Entry} {v : Verifier} (h : Sound l live) (hi : Indexed l live)
    (hm : Mirrors False l v) (hreuse : Along risk NoReuse l v cs)
    (hkeys : Along risk (OwnKey risk) l v cs) (hstale : Along risk NoStale l v cs) :
    (∃ live', Sound (fold risk l cs) live') ∧
      Mirrors False (fold risk l cs) (cs.foldl (Verifier.apply risk) v) := by
  induction cs generalizing l live v with
  | nil => exact ⟨⟨live, h⟩, hm⟩
  | cons c cs ih =>
    obtain ⟨live', h', hi', -⟩ := step_isolates h hi (keysApart_of hreuse.1 hkeys.1)
    exact ih h' hi' (mirrors_step h hi hm hkeys.1 hstale.1 False.elim) hreuse.2 hkeys.2 hstale.2

theorem agrees_of_clear {risk : RiskConfig} {cs : List OrderCommand}
    (hreuse : Along risk NoReuse Ledger.initial Verifier.initial cs)
    (hkeys : Along risk (OwnKey risk) Ledger.initial Verifier.initial cs)
    (hstale : Along risk NoStale Ledger.initial Verifier.initial cs) :
    Agrees (fold risk Ledger.initial cs).book (verify risk cs).book := by
  obtain ⟨⟨live, h⟩, hm⟩ :=
    mirrors_fold sound_initial indexed_initial (mirrors_initial False) hreuse hkeys hstale
  have hbids := mapDepth_view hm.view h.settled.valid .bid
  have hasks := mapDepth_view hm.view h.settled.valid .ask
  exact ⟨hbids, hasks, digest_eq hbids hasks⟩

theorem noStale_of_limits {risk : RiskConfig} {cs : List OrderCommand} {l : Ledger}
    {live : Nat → Option Entry} {v : Verifier} (h : Sound l live) (hi : Indexed l live)
    (hm : Mirrors True l v) (hreuse : Along risk NoReuse l v cs)
    (hkeys : Along risk (OwnKey risk) l v cs)
    (hlimits : ∀ c ∈ cs, c.type = .newOrder → c.orderType ≠ .market) :
    Along risk NoStale l v cs := by
  induction cs generalizing l live v with
  | nil => trivial
  | cons c cs ih =>
    have hclear : NoStale l v c := by
      rintro - ⟨x, -, hloc, hgone⟩
      obtain ⟨o, ho, rfl⟩ := hm.tidy trivial x hloc
      exact hgone (viewOrder _ o) (orders_view hm.view ▸ List.mem_map_of_mem ho) rfl
    obtain ⟨live', h', hi', -⟩ := step_isolates h hi (keysApart_of hreuse.1 hkeys.1)
    exact ⟨hclear,
      ih h' hi' (mirrors_step h hi hm hkeys.1 hclear fun _ => hlimits c (by simp)) hreuse.2 hkeys.2
        fun d hd => hlimits d (List.mem_cons_of_mem c hd)⟩

theorem limits_agree (env : Env) (risk : RiskConfig) (wal : Option Wal) (snap : SnapshotPolicy)
    (cs : List OrderCommand) (hlimits : ∀ c ∈ cs, c.type = .newOrder → c.orderType ≠ .market)
    (hreuse : Along risk NoReuse Ledger.initial Verifier.initial cs)
    (hkeys : Along risk (OwnKey risk) Ledger.initial Verifier.initial cs) :
    Agrees ((Thread.fresh risk wal snap).recover env cs).ledger.book (verify risk cs).book := by
  rw [ledger_recover env rfl]
  exact agrees_of_clear hreuse hkeys
    (noStale_of_limits sound_initial indexed_initial (mirrors_initial True) hreuse hkeys hlimits)

/-- On every log in which no pair is reused while it is live and none is
confused with another, verifier and engine end with the same book. -/
theorem verifier_agrees (env : Env) (risk : RiskConfig) (wal : Option Wal) (snap : SnapshotPolicy)
    (cs : List OrderCommand) (hreuse : Along risk NoReuse Ledger.initial Verifier.initial cs)
    (hkeys : Along risk (OwnKey risk) Ledger.initial Verifier.initial cs)
    (hstale : Along risk NoStale Ledger.initial Verifier.initial cs) :
    Agrees ((Thread.fresh risk wal snap).recover env cs).ledger.book (verify risk cs).book := by
  rw [ledger_recover env rfl]
  exact agrees_of_clear hreuse hkeys hstale

theorem keepsBooks_fold (risk : RiskConfig) (cs : List OrderCommand) :
    KeepsBooks (fold risk Ledger.initial cs) := by
  obtain ⟨live, h⟩ := sound_fold risk cs
  exact keepsBooks_of_sound h

theorem verifier_agrees_partialFill :
    let cs : List OrderCommand :=
      [.newOrder 1 1 100 10 .bid .limit, .newOrder 2 1 0 4 .ask .market, .cancel 1 1]
    Agrees ((Thread.fresh .default none ⟨"", 0⟩).recover .obliging cs).ledger.book
      (verify .default cs).book := by
  intro cs
  have hbid : ∀ {x s coid}, Owns (fold .default Ledger.initial (cs.take 1)) s coid x →
      x = 1 ∧ s = 1 ∧ coid = 1 :=
    fun ho => owns_single (keepsBooks_fold .default (cs.take 1)) (by decide +kernel)
      ⟨by decide +kernel, by decide +kernel⟩ ho
  have hleft : ∀ {x s coid}, Owns (fold .default Ledger.initial (cs.take 2)) s coid x →
      x = 1 ∧ s = 1 ∧ coid = 1 :=
    fun ho => owns_single (keepsBooks_fold .default (cs.take 2)) (by decide +kernel)
      ⟨by decide +kernel, by decide +kernel⟩ ho
  have hstale : ¬Stale (verify .default (cs.take 2)).book 1 1 := by
    rintro ⟨x, hx, -, hgone⟩
    have howners : (verify .default (cs.take 2)).book.owners = [(1, 1)] := by decide +kernel
    have hone : x = 1 := by
      have hmem := (mem_owners (by rw [howners]; exact List.pairwise_singleton _ _)).mpr hx.1
      simpa [howners] using hmem
    exact hgone ⟨1, 1, 1, 6⟩ (by decide +kernel) hone.symm
  refine verifier_agrees .obliging .default none ⟨"", 0⟩ cs ⟨?_, ?_, ?_, trivial⟩
    ⟨?_, ?_, ?_, trivial⟩ ⟨?_, ?_, fun _ => hstale, trivial⟩
  · exact fun _ x ho => absurd ho not_owns_initial
  · intro _ x ho
    have hs := (hbid ho).2.1
    revert hs
    decide
  · exact fun hc => nomatch hc
  · exact fun _ x s coid ho => absurd ho not_owns_initial
  · intro _ x s coid ho hkey
    obtain ⟨-, rfl, rfl⟩ := hbid ho
    revert hkey
    decide
  · exact fun _ x s coid ho _ => (hleft ho).2
  · rintro (hc | ⟨hc, -⟩) <;> cases hc
  · rintro (hc | ⟨hc, -⟩) <;> cases hc

/-- A market order fills the first offer of a session, which then reuses the id
and cancels: the verifier cancels the offer that is gone. -/
theorem verifier_disagrees :
    ¬∀ (env : Env) (risk : RiskConfig) (wal : Option Wal) (snap : SnapshotPolicy)
    (cs : List OrderCommand), Along risk NoReuse Ledger.initial Verifier.initial cs →
    Agrees ((Thread.fresh risk wal snap).recover env cs).ledger.book (verify risk cs).book := by
  intro h
  let cs : List OrderCommand := [.newOrder 1 1 100 10 .ask .limit, .newOrder 2 1 0 10 .bid .market,
    .newOrder 1 1 100 10 .ask .limit, .cancel 1 1]
  have hreuse : Along .default NoReuse Ledger.initial Verifier.initial cs := by
    have hoffer : Owns (fold .default Ledger.initial (cs.take 1)) 1 1 1 :=
      ⟨by decide +kernel, by decide +kernel⟩
    refine ⟨fun _ x ho => absurd ho not_owns_initial, fun _ x ho => ?_, fun _ x ho => ?_,
      fun hc => (nomatch hc), trivial⟩
    · have hs :=
        (owns_single (keepsBooks_fold .default (cs.take 1)) (by decide +kernel) hoffer ho).2.1
      revert hs
      decide
    · have hnone : (fold .default Ledger.initial (cs.take 2)).book.allOrders.map Order.id = [] := by
        decide +kernel
      have hmem := owns_rests (keepsBooks_fold .default (cs.take 2)) ho
      rw [hnone] at hmem
      cases hmem
  have hasks := (h .obliging .default none ⟨"", 0⟩ cs hreuse).asks
  revert hasks
  decide +kernel

end OrderMatching.Agreement
