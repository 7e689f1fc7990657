import OrderMatching.Fills
import OrderMatching.LogFold

namespace OrderMatching.Acceptance

open OrderMatching.Orders OrderMatching.Book OrderMatching.BookInvariant OrderMatching.Engine
open OrderMatching.Walk OrderMatching.Crossing OrderMatching.Priority OrderMatching.Queues
open OrderMatching.Commands OrderMatching.Exchange OrderMatching.LedgerStep OrderMatching.LogFold
open OrderMatching.Registry OrderMatching.Fills

/-- The ledger between two commands: its maps are one table, and the table is
what rests in the book. -/
structure Sound (l : Ledger) (live : Nat → Option Entry) : Prop where
  registers : Registers l live
  settled : Settled l.book
  rests : ∀ o ∈ l.book.allOrders, ∃ e, live o.id = some e ∧ e.remaining = o.quantity ∧
    e.side = o.side
  backed : ∀ x e, live x = some e → ∃ o ∈ l.book.allOrders, o.id = x
  fresh : ∀ o ∈ l.book.allOrders, 0 < o.id ∧ o.id < l.nextExchangeId
  started : 0 < l.nextExchangeId
  quiet : l.engine.tradeLog = []

theorem sound_initial : Sound Ledger.initial (fun _ => none) where
  registers := registers_initial
  settled := settled_empty
  rests := by
    simp [Ledger.book, Ledger.initial, MatchingEngine.empty, OrderBook.allOrders,
      OrderBook.empty, sideOrders]
  backed := by simp
  fresh := by
    simp [Ledger.book, Ledger.initial, MatchingEngine.empty, OrderBook.allOrders,
      OrderBook.empty, sideOrders]
  started := Nat.one_pos
  quiet := rfl

theorem Sound.cancel {l : Ledger} {live : Nat → Option Entry} (h : Sound l live) (x : Nat) :
    Sound ((l.process (cancelRequest x)).2.forgetOrder x) (Function.update live x none) := by
  have hbook : ((l.process (cancelRequest x)).2.forgetOrder x).book = (l.book.cancelOrder x).2 := by
    rw [Ledger.book, engine_forgetOrder]
    rfl
  have hmem : ∀ o, o ∈ (l.book.cancelOrder x).2.allOrders ↔ o ∈ l.book.allOrders ∧ o.id ≠ x :=
    fun _ => mem_cancelOrder h.settled.valid
  refine ⟨(h.registers.setEngine _).forgetOrder x, ?_, ?_, ?_, ?_, ?_, ?_⟩
  · rw [hbook]
    exact settled_cancelOrder h.settled x
  · intro o ho
    rw [hbook, hmem] at ho
    rw [Function.update_of_ne ho.2]
    exact h.rests o ho.1
  · intro y e hy
    have hne : y ≠ x := by
      rintro rfl
      simp at hy
    rw [Function.update_of_ne hne] at hy
    obtain ⟨o, ho, rfl⟩ := h.backed y e hy
    exact ⟨o, by rw [hbook, hmem]; exact ⟨ho, hne⟩, rfl⟩
  · intro o ho
    rw [hbook, hmem] at ho
    rw [nextId_forgetOrder]
    exact h.fresh o ho.1
  · rw [nextId_forgetOrder]
    exact h.started
  · rw [engine_forgetOrder]
    exact h.quiet

def outcome (l : Ledger) (c : OrderCommand) : Outcome :=
  walk (acceptable (l.incoming c)) (queue l.book c.side.opposite) c.quantity.toNat

def entryOf (c : OrderCommand) : Entry := ⟨c.session, c.clientOrderId, c.quantity.toNat, c.side⟩

/-- The table after an accepted order has traded, and after a market order has
been dropped. -/
def liveAfter (l : Ledger) (live : Nat → Option Entry) (c : OrderCommand) : Nat → Option Entry :=
  let traded := (outcome l c).fills.foldl (fillBoth l.nextExchangeId)
    (Function.update live l.nextExchangeId (some (entryOf c)))
  if c.orderType = .market then Function.update traded l.nextExchangeId none else traded

structure Accepted (l : Ledger) (live : Nat → Option Entry) (c : OrderCommand)
    (l' : Ledger) : Prop where
  registers : Registers l' (liveAfter l live c)
  valid : Settled l'.book
  opposite : queue l'.book c.side.opposite = (outcome l c).leftover
  own : queue l'.book c.side =
    if c.orderType = .market ∨ (outcome l c).remaining = 0 then queue l.book c.side
    else restAtBack { l.incoming c with quantity := (outcome l c).remaining } (queue l.book c.side)
  quiet : l'.engine.tradeLog = []
  lastTrade : l'.lastTradeTicks =
    (((outcome l c).fills.map (tradeOf (l.incoming c))).getLast?.map Trade.priceTicks).getD
      l.lastTradeTicks
  nextId : l'.nextExchangeId = l.nextExchangeId + 1
  clock : l'.logicalClock = l.logicalClock + 1

theorem quantity_pos {risk : RiskConfig} {l : Ledger} {c : OrderCommand}
    (h : l.checkRisk risk c = .none) :
    0 < c.quantity.toNat := by
  have hne : c.quantity ≠ 0 := by
    intro hz
    simp [Ledger.checkRisk, hz] at h
  have hnat : c.quantity.toNat ≠ 0 := fun hz => hne (UInt32.toNat_inj.mp hz)
  omega

theorem incoming_kind (l : Ledger) (c : OrderCommand) :
    (l.incoming c).kind ≠ .cancel ∧ ((l.incoming c).kind = .market ↔ c.orderType = .market) := by
  cases h : c.orderType <;> simp [Ledger.incoming, h]

def printed (l : Ledger) (c : OrderCommand) : List Trade :=
  (outcome l c).fills.map (tradeOf (l.incoming c))

def matched (l : Ledger) (c : OrderCommand) : Ledger :=
  { l.recordOrder c with engine := (l.engine.processOrder (l.incoming c)).2 }

theorem Sound.not_live {l : Ledger} {live : Nat → Option Entry} (h : Sound l live) :
    live l.nextExchangeId = none := by
  cases hl : live l.nextExchangeId with
  | none => rfl
  | some e =>
    obtain ⟨o, ho, hid⟩ := h.backed _ e hl
    exact absurd hid (h.fresh o ho).2.ne

theorem Sound.fresh_incoming {l : Ledger} {live : Nat → Option Entry} (h : Sound l live)
    (c : OrderCommand) :
    ∀ r ∈ l.book.allOrders, r.id ≠ (l.incoming c).id :=
  fun r hr => (h.fresh r hr).2.ne

theorem tradeLog_matched {l : Ledger} {live : Nat → Option Entry} (h : Sound l live)
    {risk : RiskConfig} {c : OrderCommand} (hrisk : l.checkRisk risk c = .none) :
    (matched l c).engine.tradeLog.drop l.engine.tradeLog.length = printed l c := by
  obtain ⟨-, -, -, -, hlog⟩ :=
    processOrder_spec h.settled.valid h.settled.uncrossed (incoming_kind l c).1 (h.fresh_incoming c)
      (quantity_pos hrisk)
  simp only [matched, hlog, h.quiet, List.nil_append, List.length_nil, List.drop_zero]
  rfl

/-- An accepted order step by step: recorded, matched, its fills routed, and
dropped again if it is a market order. -/
theorem stepNewOrder_eq {l : Ledger} {live : Nat → Option Entry} (h : Sound l live)
    {risk : RiskConfig} {c : OrderCommand} (hrisk : l.checkRisk risk c = .none) :
    stepNewOrder risk l c = (if c.orderType = .market then
          (publishAll (matched l c) (printed l c)).1.clearTradeLog.forgetOrder l.nextExchangeId
        else (publishAll (matched l c) (printed l c)).1.clearTradeLog,
        .ack c.session c.clientOrderId l.nextExchangeId false ::
          (publishAll (matched l c) (printed l c)).2) := by
  have hpub : publishTrades (matched l c) l.engine.tradeLog.length =
      ((publishAll (matched l c) (printed l c)).1.clearTradeLog,
        (publishAll (matched l c) (printed l c)).2) := by
    simp only [publishTrades, tradeLog_matched h hrisk]
  simp only [stepNewOrder, hrisk, ne_eq, not_true_eq_false, if_false, process_accepts, if_true,
    (incoming_kind l c).2]
  rw [show ((l.recordOrder c).process (l.incoming c)).2 = matched l c from rfl, hpub]
  rfl

theorem fold_printed {l : Ledger} {live : Nat → Option Entry} (h : Sound l live) (c : OrderCommand)
    (live' : Nat → Option Entry) :
    (printed l c).foldl fillTrade live' =
      (outcome l c).fills.foldl (fillBoth l.nextExchangeId) live' := by
  have hids : ∀ f ∈ (outcome l c).fills, f.order.id ≠ (l.incoming c).id :=
    fun f hf => h.fresh_incoming c _ (mem_queue.mpr ⟨_, (walk_fills hf).1⟩)
  rw [printed, List.foldl_map,
    List.foldl_ext _ _ _ fun live f hf => fillTrade_tradeOf (hids f hf) live]
  rfl

theorem engine_newOrder {l : Ledger} {live : Nat → Option Entry} (h : Sound l live)
    {risk : RiskConfig} {c : OrderCommand} (hrisk : l.checkRisk risk c = .none) :
    (stepNewOrder risk l c).1.engine =
      { (l.engine.processOrder (l.incoming c)).2 with tradeLog := [] } := by
  obtain ⟨p, -⟩ := publishAll_frame (matched l c) (printed l c)
  rw [stepNewOrder_eq h hrisk]
  dsimp only
  split
  · exact (engine_forgetOrder _ _).trans (congrArg MatchingEngine.clearTradeLog p)
  · exact congrArg MatchingEngine.clearTradeLog p

theorem Sound.accepted {l : Ledger} {live : Nat → Option Entry} (h : Sound l live)
    {risk : RiskConfig} {c : OrderCommand} (hrisk : l.checkRisk risk c = .none) :
    Accepted l live c (stepNewOrder risk l c).1 := by
  have hk := incoming_kind l c
  have hfresh := h.fresh_incoming c
  have hpos : 0 < (l.incoming c).quantity := quantity_pos hrisk
  obtain ⟨-, -, hopp, hown, -⟩ :=
    processOrder_spec h.settled.valid h.settled.uncrossed hk.1 hfresh hpos
  have hsettled := settled_processOrder h.settled hk.1 hfresh hpos
  let l₂ := (publishAll (matched l c) (printed l c)).1.clearTradeLog
  have hreg : Registers l₂ ((outcome l c).fills.foldl (fillBoth l.nextExchangeId)
      (Function.update live l.nextExchangeId (some (entryOf c)))) := by
    rw [← fold_printed h c]
    exact (((h.registers.recordOrder c h.not_live).setEngine _).publishAll
      (printed l c)).setEngine _
  obtain ⟨-, p2, p3, p4⟩ := publishAll_frame (matched l c) (printed l c)
  have hl : ∀ {P : Ledger → Prop}, P l₂ → P (l₂.forgetOrder l.nextExchangeId) →
      P (stepNewOrder risk l c).1 := by
    intro P h1 h2
    rw [stepNewOrder_eq h hrisk]
    dsimp only
    split
    · exact h2
    · exact h1
  have hengine := engine_newOrder h hrisk
  have hbook : (stepNewOrder risk l c).1.book = (l.engine.processOrder (l.incoming c)).2.book := by
    rw [Ledger.book, hengine]
  refine ⟨?_, ?_, ?_, ?_, ?_, ?_, ?_, ?_⟩
  · rw [stepNewOrder_eq h hrisk, liveAfter]
    dsimp only
    split
    · exact hreg.forgetOrder _
    · exact hreg
  · rw [hbook]
    exact hsettled
  · rw [hbook]
    exact hopp
  · rw [hbook]
    simp only [hk.2] at hown
    exact hown
  · rw [hengine]
  · exact hl (P := fun l' => l'.lastTradeTicks = _) p2 ((lastTrade_forgetOrder _ _).trans p2)
  · exact hl (P := fun l' => l'.nextExchangeId = _) p3 ((nextId_forgetOrder _ _).trans p3)
  · exact hl (P := fun l' => l'.logicalClock = _) p4 ((clock_forgetOrder _ _).trans p4)

theorem Sound.standing {l : Ledger} {live : Nat → Option Entry} (h : Sound l live)
    {c : OrderCommand} (hpos : 0 < c.quantity.toNat) :
    Standing l.nextExchangeId (entryOf c) c.quantity.toNat (queue l.book c.side.opposite)
      (Function.update live l.nextExchangeId (some (entryOf c))) := by
  have hnodup := queue_nodup h.settled.valid c.side
  rw [List.map_append, List.nodup_append] at hnodup
  refine ⟨by rw [Function.update_self, if_neg (by omega)]; rfl, fun o ho => ?_, hnodup.2.1⟩
  have hrest : o ∈ l.book.allOrders := mem_queue.mpr ⟨_, ho⟩
  have hid : o.id ≠ l.nextExchangeId := (h.fresh o hrest).2.ne
  obtain ⟨e, h1, h2, -⟩ := h.rests o hrest
  exact ⟨h.settled.positive o hrest, hid, e, by rw [Function.update_of_ne hid, h1], h2⟩

/-- Where the table stands after an accepted order: the new order is in it iff
it rests, its own side is untouched and the other side is the leftover. -/
theorem liveAfter_spec {l : Ledger} {live : Nat → Option Entry} (h : Sound l live)
    {c : OrderCommand} (hpos : 0 < c.quantity.toNat) :
    liveAfter l live c l.nextExchangeId =
        (if c.orderType = .market ∨ (outcome l c).remaining = 0 then none
          else some { entryOf c with remaining := (outcome l c).remaining }) ∧
      (∀ o ∈ queue l.book c.side, liveAfter l live c o.id = live o.id) ∧
      (∀ o ∈ (outcome l c).leftover, ∀ e, live o.id = some e →
        liveAfter l live c o.id = some { e with remaining := o.quantity }) ∧
      ∀ x e, x ≠ l.nextExchangeId → liveAfter l live c x = some e →
        ∃ o ∈ queue l.book c.side ++ (outcome l c).leftover, o.id = x := by
  let n := l.nextExchangeId
  let traded := (outcome l c).fills.foldl (fillBoth n) (Function.update live n (some (entryOf c)))
  have hids : ∀ {s o}, o ∈ queue l.book s → o.id ≠ n :=
    fun {s o} ho => (h.fresh o (mem_queue.mpr ⟨s, ho⟩)).2.ne
  have hnodup := queue_nodup h.settled.valid c.side
  rw [List.map_append, List.nodup_append] at hnodup
  obtain ⟨f1, f2, f3, f4⟩ :=
    fills_live (acceptable (l.incoming c)) n (entryOf c) (queue l.book c.side.opposite)
      c.quantity.toNat (Function.update live n (some (entryOf c))) (h.standing hpos)
  have hafter : ∀ x, x ≠ n → liveAfter l live c x = traded x := by
    intro x hx
    unfold liveAfter
    split
    · rw [Function.update_of_ne hx]
    · rfl
  refine ⟨?_, ?_, ?_, ?_⟩
  · by_cases hm : c.orderType = .market
    · simp [liveAfter, hm]
    · simp only [liveAfter, hm, if_false, false_or]
      exact f1
  · intro o ho
    have hno : o.id ∉ (queue l.book c.side.opposite).map Order.id := fun hm =>
      hnodup.2.2 o.id (List.mem_map_of_mem ho) o.id hm rfl
    exact (hafter _ (hids ho)).trans
      ((f4 _ (hids ho) hno).trans (Function.update_of_ne (hids ho) _ _))
  · intro o ho e he
    obtain ⟨r, hr, k, hk, -⟩ := walk_leftover ho
    have hid : o.id ≠ n := by
      rw [show o.id = r.id by rw [hk]]
      exact hids hr
    exact (hafter _ hid).trans (f2 o ho e (by rwa [Function.update_of_ne hid]))
  · intro x e hxn hx
    rw [hafter x hxn] at hx
    by_cases hxo : x ∈ (queue l.book c.side.opposite).map Order.id
    · obtain ⟨o, ho, rfl⟩ := List.mem_map.mp hxo
      obtain ⟨o', h1, h2⟩ := f3 o ho (Option.isSome_iff_exists.mpr ⟨e, hx⟩)
      exact ⟨o', List.mem_append_right _ h1, h2⟩
    · have hlive : live x = some e :=
        ((f4 x hxn hxo).trans (Function.update_of_ne hxn _ _)).symm.trans hx
      obtain ⟨o, ho, rfl⟩ := h.backed x e hlive
      obtain ho | ho := (mem_queues c.side).mp ho
      · exact ⟨o, List.mem_append_left _ ho, rfl⟩
      · exact absurd (List.mem_map_of_mem ho) hxo

theorem liveAfter_names {l : Ledger} {live : Nat → Option Entry} (h : Sound l live)
    {c : OrderCommand} (hpos : 0 < c.quantity.toNat) {x : Nat} {e : Entry}
    (hx : liveAfter l live c x = some e) :
    (x = l.nextExchangeId ∧ c.orderType ≠ .market ∧ e.owner = c.session ∧
      e.client = c.clientOrderId) ∨
      ∃ d, live x = some d ∧ e.owner = d.owner ∧ e.client = d.client := by
  obtain ⟨a1, a2, a3, a4⟩ := liveAfter_spec h hpos
  by_cases hxn : x = l.nextExchangeId
  · subst hxn
    rw [a1] at hx
    split at hx
    · cases hx
    · rename_i hrest
      rw [← Option.some.inj hx]
      exact Or.inl ⟨rfl, fun hm => hrest (Or.inl hm), rfl, rfl⟩
  · obtain ⟨o, ho, rfl⟩ := a4 x e hxn hx
    obtain ho | ho := List.mem_append.mp ho
    · exact Or.inr ⟨e, (a2 o ho).symm.trans hx, rfl, rfl⟩
    · obtain ⟨r, hr, k, hk, -⟩ := walk_leftover ho
      obtain ⟨d, hd, -⟩ := h.rests r (mem_queue.mpr ⟨_, hr⟩)
      have hd' : live o.id = some d := by rw [hk]; exact hd
      rw [a3 o ho d hd'] at hx
      rw [← Option.some.inj hx]
      exact Or.inr ⟨d, hd', rfl, rfl⟩

theorem Accepted.mem_own {l l' : Ledger} {live : Nat → Option Entry} {c : OrderCommand}
    (ha : Accepted l live c l') {o : Order} : o ∈ queue l'.book c.side ↔ o ∈ queue l.book c.side ∨
      (¬(c.orderType = .market ∨ (outcome l c).remaining = 0) ∧
        o = { l.incoming c with quantity := (outcome l c).remaining }) := by
  rw [ha.own]
  split
  · simp [*]
  · rw [mem_restAtBack]
    simp [*, or_comm]

theorem sound_accepted {l l' : Ledger} {live : Nat → Option Entry} (h : Sound l live)
    {c : OrderCommand} (hpos : 0 < c.quantity.toNat) (ha : Accepted l live c l') :
    Sound l' (liveAfter l live c) := by
  obtain ⟨a1, a2, a3, a4⟩ := liveAfter_spec h hpos
  refine ⟨ha.registers, ha.valid, ?_, ?_, ?_, ?_, ha.quiet⟩
  · intro o ho
    obtain ho | ho := (mem_queues c.side).mp ho
    · obtain ho | ⟨hrest, rfl⟩ := ha.mem_own.mp ho
      · rw [a2 o ho]
        exact h.rests o (mem_queue.mpr ⟨_, ho⟩)
      · exact ⟨_, a1.trans (if_neg hrest), rfl, rfl⟩
    · rw [ha.opposite] at ho
      obtain ⟨r, hr, k, hk, -⟩ := walk_leftover ho
      obtain ⟨e, h1, h2, h3⟩ := h.rests r (mem_queue.mpr ⟨_, hr⟩)
      exact ⟨_, a3 o ho e (by rw [hk]; exact h1), rfl, by rw [hk]; exact h3⟩
  · intro x e hx
    by_cases hxn : x = l.nextExchangeId
    · rw [hxn, a1] at hx
      split at hx
      · cases hx
      · rename_i hrest
        exact ⟨_, (mem_queues c.side).mpr (Or.inl (ha.mem_own.mpr (Or.inr ⟨hrest, rfl⟩))), hxn.symm⟩
    · obtain ⟨o, ho, rfl⟩ := a4 x e hxn hx
      obtain ho | ho := List.mem_append.mp ho
      · exact ⟨o, (mem_queues c.side).mpr (Or.inl (ha.mem_own.mpr (Or.inl ho))), rfl⟩
      · exact ⟨o, (mem_queues c.side).mpr (Or.inr (ha.opposite ▸ ho)), rfl⟩
  · intro o ho
    rw [ha.nextId]
    obtain ho | ho := (mem_queues c.side).mp ho
    · obtain ho | ⟨-, rfl⟩ := ha.mem_own.mp ho
      · have hf := h.fresh o (mem_queue.mpr ⟨_, ho⟩)
        omega
      · exact ⟨h.started, Nat.lt_succ_self _⟩
    · rw [ha.opposite] at ho
      obtain ⟨r, hr, k, rfl, -⟩ := walk_leftover ho
      have hf := h.fresh r (mem_queue.mpr ⟨_, hr⟩)
      exact ⟨hf.1, Nat.lt_succ_of_lt hf.2⟩
  · rw [ha.nextId]
    omega

theorem Sound.newOrder {l : Ledger} {live : Nat → Option Entry} (h : Sound l live)
    (risk : RiskConfig) (c : OrderCommand) : ∃ live', Sound (stepNewOrder risk l c).1 live' := by
  by_cases hrisk : l.checkRisk risk c = .none
  · exact ⟨_, sound_accepted h (quantity_pos hrisk) (h.accepted hrisk)⟩
  · refine ⟨live, ?_⟩
    simpa only [stepNewOrder, ne_eq, hrisk, not_false_eq_true, if_true] using h

end OrderMatching.Acceptance
