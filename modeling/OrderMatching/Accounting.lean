import OrderMatching.Lists
import OrderMatching.Posting
import OrderMatching.StepCases

namespace OrderMatching.Accounting

open OrderMatching.Orders OrderMatching.Book OrderMatching.Engine OrderMatching.Queues
open OrderMatching.Commands OrderMatching.Log OrderMatching.Exchange OrderMatching.MatchingThread
open OrderMatching.LedgerStep OrderMatching.LogFold OrderMatching.Registry OrderMatching.Fills
open OrderMatching.Acceptance OrderMatching.Bookkeeping OrderMatching.Answers OrderMatching.Posting
open OrderMatching.Modify OrderMatching.StepCases OrderMatching.Lists

def FillOf (x : Nat) (e : OrderEvent) : Prop := e.type = .fill ∧ e.exchangeOrderId = x

instance (x : Nat) : DecidablePred (FillOf x) := fun _ => inferInstanceAs (Decidable (_ ∧ _))

def Opens (x : Nat) (e : OrderEvent) : Prop :=
  e.type = .ack ∧ e.exchangeOrderId = x ∧ e.closesOrder = false

/-- The last word about an order: a fill that leaves nothing, or the
acknowledgement of its cancel. -/
def Closes (x : Nat) (e : OrderEvent) : Prop :=
  e.exchangeOrderId = x ∧
    ((e.type = .fill ∧ e.remainingQuantity = 0) ∨ (e.type = .ack ∧ e.closesOrder = true))

def fillsOf (x : Nat) (es : List OrderEvent) : List OrderEvent := es.filter (fun e => FillOf x e)

def traded (es : List OrderEvent) : Nat := (es.map OrderEvent.quantity).sum

/-- The remaining quantity that was reported last, `q` if none was. -/
def lastRemaining (x q : Nat) (es : List OrderEvent) : Nat :=
  ((fillsOf x es).getLast?.map OrderEvent.remainingQuantity).getD q

/-- A stream of events that accounts for an order of quantity `q`. -/
structure Accounted (x q : Nat) (es : List OrderEvent) : Prop where
  acked : ∀ pre e post, es = pre ++ e :: post → FillOf x e → ∃ a ∈ pre, Opens x a
  remaining : ∀ pre e post, fillsOf x es = pre ++ e :: post →
    traded (pre ++ [e]) + e.remainingQuantity = q
  final : ∀ pre e post, es = pre ++ e :: post → FillOf x e → ∀ d ∈ pre, ¬Closes x d

/-- The account of an order in the middle of a run: `entry` is what the table
says about it. -/
structure Running (s : UInt64) (x q : Nat) (es : List OrderEvent)
    (entry : Option Entry) : Prop where
  accounted : Accounted x q es
  acked : ∃ a ∈ es, Opens x a
  own : ∀ e ∈ es, FillOf x e ∨ Opens x e → e.session = s
  left : ∀ e, entry = some e → e.owner = s ∧ traded (fillsOf x es) + e.remaining = q ∧
    ∀ d ∈ es, ¬Closes x d

theorem traded_append (es fs : List OrderEvent) : traded (es ++ fs) = traded es + traded fs := by
  simp [traded]

theorem fillsOf_concat (x : Nat) (es : List OrderEvent) (e : OrderEvent) :
    fillsOf x (es ++ [e]) = if FillOf x e then fillsOf x es ++ [e] else fillsOf x es := by
  rw [fillsOf, List.filter_append]
  split <;> simp [fillsOf, *]

theorem Running.closed {s : UInt64} {x q : Nat} {es : List OrderEvent} {entry : Option Entry}
    (h : Running s x q es entry) : Running s x q es none := ⟨h.accounted, h.acked, h.own, nofun⟩

theorem Running.other {s : UInt64} {x q : Nat} {es : List OrderEvent} {entry entry' : Option Entry}
    (h : Running s x q es entry) {e : OrderEvent} (hfill : ¬FillOf x e) (hopen : ¬Opens x e)
    (hentry : entry' = none ∨ (entry' = entry ∧ ¬Closes x e)) :
    Running s x q (es ++ [e]) entry' := by
  have hfills : fillsOf x (es ++ [e]) = fillsOf x es := by rw [fillsOf_concat, if_neg hfill]
  obtain ⟨a, ha, hopens⟩ := h.acked
  refine ⟨⟨fun pre d post hes hd => ?_, ?_, fun pre d post hes hd => ?_⟩, ⟨a, by simp [ha], hopens⟩,
    fun d hd ho => ?_, fun d hd => ?_⟩
  · obtain ⟨-, rfl⟩ | ⟨post', hes'⟩ := concat_split hes
    · exact absurd hd hfill
    · exact h.accounted.acked pre d post' hes' hd
  · rw [hfills]
    exact h.accounted.remaining
  · obtain ⟨-, rfl⟩ | ⟨post', hes'⟩ := concat_split hes
    · exact absurd hd hfill
    · exact h.accounted.final pre d post' hes' hd
  · obtain hd | hd := List.mem_append.mp hd
    · exact h.own d hd ho
    · rw [List.mem_singleton.mp hd] at ho
      exact absurd ho (not_or.mpr ⟨hfill, hopen⟩)
  · obtain rfl | ⟨rfl, hclose⟩ := hentry
    · cases hd
    · obtain ⟨h1, h2, h3⟩ := h.left d hd
      refine ⟨h1, by rw [hfills]; exact h2, fun d' hd' => ?_⟩
      obtain hd' | hd' := List.mem_append.mp hd'
      · exact h3 d' hd'
      · rw [List.mem_singleton.mp hd']
        exact hclose

theorem Running.fill {s : UInt64} {x q : Nat} {es : List OrderEvent} {d : Entry}
    (h : Running s x q es (some d)) {n : Nat} (hn : n ≤ d.remaining) (price : Int) :
    Running s x q (es ++ [.fill d.owner d.client x price n (d.remaining - n)])
      (if d.remaining - n = 0 then none else some { d with remaining := d.remaining - n }) := by
  let e : OrderEvent := .fill d.owner d.client x price n (d.remaining - n)
  obtain ⟨howner, hleft, hopen⟩ := h.left d rfl
  have hfill : FillOf x e := ⟨rfl, rfl⟩
  have hfills : fillsOf x (es ++ [e]) = fillsOf x es ++ [e] := by rw [fillsOf_concat, if_pos hfill]
  have hsum : traded (fillsOf x es ++ [e]) = traded (fillsOf x es) + n := by
    rw [traded_append]
    simp [traded, e, OrderEvent.fill]
  obtain ⟨a, ha, hopens⟩ := h.acked
  refine ⟨⟨fun pre f post hes hf => ?_, fun pre f post hes => ?_, fun pre f post hes hf => ?_⟩,
    ⟨a, by simp [ha], hopens⟩, fun f hf ho => ?_, fun f hf => ?_⟩
  · obtain ⟨rfl, -⟩ | ⟨post', hes'⟩ := concat_split hes
    · exact ⟨a, ha, hopens⟩
    · exact h.accounted.acked pre f post' hes' hf
  · rw [hfills] at hes
    obtain ⟨rfl, rfl⟩ | ⟨post', hes'⟩ := concat_split hes
    · rw [hsum]
      show _ + n + (d.remaining - n) = q
      omega
    · exact h.accounted.remaining pre f post' hes'
  · obtain ⟨rfl, -⟩ | ⟨post', hes'⟩ := concat_split hes
    · exact hopen
    · exact h.accounted.final pre f post' hes' hf
  · obtain hf | hf := List.mem_append.mp hf
    · exact h.own f hf ho
    · rw [List.mem_singleton.mp hf]
      exact howner
  · split at hf
    · cases hf
    · rename_i hrem
      rw [← Option.some.inj hf]
      refine ⟨howner, ?_, fun f' hf' => ?_⟩
      · rw [hfills, hsum]
        show _ + n + (d.remaining - n) = q
        omega
      · obtain hf' | hf' := List.mem_append.mp hf'
        · exact hopen f' hf'
        · rw [List.mem_singleton.mp hf']
          rintro ⟨-, ⟨-, hz⟩ | ⟨ht, -⟩⟩
          · exact hrem hz
          · cases ht

theorem running_open {es : List OrderEvent} {x : Nat} (hnew : ∀ e ∈ es, e.exchangeOrderId ≠ x)
    (d : Entry) :
    Running d.owner x d.remaining (es ++ [.ack d.owner d.client x false]) (some d) := by
  let a : OrderEvent := .ack d.owner d.client x false
  have hnone : ∀ e ∈ es ++ [a], ¬FillOf x e := by
    intro e he hf
    obtain he | he := List.mem_append.mp he
    · exact hnew e he hf.2
    · rw [List.mem_singleton.mp he] at hf
      cases hf.1
  have hfills : fillsOf x (es ++ [a]) = [] :=
    List.filter_eq_nil_iff.mpr fun e he => by simpa using hnone e he
  have hsplit : ∀ {pre e post}, es ++ [a] = pre ++ e :: post → ¬FillOf x e :=
    fun h => hnone _ (by rw [h]; simp)
  refine ⟨⟨fun pre e post hes hf => absurd hf (hsplit hes), fun pre e post hes => ?_,
    fun pre e post hes hf => absurd hf (hsplit hes)⟩,
    ⟨a, List.mem_append_right es (List.mem_singleton.mpr rfl), rfl, rfl, rfl⟩,
    fun e he ho => ?_, fun e he => ?_⟩
  · rw [hfills] at hes
    simp at hes
  · obtain he' | he' := List.mem_append.mp he
    · exact absurd (ho.elim And.right fun h => h.2.1) (hnew e he')
    · rw [List.mem_singleton.mp he']
      rfl
  · obtain rfl := Option.some.inj he
    refine ⟨rfl, by rw [hfills]; simp [traded], fun f hf hc => ?_⟩
    obtain hf' | hf' := List.mem_append.mp hf
    · exact hnew f hf' hc.1
    · rw [List.mem_singleton.mp hf'] at hc
      obtain ⟨-, ⟨ht, -⟩ | ⟨-, hz⟩⟩ := hc
      · cases ht
      · cases hz

theorem running_routeFill {l : Ledger} {live : Nat → Option Entry} (hr : Registers l live) {y : Nat}
    {d : Entry} (hy : live y = some d) {t : Trade} (hle : t.quantity ≤ d.remaining) {s : UInt64}
    {x q : Nat} {es : List OrderEvent} (h : Running s x q es (live x)) :
    Running s x q (es ++ (routeFill l y t).2) (fillEntry live y t.quantity x) := by
  rw [routeFill_event hr hy]
  by_cases hxy : x = y
  · subst hxy
    rw [fillEntry_self hy]
    rw [hy] at h
    exact h.fill hle t.priceTicks
  · rw [fillEntry_of_ne live hxy]
    have hid :
        (OrderEvent.fill d.owner d.client y t.priceTicks t.quantity
          (d.remaining - t.quantity)).exchangeOrderId ≠
        x := Ne.symm hxy
    exact h.other (fun hf => hid hf.2) (fun ho => hid ho.2.1) (Or.inr ⟨rfl, fun hc => hid hc.1⟩)

theorem running_publishAll {l : Ledger} {live : Nat → Option Entry} (hr : Registers l live)
    {trades : List Trade} (hcov : Covered live trades) {s : UInt64} {x q : Nat}
    {es : List OrderEvent} (h : Running s x q es (live x)) :
    Running s x q (es ++ (publishAll l trades).2) (trades.foldl fillTrade live x) := by
  induction trades generalizing l live es with
  | nil => simpa [publishAll] using h
  | cons t trades ih =>
    obtain ⟨⟨b, hb, hble⟩, ⟨a, ha, hale⟩, hne, hrest⟩ := hcov
    have hr₀ := hr.setLastTrade t.priceTicks
    have hr₁ := hr₀.routeFill t.buyerId t
    have ha₁ : fillEntry live t.buyerId t.quantity t.sellerId = some a := by
      rw [fillEntry_of_ne live hne.symm, ha]
    have h₁ := running_routeFill hr₀ hb hble h
    have h₂ := running_routeFill hr₁ ha₁ hale h₁
    have h₃ := ih (hr₁.routeFill t.sellerId t) hrest h₂
    rw [List.append_assoc, List.append_assoc] at h₃
    rw [publishAll, publishTrade, Result.andThen, Result.andThen, List.append_assoc]
    exact h₃

theorem liveAfter_eq {l : Ledger} {live : Nat → Option Entry} (h : Sound l live) (c : OrderCommand)
    (x : Nat) :
    liveAfter l live c x = if c.orderType = .market ∧ x = l.nextExchangeId then none
      else (printed l c).foldl fillTrade
        (Function.update live l.nextExchangeId (some (entryOf c))) x := by
  rw [fold_printed h c, liveAfter]
  by_cases hm : c.orderType = .market
  · by_cases hx : x = l.nextExchangeId <;> simp [hm, hx]
  · simp [hm]

theorem running_placing {risk : RiskConfig} {l : Ledger} {live live' : Nat → Option Entry}
    {c : OrderCommand} {es fs : List OrderEvent} {n : Nat} (h : Sound l live)
    (hp : Placing risk l live c live' fs n) {s : UInt64} {x q : Nat} (hx : x ≠ l.nextExchangeId)
    (hrun : Running s x q es (live x)) :
    Running s x q (es ++ fs) (live' x) := by
  cases hp with
  | refused hrisk =>
    refine hrun.other ?_ ?_ (Or.inr ⟨rfl, ?_⟩)
    · simp [FillOf, OrderEvent.reject]
    · simp [Opens, OrderEvent.reject]
    · simp [Closes, OrderEvent.reject]
  | placed hrisk =>
    obtain ⟨hreg, hcov⟩ := sound_matched h (quantity_pos hrisk)
    have hack : Running s x q (es ++ [.ack c.session c.clientOrderId l.nextExchangeId false])
        (Function.update live l.nextExchangeId (some (entryOf c)) x) := by
      rw [Function.update_of_ne hx]
      refine hrun.other ?_ ?_ (Or.inr ⟨rfl, ?_⟩)
      · simp [FillOf, OrderEvent.ack]
      · simp [Opens, OrderEvent.ack, Ne.symm hx]
      · simp [Closes, OrderEvent.ack]
    have hall := running_publishAll hreg hcov hack
    rw [liveAfter_eq h, if_neg (fun hm => hx hm.2)]
    simpa using hall

theorem running_placed {risk : RiskConfig} {l : Ledger} {live : Nat → Option Entry}
    {c : OrderCommand} (h : Sound l live) (hrisk : l.checkRisk risk c = .none)
    {es : List OrderEvent} (hnew : ∀ e ∈ es, e.exchangeOrderId ≠ l.nextExchangeId) :
    Running c.session l.nextExchangeId c.quantity.toNat
      (es ++ (.ack c.session c.clientOrderId l.nextExchangeId false ::
        (publishAll (matched l c) (printed l c)).2)) (liveAfter l live c l.nextExchangeId) := by
  obtain ⟨hreg, hcov⟩ := sound_matched h (quantity_pos hrisk)
  have hopen : Running c.session l.nextExchangeId c.quantity.toNat
      (es ++ [.ack c.session c.clientOrderId l.nextExchangeId false])
      (Function.update live l.nextExchangeId (some (entryOf c)) l.nextExchangeId) := by
    rw [Function.update_self]
    exact running_open hnew (entryOf c)
  have hall := running_publishAll hreg hcov hopen
  rw [List.append_assoc] at hall
  rw [liveAfter_eq h]
  split
  · exact hall.closed
  · exact hall

/-- The account of an order goes on through every command. -/
theorem running_step {risk : RiskConfig} {l : Ledger} {live live' : Nat → Option Entry}
    {c : OrderCommand} {es fs : List OrderEvent} {n : Nat} (h : Sound l live)
    (hp : Stepped risk l live c live' fs n) {s : UInt64} {x q : Nat} (hx : x < l.nextExchangeId)
    (hx₀ : x ≠ 0) (hrun : Running s x q es (live x)) :
    Running s x q (es ++ fs) (live' x) := by
  cases hp with
  | opened => simpa using hrun
  | subscribed =>
    refine hrun.other ?_ ?_ (Or.inr ⟨rfl, ?_⟩)
    · simp [FillOf, OrderEvent.ack]
    · simp [Opens, OrderEvent.ack, Ne.symm hx₀]
    · simp [Closes, OrderEvent.ack]
  | newOrder hc hp => exact running_placing h hp hx.ne hrun
  | unknown =>
    refine hrun.other ?_ ?_ (Or.inr ⟨rfl, ?_⟩)
    · simp [FillOf, OrderEvent.reject]
    · simp [Opens, OrderEvent.reject]
    · simp [Closes, OrderEvent.reject]
  | @cancelled y e hc hy he =>
    refine hrun.other (by simp [FillOf, OrderEvent.ack]) (by simp [Opens, OrderEvent.ack]) ?_
    by_cases hxy : x = y
    · exact Or.inl (by rw [hxy, Function.update_self])
    · exact Or.inr ⟨Function.update_of_ne hxy _ _, fun hclose => hxy hclose.1.symm⟩
  | @replaced y e _ _ _ hc hy he hkey hp =>
    refine running_placing (h.cancel y) hp (by rw [nextId_forgetOrder]; exact hx.ne) ?_
    by_cases hxy : x = y
    · rw [hxy, Function.update_self, ← hxy]
      exact hrun.closed
    · rwa [Function.update_of_ne hxy]
  | retired =>
    rw [List.append_nil]
    unfold without
    split
    · exact hrun.closed
    · exact hrun

theorem Running.shared {s : UInt64} {x q : Nat} {es : List OrderEvent} {entry : Option Entry}
    (h : Running s x q es entry) : Accounted x q (es.filter (fun e => e.session = s)) ∧
      fillsOf x (es.filter (fun e => e.session = s)) = fillsOf x es := by
  have hfills : fillsOf x (es.filter (fun e => e.session = s)) = fillsOf x es := by
    rw [fillsOf, List.filter_filter, fillsOf]
    refine List.filter_congr fun e he => ?_
    by_cases hf : FillOf x e
    · simp [hf, h.own e he (Or.inl hf)]
    · simp [hf]
  refine ⟨⟨fun pre e post hes hf => ?_, ?_, fun pre e post hes hf d hd => ?_⟩, hfills⟩
  · obtain ⟨pre', post', hsplit, hpre⟩ := filter_split hes
    obtain ⟨a, ha, hopens⟩ := h.accounted.acked pre' e post' hsplit hf
    refine ⟨a, ?_, hopens⟩
    rw [← hpre, List.mem_filter]
    exact ⟨ha, by simpa using h.own a (by rw [hsplit]; simp [ha]) (Or.inr hopens)⟩
  · rw [hfills]
    exact h.accounted.remaining
  · obtain ⟨pre', post', hsplit, hpre⟩ := filter_split hes
    rw [← hpre] at hd
    exact h.accounted.final pre' e post' hsplit hf d (List.mem_filter.mp hd).1

theorem Accounted.lastRemaining_eq {x q : Nat} {es : List OrderEvent} (h : Accounted x q es) :
    traded (fillsOf x es) + lastRemaining x q es = q := by
  obtain hnil | ⟨pre, e, hlast⟩ := List.eq_nil_or_concat (fillsOf x es)
  · simp [lastRemaining, hnil, traded]
  · rw [List.concat_eq_append] at hlast
    have hrem := h.remaining pre e [] hlast
    simpa [lastRemaining, hlast] using hrem

def tidings (ownerOf : Nat → Option UInt64) (t : Trade) : List (Option UInt64 × Nat × Int × Nat) :=
  [(ownerOf t.buyerId, t.buyerId, t.priceTicks, t.quantity),
    (ownerOf t.sellerId, t.sellerId, t.priceTicks, t.quantity)]

def tiding (e : OrderEvent) : Option UInt64 × Nat × Int × Nat :=
  (some e.session, e.exchangeOrderId, e.priceTicks, e.quantity)

def Owned (ownerOf : Nat → Option UInt64) (live : Nat → Option Entry) : Prop :=
  ∀ x e, live x = some e → ownerOf x = some e.owner

theorem Owned.fillTrade {ownerOf : Nat → Option UInt64} {live : Nat → Option Entry}
    (h : Owned ownerOf live) (t : Trade) : Owned ownerOf (fillTrade live t) := by
  intro x e he
  obtain ⟨d, hd, ho, -⟩ := fillTrade_names he
  rw [ho]
  exact h x d hd

theorem publishTrade_tidings {l : Ledger} {live : Nat → Option Entry} (h : Registers l live)
    {t : Trade} {ts : List Trade} (hcov : Covered live (t :: ts)) {ownerOf : Nat → Option UInt64}
    (ho : Owned ownerOf live) :
    (publishTrade l t).2.map tiding = tidings ownerOf t := by
  obtain ⟨⟨b, hb, -⟩, ⟨a, ha, -⟩, hne, -⟩ := hcov
  have hr₀ := h.setLastTrade t.priceTicks
  have ha₁ : fillEntry live t.buyerId t.quantity t.sellerId = some a := by
    rw [fillEntry_of_ne live hne.symm, ha]
  rw [publishTrade, Result.andThen, routeFill_event hr₀ hb,
    routeFill_event (hr₀.routeFill t.buyerId t) ha₁, tidings, ho _ b hb, ho _ a ha]
  rfl

theorem publishAll_tidings {l : Ledger} {live : Nat → Option Entry} (h : Registers l live)
    {trades : List Trade} (hcov : Covered live trades) {ownerOf : Nat → Option UInt64}
    (ho : Owned ownerOf live) :
    (publishAll l trades).2.map tiding = trades.flatMap (tidings ownerOf) := by
  induction trades generalizing l live with
  | nil => rfl
  | cons t trades ih =>
    have hr : Registers (publishTrade l t).1 (fillTrade live t) :=
      ((h.setLastTrade t.priceTicks).routeFill t.buyerId t).routeFill t.sellerId t
    rw [publishAll, List.flatMap_cons, ← publishTrade_tidings h hcov ho,
      ← ih hr hcov.2.2.2 (ho.fillTrade t)]
    exact List.map_append

def newOrderTrades (risk : RiskConfig) (l : Ledger) (c : OrderCommand) : List Trade :=
  if l.checkRisk risk c ≠ .none then []
  else ((l.recordOrder c).process (l.incoming c)).2.engine.tradeLog.drop
    (l.recordOrder c).engine.tradeLog.length

def tradesOf (risk : RiskConfig) (l : Ledger) (c : OrderCommand) : List Trade :=
  match c.type with
  | .newOrder => newOrderTrades risk l c
  | .modify =>
    let oldId := l.findOrder c.session c.clientOrderId
    if oldId = 0 then []
    else newOrderTrades risk (withdrawn l oldId) (replacement c ((l.sideOf oldId).getD .bid))
  | _ => []

theorem placing_tidings {risk : RiskConfig} {l : Ledger} {live live' : Nat → Option Entry}
    {c : OrderCommand} {es : List OrderEvent} {n : Nat} (h : Sound l live)
    (hp : Placing risk l live c live' es n) {ownerOf : Nat → Option UInt64}
    (hnew : ownerOf l.nextExchangeId = some c.session) (ho : Owned ownerOf live) :
    (es.filter (fun e => e.type = .fill)).map tiding =
      (newOrderTrades risk l c).flatMap (tidings ownerOf) := by
  cases hp with
  | refused hrisk =>
    rw [newOrderTrades, if_pos hrisk]
    rfl
  | placed hrisk =>
    obtain ⟨hreg, hcov⟩ := sound_matched h (quantity_pos hrisk)
    have hown : Owned ownerOf (Function.update live l.nextExchangeId (some (entryOf c))) := by
      intro x e he
      by_cases hx : x = l.nextExchangeId
      · rw [hx, Function.update_self] at he
        rw [hx, hnew, ← Option.some.inj he]
        rfl
      · rw [Function.update_of_ne hx] at he
        exact ho x e he
    have htrades : newOrderTrades risk l c = printed l c := by
      rw [newOrderTrades, if_neg (not_not.mpr hrisk)]
      exact tradeLog_matched h hrisk
    have hfills : (publishAll (matched l c) (printed l c)).2.filter (fun e => e.type = .fill) =
        (publishAll (matched l c) (printed l c)).2 :=
      List.filter_eq_self.mpr fun e he => by simpa using publishAll_fills _ _ e he
    rw [htrades, List.filter_cons_of_neg (by simp [OrderEvent.ack]), hfills]
    exact publishAll_tidings hreg hcov hown

/-- Every trade of a command is told to the two owners, once each. -/
theorem stepped_tidings {risk : RiskConfig} {l : Ledger} {live live' : Nat → Option Entry}
    {c : OrderCommand} {es : List OrderEvent} {n : Nat} (h : Sound l live)
    (hp : Stepped risk l live c live' es n) :
    (es.filter (fun e => e.type = .fill)).map tiding =
      (tradesOf risk l c).flatMap (tidings (l.recordOrder c).ownerOf) := by
  have hnew : (l.recordOrder c).ownerOf l.nextExchangeId = some c.session :=
    Function.update_self _ _ _
  have hown : Owned (l.recordOrder c).ownerOf live := by
    intro x e he
    have hx : x ≠ l.nextExchangeId := by
      rintro rfl
      rw [h.not_live] at he
      cases he
    rw [show (l.recordOrder c).ownerOf x = l.ownerOf x from Function.update_of_ne hx _ _,
      h.registers.owner, he]
    rfl
  cases hp with
  | opened hc => simp [tradesOf, hc]
  | subscribed hc => simp [tradesOf, hc, OrderEvent.ack]
  | newOrder hc hp =>
    rw [tradesOf, hc]
    exact placing_tidings h hp hnew hown
  | unknown hc hx => obtain hc | hc := hc <;> simp [tradesOf, hc, hx, OrderEvent.reject]
  | cancelled hc => simp [tradesOf, hc, OrderEvent.ack]
  | @replaced y e _ _ _ hc hx he hkey hp =>
    have hy : y ≠ 0 := by
      obtain ⟨o, ho, rfl⟩ := h.backed y e he
      exact (h.fresh o ho).1.ne'
    have hside : (l.sideOf y).getD .bid = e.side := by rw [h.registers.side, he]; rfl
    have htrades : tradesOf risk l c =
        newOrderTrades risk (withdrawn l y) (replacement c e.side) := by
      simp only [tradesOf, hc, hx, hy, if_false, hside]
    rw [htrades]
    refine placing_tidings (h.cancel y) hp ?_ fun x d hd => hown x d (update_none hd).2
    rw [nextId_forgetOrder]
    exact hnew
  | retired hc => simp [tradesOf, hc]

end OrderMatching.Accounting
