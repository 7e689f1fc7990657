import OrderMatching.Closing
import OrderMatching.Flooding

namespace OrderMatching.Inheritance

open OrderMatching.Orders OrderMatching.Commands OrderMatching.Exchange OrderMatching.MatchingThread
open OrderMatching.LedgerStep OrderMatching.Registry OrderMatching.Acceptance
open OrderMatching.Bookkeeping OrderMatching.Answers OrderMatching.Posting OrderMatching.StepCases
open OrderMatching.Modify OrderMatching.Startup OrderMatching.Network OrderMatching.Threads
open OrderMatching.Moves OrderMatching.Sessions OrderMatching.Closing OrderMatching.Flooding

/-- An order rests under the exchange id `y`. -/
def InBook (l : Ledger) (y : Nat) : Prop := ∃ o ∈ l.book.allOrders, o.id = y

instance (l : Ledger) (y : Nat) : Decidable (InBook l y) := inferInstanceAs (Decidable (∃ o ∈ _, _))

theorem inBook_iff {l : Ledger} {live : Nat → Option Entry} (h : Sound l live) {y : Nat} :
    InBook l y ↔ ∃ e, live y = some e := by
  constructor
  · rintro ⟨o, ho, rfl⟩
    obtain ⟨e, he, -⟩ := h.rests o ho
    exact ⟨e, he⟩
  · rintro ⟨e, he⟩
    exact h.backed y e he

def keyUnder (l : Ledger) (y : Nat) : Option UInt64 :=
  (l.ownerOf y).bind fun s => (l.clientIdOf y).map (keyOf s)

theorem keyUnder_eq {l : Ledger} {live : Nat → Option Entry} (h : Sound l live) (y : Nat) :
    keyUnder l y = (live y).map Entry.key := by
  rw [keyUnder, h.registers.owner, h.registers.client]
  cases live y <;> rfl

/-- A step leaves the order `y` to itself: no request names it, no disconnect
takes it along, it leaves the book by a fill only, and no session is sent a
fill of it. -/
structure Spared (g : Gateway) (a : Action) (g' : Gateway) (y : Nat) : Prop where
  requested : ∀ env d ds, a = .take env → g.inbound = d :: ds → d.type = .cancel ∨
    d.type = .modify →
    g.thread.ledger.findOrder d.session d.clientOrderId ≠ y
  disconnected : ∀ env d ds, a = .take env → g.inbound = d :: ds → d.type = .cancelAllForSession →
    y ∉ (g.thread.ledger.sessionOrders d.session).getD []
  stays : InBook g.thread.ledger y → InBook g'.thread.ledger y ∨
    ∃ d ∈ g.inbound, ∃ e ∈ (step g.thread.risk g.thread.ledger d).2,
      e.type = .fill ∧ e.exchangeOrderId = y ∧ e.closesOrder = true
  untold : ∀ p ∈ g'.outbox, p.2.type = .fill → p.2.exchangeOrderId ≠ y

/-- What keeps the orders of `t` apart from the sessions: a number is handed out
that owns none of them, and no request comes under the key of one. -/
def stranger (t : Thread) (g : Gateway) : Action → Bool
  | .accept _ =>
    t.ledger.book.allOrders.all fun o =>
      g.thread.ledger.ownerOf o.id ≠ some (UInt64.ofNat g.nextSessionId)
  | .take _ =>
    match g.inbound with
    | [] => true
    | d :: _ =>
      (d.type ≠ .cancel && d.type ≠ .modify) || t.ledger.book.allOrders.all fun o =>
        keyUnder g.thread.ledger o.id ≠ some (keyOf d.session d.clientOrderId)
  | _ => true

section Step

variable {risk : RiskConfig} {l : Ledger} {live live' : Nat → Option Entry} {c : OrderCommand}
  {es : List OrderEvent}
  {n : Nat}

theorem Placing.survives (hp : Placing risk l live c live' es n) (h : Sound l live) {y : Nat}
    {d : Entry} (hy : live y = some d) :
    (∃ d', live' y = some d') ∨ ∃ e ∈ es, e.type = .fill ∧ e.exchangeOrderId = y ∧
      e.closesOrder = true := by
  cases hp with
  | refused => exact Or.inl ⟨d, hy⟩
  | placed hrisk =>
    have hne : y ≠ l.nextExchangeId := by
      rintro rfl
      rw [h.not_live] at hy
      cases hy
    obtain ⟨hreg, -⟩ := sound_matched h (quantity_pos hrisk)
    have hy₁ : Function.update live l.nextExchangeId (some (entryOf c)) y = some d := by
      rw [Function.update_of_ne hne, hy]
    rw [Accounting.liveAfter_eq h, if_neg fun hm => hne hm.2]
    cases hafter :
      (printed l c).foldl fillTrade
        (Function.update live l.nextExchangeId (some (entryOf c))) y with
    | some d' => exact Or.inl ⟨d', rfl⟩
    | none =>
      obtain ⟨e, he, hid, her⟩ := (publishAll_closes hreg _ hy₁).mp hafter
      have hfill := publishAll_fills _ _ e he
      rw [erases, hfill] at her
      exact Or.inr ⟨e, List.mem_cons_of_mem _ he, hfill, hid, her⟩

theorem Stepped.survives (hp : Stepped risk l live c live' es n) (h : Sound l live) {y : Nat}
    {d : Entry} (hy : live y = some d)
    (hfound : c.type = .cancel ∨ c.type = .modify → l.findOrder c.session c.clientOrderId ≠ y)
    (howner : c.type = .cancelAllForSession → y ∉ (l.sessionOrders c.session).getD []) :
    (∃ d', live' y = some d') ∨ ∃ e ∈ es, e.type = .fill ∧ e.exchangeOrderId = y ∧
      e.closesOrder = true := by
  cases hp with
  | newOrder _ hp => exact Placing.survives hp h hy
  | cancelled hc hz =>
    have hne : y ≠ _ := fun hyz => hfound (Or.inl hc) (hz.trans hyz.symm)
    exact Or.inl ⟨d, by rw [Function.update_of_ne hne, hy]⟩
  | @replaced z e _ _ _ hc hz he hkey hp =>
    have hne : y ≠ z := fun hyz => hfound (Or.inr hc) (hz.trans hyz.symm)
    exact Placing.survives hp (h.cancel z) (by rw [Function.update_of_ne hne, hy])
  | retired hc => exact Or.inl ⟨d, by rw [without, if_neg (howner hc), hy]⟩
  | _ => exact Or.inl ⟨d, hy⟩

theorem Stepped.filled (hp : Stepped risk l live c live' es n) (h : Sound l live) {e : OrderEvent}
    (he : e ∈ es) (hfill : e.type = .fill) (hold : e.exchangeOrderId < l.nextExchangeId) :
    ∃ d, live e.exchangeOrderId = some d ∧ e.session = d.owner := by
  have hplaced : ∀ {l₁ live₁ live₂ c₁ n₁}, Placing risk l₁ live₁ c₁ live₂ es n₁ → Sound l₁ live₁ →
      l₁.nextExchangeId = l.nextExchangeId → ∃ d, live₁ e.exchangeOrderId = some d ∧
        e.session = d.owner := by
    intro l₁ live₁ live₂ c₁ n₁ hp hs hnext
    cases hp with
    | refused =>
      rw [List.mem_singleton.mp he] at hfill
      cases hfill
    | placed hrisk =>
      obtain rfl | he := List.mem_cons.mp he
      · cases hfill
      · obtain ⟨hreg, -⟩ := sound_matched hs (quantity_pos hrisk)
        obtain ⟨d, hd, hsession, -⟩ := publishAll_names hreg _ e he
        rw [Function.update_of_ne (by omega)] at hd
        exact ⟨d, hd, hsession⟩
  cases hp with
  | opened => cases he
  | newOrder _ hp => exact hplaced hp h rfl
  | @replaced z e₁ _ _ _ hc hz hz' hkey hp =>
    obtain ⟨d, hd, hsession⟩ := hplaced hp (h.cancel z) (withdrawn_frame l z).2
    exact ⟨d, (update_none hd).2, hsession⟩
  | retired => cases he
  | _ =>
    rw [List.mem_singleton.mp he] at hfill
    cases hfill

end Step

/-- The orders of `t` are older than anything placed since, nobody who was
accepted owns one, and nobody is about to be sent a fill of one. -/
structure Estranged (t : Thread) (g : Gateway) : Prop where
  older : t.ledger.nextExchangeId ≤ g.thread.ledger.nextExchangeId
  owners : ∀ y s, InBook t.ledger y → g.thread.ledger.ownerOf y = some s → ¬Issued g s
  outbox : ∀ p ∈ g.outbox, p.2.type = .fill → ¬InBook t.ledger p.2.exchangeOrderId

theorem estranged_initial (t : Thread) : Estranged t (.initial t) := by
  refine ⟨Nat.le_refl _, fun y s _ _ hissued => ?_, fun _ hp => absurd hp List.not_mem_nil⟩
  obtain ⟨hpos, hlt⟩ := hissued
  have hnext : (Gateway.initial t).nextSessionId = 1 := rfl
  omega

variable {t : Thread} {g g' : Gateway} {a : Action}

theorem estranged_taken (hr : Running g)
    (hbelow : ∀ y, InBook t.ledger y → y < t.ledger.nextExchangeId) (hi : Estranged t g) {env : Env}
    {d : OrderCommand} (hnext : g'.nextSessionId = g.nextSessionId)
    (ht : Taken (roomy env) g.thread d g'.thread g'.outbox) : Estranged t g' := by
  obtain ⟨live, hs⟩ := hr.addressed.sound
  obtain ⟨live', hs', hstep⟩ := step_cases hs g.thread.risk d
  have hissued : ∀ s, Issued g' s → Issued g s := fun s h => by rwa [Issued, hnext] at h
  generalize hout : g'.outbox = out at ht
  cases ht with
  | refused hadm hsame =>
    refine ⟨by rw [hsame.ledger]; exact hi.older, fun y s hy ho hs => ?_, by simp [hout]⟩
    rw [hsame.ledger] at ho
    exact hi.owners y s hy ho (hissued s hs)
  | admitted hadm hledger =>
    refine ⟨?_, fun y s hy ho hs₁ => ?_, fun p hp hfill hy => ?_⟩
    · rw [hledger]
      exact hi.older.trans hstep.next_le
    · rw [hledger, hs'.registers.owner] at ho
      obtain ⟨e, he, rfl⟩ := Option.map_eq_some_iff.mp ho
      have hlt := hbelow y hy
      have hle := hi.older
      obtain ⟨hnew, -⟩ | ⟨d, hd, howner, -⟩ := hstep.names hs he
      · omega
      · refine hi.owners y d.owner hy ?_ (howner ▸ hissued _ hs₁)
        rw [hs.registers.owner, hd]
        rfl
    · rw [hout] at hp
      obtain hp | hp := List.mem_append.mp hp
      · obtain ⟨e, he, hq⟩ := List.mem_filterMap.mp hp
        obtain ⟨q, hq, rfl⟩ := Option.map_eq_some_iff.mp hq
        obtain ⟨d', hd', hsession⟩ :=
          Stepped.filled hstep hs he hfill ((hbelow _ hy).trans_le hi.older)
        refine hi.owners _ e.session hy ?_ ?_
        · rw [hs.registers.owner, hd', hsession]
          rfl
        · cases hreg : g.thread.egress e.session with
          | none => simp [Thread.egressFor, hreg] at hq
          | some q' => exact (hr.addressed.egress _ _ hreg).2
      · unfold tombstone at hp
        split at hp
        · obtain ⟨q, -, rfl⟩ := List.mem_map.mp hp
          cases hfill
        · cases hp

theorem estranged_moved (h : Moved g a g') (hr : Running g)
    (hbelow : ∀ y, InBook t.ledger y → y < t.ledger.nextExchangeId)
    (hstranger : stranger t g a = true) (hi : Estranged t g) : Estranged t g' := by
  have hsame : g'.nextSessionId = g.nextSessionId → g'.thread.ledger = g.thread.ledger →
      (∀ p ∈ g'.outbox, p ∈ g.outbox) → Estranged t g' := by
    intro hnext hledger hout
    refine ⟨by rw [hledger]; exact hi.older, fun y s hy ho hs => ?_,
      fun p hp => hi.outbox p (hout p hp)⟩
    rw [hledger] at ho
    exact hi.owners y s hy ho (by rwa [Issued, hnext] at hs)
  cases flow_moved h hr.regular hr.addressed.replaying with
  | quiet hnext hin happ hout ht =>
    refine hsame hnext ht.ledger fun p hp => ?_
    obtain ho | ⟨q, ho⟩ := hout
    · exact ho ▸ hp
    · exact ho ▸ List.mem_cons_of_mem _ hp
  | opened hnext hlt hin happ hout ht =>
    obtain ⟨nowNs, rfl⟩ := opening_accepts h hnext
    refine ⟨by rw [ht]; exact hi.older, fun y s hy ho hs => ?_, by rw [hout]; exact hi.outbox⟩
    rw [ht] at ho
    by_cases hold : Issued g s
    · exact hi.owners y s hy ho hold
    · have hlast := issued_last hnext hs hold
      obtain ⟨o, ho', rfl⟩ := hy
      simp only [stranger, List.all_eq_true, decide_eq_true_eq] at hstranger
      exact hstranger o ho' (hlast ▸ ho)
  | sent hc halive hsender hopened hlast hnext hin happ hout ht =>
    exact hsame hnext (by rw [ht]) fun p hp => hout ▸ hp
  | taken ha hnext hin hempty hl happ ht => exact estranged_taken hr hbelow hi hnext ht

theorem not_requested (hr : Running g) {d : OrderCommand} (hd : d.type = .cancel ∨ d.type = .modify)
    {ds : List OrderCommand} (hin : g.inbound = d :: ds) {env : Env}
    (hstranger : stranger t g (.take env) = true) {y : Nat} (hy : InBook t.ledger y)
    (hpos : 0 < y) :
    g.thread.ledger.findOrder d.session d.clientOrderId ≠ y := by
  rintro rfl
  obtain ⟨live, hs⟩ := hr.addressed.sound
  obtain ⟨⟨e, he, hkey⟩, -⟩ := sound_found hs (Nat.pos_iff_ne_zero.mp hpos)
  obtain ⟨o, ho, hid⟩ := hy
  have hfree : keyUnder g.thread.ledger o.id ≠ some (keyOf d.session d.clientOrderId) := by
    have htype : ¬(d.type ≠ .cancel ∧ d.type ≠ .modify) := fun h => hd.elim h.1 h.2
    simp only [stranger, hin, Bool.or_eq_true, Bool.and_eq_true, decide_eq_true_eq, htype, false_or,
      List.all_eq_true] at hstranger
    exact hstranger o ho
  apply hfree
  rw [keyUnder_eq hs, hid, he, Option.map_some, hkey]

theorem spared_moved (h : Moved g a g') (hr : Running g) (hi : Estranged t g) (hi' : Estranged t g')
    (hstranger : stranger t g a = true) {y : Nat} (hy : InBook t.ledger y) (hpos : 0 < y) :
    Spared g a g' y := by
  obtain ⟨live, hs⟩ := hr.addressed.sound
  have hretired : ∀ d ∈ g.inbound, y ∉ (g.thread.ledger.sessionOrders d.session).getD [] := by
    intro d hd hmem
    rw [hs.registers.session, ← hs.registers.owner] at hmem
    exact hi.owners y d.session hy hmem (hr.addressed.commands d (List.mem_append_right _ hd))
  refine ⟨?_, ?_, fun hin₀ => ?_, fun p hp hfill hid => hi'.outbox p hp hfill (hid ▸ hy)⟩
  · rintro env d ds rfl hin htype
    exact not_requested hr htype hin hstranger hy hpos
  · rintro env d ds rfl hin -
    exact hretired d (by simp [hin])
  · obtain ⟨d, hd⟩ := (inBook_iff hs).mp hin₀
    cases flow_moved h hr.regular hr.addressed.replaying with
    | quiet hnext hin happ hout ht => exact Or.inl (by rwa [ht.ledger])
    | opened hnext hlt hin happ hout ht => exact Or.inl (by rwa [ht])
    | sent hc halive hsender hopened hlast hnext hin happ hout ht => exact Or.inl (by rwa [ht])
    | @taken env c ha hnext hin hempty hl happ ht =>
      subst ha
      obtain ⟨live', hs', hstep⟩ := step_cases hs g.thread.risk c
      generalize hout : g'.outbox = out at ht
      cases ht with
      | refused hadm hsame => exact Or.inl (by rwa [hsame.ledger])
      | admitted hadm hledger =>
        obtain hd' | ⟨e, he, hfill⟩ :=
          Stepped.survives hstep hs hd (fun htype => not_requested hr htype hin hstranger hy hpos)
            (fun _ => hretired c (by simp [hin]))
        · rw [hledger]
          exact Or.inl ((inBook_iff hs').mpr hd')
        · exact Or.inr ⟨c, by simp [hin], e, he, hfill⟩

/-- Nobody who connects after a restart gets hold of an order from before. -/
theorem old_orders_spared {t : Thread} (h : Booted t) (cfg : ServerConfig) {as : List Action}
    (hrun : Along cfg (fun g a => stranger t g a = true) (.initial t) as) :
    Along cfg (fun g a => ∀ y, InBook t.ledger y → Spared g a (g.step cfg a) y)
      (.initial t) as := by
  obtain ⟨live, hs⟩ := h.ready.1
  have hbelow : ∀ y, InBook t.ledger y → y < t.ledger.nextExchangeId := by
    rintro y ⟨o, ho, rfl⟩
    exact (hs.fresh o ho).2
  have hpos : ∀ y, InBook t.ledger y → 0 < y := by
    rintro y ⟨o, ho, rfl⟩
    exact (hs.fresh o ho).1
  have hstep : ∀ (g : Gateway) (a : Action), (Running g ∧ Estranged t g) → stranger t g a = true →
      (Running (g.step cfg a) ∧ Estranged t (g.step cfg a)) ∧
        ∀ y, InBook t.ledger y → Spared g a (g.step cfg a) y := by
    rintro g a ⟨hr, hi⟩ hstranger
    have hm := hr.moved cfg a
    have hi' := estranged_moved hm hr hbelow hstranger hi
    exact ⟨⟨hr.step cfg a, hi'⟩, fun y hy => spared_moved hm hr hi hi' hstranger hy (hpos y hy)⟩
  exact hrun.leads hstep ⟨running_initial h, estranged_initial t⟩

/-- Session `s` bid for five under the client order id 1 before the crash. -/
def recoveredBid (s : UInt64) : Thread :=
  newThread.recover .obliging [.newOrder s 1 100 5 .bid .limit]

theorem booted_recoveredBid (s : UInt64) : Booted (recoveredBid s) :=
  .recovered _ _ (by simp [OrderCommand.newOrder, OrderCommand.default, isLoggable])
    booted_newThread

def cancelOne : List Action :=
  admission ++ [asking 1, .take .obliging, .push, .hangup, .endPass 0, .take .obliging]

theorem cancelOne_spared : InBook (recoveredBid 7).ledger 1 ∧
    Along .default
      (fun g a => ∀ y, InBook (recoveredBid 7).ledger y → Spared g a (g.step .default a) y)
      (.initial (recoveredBid 7)) cancelOne :=
  ⟨by decide +kernel, old_orders_spared (booted_recoveredBid 7) .default (by decide +kernel)⟩

/-- The numbers start at 1 again after a restart, so the first client is taken
for the owner of the recovered order. -/
theorem cancelOne_not_spared :
    ¬∀ (cfg : ServerConfig) (t : Thread) (as : List Action), Booted t →
      Along cfg (fun g a => ∀ y, InBook t.ledger y → Spared g a (g.step cfg a) y)
        (.initial t) as := by
  intro h
  have hall := h .default (recoveredBid 1) (admission ++ [asking 1] ++ [.take .obliging])
    (booted_recoveredBid 1)
  obtain ⟨hspared, -⟩ := (along_append.mp hall).2
  have hstays := (hspared 1 (by decide +kernel)).stays (by decide +kernel)
  exact absurd hstays (by decide +kernel)

end OrderMatching.Inheritance
