import OrderMatching.ClientIds
import OrderMatching.Reclaim

namespace OrderMatching.Reusable

open OrderMatching.Orders OrderMatching.Commands OrderMatching.Exchange OrderMatching.MatchingThread
open OrderMatching.LedgerStep OrderMatching.Walk OrderMatching.Queues OrderMatching.Registry
open OrderMatching.Acceptance OrderMatching.Answers OrderMatching.Posting OrderMatching.StepCases
open OrderMatching.Startup OrderMatching.Network OrderMatching.Threads OrderMatching.Moves
open OrderMatching.Sessions OrderMatching.Closing OrderMatching.Flooding OrderMatching.Lifetime
open OrderMatching.Reclaim OrderMatching.ClientIds

/-- A new order that is taken gets past the log, and a market order that passes
the risk checks finds enough to be filled completely. -/
def settling (g : Gateway) : Action → Bool
  | .take env =>
    match g.inbound with
    | [] => true
    | d :: _ =>
      d.type ≠ .newOrder ||
        (admits (roomy env) g.thread d &&
          decide (g.thread.ledger.checkRisk g.thread.risk d = .none → d.orderType = .market →
            d.quantity.toNat ≤
              ((queue g.thread.ledger.book d.side.opposite).map Order.quantity).sum))
  | _ => true

/-- Why a client order id is registered: its order is on the queue, live, or
about to be reported as closed. The last two cases are those of a session that
has lost an event and is going to be closed. -/
inductive Spoken (g : Gateway) (n : Nat) (c : Connection) (x : UInt64) : Prop where
  | queued {d : OrderCommand} (hd : d ∈ g.inbound) (h : concerns d (UInt64.ofNat n) x = true)
      (hnew : d.type = .newOrder)
  | live {y : Nat} (h : Holds g.thread.ledger y (UInt64.ofNat n) x)
  | closing {e : OrderEvent} (he : e ∈ coming g n) (her : erases e = true)
      (hx : e.clientOrderId = x)
  | flagged (h : c.egress.overflowed = true)
  | latching (h : g.latching = some n)

structure Justified (g : Gateway) (n : Nat) : Prop where
  known : Known g n
  ids : ∀ c, g.conns n = some c → c.session.alive = true →
    ∀ x ∈ c.session.liveOrders, Spoken g n c x

theorem justified_initial (t : Thread) (n : Nat) : Justified (.initial t) n :=
  ⟨known_initial t n, fun c hc => absurd hc (conns_initial t n c)⟩

variable {g g' : Gateway} {a : Action} {n : Nat} {x : UInt64}

theorem coming_stays (h : Moved g a g') (hr : Regular g) {c c' : Connection}
    (hc : g.conns n = some c) (hc' : g'.conns n = some c') {e : OrderEvent} (he : e ∈ coming g n)
    (her : erases e = true) :
    e ∈ coming g' n ∨ g'.latching = some n ∨
      ∃ items, c.egress.items = e :: items ∧ c' = (queued c items).deliver e := by
  obtain he | he := mem_coming.mp he
  · obtain he | ⟨d, items, hd, hitems, rfl⟩ := waiting_stays (h.touched n) hr hc' he
    · exact Or.inl (mem_coming.mpr (Or.inl he))
    · obtain rfl := Option.some.inj (hc.symm.trans hd)
      exact Or.inr (Or.inr ⟨items, hitems, rfl⟩)
  · obtain he | he | ⟨-, -, -, hlost⟩ := outbox_stays h hc he
    · exact Or.inl (mem_coming.mpr (Or.inr he))
    · exact Or.inl (mem_coming.mpr (Or.inl he))
    · refine Or.inr (Or.inl (hlost fun htype => ?_))
      simp [erases, htype] at her

theorem overflowed_stays (h : Touched g a n g') (hr : Regular g) {c c' : Connection}
    (hc : g.conns n = some c) (hc' : g'.conns n = some c') (hflag : c.egress.overflowed = true) :
    c'.egress.overflowed = true := by
  obtain ⟨d, hd, hal⟩ | ⟨-, hm, -⟩ := h.before hc'
  · obtain rfl := Option.some.inj (hd.symm.trans hc)
    cases hal with
    | kept hk => rw [hk.egress, hflag]
    | requested ha hreq => rw [hreq.egress, hflag]
    | popped =>
      rw [(delivering_deliver _ _).egress]
      exact hflag
    | flagged => rfl
    | _ => exact hflag
  · exact absurd (hr.below n c hc).2 (by omega)

theorem latching_stays (h : Moved g a g') {c c' : Connection} (hc : g.conns n = some c)
    (hc' : g'.conns n = some c') (hl : g.latching = some n) :
    c'.egress.overflowed = true ∨ g'.latching = some n := by
  have hbusy : g.latching ≠ none := by simp [hl]
  cases h with
  | taken _ _ _ hnone => exact absurd hnone hbusy
  | pushed _ _ hnone => exact absurd hnone hbusy
  | overflowing _ _ hnone => exact absurd hnone hbusy
  | lost _ _ hnone => exact absurd hnone hbusy
  | housekept _ _ hnone => exact absurd hnone hbusy
  | @latched m d hm hd =>
    obtain rfl : m = n := Option.some.inj (hm.symm.trans hl)
    rw [update_same hc']
    exact Or.inl rfl
  | @unlatched m hm hd =>
    obtain rfl : m = n := Option.some.inj (hm.symm.trans hl)
    simp [hc] at hd
  | _ => exact Or.inr hl

theorem Spoken.moved (h : Moved g a g') (hr : Regular g) {c c' : Connection}
    (hc : g.conns n = some c) (hc' : g'.conns n = some c') (hin : g.inbound ⊆ g'.inbound)
    (hledger : g'.thread.ledger = g.thread.ledger) (hx : x ∈ c'.session.liveOrders)
    (hs : Spoken g n c x) : Spoken g' n c' x := by
  cases hs with
  | queued hd hconcerns hnew => exact .queued (hin hd) hconcerns hnew
  | live hy => exact .live (hledger ▸ hy)
  | closing he her hclient =>
    obtain he | hl | ⟨items, hitems, rfl⟩ := coming_stays h hr hc hc' he her
    · exact .closing he her hclient
    · exact .latching hl
    · rw [(delivering_deliver _ _).liveOrders, if_pos her, hclient] at hx
      exact absurd hx (Finset.notMem_erase _ _)
  | flagged hflag => exact .flagged (overflowed_stays (h.touched n) hr hc hc' hflag)
  | latching hl =>
    obtain hflag | hl := latching_stays h hc hc' hl
    · exact .flagged hflag
    · exact .latching hl

theorem registered_before (h : Touched g a n g') {c' : Connection} (hc' : g'.conns n = some c')
    (hx : x ∈ c'.session.liveOrders) (hr : Regular g) :
    (∃ c, g.conns n = some c ∧ x ∈ c.session.liveOrders) ∨
      ∃ d ∈ g'.inbound, concerns d (UInt64.ofNat n) x = true ∧ d.type = .newOrder := by
  obtain ⟨c, hc, hal⟩ | ⟨ho, -, -⟩ := h.before hc'
  · cases hal with
    | kept hk => exact Or.inl ⟨c, hc, hk.liveOrders ▸ hx⟩
    | @requested c' cmd ha hreq hin =>
      rw [hreq.registered] at hx
      split at hx
      · rename_i hnew
        obtain rfl | hx := Finset.mem_insert.mp hx
        · have hsender := hreq.sender.trans (hr.wired n c hc).sessionId
          exact Or.inr ⟨cmd, by simp [hin], concerns_iff.mpr ⟨⟨hsender, rfl⟩, Or.inl hnew⟩, hnew⟩
        · exact Or.inl ⟨c, hc, hx⟩
      · exact Or.inl ⟨c, hc, hx⟩
    | popped =>
      rw [(delivering_deliver _ _).liveOrders] at hx
      split at hx
      · exact Or.inl ⟨c, hc, Finset.mem_of_mem_erase hx⟩
      · exact Or.inl ⟨c, hc, hx⟩
    | _ => exact Or.inl ⟨c, hc, hx⟩
  · rw [ho.liveOrders] at hx
    exact absurd hx (Finset.notMem_empty x)

theorem sole_sender (hr : Running g) (hone : g.nextSessionId ≤ 2) {c : Connection}
    (hc : g.conns n = some c) {d : OrderCommand} (hd : d ∈ g.inbound) :
    d.session = UInt64.ofNat n := by
  obtain ⟨hpos, hlt⟩ := hr.addressed.commands d (List.mem_append_right _ hd)
  have hn := hr.regular.below n c hc
  have hsame : d.session.toNat = n := by omega
  rw [← hsame, UInt64.ofNat_toNat]

theorem known_taken (hr : Running g) (hi : Retirement g) (hknown : Known g n) {c : Connection}
    (hc : g.conns n = some c) (halive : c.session.alive = true) {d : OrderCommand}
    {inbound : List OrderCommand} (hin : g.inbound = d :: inbound) (hd : d.session = UInt64.ofNat n)
    (htype : d.type ≠ .sessionOpened) :
    g.thread.egress (UInt64.ofNat n) = some (some n) := by
  have hid := (hr.regular.wired n c hc).sessionId
  have hopen : ¬Retired g (UInt64.ofNat n) := by
    rintro ⟨d', hd', hcancel, hsame⟩
    exact hi.alive n c hc halive d' (List.mem_append_left _ hd') hcancel (hsame.trans hid.symm)
  exact hd ▸ hknown.egress hr.regular hc hopen hin hd htype

theorem filled_of_settling {l : Ledger} {risk : RiskConfig} {d : OrderCommand}
    (h : l.checkRisk risk d = .none → d.orderType = .market →
      d.quantity.toNat ≤ ((queue l.book d.side.opposite).map Order.quantity).sum) :
    l.checkRisk risk d = .none → d.orderType = .market → (outcome l d).remaining = 0 := by
  intro hrisk hm
  have hall : ∀ p, acceptable (l.incoming d) p = true := by
    intro p
    simp [acceptable, (incoming_kind l d).2.mpr hm]
  rw [outcome, walk_all hall]
  exact Nat.sub_eq_zero_of_le (h hrisk hm)

theorem spoken_after (hr : Running g) (hi : Retirement g) (hknown : Known g n) {c : Connection}
    (hc : g.conns n = some c) (halive : c.session.alive = true) {env : Env} {d : OrderCommand}
    (hin : g.inbound = d :: g'.inbound) (hd : d.session = UInt64.ofNat n)
    {live' : Nat → Option Entry} (hadm : admits (roomy env) g.thread d = true)
    (htype : d.type ≠ .sessionOpened) (ht : Taken (roomy env) g.thread d g'.thread g'.outbox)
    (hs' : Sound (step g.thread.risk g.thread.ledger d).1 live')
    (h : (∃ y, Named live' y (UInt64.ofNat n) x) ∨ ∃ e ∈ (step g.thread.risk g.thread.ledger d).2,
      erases e = true ∧ e.session = UInt64.ofNat n ∧ e.clientOrderId = x) : Spoken g' n c x := by
  generalize hout : g'.outbox = out at ht
  cases ht with
  | refused hadm' => simp [hadm] at hadm'
  | admitted _ hledger =>
    obtain ⟨y, hy⟩ | ⟨e, he, her, hsession, hclient⟩ := h
    · rw [← holds_iff hs', ← hledger] at hy
      exact .live hy
    · have hqueue := known_taken hr hi hknown hc halive hin hd htype
      have hto : (n, e) ∈ g'.outbox := by
        rw [hout]
        exact told_of_known he (hsession ▸ hqueue) _
      exact .closing (mem_coming.mpr (Or.inr hto)) her hclient

theorem Spoken.taken (hr : Running g) (hi : Retirement g) (hone : g.nextSessionId ≤ 2)
    (hknown : Known g n) {c : Connection} (hc : g.conns n = some c)
    (halive : c.session.alive = true) {env : Env} {d : OrderCommand}
    (hsettling : settling g (.take env) = true) (hin : g.inbound = d :: g'.inbound)
    (hempty : g.outbox = []) (hl : g.latching = none) (hconns : g'.conns = g.conns)
    (ht : Taken (roomy env) g.thread d g'.thread g'.outbox) (hs : Spoken g n c x) :
    Spoken g' n c x := by
  have hmem : d ∈ g.inbound := by simp [hin]
  have hd := sole_sender hr hone hc hmem
  obtain ⟨live, hsound⟩ := hr.addressed.sound
  obtain ⟨live', hs', hstep⟩ := step_cases hsound g.thread.risk d
  cases hs with
  | @queued d' hd' hconcerns hnew =>
    rw [hin] at hd'
    obtain rfl | hd' := List.mem_cons.mp hd'
    · have hfilled : admits (roomy env) g.thread d' = true ∧
          (g.thread.ledger.checkRisk g.thread.risk d' = .none → d'.orderType = .market →
            d'.quantity.toNat ≤
              ((queue g.thread.ledger.book d'.side.opposite).map Order.quantity).sum) := by
        simpa only [settling, hin, hnew, ne_eq, not_true_eq_false, decide_false, Bool.false_or,
          Bool.and_eq_true, decide_eq_true_eq] using hsettling
      obtain ⟨⟨-, rfl⟩, -⟩ := concerns_iff.mp hconcerns
      refine spoken_after hr hi hknown hc halive hin hd hfilled.1 (by simp [hnew]) ht hs' ?_
      rw [← hd]
      exact Stepped.entered hstep hsound hnew (filled_of_settling hfilled.2)
    · exact .queued hd' hconcerns hnew
  | @live y hy =>
    have hopen : d.type ≠ .cancelAllForSession := by
      intro hcancel
      have hid := (hr.regular.wired n c hc).sessionId
      exact hi.alive n c hc halive d (List.mem_append_right _ hmem) hcancel (hd.trans hid.symm)
    by_cases htype : d.type = .sessionOpened
    · have hsame : g'.thread.ledger = g.thread.ledger := by
        generalize g'.outbox = out at ht
        cases ht with
        | refused hadm hu => exact hu.ledger
        | admitted hadm hledger =>
          rw [hledger, step, htype]
      exact .live (hsame ▸ hy)
    · cases hadm : admits (roomy env) g.thread d with
      | false =>
        generalize g'.outbox = out at ht
        cases ht with
        | refused _ hu => exact .live (hu.ledger ▸ hy)
        | admitted hadm' => simp [hadm] at hadm'
      | true =>
        refine spoken_after hr hi hknown hc halive hin hd hadm htype ht hs' ?_
        rw [holds_iff hsound, ← hd] at hy
        rw [← hd]
        exact Stepped.kept hstep hsound hopen hy
  | @closing e he her hclient =>
    obtain he | he := mem_coming.mp he
    · refine .closing (mem_coming.mpr (Or.inl ?_)) her hclient
      rw [waiting, hconns]
      exact he
    · simp [hempty] at he
  | flagged hflag => exact .flagged hflag
  | latching hl' => simp [hl] at hl'

theorem taken_or_same (h : Moved g a g') (hserving : g.thread.replaying = false) :
    (∃ env d, a = .take env ∧ g.inbound = d :: g'.inbound ∧ g.outbox = [] ∧ g.latching = none ∧
      g'.conns = g.conns ∧ Taken (roomy env) g.thread d g'.thread g'.outbox) ∨
      g.inbound ⊆ g'.inbound ∧ g'.thread.ledger = g.thread.ledger := by
  have hsame : g.inbound ⊆ g.inbound := List.Subset.refl _
  cases h with
  | taken ha hin hout hl =>
    exact Or.inl ⟨_, _, ha, hin, hout, hl, rfl, taken_applyPopped _ hserving _⟩
  | accepted ha hlt hpc ho hin =>
    obtain ⟨-, rfl⟩ | ⟨-, rfl⟩ := hin
    · exact Or.inr ⟨List.subset_append_left _ _, rfl⟩
    · exact Or.inr ⟨hsame, rfl⟩
  | requested => exact Or.inr ⟨List.subset_append_left _ _, rfl⟩
  | closed hc ha hpc hclosed =>
    cases hclosed with
    | killed => exact Or.inr ⟨List.subset_append_left _ _, rfl⟩
    | _ => exact Or.inr ⟨hsame, rfl⟩
  | housekept env => exact Or.inr ⟨hsame, (undisturbed_housekeep env g.thread).ledger⟩
  | _ => exact Or.inr ⟨hsame, rfl⟩

theorem justified_moved (h : Moved g a g') (hr : Running g) (hi : Retirement g)
    (hone : g'.nextSessionId ≤ 2) (hsettling : settling g a = true) (hj : Justified g n) :
    Justified g' n := by
  have hnext := next_moved h
  have hle : g.nextSessionId ≤ 2 := by
    obtain hnext | ⟨hnext, -⟩ := hnext <;> omega
  refine ⟨known_moved h hr hj.known fun hn hnext' => ?_, fun c' hc' halive x hx => ?_⟩
  · -- nobody has sent anything when the first session is accepted
    have hstart := hr.regular.started
    have hnone : g.inbound = [] := by
      rw [List.eq_nil_iff_forall_not_mem]
      intro d hd
      obtain ⟨hpos, hlt⟩ := hr.addressed.commands d (List.mem_append_right _ hd)
      omega
    exact Registration.opening_room h (fun _ _ => by simp [hnone, inboundCapacity]) hn hnext'
  · obtain ⟨c, hc, hx'⟩ | ⟨d, hd, hconcerns, hnew⟩ :=
      registered_before (h.touched n) hc' hx hr.regular
    · have halive' : c.session.alive = true := by
        obtain ⟨d, hd, hal, -⟩ | ⟨hn, -⟩ := alive_touched (h.touched n) hc' halive
        · rw [Option.some.inj (hc.symm.trans hd)]
          exact hal
        · exact absurd (hr.regular.below n c hc).2 (by omega)
      have hs := hj.ids c hc halive' x hx'
      obtain ⟨env, d, rfl, hin, hempty, hl, hconns, ht⟩ | ⟨hin, hledger⟩ :=
        taken_or_same h hr.addressed.replaying
      · obtain rfl : c' = c := Option.some.inj (hc'.symm.trans ((congrFun hconns n).trans hc))
        exact hs.taken hr hi hle hj.known hc halive' hsettling hin hempty hl hconns ht
      · exact hs.moved h hr.regular hc hc' hin hledger hx
    · exact .queued hd hconcerns hnew

/-- Nothing is left to be processed or delivered, and nothing was lost. -/
structure Quiescent (g : Gateway) (c : Connection) : Prop where
  inbound : g.inbound = []
  outbox : g.outbox = []
  latching : g.latching = none
  delivered : c.egress.items = []
  whole : c.egress.overflowed = false

/-- An order of session `n` rests in the book under the client order id `x`. -/
def Rests (g : Gateway) (n : Nat) (x : UInt64) : Prop :=
  ∃ o ∈ g.thread.ledger.book.allOrders, Holds g.thread.ledger o.id (UInt64.ofNat n) x

theorem Spoken.rests {c : Connection} (h : Spoken g n c x) (hr : Running g)
    (hc : g.conns n = some c) (hq : Quiescent g c) : Rests g n x := by
  cases h with
  | queued hd => simp [hq.inbound] at hd
  | @live y hy =>
    obtain ⟨live, hs⟩ := hr.addressed.sound
    obtain ⟨e, he, -⟩ := (holds_iff hs).mp hy
    obtain ⟨o, ho, rfl⟩ := hs.backed y e he
    exact ⟨o, ho, hy⟩
  | closing he =>
    rw [mem_coming, waiting_of hc, hq.delivered, hq.outbox] at he
    simp at he
  | flagged hflag => simp [hq.whole] at hflag
  | latching hl => simp [hq.latching] at hl

/-- With one session, an id that is registered when nothing is under way, or
that is refused as a duplicate then, belongs to an order in the book. -/
theorem registered_rests {t : Thread} (h : Booted t) (cfg : ServerConfig) {as : List Action}
    (hrun : Along cfg (fun g a => settling g a = true) (.initial t) as)
    (hone : ((Gateway.initial t).run cfg as).nextSessionId ≤ 2) {n : Nat} {c : Connection}
    (hc : ((Gateway.initial t).run cfg as).conns n = some c) (halive : c.session.alive = true)
    (hq : Quiescent ((Gateway.initial t).run cfg as) c) :
    (∀ x ∈ c.session.liveOrders, Rests ((Gateway.initial t).run cfg as) n x) ∧
      ∀ x, (c.session.registerOrder x).1 = false → Rests ((Gateway.initial t).run cfg as) n x := by
  have hstep : ∀ (g : Gateway) (a : Action),
      (Running g ∧ Retirement g ∧ (g.nextSessionId ≤ 2 → Justified g n)) → settling g a = true →
      Running (g.step cfg a) ∧ Retirement (g.step cfg a) ∧
        ((g.step cfg a).nextSessionId ≤ 2 → Justified (g.step cfg a) n) := by
    rintro g a ⟨hr, hi, hj⟩ hsettling
    have hm := hr.moved cfg a
    refine ⟨hr.step cfg a, retirement_moved hm hr hi, fun hone => ?_⟩
    refine justified_moved hm hr hi hone hsettling (hj ?_)
    obtain hnext | ⟨hnext, -⟩ := next_moved hm <;> omega
  obtain ⟨hr, -, hj⟩ :=
    hrun.keeps hstep ⟨running_initial h, retirement_initial t, fun _ => justified_initial t n⟩
  have hall : ∀ x ∈ c.session.liveOrders, Rests ((Gateway.initial t).run cfg as) n x :=
    fun x hx => ((hj hone).ids c hc halive x hx).rests hr hc hq
  refine ⟨hall, fun x hx => hall x ?_⟩
  simpa [Session.registerOrder] using hx

def twoBids : List Action :=
  admission ++ [bidding 1, bidding 2] ++ answering ++ answering ++ [asking 1] ++
    answering ++ delivering 3

theorem twoBids_connected :
    (((Gateway.initial newThread).run .default twoBids).conns 1).isSome = true := by
  decide +kernel

theorem twoBids_rests : ∃ c, ((Gateway.initial newThread).run .default twoBids).conns 1 = some c ∧
    c.session.liveOrders = {2} ∧
      ∀ x ∈ c.session.liveOrders, Rests ((Gateway.initial newThread).run .default twoBids) 1 x := by
  let g := (Gateway.initial newThread).run .default twoBids
  have hc : g.conns 1 = some ((g.conns 1).get twoBids_connected) :=
    (Option.some_get twoBids_connected).symm
  have hq : Quiescent g ((g.conns 1).get twoBids_connected) :=
    ⟨by decide +kernel, by decide +kernel, by decide +kernel, by decide +kernel, by decide +kernel⟩
  refine ⟨_, hc, by decide +kernel, (registered_rests booted_newThread .default ?_ ?_ hc ?_ hq).1⟩
  · decide +kernel
  · decide +kernel
  · decide +kernel

/-- A market order that finds nothing is answered, and that is the last its
client hears of it. -/
def unfilled : List Action :=
  admission ++ [.frame 0 true (.newOrder 1 0 5 .bid .market)] ++ answering ++ delivering 1

theorem unfilled_connected :
    (((Gateway.initial newThread).run .default unfilled).conns 1).isSome = true := by
  decide +kernel

theorem unfilled_not_rests :
    ¬∀ (cfg : ServerConfig) (t : Thread) (as : List Action), Booted t →
      ((Gateway.initial t).run cfg as).nextSessionId ≤ 2 → ∀ (n : Nat) (c : Connection),
      ((Gateway.initial t).run cfg as).conns n = some c → c.session.alive = true →
      Quiescent ((Gateway.initial t).run cfg as) c →
      ∀ x ∈ c.session.liveOrders, Rests ((Gateway.initial t).run cfg as) n x := by
  intro h
  let g := (Gateway.initial newThread).run .default unfilled
  have hc : g.conns 1 = some ((g.conns 1).get unfilled_connected) :=
    (Option.some_get unfilled_connected).symm
  have hq : Quiescent g ((g.conns 1).get unfilled_connected) :=
    ⟨by decide +kernel, by decide +kernel, by decide +kernel, by decide +kernel, by decide +kernel⟩
  obtain ⟨o, ho, -⟩ :=
    h .default newThread unfilled booted_newThread (by decide +kernel) 1 _ hc (by decide +kernel) hq
      1 (by decide +kernel)
  have hnone : g.thread.ledger.book.allOrders.length = 0 := by decide +kernel
  rw [List.eq_nil_of_length_eq_zero hnone] at ho
  exact absurd ho List.not_mem_nil

end OrderMatching.Reusable
