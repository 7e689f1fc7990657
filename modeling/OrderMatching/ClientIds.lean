import OrderMatching.Closing
import OrderMatching.Flooding

namespace OrderMatching.ClientIds

open OrderMatching.Orders OrderMatching.Commands OrderMatching.Exchange OrderMatching.MatchingThread
open OrderMatching.LedgerStep OrderMatching.Registry OrderMatching.Acceptance OrderMatching.Answers
open OrderMatching.Posting OrderMatching.StepCases OrderMatching.Startup OrderMatching.Network
open OrderMatching.Threads OrderMatching.Moves OrderMatching.Sessions OrderMatching.Closing
open OrderMatching.Flooding

/-- Order `y` is live, for session `s` under the client order id `x`. -/
def Holds (l : Ledger) (y : Nat) (s x : UInt64) : Prop :=
  l.ownerOf y = some s ∧ l.clientIdOf y = some x

instance (l : Ledger) (y : Nat) (s x : UInt64) : Decidable (Holds l y s x) :=
  inferInstanceAs (Decidable (_ ∧ _))

theorem holds_iff {l : Ledger} {live : Nat → Option Entry} (h : Sound l live) {y : Nat}
    {s x : UInt64} :
    Holds l y s x ↔ Named live y s x := by
  rw [Holds, h.registers.owner, h.registers.client, Named]
  cases live y <;> simp

def coming (g : Gateway) (n : Nat) : List OrderEvent :=
  waiting g n ++ (g.outbox.filter (·.1 = n)).map Prod.snd

theorem mem_coming {g : Gateway} {n : Nat} {e : OrderEvent} :
    e ∈ coming g n ↔ e ∈ waiting g n ∨ (n, e) ∈ g.outbox := by
  simp [coming]

/-- What keeps the ids apart. A number is handed out that owns no order yet, the
index by key leads to the order that was meant, and an id is taken again only
when nothing about its last use is under way. -/
def careful (g : Gateway) : Action → Bool
  | .accept _ =>
    g.thread.ledger.book.allOrders.all fun o =>
      g.thread.ledger.ownerOf o.id ≠ some (UInt64.ofNat g.nextSessionId)
  | .take _ =>
    match g.inbound with
    | [] => true
    | d :: _ =>
      (d.type ≠ .cancel && d.type ≠ .modify) || g.thread.ledger.book.allOrders.all fun o =>
        decide (g.thread.ledger.findOrder d.session d.clientOrderId = o.id ↔
          Holds g.thread.ledger o.id d.session d.clientOrderId)
  | .frame nowNs allowed f =>
    match requesting g (.frame nowNs allowed f) with
    | none => true
    | some d =>
      d.type ≠ .newOrder ||
        (g.inbound.all (fun d' => !concerns d' d.session d.clientOrderId) &&
          (coming g d.session.toNat).all fun e =>
            decide (erases e = true → e.clientOrderId ≠ d.clientOrderId))
  | _ => true

/-- A client order id that is in use: it is registered, and nothing on its way
to the session would make it forget the id. -/
structure Held (g : Gateway) (n : Nat) (x : UInt64) : Prop where
  registered : ∀ c, g.conns n = some c → x ∈ c.session.liveOrders
  kept : ∀ e ∈ coming g n, erases e = true → e.clientOrderId ≠ x

/-- The state of one client order id of one session: not in use, in use by a new
order that is still on the queue, or by one that rests. -/
inductive Slot (g : Gateway) (n : Nat) (x : UInt64) : Prop where
  | free (hin : ∀ d ∈ g.inbound, concerns d (UInt64.ofNat n) x = true → d.type ≠ .newOrder)
      (hlive : ∀ y, ¬Holds g.thread.ledger y (UInt64.ofNat n) x)
  | queued {pre post : List OrderCommand} {d : OrderCommand} (hin : g.inbound = pre ++ d :: post)
      (hd : concerns d (UInt64.ofNat n) x = true ∧ d.type = .newOrder)
      (hpre : ∀ d ∈ pre, concerns d (UInt64.ofNat n) x = false)
      (hpost : ∀ d ∈ post, concerns d (UInt64.ofNat n) x = true → d.type ≠ .newOrder)
      (hlive : ∀ y, ¬Holds g.thread.ledger y (UInt64.ofNat n) x) (h : Held g n x)
  | resting {y : Nat}
      (hin : ∀ d ∈ g.inbound, concerns d (UInt64.ofNat n) x = true → d.type ≠ .newOrder)
      (hlive : Holds g.thread.ledger y (UInt64.ofNat n) x) (h : Held g n x)

variable {g g' : Gateway} {a : Action} {n : Nat} {x : UInt64}

theorem coming_touched (ht : Touched g a n g')
    (hout : g'.outbox = g.outbox ∨ ∃ p, g.outbox = p :: g'.outbox) :
    coming g' n ⊆ coming g n := by
  intro e he
  rw [mem_coming] at he ⊢
  obtain he | he := he
  · obtain he | he := waiting_touched ht he
    · exact Or.inl he
    · exact Or.inr (he ▸ List.mem_cons_self)
  · obtain ho | ⟨p, ho⟩ := hout
    · exact Or.inr (ho ▸ he)
    · exact Or.inr (ho ▸ List.mem_cons_of_mem _ he)

theorem registered_touched (ht : Touched g a n g') (hn : n < g.nextSessionId) (h : Held g n x)
    {c' : Connection} (hc' : g'.conns n = some c') : x ∈ c'.session.liveOrders := by
  obtain ⟨c, hc, hal⟩ | ⟨-, hm, -⟩ := ht.before hc'
  · have hx := h.registered c hc
    cases hal with
    | kept hk => exact hk.liveOrders ▸ hx
    | requested ha hr =>
      rw [hr.registered]
      split
      · exact Finset.mem_insert_of_mem hx
      · exact hx
    | @popped e items hitems =>
      have hmem : e ∈ coming g n :=
        mem_coming.mpr (Or.inl (by rw [waiting_of hc, hitems]; exact List.mem_cons_self))
      rw [(delivering_deliver _ _).liveOrders]
      split
      · rename_i her
        exact Finset.mem_erase.mpr ⟨(h.kept e hmem her).symm, hx⟩
      · exact hx
    | _ => exact hx
  · omega

theorem Held.touched (h : Held g n x) (ht : Touched g a n g') (hn : n < g.nextSessionId)
    (hout : g'.outbox = g.outbox ∨ ∃ p, g.outbox = p :: g'.outbox) : Held g' n x :=
  ⟨fun _ hc => registered_touched ht hn h hc, fun e he => h.kept e (coming_touched ht hout he)⟩

theorem Slot.append (h : Slot g n x) {ds : List OrderCommand} (hin' : g'.inbound = g.inbound ++ ds)
    (hds : ∀ d ∈ ds, concerns d (UInt64.ofNat n) x = true → d.type ≠ .newOrder)
    (hledger : g'.thread.ledger = g.thread.ledger) (hheld : Held g n x → Held g' n x) :
    Slot g' n x := by
  cases h with
  | free hin hlive =>
    refine .free (fun d hd => ?_) (hledger ▸ hlive)
    rw [hin'] at hd
    obtain hd | hd := List.mem_append.mp hd
    · exact hin d hd
    · exact hds d hd
  | @queued pre post d hin hd hpre hpost hlive h =>
    have hsplit : g'.inbound = pre ++ d :: (post ++ ds) := by
      rw [hin', hin, List.append_assoc, List.cons_append]
    refine .queued hsplit hd hpre (fun d' hd' => ?_) (hledger ▸ hlive) (hheld h)
    obtain hd' | hd' := List.mem_append.mp hd'
    · exact hpost d' hd'
    · exact hds d' hd'
  | resting hin hlive h =>
    refine .resting (fun d hd => ?_) (hledger ▸ hlive) (hheld h)
    rw [hin'] at hd
    obtain hd | hd := List.mem_append.mp hd
    · exact hin d hd
    · exact hds d hd

theorem Slot.still (h : Slot g n x) (hin : g'.inbound = g.inbound)
    (hledger : g'.thread.ledger = g.thread.ledger) (hheld : Held g n x → Held g' n x) :
    Slot g' n x :=
  h.append (by rw [hin, List.append_nil]) (fun _ hd => absurd hd List.not_mem_nil) hledger hheld

theorem Slot.request (h : Slot g n x) {c c' : Connection} {d : OrderCommand}
    (hc : g.conns n = some c) (hfresh : x ∉ c.session.liveOrders)
    (hd : concerns d (UInt64.ofNat n) x = true ∧ d.type = .newOrder)
    (hpre : ∀ d ∈ g.inbound, concerns d (UInt64.ofNat n) x = false)
    (hkept : ∀ e ∈ coming g n, erases e = true → e.clientOrderId ≠ x) (hc' : g'.conns n = some c')
    (hregistered : x ∈ c'.session.liveOrders) (hin : g'.inbound = g.inbound ++ [d])
    (hledger : g'.thread.ledger = g.thread.ledger) (hcoming : coming g' n ⊆ coming g n) :
    Slot g' n x := by
  have hlive : ∀ y, ¬Holds g.thread.ledger y (UInt64.ofNat n) x := by
    cases h with
    | free _ hlive => exact hlive
    | queued _ _ _ _ hlive => exact hlive
    | resting _ _ h => exact absurd (h.registered c hc) hfresh
  refine .queued hin hd hpre (fun _ hd => absurd hd List.not_mem_nil) (hledger ▸ hlive)
    ⟨fun c'' hc'' => ?_, fun e he => hkept e (hcoming he)⟩
  rw [Option.some.inj (hc''.symm.trans hc')]
  exact hregistered

/-- A command is taken. It brings an id into use only if it is the new order
itself, and whoever is told to forget one has no live order under it. -/
theorem Slot.taken (h : Slot g n x) {d : OrderCommand} (hin : g.inbound = d :: g'.inbound)
    (hconns : g'.conns = g.conns)
    (hlive : ∀ y, Holds g'.thread.ledger y (UInt64.ofNat n) x →
      (concerns d (UInt64.ofNat n) x = true ∧ d.type = .newOrder) ∨
        ∃ z, Holds g.thread.ledger z (UInt64.ofNat n) x)
    (hforget : ∀ e, (n, e) ∈ g'.outbox → erases e = true → e.clientOrderId = x →
      (concerns d (UInt64.ofNat n) x = true ∨ ∃ z, Holds g.thread.ledger z (UInt64.ofNat n) x) ∧
        ∀ z, ¬Holds g'.thread.ledger z (UInt64.ofNat n) x) : Slot g' n x := by
  have hheld : Held g n x → (∀ e, (n, e) ∈ g'.outbox → erases e = true → e.clientOrderId ≠ x) →
      Held g' n x := by
    intro h hout
    refine ⟨hconns ▸ h.registered, fun e he her => ?_⟩
    obtain he | he := mem_coming.mp he
    · rw [waiting, hconns] at he
      exact h.kept e (mem_coming.mpr (Or.inl he)) her
    · exact hout e he her
  have hmem : ∀ {c}, c ∈ g'.inbound → c ∈ g.inbound := fun hc => hin ▸ List.mem_cons_of_mem _ hc
  by_cases hafter : ∃ y, Holds g'.thread.ledger y (UInt64.ofNat n) x
  · obtain ⟨y, hy⟩ := hafter
    have hsilent : ∀ e, (n, e) ∈ g'.outbox → erases e = true → e.clientOrderId ≠ x :=
      fun e he her hx => (hforget e he her hx).2 y hy
    cases h with
    | free hin' hnone =>
      obtain ⟨hd, hnew⟩ | ⟨z, hz⟩ := hlive y hy
      · exact absurd hnew (hin' d (hin ▸ List.mem_cons_self) hd)
      · exact absurd hz (hnone z)
    | @queued pre post d' hin' hd hpre hpost hnone h =>
      obtain ⟨hd', -⟩ | ⟨z, hz⟩ := hlive y hy
      · cases pre with
        | nil =>
          obtain ⟨-, hpost'⟩ := List.cons.inj (hin.symm.trans hin')
          exact .resting (hpost' ▸ hpost) hy (hheld h hsilent)
        | cons c pre =>
          obtain ⟨rfl, -⟩ := List.cons.inj (hin.symm.trans hin')
          simp [hpre d List.mem_cons_self] at hd'
      · exact absurd hz (hnone z)
    | resting hin' _ h => exact .resting (fun c hc => hin' c (hmem hc)) hy (hheld h hsilent)
  · have hnone' : ∀ y, ¬Holds g'.thread.ledger y (UInt64.ofNat n) x := fun y hy => hafter ⟨y, hy⟩
    cases h with
    | free hin' _ => exact .free (fun c hc => hin' c (hmem hc)) hnone'
    | @queued pre post d' hin' hd hpre hpost hnone h =>
      cases pre with
      | nil =>
        obtain ⟨-, hpost'⟩ := List.cons.inj (hin.symm.trans hin')
        exact .free (hpost' ▸ hpost) hnone'
      | cons c pre =>
        obtain ⟨rfl, hrest⟩ := List.cons.inj (hin.symm.trans hin')
        refine .queued hrest hd (fun c hc => hpre c (List.mem_cons_of_mem _ hc)) hpost
          hnone' (hheld h ?_)
        intro e he her hx
        obtain hd' | ⟨z, hz⟩ := (hforget e he her hx).1
        · simp [hpre d List.mem_cons_self] at hd'
        · exact hnone z hz
    | resting hin' => exact .free (fun c hc => hin' c (hmem hc)) hnone'

/-- Every id of every session that was accepted, and no two live orders under
one id. -/
structure Slotted (g : Gateway) : Prop where
  distinct : ∀ y z s x, Holds g.thread.ledger y s x → Holds g.thread.ledger z s x → y = z
  slots : ∀ n, 0 < n → n < g.nextSessionId → ∀ x, Slot g n x

theorem slotted_initial {t : Thread}
    (h : ∀ y z s x, Holds t.ledger y s x → Holds t.ledger z s x → y = z) :
    Slotted (.initial t) := by
  refine ⟨h, fun n hpos hlt => ?_⟩
  have hone : n < 1 := hlt
  omega

theorem unique_of_slotted {live : Nat → Option Entry} (h : Slotted g)
    (hs : Sound g.thread.ledger live) :
    Unique live :=
  fun y z s x hy hz => h.distinct y z s x ((holds_iff hs).mpr hy) ((holds_iff hs).mpr hz)

theorem apart_of_careful {live : Nat → Option Entry} (hr : Running g) (hi : Slotted g)
    (hs : Sound g.thread.ledger live) {env : Env} (hc : careful g (.take env) = true)
    {d : OrderCommand} {inbound : List OrderCommand} (hin : g.inbound = d :: inbound) :
    Apart g.thread.ledger live d := by
  have hmem : d ∈ g.inbound := by simp [hin]
  obtain ⟨hpos, hlt⟩ := hr.addressed.commands d (List.mem_append_right _ hmem)
  refine ⟨fun htype y hy => ?_, fun htype y e hy => ?_⟩
  · have hd : concerns d (UInt64.ofNat d.session.toNat) d.clientOrderId = true := by
      rw [UInt64.ofNat_toNat]
      exact concerns_iff.mpr ⟨⟨rfl, rfl⟩, Or.inl htype⟩
    have hy' : Holds g.thread.ledger y (UInt64.ofNat d.session.toNat) d.clientOrderId := by
      rw [UInt64.ofNat_toNat]
      exact (holds_iff hs).mpr hy
    cases hi.slots _ hpos hlt d.clientOrderId with
    | free hin' hnone => exact hnone y hy'
    | queued _ _ _ _ hnone => exact hnone y hy'
    | resting hin' => exact hin' d hmem hd htype
  · obtain ⟨o, ho, rfl⟩ := hs.backed y e hy
    have hexact : g.thread.ledger.findOrder d.session d.clientOrderId = o.id ↔
        Holds g.thread.ledger o.id d.session d.clientOrderId := by
      have hall : ∀ o ∈ g.thread.ledger.book.allOrders,
          g.thread.ledger.findOrder d.session d.clientOrderId = o.id ↔
          Holds g.thread.ledger o.id d.session d.clientOrderId := by
        obtain htype | htype := htype <;> simpa [careful, hin, htype] using hc
      exact hall o ho
    rw [hexact, holds_iff hs, Named]
    simp [hy]

theorem erasing_answer {t : Thread} {d : OrderCommand} {e : OrderEvent} {n : Nat}
    (he : (n, e) ∈ routed t (step t.risk t.ledger d).2 ++ tombstone t d) (her : erases e = true) :
    e ∈ (step t.risk t.ledger d).2 := by
  obtain he | he := List.mem_append.mp he
  · obtain ⟨f, hf, hq⟩ := List.mem_filterMap.mp he
    obtain ⟨q, -, hp⟩ := Option.map_eq_some_iff.mp hq
    rw [← (Prod.mk.inj hp).2]
    exact hf
  · unfold tombstone at he
    split at he
    · obtain ⟨q, -, hp⟩ := List.mem_map.mp he
      rw [← (Prod.mk.inj hp).2] at her
      cases her
    · cases he

theorem slotted_taken (hr : Running g) (hi : Slotted g) {env : Env}
    (hcareful : careful g (.take env) = true) {d : OrderCommand}
    (hnext : g'.nextSessionId = g.nextSessionId) (hconns : g'.conns = g.conns)
    (hin : g.inbound = d :: g'.inbound) (ht : Taken (roomy env) g.thread d g'.thread g'.outbox) :
    Slotted g' := by
  obtain ⟨live, hs⟩ := hr.addressed.sound
  have hapart := apart_of_careful hr hi hs hcareful hin
  have hunique := unique_of_slotted hi hs
  have hto : ∀ {n e}, (n, e) ∈ g'.outbox → e.session = UInt64.ofNat n := by
    intro n e he
    have hn : n = e.session.toNat :=
      Option.some.inj (hr.addressed.egress _ _ (outbox_taken ht he)).1
    rw [hn, UInt64.ofNat_toNat]
  generalize hout : g'.outbox = out at ht
  cases ht with
  | refused hadm hu =>
    refine ⟨hu.ledger ▸ hi.distinct, fun n hpos hlt x => ?_⟩
    refine (hi.slots n hpos (hnext ▸ hlt) x).taken hin hconns
      (fun y hy => Or.inr ⟨y, hu.ledger ▸ hy⟩) ?_
    rw [hout]
    exact fun e he => absurd he List.not_mem_nil
  | admitted hadm hledger =>
    obtain ⟨live', hs', hstep⟩ := step_cases hs g.thread.risk d
    rw [← hledger] at hs'
    refine ⟨fun y z s x hy hz => ?_, fun n hpos hlt x => ?_⟩
    · exact Stepped.unique hstep hs hunique hapart y z s x ((holds_iff hs').mp hy)
        ((holds_iff hs').mp hz)
    · refine (hi.slots n hpos (hnext ▸ hlt) x).taken hin hconns (fun y hy => ?_)
        (fun e he her hx => ?_)
      · obtain ⟨hnew, hsession, hclient⟩ | ⟨z, hz⟩ :=
          Stepped.named hstep hs hapart ((holds_iff hs').mp hy)
        · exact Or.inl ⟨concerns_iff.mpr ⟨⟨hsession, hclient⟩, Or.inl hnew⟩, hnew⟩
        · exact Or.inr ⟨z, (holds_iff hs).mpr hz⟩
      · have hsession := hto he
        rw [hout] at he
        have hanswer := erasing_answer he her
        have hforgets := Stepped.forgets hstep hs hanswer her
        have herased := Stepped.erased hstep hs hunique hapart hanswer her
        rw [hsession, hx] at hforgets herased
        refine ⟨hforgets.imp_right fun ⟨z, hz⟩ => ⟨z, (holds_iff hs).mpr hz⟩, fun z hz => ?_⟩
        exact herased z ((holds_iff hs').mp hz)

theorem unowned_of_careful (hr : Running g) {nowNs : UInt64}
    (hcareful : careful g (.accept nowNs) = true) (y : Nat) (x : UInt64) :
    ¬Holds g.thread.ledger y (UInt64.ofNat g.nextSessionId) x := by
  rintro ⟨howner, -⟩
  obtain ⟨live, hs⟩ := hr.addressed.sound
  rw [hs.registers.owner] at howner
  obtain ⟨e, he, -⟩ := Option.map_eq_some_iff.mp howner
  obtain ⟨o, ho, rfl⟩ := hs.backed y e he
  have hall : ∀ o ∈ g.thread.ledger.book.allOrders,
      g.thread.ledger.ownerOf o.id ≠ some (UInt64.ofNat g.nextSessionId) := by
    simpa [careful] using hcareful
  rw [← hs.registers.owner] at howner
  exact hall o ho howner

theorem slot_opened (h : Moved g a g') (hr : Running g) (hcareful : careful g a = true)
    (hnext : g'.nextSessionId = g.nextSessionId + 1) (x : UInt64) : Slot g' g.nextSessionId x := by
  cases h with
  | @accepted c nowNs ha hlt hpc ho inbound hin =>
    subst ha
    have hold : ∀ d ∈ g.inbound, concerns d (UInt64.ofNat g.nextSessionId) x = true →
        d.type ≠ .newOrder := by
      intro d hd hconcerns
      have hissued := (hr.addressed.commands d (List.mem_append_right _ hd)).2
      rw [(concerns_iff.mp hconcerns).1.1, UInt64.toNat_ofNat_of_lt' hlt] at hissued
      omega
    refine .free (fun d hd hconcerns => ?_) (fun y => unowned_of_careful hr hcareful y x)
    have hd' : d ∈ inbound := hd
    obtain ⟨-, hin⟩ | ⟨-, hin⟩ := hin
    · rw [hin] at hd'
      obtain hd' | hd' := List.mem_append.mp hd'
      · exact hold d hd' hconcerns
      · rw [List.mem_singleton.mp hd']
        nofun
    · exact hold d (hin ▸ hd') hconcerns
  | _ =>
    have hsame : g.nextSessionId = g.nextSessionId + 1 := hnext
    omega

theorem slot_requested (hr : Running g) {m : Nat} {c c' : Connection} {d : OrderCommand}
    (hcareful : careful g a = true) (ha : requesting g a = some d) (hc : g.conns m = some c)
    (hreq : Requested c c' d) (hc' : g'.conns m = some c') (hin : g'.inbound = g.inbound ++ [d])
    (hledger : g'.thread.ledger = g.thread.ledger) (hout : g'.outbox = g.outbox)
    (ht : Touched g a n g') (hn : n < g.nextSessionId) (h : Slot g n x) : Slot g' n x := by
  by_cases hd : concerns d (UInt64.ofNat n) x = true ∧ d.type = .newOrder
  · obtain ⟨⟨hsession, rfl⟩, -⟩ := concerns_iff.mp hd.1
    have hm : d.session.toNat = m := by rw [hreq.sender, hr.regular.named hc]
    have hn' : d.session.toNat = n := by
      rw [hsession, UInt64.toNat_ofNat_of_lt' (hn.trans_le hr.regular.bounded)]
    obtain rfl : m = n := hm.symm.trans hn'
    have hquiet : (∀ d' ∈ g.inbound, concerns d' d.session d.clientOrderId = false) ∧
        ∀ e ∈ coming g d.session.toNat, erases e = true → e.clientOrderId ≠ d.clientOrderId := by
      cases a with
      | frame nowNs allowed f =>
        simp only [careful, ha, hd.2, ne_eq, not_true_eq_false, decide_false, Bool.false_or,
          Bool.and_eq_true, List.all_eq_true, Bool.not_eq_true', decide_eq_true_eq] at hcareful
        exact hcareful
      | _ => cases ha
    rw [hm, hsession] at hquiet
    refine h.request hc (hreq.fresh hd.2) hd hquiet.1 hquiet.2 hc' ?_ hin hledger
      (coming_touched ht (Or.inl hout))
    rw [hreq.registered, if_pos hd.2]
    exact Finset.mem_insert_self _ _
  · refine h.append hin (fun d' hd' hconcerns hnew => hd ?_) hledger fun hh =>
      hh.touched ht hn (Or.inl hout)
    rw [← List.mem_singleton.mp hd']
    exact ⟨hconcerns, hnew⟩

theorem slotted_moved (h : Moved g a g') (hr : Running g) (hi : Slotted g)
    (hcareful : careful g a = true) :
    Slotted g' := by
  have hnext := next_moved h
  have hopened := slot_opened h hr hcareful
  have ht := h.touched
  have hall : g'.thread.ledger = g.thread.ledger →
      (∀ n x, n < g.nextSessionId → Slot g n x → Slot g' n x) → Slotted g' := by
    intro hledger hslots
    refine ⟨hledger ▸ hi.distinct, fun n hpos hlt x => ?_⟩
    by_cases hn : n < g.nextSessionId
    · exact hslots n x hn (hi.slots n hpos hn x)
    · obtain hnext | ⟨hnext, -⟩ := hnext
      · omega
      · obtain rfl : n = g.nextSessionId := by omega
        exact hopened hnext x
  have hstill : g'.inbound = g.inbound → g'.thread.ledger = g.thread.ledger →
      (g'.outbox = g.outbox ∨ ∃ p, g.outbox = p :: g'.outbox) → Slotted g' :=
    fun hin hledger hout => hall hledger fun n x hn hslot =>
      hslot.still hin hledger fun hh => hh.touched (ht n) hn hout
  have hqueued : ∀ {d}, d.type ≠ .newOrder → g'.inbound = g.inbound ++ [d] →
      g'.thread.ledger = g.thread.ledger → g'.outbox = g.outbox → Slotted g' := by
    intro d hd hin hledger hout
    refine hall hledger fun n x hn hslot => hslot.append hin (fun d' hd' _ => ?_) hledger fun hh =>
      hh.touched (ht n) hn (Or.inl hout)
    rw [List.mem_singleton.mp hd']
    exact hd
  cases h with
  | accepted ha hlt hpc ho hin =>
    obtain ⟨-, hin⟩ | ⟨-, hin⟩ := hin
    · exact hqueued (by simp [OrderCommand.sessionOpened]) hin rfl rfl
    · exact hstill hin rfl (Or.inl rfl)
  | requested ha hpc hc hroom hreq =>
    exact hall rfl fun n x hn hslot =>
      slot_requested hr hcareful ha hc hreq (Function.update_self ..) rfl rfl rfl (ht n) hn hslot
  | closed hc ha hpc hclosed =>
    cases hclosed with
    | killed => exact hqueued (by simp [OrderCommand.cancelAll]) rfl rfl rfl
    | _ => exact hstill rfl rfl (Or.inl rfl)
  | taken ha hin hout hl =>
    subst ha
    exact slotted_taken hr hi hcareful rfl rfl hin (taken_applyPopped _ hr.addressed.replaying _)
  | pushed ha hout => exact hstill rfl rfl (Or.inr ⟨_, hout⟩)
  | overflowing ha hout => exact hstill rfl rfl (Or.inr ⟨_, hout⟩)
  | lost ha hout => exact hstill rfl rfl (Or.inr ⟨_, hout⟩)
  | housekept env => exact hstill rfl (undisturbed_housekeep env g.thread).ledger (Or.inl rfl)
  | _ => exact hstill rfl rfl (Or.inl rfl)

/-- No two live orders of one session have the same client order id, and every
live order's id is registered with its session. -/
structure UniqueIds (g : Gateway) : Prop where
  distinct : ∀ y z s x, Holds g.thread.ledger y s x → Holds g.thread.ledger z s x → y = z
  registered : ∀ n c y x, g.conns n = some c → Holds g.thread.ledger y (UInt64.ofNat n) x →
    x ∈ c.session.liveOrders

theorem Slotted.uniqueIds (h : Slotted g) (hr : Running g) : UniqueIds g := by
  refine ⟨h.distinct, fun n c y x hc hy => ?_⟩
  obtain ⟨hpos, hlt⟩ := hr.regular.below n c hc
  cases h.slots n hpos hlt x with
  | free _ hnone => exact absurd hy (hnone y)
  | queued _ _ _ _ hnone => exact absurd hy (hnone y)
  | resting _ _ h => exact h.registered c hc

/-- In every run of careful steps the ids stay apart. -/
theorem uniqueIds_run {t : Thread} (h : Booted t)
    (hstart : ∀ y z s x, Holds t.ledger y s x → Holds t.ledger z s x → y = z) (cfg : ServerConfig)
    {as : List Action} (hrun : Along cfg (fun g a => careful g a = true) (.initial t) as) :
    UniqueIds ((Gateway.initial t).run cfg as) := by
  have hstep : ∀ (g : Gateway) (a : Action), (Running g ∧ Slotted g) → careful g a = true →
      Running (g.step cfg a) ∧ Slotted (g.step cfg a) := by
    rintro g a ⟨hr, hi⟩ hcareful
    exact ⟨hr.step cfg a, slotted_moved (hr.moved cfg a) hr hi hcareful⟩
  obtain ⟨hr, hi⟩ := hrun.keeps hstep ⟨running_initial h, slotted_initial hstart⟩
  exact hi.uniqueIds hr

def bidding (x : UInt64) : Action := .frame 0 true (.newOrder x 100 5 .bid .limit)

def answering : List Action := [.take .obliging, .push]

/-- The network thread delivers `k` events to the first client and turns to it
again. -/
def delivering (k : Nat) : List Action :=
  [.readDone, .endPass 0, .drain 1] ++ List.replicate (k + 1) .pop ++ [.endPass 0, .serve 1]

def reused : List Action :=
  admission ++ [bidding 1] ++ answering ++ [asking 1] ++ answering ++ delivering 2 ++
    [bidding 1] ++ answering

theorem holds_initial {y : Nat} {s x : UInt64} : ¬Holds newThread.ledger y s x := nofun

theorem reused_uniqueIds :
    Holds ((Gateway.initial newThread).run .default reused).thread.ledger 2 1 1 ∧
    UniqueIds ((Gateway.initial newThread).run .default reused) :=
  ⟨by decide +kernel,
    uniqueIds_run booted_newThread (fun _ _ _ _ h => absurd h holds_initial) .default
      (by decide +kernel)⟩

/-- A cancel of an order that does not exist yet is followed by the order. The
answer to the cancel makes the session forget the id that is in use now, and
the client takes it once more. -/
def forgotten : List Action :=
  admission ++ [asking 1, bidding 1] ++ answering ++ answering ++ delivering 2 ++
    [bidding 1] ++ answering

theorem forgotten_not_uniqueIds :
    ¬∀ (cfg : ServerConfig) (t : Thread) (as : List Action), Booted t →
      (∀ y z s x, Holds t.ledger y s x → Holds t.ledger z s x → y = z) →
      UniqueIds ((Gateway.initial t).run cfg as) := by
  intro h
  have hu := h .default newThread forgotten booted_newThread fun _ _ _ _ h => absurd h holds_initial
  have hsame := hu.distinct 1 2 1 1 (by decide +kernel) (by decide +kernel)
  cases hsame

end OrderMatching.ClientIds
