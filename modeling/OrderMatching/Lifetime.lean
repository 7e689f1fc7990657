import OrderMatching.Flooding

namespace OrderMatching.Lifetime

open OrderMatching.Orders OrderMatching.Commands OrderMatching.Exchange OrderMatching.MatchingThread
open OrderMatching.LedgerStep OrderMatching.Registry OrderMatching.Acceptance OrderMatching.Answers
open OrderMatching.Posting OrderMatching.StepCases OrderMatching.Startup OrderMatching.Network
open OrderMatching.Threads OrderMatching.Moves OrderMatching.Sessions OrderMatching.Flooding

/-- The matching thread has processed the session's `CancelAllForSession`. -/
def Retired (g : Gateway) (s : UInt64) : Prop :=
  ∃ d ∈ g.applied, d.type = .cancelAllForSession ∧ d.session = s

theorem Retired.mono {g g' : Gateway} {s : UInt64} (h : Retired g s)
    (hsub : g.applied ⊆ g'.applied) : Retired g' s := by
  obtain ⟨d, hd, hs⟩ := h
  exact ⟨d, hsub hd, hs⟩

/-- What a dead session leaves behind. `CancelAllForSession` is the last command
of a session, and with it the matching thread drops the session, its orders and
its queues, up to one tombstone. -/
structure Retirement (g : Gateway) : Prop where
  final : (g.applied ++ g.inbound).Pairwise fun c d => c.type = .cancelAllForSession →
    d.session ≠ c.session
  alive : ∀ n c, g.conns n = some c → c.session.alive = true →
    ∀ d ∈ g.applied ++ g.inbound, d.type = .cancelAllForSession → d.session ≠ c.session.id
  egress : ∀ s q, g.thread.egress s = some q → ¬Retired g s
  md : ∀ s q, g.thread.md s = some q → ¬Retired g s
  owners : ∀ x s, g.thread.ledger.ownerOf x = some s → ¬Retired g s
  pending : ∀ p ∈ g.outbox, p.2.type ≠ .sessionRetired → ¬Retired g p.2.session
  tombstone : ∀ p ∈ g.outbox, p.2.type = .sessionRetired → Retired g p.2.session ∧ g.outbox = [p]
  latching : ∀ n, g.latching = some n → 0 < n ∧ n < g.nextSessionId ∧ ¬Retired g (UInt64.ofNat n)
  waiting : ∀ n, ∀ e ∈ waiting g n, e.type = .sessionRetired →
    Retired g e.session ∧ ∀ p ∈ g.outbox, p.2.type = .sessionRetired → p.1 ≠ n
  dead : ∀ n c, g.conns n = some c → c.session.alive = false → c.retiring = true ∨
    Retired g c.session.id ∧ ∀ p ∈ g.outbox, p.2.type = .sessionRetired → p.1 ≠ n

theorem Retirement.fresh {g : Gateway} (hi : Retirement g) {c : OrderCommand}
    {inbound : List OrderCommand} (hin : g.inbound = c :: inbound) : ¬Retired g c.session := by
  rintro ⟨d, hd, htype, hsame⟩
  exact (List.pairwise_append.mp hi.final).2.2 d hd c (by simp [hin]) htype hsame.symm

theorem retirement_initial (t : Thread) : Retirement (.initial t) := by
  have hnone : ∀ s, ¬Retired (.initial t) s := by
    rintro s ⟨d, hd, -⟩
    cases hd
  have hlatching : ∀ n, (Gateway.initial t).latching ≠ some n :=
    fun n => (Option.some_ne_none n).symm
  have houtbox : ∀ p, p ∉ (Gateway.initial t).outbox := fun _ => List.not_mem_nil
  have hwaiting : ∀ n e, e ∉ waiting (.initial t) n := fun _ _ => List.not_mem_nil
  exact ⟨.nil, fun n c hc => absurd hc (conns_initial t n c), fun s _ _ => hnone s,
    fun s _ _ => hnone s,
    fun _ s _ => hnone s, fun p hp => absurd hp (houtbox p), fun p hp => absurd hp (houtbox p),
    fun n hl => absurd hl (hlatching n), fun n e he => absurd he (hwaiting n e),
    fun n c hc => absurd hc (conns_initial t n c)⟩

theorem trace_flow {g g' : Gateway} {a : Action} (h : Flow g a g') :
    (g'.applied ++ g'.inbound).Sublist (g.applied ++ g.inbound) ∨
      ∃ d, g'.applied ++ g'.inbound = g.applied ++ g.inbound ++ [d] ∧
        ((d.session = UInt64.ofNat g.nextSessionId ∧ g.nextSessionId < 2 ^ 64 ∧
          d.type = .sessionOpened) ∨
          ∃ n c, g.conns n = some c ∧ c.session.alive = true ∧ d.session = c.session.id ∧
            (d.type = .cancelAllForSession → ∃ c', g'.conns n = some c' ∧
              c'.session.alive = false)) := by
  cases h with
  | quiet hnext hin happ =>
    rw [hin, happ]
    exact Or.inl (.refl _)
  | opened hnext hlt hin happ =>
    rw [happ]
    obtain hin | hin := hin
    · rw [hin]
      exact Or.inl (.refl _)
    · rw [hin, ← List.append_assoc]
      exact Or.inr ⟨_, rfl, Or.inl ⟨rfl, hlt, rfl⟩⟩
  | sent hc halive hsender hopened hlast hnext hin happ =>
    rw [happ, hin, ← List.append_assoc]
    exact Or.inr ⟨_, rfl, Or.inr ⟨_, _, hc, halive, hsender, hlast⟩⟩
  | taken ha hnext hin hempty hl happ => exact Or.inl (trace_taken hin happ)

theorem final_flow {g g' : Gateway} {a : Action} (h : Flow g a g') (hr : Running g)
    (hi : Retirement g) :
    (g'.applied ++ g'.inbound).Pairwise fun c d => c.type = .cancelAllForSession →
      d.session ≠ c.session := by
  obtain hsub | ⟨d, htrace, hd⟩ := trace_flow h
  · exact hi.final.sublist hsub
  · rw [htrace, List.pairwise_append]
    refine ⟨hi.final, List.pairwise_singleton _ _, fun c hc d' hd' htype hsame => ?_⟩
    rw [List.mem_singleton.mp hd'] at hsame
    obtain ⟨hs, hlt, -⟩ | ⟨n, conn, hconn, halive, hs, -⟩ := hd
    · have hbelow := hr.addressed.commands c hc
      rw [← hsame, hs, Issued, UInt64.toNat_ofNat_of_lt' hlt] at hbelow
      exact absurd hbelow.2 (Nat.lt_irrefl _)
    · exact hi.alive n conn hconn halive c hc htype (hsame.symm.trans hs)

theorem alive_touched {g g' : Gateway} {a : Action} {n : Nat} (h : Touched g a n g')
    {c' : Connection} (hc' : g'.conns n = some c') (halive : c'.session.alive = true) :
    (∃ c, g.conns n = some c ∧ c.session.alive = true ∧ c'.session.id = c.session.id) ∨
      n = g.nextSessionId ∧ c'.session.id = UInt64.ofNat n ∧ g'.nextSessionId = n + 1 := by
  obtain ⟨c, hc, hal⟩ | ⟨ho, hm, hnext⟩ := h.before hc'
  · refine Or.inl ⟨c, hc, ?_⟩
    cases hal with
    | kept hk => exact ⟨hk.alive.symm.trans halive, hk.sessionId⟩
    | requested ha hr => exact ⟨hr.alive.symm.trans halive, hr.sessionId⟩
    | @popped e items hitems =>
      have hdel := delivering_deliver (queued c items) e
      exact ⟨hdel.alive.symm.trans halive, hdel.sessionId⟩
    | killed => cases halive
    | _ => exact ⟨halive, rfl⟩
  · exact Or.inr ⟨hm, ho.sessionId, hnext⟩

theorem alive_moved {g g' : Gateway} {a : Action} (h : Moved g a g') (hr : Running g)
    (hi : Retirement g) {n : Nat} {c' : Connection} (hc' : g'.conns n = some c')
    (halive : c'.session.alive = true) {d : OrderCommand} (hd : d ∈ g'.applied ++ g'.inbound)
    (htype : d.type = .cancelAllForSession) : d.session ≠ c'.session.id := by
  have hf := flow_moved h hr.regular hr.addressed.replaying
  have hreg := h.regular hr.regular
  -- an old command, against the connection as it was or against a new one
  have hold : d ∈ g.applied ++ g.inbound → d.session ≠ c'.session.id := by
    intro hd hsame
    obtain ⟨c, hc, hal, hid⟩ | ⟨hn, hid, hnext⟩ := alive_touched (h.touched n) hc' halive
    · exact hi.alive n c hc hal d hd htype (hsame.trans hid)
    · have hbelow := hr.addressed.commands d hd
      have hbound := hreg.bounded
      rw [hsame, hid, Issued, UInt64.toNat_ofNat_of_lt' (show _ < 2 ^ 64 by omega)] at hbelow
      omega
  obtain hsub | ⟨d', htrace, hd'⟩ := trace_flow hf
  · exact hold (hsub.subset hd)
  · rw [htrace] at hd
    obtain hd | hd := List.mem_append.mp hd
    · exact hold hd
    · obtain rfl := List.mem_singleton.mp hd
      obtain ⟨-, -, hopened⟩ | ⟨m, c, hc, -, hs, hlast⟩ := hd'
      · rw [htype] at hopened
        cases hopened
      · obtain ⟨c'', hc'', hdead⟩ := hlast htype
        intro hsame
        have hm : m = n := by rw [← hr.regular.named hc, ← hs, hsame, hreg.named hc']
        rw [hm, hc', Option.some.injEq] at hc''
        rw [hc'', hdead] at halive
        cases halive

theorem latching_moved {g g' : Gateway} {a : Action} (h : Moved g a g') {n : Nat}
    (hl : g'.latching = some n) :
    g.latching = some n ∨ ∃ e, (n, e) ∈ g.outbox ∧ e.type ≠ .sessionRetired := by
  cases h with
  | @overflowing m e outbox c ha hout _ hc hfull he =>
    obtain rfl : m = n := Option.some.inj hl
    exact Or.inr ⟨e, by simp [hout], he⟩
  | latched => exact absurd hl (by simp [Gateway.setConn])
  | unlatched => exact absurd hl (by simp)
  | _ => exact Or.inl hl

theorem dead_touched {g g' : Gateway} {a : Action} {n : Nat} (h : Touched g a n g')
    {c' : Connection} (hc' : g'.conns n = some c') (hdead : c'.session.alive = false) :
    c'.retiring = true ∨
      (∃ c, g.conns n = some c ∧ c.session.alive = false ∧ c'.session.id = c.session.id ∧
        c.retiring = false) ∨
      ∃ e ∈ waiting g n, e.type = .sessionRetired := by
  obtain ⟨c, hc, hal⟩ | ⟨ho, -, -⟩ := h.before hc'
  · have hback : c'.session.alive = c.session.alive → c'.session.id = c.session.id →
        c'.retiring = c.retiring → c'.retiring = true ∨
        (∃ c, g.conns n = some c ∧ c.session.alive = false ∧ c'.session.id = c.session.id ∧
          c.retiring = false) ∨
        ∃ e ∈ waiting g n, e.type = .sessionRetired := by
      intro hal hid hret
      cases hr : c'.retiring with
      | true => exact Or.inl rfl
      | false => exact Or.inr (Or.inl ⟨c, hc, hal.symm.trans hdead, hid, hret.symm.trans hr⟩)
    cases hal with
    | kept hk => exact hback hk.alive hk.sessionId hk.retiring
    | requested ha hr => exact hback hr.alive hr.sessionId hr.retiring
    | @popped e items hitems =>
      have hdel := delivering_deliver (queued c items) e
      by_cases he : e.type = .sessionRetired
      · exact Or.inr (Or.inr ⟨e, by simp [waiting_of hc, hitems], he⟩)
      · exact hback hdel.alive hdel.sessionId (hdel.retiring.trans (if_neg he))
    | killed => exact Or.inl rfl
    | _ => exact hback rfl rfl rfl
  · rw [ho.alive] at hdead
    cases hdead

theorem unretired_after {g : Gateway} {m : UInt64 → Option (Option Nat)}
    (hm : ∀ s q, m s = some q → ¬Retired g s) {c : OrderCommand} (hc : ¬Retired g c.session)
    {queue : Option Nat} {s : UInt64} {q : Option Nat} (h : (match c.type with
      | .sessionOpened => Function.update m c.session (some queue)
      | .cancelAllForSession => Function.update m c.session none
      | _ => m) s = some q) : ¬Retired g s ∧ (c.type = .cancelAllForSession → c.session ≠ s) := by
  by_cases hs : s = c.session
  · refine ⟨hs ▸ hc, fun htype => ?_⟩
    simp [htype, hs] at h
  · refine ⟨?_, fun _ => Ne.symm hs⟩
    apply hm s q
    cases htype : c.type <;> simpa [htype, Function.update_of_ne hs] using h

theorem outbox_admitted {t : Thread} {live : Nat → Option Entry} (hs : Sound t.ledger live)
    {c : OrderCommand} {p : Nat × OrderEvent}
    (hp : p ∈ routed t (step t.risk t.ledger c).2 ++ tombstone t c) :
    p.2.type ≠ .sessionRetired ∧ c.type ≠ .cancelAllForSession ∨
      p.2.type = .sessionRetired ∧ c.type = .cancelAllForSession ∧ p.2.session = c.session ∧
        routed t (step t.risk t.ledger c).2 ++ tombstone t c = [p] := by
  obtain hp | hp := List.mem_append.mp hp
  · obtain ⟨e, he, hq⟩ := List.mem_filterMap.mp hp
    obtain ⟨q, -, rfl⟩ := Option.map_eq_some_iff.mp hq
    obtain ⟨live', -, hstep⟩ := step_cases hs t.risk c
    refine Or.inl ⟨hstep.alerts e he, fun htype => ?_⟩
    rw [step, htype] at he
    cases he
  · unfold tombstone at hp ⊢
    split at hp
    · rename_i htype
      obtain ⟨q, hq, rfl⟩ := List.mem_map.mp hp
      have hes : (step t.risk t.ledger c).2 = [] := by rw [step, htype]
      refine Or.inr ⟨rfl, htype, rfl, ?_⟩
      rw [hes, if_pos htype, Option.mem_toList.mp hq]
      rfl
    · cases hp

theorem owners_admitted {g g' : Gateway} (hi : Retirement g) {live : Nat → Option Entry}
    (hs : Sound g.thread.ledger live) {c : OrderCommand} (hc : ¬Retired g c.session)
    (hledger : g'.thread.ledger = (step g.thread.risk g.thread.ledger c).1) {x : Nat} {s : UInt64}
    (hx : g'.thread.ledger.ownerOf x = some s) :
    ¬Retired g s ∧ (c.type = .cancelAllForSession → c.session ≠ s) := by
  obtain ⟨live', hs', hstep⟩ := step_cases hs g.thread.risk c
  rw [hledger, hs'.registers.owner] at hx
  obtain ⟨e, he, rfl⟩ := Option.map_eq_some_iff.mp hx
  refine ⟨?_, fun htype => (hstep.retires hs htype he).symm⟩
  obtain ⟨-, -, ho, -⟩ | ⟨d, hd, ho, -⟩ := hstep.names hs he
  · rw [ho]
    exact hc
  · rw [ho]
    apply hi.owners x
    rw [hs.registers.owner, hd]
    rfl

theorem applied_taken {g g' : Gateway} {admitted : Bool} {c : OrderCommand}
    (happ : g'.applied = if admitted then g.applied ++ [c] else g.applied) :
    g.applied ⊆ g'.applied := by
  rw [happ]
  split
  · exact List.subset_append_left _ _
  · exact List.Subset.refl _

theorem applied_flow {g g' : Gateway} {a : Action} (h : Flow g a g') : g.applied ⊆ g'.applied := by
  cases h with
  | quiet hnext hin happ => exact happ ▸ List.Subset.refl _
  | opened hnext hlt hin happ => exact happ ▸ List.Subset.refl _
  | sent hc halive hsender hopened hlast hnext hin happ => exact happ ▸ List.Subset.refl _
  | taken ha hnext hin hempty hl happ => exact applied_taken happ

section Step

variable {g g' : Gateway} {a : Action} (h : Moved g a g') (hr : Running g) (hi : Retirement g)
include h hr hi

theorem retired_moved {s : UInt64} {n : Nat} (hs : s.toNat = n) (hret : Retired g s)
    (hout : ∀ p ∈ g.outbox, p.2.type = .sessionRetired → p.1 ≠ n) :
    Retired g' s ∧ ∀ p ∈ g'.outbox, p.2.type = .sessionRetired → p.1 ≠ n := by
  have hf := flow_moved h hr.regular hr.addressed.replaying
  refine ⟨hret.mono (applied_flow hf), fun p hp => ?_⟩
  cases hf with
  | quiet hnext hin happ hsub ht =>
    obtain ho | ⟨q, ho⟩ := hsub
    · exact hout p (ho ▸ hp)
    · exact hout p (ho ▸ List.mem_cons_of_mem _ hp)
  | opened hnext hlt hin happ ho ht => exact hout p (ho ▸ hp)
  | sent hc halive hsender hopened hlast hnext hin happ ho ht => exact hout p (ho ▸ hp)
  | taken ha hnext hin hempty hl happ ht =>
    intro htype hn
    have haddr := (hr.addressed.egress _ _ (outbox_taken ht hp)).1
    have hsame : s = p.2.session :=
      UInt64.toNat_inj.mp (hs.trans (hn.symm.trans (Option.some.inj haddr)))
    generalize g'.outbox = out at ht hp
    cases ht with
    | refused => cases hp
    | admitted =>
      obtain ⟨live, hlive⟩ := hr.addressed.sound
      obtain ⟨h1, -⟩ | ⟨-, -, h2, -⟩ := outbox_admitted hlive hp
      · exact h1 htype
      · exact hi.fresh hin (h2 ▸ hsame ▸ hret)

theorem tombstones_moved {n : Nat} {e : OrderEvent} (he : e ∈ waiting g' n)
    (htype : e.type = .sessionRetired) :
    Retired g' e.session ∧ ∀ p ∈ g'.outbox, p.2.type = .sessionRetired → p.1 ≠ n := by
  obtain he | he := waiting_touched (h.touched n) he
  · obtain ⟨hret, hout⟩ := hi.waiting n e he htype
    exact retired_moved h hr hi (hr.addressed.waiting n e he) hret hout
  · obtain ⟨hret, hone⟩ := hi.tombstone (n, e) (by simp [he]) htype
    rw [he, List.cons.injEq] at hone
    refine ⟨hret.mono (applied_flow (flow_moved h hr.regular hr.addressed.replaying)),
      fun p hp => ?_⟩
    rw [hone.2] at hp
    cases hp

theorem dead_moved {n : Nat} {c : Connection} (hc : g'.conns n = some c)
    (hdead : c.session.alive = false) :
    c.retiring = true ∨
      Retired g' c.session.id ∧ ∀ p ∈ g'.outbox, p.2.type = .sessionRetired → p.1 ≠ n := by
  have hreg := h.regular hr.regular
  have hid : c.session.id = UInt64.ofNat n := (hreg.wired n c hc).sessionId
  have hn : c.session.id.toNat = n := hreg.named hc
  obtain hret | ⟨d, hd, hdead', hid', hret⟩ | ⟨e, he, htype⟩ := dead_touched (h.touched n) hc hdead
  · exact Or.inl hret
  · obtain hret' | ⟨hret', hout⟩ := hi.dead n d hd hdead'
    · rw [hret] at hret'
      cases hret'
    · exact Or.inr (retired_moved h hr hi hn (hid' ▸ hret') hout)
  · obtain ⟨hret, hout⟩ := hi.waiting n e he htype
    have hsame : e.session = c.session.id := by
      rw [hid, ← hr.addressed.waiting n e he, UInt64.ofNat_toNat]
    exact Or.inr (retired_moved h hr hi hn (hsame ▸ hret) hout)

theorem retirement_still (happ : g'.applied = g.applied) (ht : Undisturbed g.thread g'.thread)
    (hout : g'.outbox = g.outbox ∨ ∃ p, g.outbox = p :: g'.outbox) : Retirement g' := by
  have hsame : ∀ s, Retired g' s ↔ Retired g s := fun s => by rw [Retired, happ, Retired]
  have hsub : g'.outbox ⊆ g.outbox := by
    obtain ho | ⟨p, ho⟩ := hout
    · exact fun p hp => ho ▸ hp
    · exact ho ▸ List.subset_cons_self _ _
  refine ⟨final_flow (flow_moved h hr.regular hr.addressed.replaying) hr hi,
    fun n c hc hal d hd => alive_moved h hr hi hc hal hd, ?_, ?_, ?_, ?_, ?_, ?_,
    fun n e he => tombstones_moved h hr hi he, fun n c hc => dead_moved h hr hi hc⟩
  · simpa only [ht.egress, hsame] using hi.egress
  · simpa only [ht.md, hsame] using hi.md
  · simpa only [ht.ledger, hsame] using hi.owners
  · exact fun p hp htype => (hsame _).not.mpr (hi.pending p (hsub hp) htype)
  · intro p hp htype
    obtain ⟨hret, hone⟩ := hi.tombstone p (hsub hp) htype
    refine ⟨(hsame _).mpr hret, ?_⟩
    obtain ho | ⟨q, ho⟩ := hout
    · exact ho.trans hone
    · rw [hone, List.cons.injEq] at ho
      rw [← ho.2] at hp
      cases hp
  · intro n hl
    rw [hsame]
    have hnext : g.nextSessionId ≤ g'.nextSessionId := by
      obtain hnext | ⟨hnext, -⟩ := next_moved h <;> omega
    obtain hl | ⟨e, he, htype⟩ := latching_moved h hl
    · obtain ⟨hpos, hlt, hret⟩ := hi.latching n hl
      exact ⟨hpos, hlt.trans_le hnext, hret⟩
    · obtain ⟨hn, hpos, hlt⟩ := hr.addressed.outbox _ he
      simp only at hn hpos hlt
      rw [hn, UInt64.ofNat_toNat]
      exact ⟨hpos, hlt.trans_le hnext, hi.pending _ he htype⟩

theorem retirement_taken {env : Env} {c : OrderCommand} (hin : g.inbound = c :: g'.inbound)
    (hempty : g.outbox = []) (hl : g.latching = none)
    (happ : g'.applied = if admits (roomy env) g.thread c then g.applied ++ [c] else g.applied)
    (ht : Taken (roomy env) g.thread c g'.thread g'.outbox) : Retirement g' := by
  have hc := hi.fresh hin
  have hqueue := fun p (hp : p ∈ g'.outbox) => outbox_taken ht hp
  generalize hout : g'.outbox = out at ht hqueue
  cases ht with
  | refused hadm hu =>
    rw [hadm] at happ
    exact retirement_still h hr hi happ hu (Or.inl (hout.trans hempty.symm))
  | admitted hadm hledger hegress hmd hreplaying =>
    obtain ⟨live, hs⟩ := hr.addressed.sound
    rw [hadm, if_pos rfl] at happ
    have hretired : ∀ s, Retired g' s ↔ Retired g s ∨ c.type = .cancelAllForSession ∧
        c.session = s := by
      intro s
      simp only [Retired, happ, List.mem_append, List.mem_singleton, or_and_right, exists_or,
        exists_eq_left]
    have hkeep : ∀ {s}, ¬Retired g s ∧ (c.type = .cancelAllForSession → c.session ≠ s) →
        ¬Retired g' s := by
      rintro s ⟨h1, h2⟩ hret
      obtain hret | ⟨htype, hs⟩ := (hretired s).mp hret
      · exact h1 hret
      · exact h2 htype hs
    refine ⟨final_flow (flow_moved h hr.regular hr.addressed.replaying) hr hi,
      fun n c hc hal d hd => alive_moved h hr hi hc hal hd, ?_, ?_, ?_, ?_, ?_, ?_,
      fun n e he => tombstones_moved h hr hi he, fun n c hc => dead_moved h hr hi hc⟩
    · intro s q hq
      rw [hegress] at hq
      exact hkeep (unretired_after hi.egress hc hq)
    · intro s q hq
      rw [hmd] at hq
      exact hkeep (unretired_after hi.md hc hq)
    · exact fun x s hx => hkeep (owners_admitted hi hs hc hledger hx)
    · intro p hp htype
      rw [hout] at hp
      obtain ⟨-, h2⟩ | ⟨h1, -⟩ := outbox_admitted hs hp
      · exact hkeep ⟨hi.egress _ _ (hqueue p hp), fun h => absurd h h2⟩
      · exact absurd h1 htype
    · intro p hp htype
      rw [hout] at hp ⊢
      obtain ⟨h1, -⟩ | ⟨-, h2, h3, h4⟩ := outbox_admitted hs hp
      · exact absurd htype h1
      · exact ⟨(hretired _).mpr (Or.inr ⟨h2, h3.symm⟩), h4⟩
    · intro n hn
      obtain hn | ⟨e, he, -⟩ := latching_moved h hn
      · rw [hl] at hn
        cases hn
      · rw [hempty] at he
        cases he

theorem retirement_moved : Retirement g' := by
  have hf := flow_moved h hr.regular hr.addressed.replaying
  cases hf with
  | quiet hnext hin happ hout ht => exact retirement_still h hr hi happ ht hout
  | opened hnext hlt hin happ hout ht =>
    exact retirement_still h hr hi happ (ht ▸ .refl _) (Or.inl hout)
  | sent hc halive hsender hopened hlast hnext hin happ hout ht =>
    exact retirement_still h hr hi happ (ht ▸ .refl _) (Or.inl hout)
  | taken ha hnext hin hempty hl happ ht => exact retirement_taken h hr hi hin hempty hl happ ht

end Step

/-- The entries to be erased are those of the session whose last command is at
hand, and only its tombstone may still have to be pushed. -/
structure Departing (g : Gateway) (d : Entries) : Prop where
  retired : Retired g d.session
  issued : Issued g d.session
  latching : g.latching = none
  outbox : ∀ p ∈ g.outbox, p.2.type = .sessionRetired ∧ p.2.session = d.session

theorem erasing_moved {g g' : Gateway} {a : Action} (h : Moved g a g')
    (hserving : g.thread.replaying = false) {d : Entries} (hd : g'.erasing = some d) :
    g.erasing = some d ∧ g'.outbox ⊆ g.outbox ∨
      ∃ env c, g.inbound = c :: g'.inbound ∧ c.type = .cancelAllForSession ∧ d.session = c.session ∧
        g'.conns = g.conns ∧ g'.applied = g.applied ++ [c] ∧ g'.latching = none ∧
        Taken (roomy env) g.thread c g'.thread g'.outbox := by
  cases h with
  | @taken env c inbound ha hin hout hl =>
    dsimp only at hd
    split at hd
    · rename_i hadm
      unfold leavingEntries at hd
      split at hd
      · rename_i htype
        cases hd
        exact Or.inr ⟨env, c, hin, htype, rfl, rfl, if_pos hadm, hl,
          taken_applyPopped env hserving c⟩
      · cases hd
    · cases hd
  | erased => cases hd
  | pushed ha hout => exact Or.inl ⟨hd, hout ▸ List.subset_cons_self _ _⟩
  | overflowing ha hout => exact Or.inl ⟨hd, hout ▸ List.subset_cons_self _ _⟩
  | lost ha hout => exact Or.inl ⟨hd, hout ▸ List.subset_cons_self _ _⟩
  | _ => exact Or.inl ⟨hd, List.Subset.refl _⟩

theorem departing_moved {g g' : Gateway} {a : Action} (h : Moved g a g') (hr : Running g)
    (hg : ∀ d, g.erasing = some d → Departing g d) {d : Entries} (hd : g'.erasing = some d) :
    Departing g' d := by
  have hnext : g.nextSessionId ≤ g'.nextSessionId := by
    obtain hnext | ⟨hnext, -⟩ := next_moved h <;> omega
  obtain ⟨hold, hsub⟩ | ⟨env, c, hin, htype, hs, -, happ, hl, ht⟩ :=
    erasing_moved h hr.addressed.replaying hd
  · obtain ⟨hret, hissued, hl, hout⟩ := hg d hold
    refine ⟨hret.mono (applied_flow (flow_moved h hr.regular hr.addressed.replaying)),
      ⟨hissued.1, hissued.2.trans_le hnext⟩, ?_, fun p hp => hout p (hsub hp)⟩
    -- a queue is flagged only for an event that is no tombstone
    rw [Option.eq_none_iff_forall_ne_some]
    intro n hn
    obtain hn | ⟨e, he, hne⟩ := latching_moved h hn
    · exact absurd (hl.symm.trans hn) nofun
    · exact hne (hout _ he).1
  · have hissued := hr.addressed.commands c (by simp [hin])
    refine ⟨⟨c, by simp [happ], htype, hs.symm⟩, hs ▸ ⟨hissued.1, hissued.2.trans_le hnext⟩, hl,
      fun p hp => ?_⟩
    generalize g'.outbox = out at ht hp
    cases ht with
    | refused => cases hp
    | admitted =>
      obtain ⟨live, hlive⟩ := hr.addressed.sound
      obtain ⟨-, hother⟩ | ⟨hretired, -, hsession, -⟩ := outbox_admitted hlive hp
      · exact absurd htype hother
      · exact ⟨hretired, hsession.trans hs.symm⟩

/-- A connection that is closed for the first time finds room on the queue for
its `CancelAllForSession`. -/
def RoomToClose (g : Gateway) (a : Action) : Prop :=
  ∀ c, closing g a = some c → c.session.alive = true → g.inbound.length < inboundCapacity

instance (g : Gateway) (a : Action) : Decidable (RoomToClose g a) :=
  match h : closing g a with
  | none => isTrue fun _ hc => by simp [h] at hc
  | some c => decidable_of_iff (c.session.alive = true → g.inbound.length < inboundCapacity)
      (by simp [RoomToClose, h])

def Reclaimed (g : Gateway) : Prop :=
  ∀ n, 0 < n → n < g.nextSessionId → g.conns n = none →
    Retired g (UInt64.ofNat n) ∧ ∀ p ∈ g.outbox, p.2.type = .sessionRetired → p.1 ≠ n

theorem reclaimed_moved {g g' : Gateway} {a : Action} (h : Moved g a g') (hr : Running g)
    (hi : Retirement g) (hroom : RoomToClose g a) (hg : Reclaimed g) : Reclaimed g' := by
  intro n hpos hlt hnone
  have hold : n < g.nextSessionId := by
    obtain hnext | ⟨hnext, hsome⟩ := next_moved h
    · omega
    · by_contra hge
      have hn : n = g.nextSessionId := by omega
      simp [← hn, hnone] at hsome
  have hn : (UInt64.ofNat n).toNat = n :=
    UInt64.toNat_ofNat_of_lt' (hold.trans_le hr.regular.bounded)
  have ht := h.touched n
  cases ht with
  | same h' =>
    obtain ⟨hret, hout⟩ := hg n hpos hold (h' ▸ hnone)
    exact retired_moved h hr hi hn hret hout
  | dropped hc halive ha hfull => exact absurd (hroom _ ha halive) hfull
  | @destroyed c hc hdead hretiring =>
    obtain hret | ⟨hret, hout⟩ := hi.dead n c hc hdead
    · rw [hretiring] at hret
      cases hret
    · rw [(hr.regular.wired n c hc).sessionId] at hret
      exact retired_moved h hr hi hn hret hout
  | kept _ hc' | opened hc' | requested _ hc' | popped _ _ hc' | killed _ _ hc' | rearmed _ _ hc'
  | pushed _ _ _ _ hc' | flagged _ _ hc' => exact absurd (hnone.symm.trans hc') nofun

/-- Every queue that the matching thread may still use has its connection, and
no order rests in the book whose session is gone. Once a tombstone is pushed,
the maps may hold a session without a connection, whose entries are erased next. -/
structure Guarded (g : Gateway) : Prop where
  destroyed : ∀ n, 0 < n → n < g.nextSessionId → g.conns n = none → Retired g (UInt64.ofNat n)
  queues : ∀ s q, g.egressMap s = some q ∨ g.mdMap s = some q → (g.conns s.toNat).isSome = true ∨
    ∃ d, g.erasing = some d ∧ d.session = s ∧ g.outbox = [] ∧ g.latching = none
  pushes : ∀ p ∈ g.outbox, (g.conns p.1).isSome = true
  latch : ∀ n, g.latching = some n → (g.conns n).isSome = true
  book : ∀ o ∈ g.thread.ledger.book.allOrders, ∀ s, g.thread.ledger.ownerOf o.id = some s →
    0 < s.toNat → s.toNat < g.nextSessionId → (g.conns s.toNat).isSome = true

/-- The maps hold no session at all whose connection is gone. -/
structure TombstoneSafe (g : Gateway) : Prop extends Guarded g where
  held : ∀ s q, g.egressMap s = some q ∨ g.mdMap s = some q → (g.conns s.toNat).isSome = true

/-- What the maps hold now is what the command at hand leaves in them, or about
to be erased. -/
theorem maps_cases {g : Gateway} {s : UInt64} {q : Option Nat}
    (h : g.egressMap s = some q ∨ g.mdMap s = some q) :
    (g.thread.egress s = some q ∨ g.thread.md s = some q) ∨
      ∃ d, g.erasing = some d ∧ d.session = s ∧ (d.egress = some q ∨ d.md = some q) := by
  unfold Gateway.egressMap Gateway.mdMap at h
  cases he : g.erasing with
  | none =>
    simp only [he] at h
    exact Or.inl h
  | some d =>
    simp only [he] at h
    by_cases hs : s = d.session
    · subst hs
      simp only [Function.update_self] at h
      exact Or.inr ⟨d, rfl, rfl, h⟩
    · simp only [Function.update_of_ne hs] at h
      exact Or.inl h

structure Orderly (g : Gateway) : Prop where
  running : Running g
  retirement : Retirement g
  reclaimed : Reclaimed g
  departing : ∀ d, g.erasing = some d → Departing g d

theorem Orderly.issued {g : Gateway} (h : Orderly g) {s : UInt64} (hs : Issued g s)
    (hret : ¬Retired g s) :
    (g.conns s.toNat).isSome = true := by
  cases hc : g.conns s.toNat with
  | some c => rfl
  | none =>
    have hgone := (h.reclaimed s.toNat hs.1 hs.2 hc).1
    rw [UInt64.ofNat_toNat] at hgone
    exact absurd hgone hret

theorem Orderly.pushes {g : Gateway} (h : Orderly g) {p : Nat × OrderEvent} (hp : p ∈ g.outbox) :
    (g.conns p.1).isSome = true := by
  obtain ⟨hn, hs⟩ := h.running.addressed.outbox p hp
  by_cases htype : p.2.type = .sessionRetired
  · cases hc : g.conns p.1 with
    | some c => rfl
    | none => exact absurd rfl ((h.reclaimed p.1 (hn ▸ hs.1) (hn ▸ hs.2) hc).2 p hp htype)
  · rw [hn]
    exact h.issued hs (h.retirement.pending p hp htype)

theorem Orderly.queues {g : Gateway} (h : Orderly g) {s : UInt64} {q : Option Nat}
    (hq : g.egressMap s = some q ∨ g.mdMap s = some q) : (g.conns s.toNat).isSome = true ∨
      ∃ d, g.erasing = some d ∧ d.session = s ∧ g.outbox = [] ∧ g.latching = none := by
  obtain (hq | hq) | ⟨d, hd, rfl, -⟩ := maps_cases hq
  · exact Or.inl (h.issued (h.running.addressed.egress s q hq).2 (h.retirement.egress s q hq))
  · exact Or.inl (h.issued (h.running.addressed.md s q hq).2 (h.retirement.md s q hq))
  · obtain ⟨-, -, hl, hout⟩ := h.departing d hd
    cases hbox : g.outbox with
    | nil => exact Or.inr ⟨d, hd, rfl, rfl, hl⟩
    | cons p outbox =>
      -- the tombstone is still to be pushed, so nobody has popped it
      have hp : p ∈ g.outbox := by simp [hbox]
      have hn := (h.running.addressed.outbox p hp).1
      rw [(hout p hp).2] at hn
      exact Or.inl (hn ▸ h.pushes hp)

theorem Orderly.guarded {g : Gateway} (h : Orderly g) : Guarded g where
  destroyed n hpos hlt hc := (h.reclaimed n hpos hlt hc).1
  queues _ _ hq := h.queues hq
  pushes _ hp := h.pushes hp
  latch n hl := by
    obtain ⟨hpos, hlt, hret⟩ := h.retirement.latching n hl
    have hn : (UInt64.ofNat n).toNat = n :=
      UInt64.toNat_ofNat_of_lt' (hlt.trans_le h.running.regular.bounded)
    rw [← hn]
    exact h.issued ⟨hn.symm ▸ hpos, hn.symm ▸ hlt⟩ hret
  book o ho s hs hpos hlt := h.issued ⟨hpos, hlt⟩ (h.retirement.owners o.id s hs)

theorem step_closing {g : Gateway} {a : Action} {c : Connection} (h : closing g a = some c)
    (cfg : ServerConfig) :
    ∃ n, g.conns n = some c ∧ g.step cfg a = g.close n c := by
  unfold closing at h
  cases a with
  | pollError =>
    cases hpc : g.pc with
    | serving n =>
      simp only [hpc] at h
      exact ⟨n, h, by simp [Gateway.step, hpc, Gateway.onConn, h]⟩
    | _ => simp [hpc] at h
  | endPass nowNs =>
    cases hpc : g.pc with
    | leaving n =>
      simp only [hpc, Option.filter_eq_some_iff] at h
      exact ⟨n, h.1, by simp [Gateway.step, hpc, Gateway.onConn, h.1, Gateway.endPass, h.2]⟩
    | _ => simp [hpc] at h
  | _ => cases h

theorem close_dead {g : Gateway} {n : Nat} {c : Connection} (hdead : c.session.alive = false)
    (hretiring : c.retiring = false) :
    g.close n c = { g with conns := Function.update g.conns n none, pc := .polling } := by
  simp only [Gateway.close, closeConnection, killSession, hdead, hretiring,
    Bool.false_eq_true, if_false]

/-- A live session that is closed when the queue is full is destroyed at once. -/
theorem close_full {g : Gateway} {n : Nat} {c : Connection} (hw : Wired n c)
    (halive : c.session.alive = true) (hfull : ¬g.inbound.length < inboundCapacity) :
    g.close n c = { g with conns := Function.update g.conns n none, pc := .polling } := by
  rw [Gateway.close, closeConnection_alive hw halive, if_neg hfull]

theorem room_of_guarded {g : Gateway} {a : Action} (hr : Running g) (hi : Retirement g)
    {cfg : ServerConfig} (h : Guarded (g.step cfg a)) : RoomToClose g a := by
  intro c hclosing halive
  by_contra hfull
  obtain ⟨n, hc, hstep⟩ := step_closing hclosing cfg
  rw [hstep, close_full (hr.regular.wired n c hc) halive hfull] at h
  have hn := hr.regular.below n c hc
  obtain ⟨d, hd, htype, hs⟩ := h.destroyed n hn.1 hn.2 (Function.update_self ..)
  apply hi.alive n c hc halive d (List.mem_append_left _ hd) htype
  rw [hs, (hr.regular.wired n c hc).sessionId]

theorem orderly_initial {t : Thread} (h : Booted t) : Orderly (.initial t) := by
  refine ⟨running_initial h, retirement_initial t, fun n hpos hlt => ?_, nofun⟩
  have hone : n < 1 := hlt
  omega

theorem Orderly.step {g : Gateway} (h : Orderly g) (cfg : ServerConfig) {a : Action}
    (hroom : RoomToClose g a) :
    Orderly (g.step cfg a) :=
  have hm := h.running.moved cfg a
  ⟨h.running.step cfg a, retirement_moved hm h.running h.retirement,
    reclaimed_moved hm h.running h.retirement hroom h.reclaimed,
    fun _ => departing_moved hm h.running h.departing⟩

/-- A session is out of the maps before its connection is closed for good. -/
def erasedFirst (g : Gateway) (a : Action) : Bool :=
  match closing g a, g.erasing with
  | some c, some d => c.retiring || c.session.id ≠ d.session || (d.egress.isNone && d.md.isNone)
  | _, _ => true

theorem maps_erasing {g : Gateway} {d : Entries} (h : g.erasing = some d) :
    g.egressMap d.session = d.egress ∧ g.mdMap d.session = d.md := by
  simp [Gateway.egressMap, Gateway.mdMap, h]

theorem held_step {g : Gateway} (h : Orderly g) (cfg : ServerConfig) {a : Action}
    (hroom : RoomToClose g a) (hfirst : erasedFirst g a = true)
    (hheld : ∀ s q, g.egressMap s = some q ∨ g.mdMap s = some q → (g.conns s.toNat).isSome = true)
    {s : UInt64} {q : Option Nat}
    (hq : (g.step cfg a).egressMap s = some q ∨ (g.step cfg a).mdMap s = some q) :
    ((g.step cfg a).conns s.toNat).isSome = true := by
  have hm := h.running.moved cfg a
  have h' := h.step cfg hroom
  obtain (hq | hq) | ⟨d, hd, rfl, hentry⟩ := maps_cases hq
  · exact h'.issued (h'.running.addressed.egress s q hq).2 (h'.retirement.egress s q hq)
  · exact h'.issued (h'.running.addressed.md s q hq).2 (h'.retirement.md s q hq)
  obtain ⟨hold, -⟩ | ⟨env, c, hin, -, hs, hconns, -⟩ :=
    erasing_moved hm h.running.addressed.replaying hd
  · have hmaps := maps_erasing hold
    have hsome := hheld d.session q (by rwa [hmaps.1, hmaps.2])
    cases hm.touched d.session.toNat with
    | same hc => rwa [hc]
    | dropped _ halive ha hfull => exact absurd (hroom _ ha halive) hfull
    | @destroyed c hc _ hretiring _ ha =>
      -- the session of this connection is the one whose entries are still there
      have hid := (h.running.regular.wired _ c hc).sessionId
      rw [UInt64.ofNat_toNat] at hid
      simp only [erasedFirst, ha, hold, hretiring, hid, ne_eq, not_true, decide_false,
        Bool.false_or, Bool.and_eq_true, Option.isNone_iff_eq_none] at hfirst
      obtain hentry | hentry := hentry
      · exact absurd (hfirst.1.symm.trans hentry) nofun
      · exact absurd (hfirst.2.symm.trans hentry) nofun
    | kept _ hc' | opened hc' | requested _ hc' | popped _ _ hc' | killed _ _ hc' | rearmed _ _ hc'
    | pushed _ _ _ _ hc' | flagged _ _ hc' => rw [hc', Option.isSome_some]
  · rw [hconns, hs]
    exact h.issued (h.running.addressed.commands c (by simp [hin])) (h.retirement.fresh hin)

theorem first_of_safe {g : Gateway} (h : Orderly g) {cfg : ServerConfig} {a : Action}
    (hsafe : TombstoneSafe (g.step cfg a)) : erasedFirst g a = true := by
  unfold erasedFirst
  split
  · rename_i c d ha hd
    obtain ⟨n, hc, hstep⟩ := step_closing ha cfg
    have hw := h.running.regular.wired n c hc
    by_contra hnot
    simp only [Bool.or_eq_true, Bool.and_eq_true, decide_eq_true_eq, not_or, not_and, not_not,
      Bool.not_eq_true] at hnot
    obtain ⟨⟨hretiring, hid⟩, hentry⟩ := hnot
    have hdead : c.session.alive = false := by
      by_contra halive
      obtain ⟨k, hk, htype, hsame⟩ := (h.departing d hd).retired
      exact h.retirement.alive n c hc (by simpa using halive) k (List.mem_append_left _ hk) htype
        (hsame.trans hid.symm)
    rw [hstep, close_dead hdead hretiring] at hsafe
    have hn : d.session.toNat = n := hid ▸ h.running.regular.named hc
    have hgone : ∀ q, d.egress = some q ∨ d.md = some q → False := by
      intro q hq
      have hmaps :=
        maps_erasing (g := { g with conns := Function.update g.conns n none, pc := .polling }) hd
      have hsome := hsafe.held d.session q (by rwa [hmaps.1, hmaps.2])
      simp [hn] at hsome
    cases he : d.egress with
    | some q => exact hgone q (Or.inl he)
    | none =>
      cases hmd : d.md with
      | some q => exact hgone q (Or.inr hmd)
      | none => simp [he, hmd] at hentry
  · rfl

/-- A run keeps every queue for as long as the matching thread may use it, and
every order out of the book whose session is gone, exactly if each session that
dies in it finds room for its last command. The maps never hold a session that is
gone exactly if each connection is closed for good only after its entries are
erased, too. -/
theorem tombstoneSafe_iff_room {t : Thread} (h : Booted t) (cfg : ServerConfig) (as : List Action) :
    ((∀ bs, bs <+: as → Guarded ((Gateway.initial t).run cfg bs)) ↔
      Along cfg RoomToClose (.initial t) as) ∧
      ((∀ bs, bs <+: as → TombstoneSafe ((Gateway.initial t).run cfg bs)) ↔
        Along cfg (fun g a => RoomToClose g a ∧ erasedFirst g a = true) (.initial t) as) := by
  constructor
  · exact along_iff (I := Orderly) (fun _ => Orderly.guarded)
      (fun _ _ hg => room_of_guarded hg.running hg.retirement) (fun _ _ hg => hg.step cfg)
      (orderly_initial h) as
  · refine along_iff (I := fun g => Orderly g ∧ ∀ s q, g.egressMap s = some q ∨ g.mdMap s = some q →
        (g.conns s.toNat).isSome = true) (fun g hg => ⟨hg.1.guarded, hg.2⟩) (fun g a hg hsafe => ?_)
      (fun g a hg hp => ?_) ⟨orderly_initial h, ?_⟩ as
    · exact ⟨room_of_guarded hg.1.running hg.1.retirement hsafe.toGuarded, first_of_safe hg.1 hsafe⟩
    · exact ⟨hg.1.step cfg hp.1, fun s q => held_step hg.1 cfg hp.1 hp.2 hg.2⟩
    · intro s q hq
      obtain hq | hq := hq
      · exact absurd ((h.ready.2.1.egress s).symm.trans hq) nofun
      · exact absurd ((h.ready.2.1.md s).symm.trans hq) nofun

def oneLife : List Action :=
  [.accept 0, .take .obliging, .serve 1, .hangup, .endPass 0, .take .obliging, .push, .erase,
    .drain 1, .pop, .pop, .endPass 0]

theorem oneLife_safe : ((Gateway.initial newThread).run .default oneLife).conns 1 = none ∧
    ∀ bs, bs <+: oneLife → TombstoneSafe ((Gateway.initial newThread).run .default bs) :=
  ⟨by decide +kernel,
    (tombstoneSafe_iff_room booted_newThread .default oneLife).2.mpr (by decide +kernel)⟩

/-- A session that is registered, sends `k` requests while the matching thread
is busy elsewhere, and hangs up. -/
def crowdedOut (k : Nat) : List Action :=
  admission ++ List.replicate k (asking 0) ++ [.hangup, .endPass 0]

/-- With as many requests as the queue takes, the connection is destroyed, and
the matching thread still knows its queue. -/
theorem crowdedOut_dangles (k : Nat) (hk : k = inboundCapacity) :
    ((Gateway.initial newThread).run .default (crowdedOut k)).conns 1 = none ∧
      ((Gateway.initial newThread).run .default (crowdedOut k)).erasing = none ∧
      ((Gateway.initial newThread).run .default (crowdedOut k)).egressMap 1 = some (some 1) := by
  have hp := (pressed_admission .default).asks .default rfl rfl 0 k (by simp [hk])
  rw [crowdedOut, run_append, run_append]
  generalize ((Gateway.initial newThread).run .default admission).run .default
    (List.replicate k (asking 0)) = g at hp ⊢
  have hfull : ¬g.inbound.length < inboundCapacity := by simp [hp.inbound, hk]
  have hw : Wired 1 (Connection.create .default 1 0).closeNow := ⟨hp.sessionId, rfl, nofun⟩
  have he : g.erasing = none := hp.idle.2.2
  rw [hp.hangup, close_full hw rfl hfull]
  refine ⟨?_, he, ?_⟩
  · change Function.update g.conns 1 none 1 = none
    rw [Function.update_self]
  · simp only [Gateway.egressMap, he]
    exact egress_of_egressFor hp.plain.egress

theorem unguarded_of_dangling {g : Gateway} (hclosed : g.conns 1 = none) (he : g.erasing = none)
    (hknown : g.egressMap 1 = some (some 1)) : ¬Guarded g := by
  intro h
  have hnone : g.conns (1 : UInt64).toNat = none := hclosed
  obtain hsome | ⟨d, hd, -⟩ := h.queues 1 _ (Or.inl hknown)
  · rw [hnone] at hsome
    cases hsome
  · exact absurd (he.symm.trans hd) nofun

/-- A queue of a destroyed connection is still known to the matching thread. -/
theorem crowdedOut_unsafe :
    ¬∀ (cfg : ServerConfig) (t : Thread) (as : List Action), Booted t →
      TombstoneSafe ((Gateway.initial t).run cfg as) := by
  intro h
  obtain ⟨hclosed, he, hknown⟩ := crowdedOut_dangles inboundCapacity rfl
  exact unguarded_of_dangling hclosed he hknown
    (h .default newThread (crowdedOut inboundCapacity) booted_newThread).toGuarded

end OrderMatching.Lifetime
