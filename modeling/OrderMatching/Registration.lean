import OrderMatching.Lifetime

namespace OrderMatching.Registration

open OrderMatching.Orders OrderMatching.Commands OrderMatching.Exchange OrderMatching.MatchingThread
open OrderMatching.LedgerStep OrderMatching.Registry OrderMatching.Acceptance OrderMatching.Answers
open OrderMatching.Posting OrderMatching.StepCases OrderMatching.Network OrderMatching.Threads
open OrderMatching.Moves OrderMatching.Sessions OrderMatching.Flooding OrderMatching.Lifetime

/-- The matching thread has processed the command that opens the session. -/
def Joined (g : Gateway) (s : UInt64) : Prop :=
  ∃ o ∈ g.applied, o.type = .sessionOpened ∧ o.session = s

def produced (t : Thread) (d : OrderCommand) : List OrderEvent :=
  (step t.risk t.ledger d).2 ++
    if d.type = .cancelAllForSession then [.sessionRetired d.session] else []

/-- A command that is taken comes from a session that was opened before, and
what it gives to push for a connection goes to the queue of that connection. -/
structure Served (g : Gateway) (a : Action) (g' : Gateway) : Prop where
  introduced : ∀ env d ds, a = .take env → g.inbound = d :: ds → d.type ≠ .sessionOpened →
    Joined g d.session
  routed : ∀ env d ds, a = .take env → g.inbound = d :: ds → g.idle →
    admits (roomy env) g.thread d = true → ∀ e ∈ produced g.thread d,
      (g.conns e.session.toNat).isSome = true → (e.session.toNat, e) ∈ g'.outbox

/-- There is room on the queue when a session is accepted, and its number owns
no order yet. -/
def registering (g : Gateway) : Action → Bool
  | .accept _ =>
    g.inbound.length < inboundCapacity && g.thread.ledger.book.allOrders.all fun o =>
      g.thread.ledger.ownerOf o.id ≠ some (UInt64.ofNat g.nextSessionId)
  | _ => true

def Announced (g : Gateway) (s : UInt64) : Prop :=
  ∃ d ds, g.inbound.filter (fun c => c.session = s) = d :: ds ∧ d.type = .sessionOpened

/-- The matching thread knows the session, or is going to know it before it sees
anything else of it. -/
def Heralded (g : Gateway) (s : UInt64) : Prop := Joined g s ∨ Announced g s

def Registered (g : Gateway) : Prop :=
  ∀ s, Joined g s → ¬Retired g s → g.thread.egress s = some (some s.toNat)

/-- Every number that was handed out belongs to a session of which the matching
thread hears first that it is there. -/
structure Introduced (g : Gateway) : Prop where
  opened : ∀ s, Issued g s → Heralded g s
  registered : Registered g
  owners : ∀ y s, g.thread.ledger.ownerOf y = some s → Issued g s → Joined g s

theorem introduced_initial (t : Thread) : Introduced (.initial t) := by
  have hnone : ∀ s, ¬Issued (.initial t) s := by
    rintro s ⟨hpos, hlt⟩
    have hnext : (Gateway.initial t).nextSessionId = 1 := rfl
    omega
  refine ⟨fun s hs => absurd hs (hnone s), ?_, fun y s _ hs => absurd hs (hnone s)⟩
  rintro s ⟨o, ho, -⟩
  exact absurd ho List.not_mem_nil

variable {g g' : Gateway} {a : Action}

theorem Heralded.sender {d : OrderCommand} (h : Heralded g d.session) {ds : List OrderCommand}
    (hin : g.inbound = d :: ds) (hd : d.type ≠ .sessionOpened) : Joined g d.session := by
  obtain ho | ⟨d', ds', hfirst, hopened⟩ := h
  · exact ho
  · rw [hin, List.filter_cons_of_pos (by simp), List.cons.injEq] at hfirst
    rw [← hfirst.1] at hopened
    exact absurd hopened hd

theorem Introduced.sender (h : Introduced g) (hr : Running g) {d : OrderCommand}
    {ds : List OrderCommand} (hin : g.inbound = d :: ds) (hd : d.type ≠ .sessionOpened) :
    Joined g d.session :=
  Heralded.sender (h.opened d.session (hr.addressed.commands d (by simp [hin]))) hin hd

theorem Introduced.known (h : Introduced g) (hr : Running g) (hi : Retirement g) {d : OrderCommand}
    {ds : List OrderCommand} (hin : g.inbound = d :: ds) (hd : d.type ≠ .sessionOpened) :
    g.thread.egress d.session = some (some d.session.toNat) :=
  h.registered _ (h.sender hr hin hd) (hi.fresh hin)

theorem Introduced.produced (h : Introduced g) (hr : Running g) (hi : Retirement g)
    {d : OrderCommand} {ds : List OrderCommand} (hin : g.inbound = d :: ds) {e : OrderEvent}
    (he : e ∈ produced g.thread d) (hissued : Issued g e.session) :
    (e.session.toNat, e) ∈ routed g.thread (step g.thread.risk g.thread.ledger d).2 ++
      tombstone g.thread d := by
  obtain he | he := List.mem_append.mp he
  · obtain ⟨live, hs⟩ := hr.addressed.sound
    obtain ⟨live', -, hstep⟩ := step_cases hs g.thread.risk d
    have hopened : d.type ≠ .sessionOpened := by
      intro hd
      rw [step, hd] at he
      exact absurd he List.not_mem_nil
    refine told_of_known he ?_ _
    obtain ⟨-, hsender | ⟨y, entry, hy, howner⟩⟩ := hstep.told hs e he
    · rw [hsender]
      exact h.known hr hi hin hopened
    · have hown : g.thread.ledger.ownerOf y = some e.session := by
        rw [hs.registers.owner, hy, howner]
        rfl
      exact h.registered _ (h.owners y _ hown hissued) (hi.owners y _ hown)
  · split at he
    · rename_i hcancel
      rw [List.mem_singleton.mp he, tombstone, if_pos hcancel, Thread.egressFor,
        h.known hr hi hin (by simp [hcancel])]
      exact List.mem_append_right _ (List.mem_singleton.mpr rfl)
    · exact absurd he List.not_mem_nil

theorem filter_taken {s : UInt64} {c d : OrderCommand} {inbound ds : List OrderCommand}
    (hfirst : (c :: inbound).filter (fun c => c.session = s) = d :: ds) :
    c.session = s ∧ d = c ∨ inbound.filter (fun c => c.session = s) = d :: ds := by
  by_cases hs : c.session = s
  · rw [List.filter_cons_of_pos (by simpa using hs), List.cons.injEq] at hfirst
    exact Or.inl ⟨hs, hfirst.1.symm⟩
  · rw [List.filter_cons_of_neg (by simpa using hs)] at hfirst
    exact Or.inr hfirst

theorem joined_mono (happ : g.applied ⊆ g'.applied) {s : UInt64} (h : Joined g s) :
    Joined g' s := by
  obtain ⟨o, ho, hs⟩ := h
  exact ⟨o, happ ho, hs⟩

theorem announced_grown {s : UInt64} {added : List OrderCommand}
    (hin : g'.inbound = g.inbound ++ added) (h : Announced g s) : Announced g' s := by
  obtain ⟨d, ds, hfirst, hd⟩ := h
  refine ⟨d, ds ++ added.filter (fun c => c.session = s), ?_, hd⟩
  rw [hin, List.filter_append, hfirst]
  rfl

theorem announced_new (hr : Running g) {s : UInt64} (hs : ¬Issued g s) {egress md : Option Nat}
    (hin : g'.inbound = g.inbound ++ [.sessionOpened s egress md]) : Announced g' s := by
  have hnone : g.inbound.filter (fun c => c.session = s) = [] := by
    rw [List.filter_eq_nil_iff]
    intro d hd hsame
    exact hs (of_decide_eq_true hsame ▸ hr.addressed.commands d (List.mem_append_right _ hd))
  refine ⟨.sessionOpened s egress md, [], ?_, rfl⟩
  rw [hin, List.filter_append, hnone]
  simp [OrderCommand.sessionOpened]

theorem heralded_grown {s : UInt64} (happ : g'.applied = g.applied) {added : List OrderCommand}
    (hin : g'.inbound = g.inbound ++ added) (h : Heralded g s) : Heralded g' s := by
  obtain ho | h := h
  · exact Or.inl (joined_mono (happ ▸ List.Subset.refl _) ho)
  · exact Or.inr (announced_grown hin h)

theorem registered_same (happ : g'.applied = g.applied)
    (hegress : g'.thread.egress = g.thread.egress) (h : Registered g) : Registered g' := by
  intro s hs hret
  rw [Joined, happ] at hs
  rw [Retired, happ] at hret
  rw [hegress]
  exact h s hs hret

theorem egress_opened {env : Env} {t t' : Thread} {c : OrderCommand} {out : List (Nat × OrderEvent)}
    (h : Taken env t c t' out) (hc : c.type = .sessionOpened) :
    t'.egress c.session = some c.egress := by
  cases h with
  | refused hadm => simp [admits, hc, isLoggable] at hadm
  | admitted hadm hledger hegress =>
    rw [hegress, egressAfter, hc]
    exact Function.update_self ..

theorem egress_stays {env : Env} {t t' : Thread} {c : OrderCommand} {out : List (Nat × OrderEvent)}
    (h : Taken env t c t' out) {s : UInt64} {q : Option Nat} (hs : t.egress s = some q)
    (hopened : c.type = .sessionOpened → c.session = s → c.egress = q)
    (hretired : admits env t c = true → c.type = .cancelAllForSession → c.session ≠ s) :
    t'.egress s = some q := by
  cases h with
  | refused hadm hu => rw [hu.egress, hs]
  | admitted hadm hledger hegress =>
    rw [hegress, egressAfter]
    cases htype : c.type with
    | sessionOpened =>
      by_cases hsame : c.session = s
      · rw [← hopened htype hsame, ← hsame]
        exact Function.update_self ..
      · exact (Function.update_of_ne (Ne.symm hsame) _ _).trans hs
    | cancelAllForSession => exact (Function.update_of_ne (hretired hadm htype).symm _ _).trans hs
    | _ => exact hs

section Taken

variable {env : Env} {c : OrderCommand} (hin : g.inbound = c :: g'.inbound)
  (happ : g'.applied = if admits (roomy env) g.thread c then g.applied ++ [c] else g.applied)

include hin happ in
theorem heralded_taken {s : UInt64} (h : Heralded g s) : Heralded g' s := by
  obtain ho | ⟨d, ds, hfirst, hd⟩ := h
  · exact Or.inl (joined_mono (applied_taken happ) ho)
  · rw [hin] at hfirst
    obtain ⟨hsame, rfl⟩ | hfirst := filter_taken hfirst
    · have hadm : admits (roomy env) g.thread d = true := by simp [admits, hd, isLoggable]
      rw [hadm, if_pos rfl] at happ
      exact Or.inl ⟨d, by simp [happ], hd, hsame⟩
    · exact Or.inr ⟨d, ds, hfirst, hd⟩

include hin happ in
theorem registered_taken (hr : Running g) (ht : Taken (roomy env) g.thread c g'.thread g'.outbox)
    (h : Registered g) : Registered g' := by
  have hlast : ∀ o ∈ g'.applied, o ∈ g.applied ∨ o = c ∧ admits (roomy env) g.thread c = true := by
    intro o ho
    rw [happ] at ho
    split at ho
    · rename_i hadm
      obtain ho | ho := List.mem_append.mp ho
      · exact Or.inl ho
      · exact Or.inr ⟨List.mem_singleton.mp ho, hadm⟩
    · exact Or.inl ho
  rintro s ⟨o, ho, htype, rfl⟩ hret
  have hopening := hr.addressed.opening c (by simp [hin])
  by_cases hsame : c.type = .sessionOpened ∧ c.session = o.session
  · rw [← hsame.2, egress_opened ht hsame.1, (hopening hsame.1).1]
  · have hbefore : Joined g o.session := by
      obtain ho | ⟨rfl, -⟩ := hlast o ho
      · exact ⟨o, ho, htype, rfl⟩
      · exact absurd ⟨htype, rfl⟩ hsame
    refine egress_stays ht (h _ hbefore fun hold => hret (hold.mono (applied_taken happ)))
      (fun h1 h2 => absurd ⟨h1, h2⟩ hsame) fun hadm hcancel hs => hret ⟨c, ?_, hcancel, hs⟩
    rw [happ, hadm, if_pos rfl]
    exact List.mem_append_right _ (List.mem_singleton.mpr rfl)

end Taken

theorem registered_moved (hm : Moved g a g') (hr : Running g) (h : Registered g) :
    Registered g' := by
  cases flow_moved hm hr.regular hr.addressed.replaying with
  | quiet hnext hin happ hout ht => exact registered_same happ ht.egress h
  | opened hnext hlt hin happ hout ht => exact registered_same happ (by rw [ht]) h
  | sent hc halive hsender hopened hlast hnext hin happ hout ht =>
    exact registered_same happ (by rw [ht]) h
  | taken ha hnext hin hempty hl happ ht => exact registered_taken hin happ hr ht h

theorem heralded_moved (hm : Moved g a g') (hr : Running g) {s : UInt64} (h : Heralded g s) :
    Heralded g' s := by
  cases flow_moved hm hr.regular hr.addressed.replaying with
  | quiet hnext hin happ => exact heralded_grown happ (hin.trans (List.append_nil _).symm) h
  | opened hnext hlt hin happ =>
    obtain hin | hin := hin
    · exact heralded_grown happ (hin.trans (List.append_nil _).symm) h
    · exact heralded_grown happ hin h
  | sent hc halive hsender hopened hlast hnext hin happ => exact heralded_grown happ hin h
  | taken ha hnext hin hempty hl happ ht => exact heralded_taken hin happ h

theorem introduced_taken (hr : Running g) (h : Introduced g) {env : Env} {c : OrderCommand}
    (hnext : g'.nextSessionId = g.nextSessionId) (hin : g.inbound = c :: g'.inbound)
    (happ : g'.applied = if admits (roomy env) g.thread c then g.applied ++ [c] else g.applied)
    (ht : Taken (roomy env) g.thread c g'.thread g'.outbox) : Introduced g' := by
  have hissued : ∀ s, Issued g' s → Issued g s := fun s hs => by rwa [Issued, hnext] at hs
  refine ⟨fun s hs => heralded_taken hin happ (h.opened s (hissued s hs)),
    registered_taken hin happ hr ht h.registered,
    fun y s hy hs => joined_mono (applied_taken happ) ?_⟩
  generalize hout : g'.outbox = out at ht
  cases ht with
  | refused hadm hsame =>
    rw [hsame.ledger] at hy
    exact h.owners y s hy (hissued s hs)
  | admitted hadm hledger =>
    obtain ⟨live, hsound⟩ := hr.addressed.sound
    obtain ⟨live', hs', hstep⟩ := step_cases hsound g.thread.risk c
    rw [hledger, hs'.registers.owner] at hy
    obtain ⟨e, he, rfl⟩ := Option.map_eq_some_iff.mp hy
    obtain ⟨-, htype, howner, -⟩ | ⟨d, hd, howner, -⟩ := hstep.names hsound he
    · rw [howner]
      refine h.sender hr hin fun hopening => ?_
      simp [hopening] at htype
    · refine h.owners y e.owner ?_ (hissued _ hs)
      rw [hsound.registers.owner, hd, howner]
      rfl

theorem opening_room (h : Moved g a g')
    (hroom : ∀ nowNs, a = .accept nowNs → g.inbound.length < inboundCapacity)
    (hn : n = g.nextSessionId) (hnext : g'.nextSessionId = n + 1) :
    g'.inbound = g.inbound ++ [.sessionOpened (UInt64.ofNat n) (some n) (some n)] := by
  cases h with
  | accepted ha hlt hpc ho hin =>
    subst hn
    obtain ⟨-, hin⟩ | ⟨hfull, -⟩ := hin
    · exact hin
    · exact absurd (hroom _ ha) hfull
  | _ =>
    have hsame : g.nextSessionId = n + 1 := hnext
    omega

theorem introduced_grown (h : Introduced g) (happ : g'.applied = g.applied)
    (hegress : g'.thread.egress = g.thread.egress) (hledger : g'.thread.ledger = g.thread.ledger)
    {added : List OrderCommand} (hin : g'.inbound = g.inbound ++ added)
    (hnew : ∀ s, Issued g' s → ¬Issued g s →
      (∀ y, g.thread.ledger.ownerOf y ≠ some s) ∧ Announced g' s) : Introduced g' := by
  refine ⟨fun s hs => ?_, registered_same happ hegress h.registered, fun y s hy hs => ?_⟩
  · by_cases hold : Issued g s
    · exact heralded_grown happ hin (h.opened s hold)
    · exact Or.inr (hnew s hs hold).2
  · rw [hledger] at hy
    by_cases hold : Issued g s
    · exact joined_mono (happ ▸ List.Subset.refl _) (h.owners y s hy hold)
    · exact absurd hy ((hnew s hs hold).1 y)

theorem introduced_moved (hm : Moved g a g') (hr : Running g)
    (hregistering : registering g a = true) (h : Introduced g) : Introduced g' := by
  have hold : g'.nextSessionId = g.nextSessionId → ∀ s, Issued g' s → ¬Issued g s →
      (∀ y, g.thread.ledger.ownerOf y ≠ some s) ∧ Announced g' s :=
    fun hnext s hs hnot => absurd (by rwa [Issued, hnext] at hs) hnot
  cases flow_moved hm hr.regular hr.addressed.replaying with
  | quiet hnext hin happ hout ht =>
    exact introduced_grown h happ ht.egress ht.ledger
      (hin.trans (List.append_nil _).symm) (hold hnext)
  | opened hnext hlt hin happ hout ht =>
    obtain ⟨nowNs, rfl⟩ := opening_accepts hm hnext
    simp only [registering, Bool.and_eq_true, decide_eq_true_eq, List.all_eq_true] at hregistering
    have hin := opening_room hm (fun _ _ => hregistering.1) rfl hnext
    refine introduced_grown h happ (by rw [ht]) (by rw [ht]) hin fun s hs hnot => ?_
    have hlast := issued_last hnext hs hnot
    constructor
    · intro y hy
      obtain ⟨live, hsound⟩ := hr.addressed.sound
      rw [hsound.registers.owner, Option.map_eq_some_iff] at hy
      obtain ⟨e, he, howner⟩ := hy
      obtain ⟨o, ho, rfl⟩ := hsound.backed y e he
      refine hregistering.2 o ho ?_
      rw [hsound.registers.owner, he, Option.map_some, howner, hlast]
    · exact announced_new hr hnot (hlast ▸ hin)
  | sent hc halive hsender hopened hlast hnext hin happ hout ht =>
    exact introduced_grown h happ (by rw [ht]) (by rw [ht]) hin (hold hnext)
  | taken ha hnext hin hempty hl happ ht => exact introduced_taken hr h hnext hin happ ht

theorem outbox_take (hserving : g.thread.replaying = false) {env : Env} {d : OrderCommand}
    {ds : List OrderCommand} (hin : g.inbound = d :: ds) (hidle : g.idle)
    (hadm : admits (roomy env) g.thread d = true) :
    (g.take env).outbox = Posting.routed g.thread (step g.thread.risk g.thread.ledger d).2 ++
      tombstone g.thread d := by
  have htake : (g.take env).outbox =
      (g.thread.applyPopped (roomy env) d).pushed.drop g.thread.pushed.length := by
    rw [take_idle hin hidle]
  have ht := taken_applyPopped env hserving d
  rw [htake]
  generalize (g.thread.applyPopped (roomy env) d).pushed.drop g.thread.pushed.length = out at ht
  cases ht with
  | refused hadm' => simp [hadm] at hadm'
  | admitted => rfl

theorem served_step (cfg : ServerConfig) (a : Action) (hr : Running g) (hi : Retirement g)
    (h : Introduced g) :
    Served g a (g.step cfg a) := by
  refine ⟨?_, ?_⟩
  · rintro env d ds rfl hin hd
    exact h.sender hr hin hd
  · rintro env d ds rfl hin hidle hadm e he hconn
    obtain ⟨c, hc⟩ := Option.isSome_iff_exists.mp hconn
    change _ ∈ (g.take env).outbox
    rw [outbox_take hr.addressed.replaying hin hidle hadm]
    exact h.produced hr hi hin he (hr.regular.below _ c hc)

/-- When a session finds room on the queue as it is accepted, nothing is
processed for it before it is registered, and nothing for it is lost for want
of a queue. -/
theorem served_run {t : Thread} (h : Booted t) (cfg : ServerConfig) {as : List Action}
    (hrun : Along cfg (fun g a => registering g a = true) (.initial t) as) :
    Along cfg (fun g a => Served g a (g.step cfg a)) (.initial t) as := by
  have hstep : ∀ (g : Gateway) (a : Action), (Running g ∧ Retirement g ∧ Introduced g) →
      registering g a = true →
      (Running (g.step cfg a) ∧ Retirement (g.step cfg a) ∧ Introduced (g.step cfg a)) ∧
        Served g a (g.step cfg a) := by
    rintro g a ⟨hr, hi, hintro⟩ hregistering
    have hm := hr.moved cfg a
    exact ⟨⟨hr.step cfg a, retirement_moved hm hr hi, introduced_moved hm hr hregistering hintro⟩,
      served_step cfg a hr hi hintro⟩
  exact hrun.leads hstep ⟨running_initial h, retirement_initial t, introduced_initial t⟩

def answered : List Action := admission ++ [asking 1, .take .obliging, .push]

theorem answered_served :
    Along .default (fun g a => Served g a (g.step .default a)) (.initial newThread) answered :=
  served_run booted_newThread .default (by decide +kernel)

def Unopened (g : Gateway) (s : UInt64) : Prop :=
  ∀ o ∈ g.applied ++ g.inbound, o.type = .sessionOpened → o.session ≠ s

theorem unopened_moved (hm : Moved g a g') (hr : Running g) {s : UInt64} (hs : Issued g s)
    (h : Unopened g s) :
    Unopened g' s := by
  cases flow_moved hm hr.regular hr.addressed.replaying with
  | quiet hnext hin happ => rwa [Unopened, hin, happ]
  | opened hnext hlt hin happ =>
    intro o ho htype
    rw [happ] at ho
    obtain hin | hin := hin
    · rw [hin] at ho
      exact h o ho htype
    · rw [hin, ← List.append_assoc] at ho
      obtain ho | ho := List.mem_append.mp ho
      · exact h o ho htype
      · rintro rfl
        have hlt' := hs.2
        rw [List.mem_singleton.mp ho] at hlt'
        simp only [OrderCommand.sessionOpened] at hlt'
        rw [UInt64.toNat_ofNat_of_lt' hlt] at hlt'
        omega
  | sent hc halive hsender hopened hlast hnext hin happ =>
    intro o ho htype
    rw [happ, hin, ← List.append_assoc] at ho
    obtain ho | ho := List.mem_append.mp ho
    · exact h o ho htype
    · rw [List.mem_singleton.mp ho] at htype
      exact absurd htype hopened
  | taken ha hnext hin hempty hl happ =>
    intro o ho
    refine h o ?_
    rw [hin]
    rw [happ] at ho
    split at ho
    · simpa using ho
    · obtain ho | ho := List.mem_append.mp ho
      · exact List.mem_append_left _ ho
      · exact List.mem_append_right _ (List.mem_cons_of_mem _ ho)

theorem unopened_run (cfg : ServerConfig) (as : List Action) {g : Gateway} (hr : Running g)
    {s : UInt64} (hs : Issued g s) (h : Unopened g s) : Unopened (g.run cfg as) s := by
  induction as generalizing g with
  | nil => exact h
  | cons a as ih =>
    have hm := hr.moved cfg a
    have hs' : Issued (g.step cfg a) s := by
      obtain ⟨hpos, hlt⟩ := hs
      obtain hnext | ⟨hnext, -⟩ := next_moved hm
      · exact ⟨hpos, by omega⟩
      · exact ⟨hpos, by omega⟩
    exact ih (hr.step cfg a) hs' (unopened_moved hm hr hs h)

/-- The first client fills the queue, a second one is accepted and asks for
something too, and the matching thread takes all that is before it. -/
def uninvited (j i : Nat) : List Action :=
  admission ++ List.replicate (j + 1 + i) (asking 0) ++ [.readDone, .endPass 0] ++ [.accept 0] ++
    [.take .obliging, .push] ++ [.serve 2, asking 0] ++
      (List.replicate j [.take .obliging, .push]).flatten ++
    (List.replicate i [.take .obliging, .push, .latch]).flatten

theorem uninvited_next (j i : Nat) (hj : j + 1 = egressCapacity)
    (hi : j + 1 + i = inboundCapacity) :
    Unopened ((Gateway.initial newThread).run .default (uninvited j i)) 2 ∧
      ((Gateway.initial newThread).run .default (uninvited j i)).inbound = [.cancel 2 0] := by
  let g₀ := (Gateway.initial newThread).run .default admission
  let g₁ := (g₀.run .default (List.replicate (j + 1 + i) (asking 0))).run .default
    [.readDone, .endPass 0]
  have hr₀ : Running g₀ := (running_initial booted_newThread).run .default admission
  have hr₁ : Running g₁ := (hr₀.run .default _).run .default _
  have h₁ : Pressed g₁ 1 .polling (.create .default 1 0)
      ([] ++ List.replicate (j + 1 + i) (.cancel (UInt64.ofNat 1) 0)) [] [] :=
    ((pressed_admission .default).asks .default rfl rfl 0 (j + 1 + i) (by simp; omega)).rest
      .default rfl 0
  have hnext₁ : g₁.nextSessionId = 2 := by
    refine (next_run .default _ (hr₀.run .default _) (by simp)).trans
      ((next_run .default _ hr₀ ?_).trans rfl)
    intro a ha nowNs
    rw [List.eq_of_mem_replicate ha]
    simp [asking]
  rw [List.nil_append] at h₁
  obtain ⟨h₂, hnext₂, happ₂, hc₂⟩ :=
    h₁.crowd .default (by simp; omega) hnext₁ (by decide) (by decide) 0
  have hun₂ : Unopened (g₁.step .default (.accept 0)) 2 := by
    intro o ho _ hs
    rw [happ₂, h₂.inbound, ← h₁.inbound] at ho
    have hissued := (hr₁.addressed.commands o ho).2
    rw [hs, hnext₁] at hissued
    exact absurd hissued (by decide)
  have hqueue : List.replicate (j + 1 + i) (OrderCommand.cancel (UInt64.ofNat 1) 0) =
      .cancel (UInt64.ofNat 1) 0 :: List.replicate (j + i) (.cancel (UInt64.ofNat 1) 0) := by
    rw [← List.replicate_succ]
    congr 1
    omega
  rw [hqueue] at h₂
  have h₃ := Pressed.answer .default .obliging h₂ (by decide)
  have hc₃ := (Pressed.beside .default .obliging h₂ (m := 2) (by decide)).trans hc₂
  have h₄ := h₃.visit .default hc₃ rfl ⟨rfl, rfl⟩ (by decide) 0 (by simp; omega)
  rw [List.replicate_add, List.append_assoc] at h₄
  have h₅ := Pressed.answers .default .obliging 0 j h₄ (by simp [queued, Connection.create]; omega)
  obtain ⟨c₆, emitted₆, h₆⟩ :=
    Pressed.overflows .default .obliging 0 i h₅ (by simp [queued, Connection.create]; omega)
  have hr₂ := hr₁.step .default (.accept 0)
  let answered : List Action := [.take .obliging, .push]
  let overflown : List Action := [.take .obliging, .push, .latch]
  let rest : List Action :=
    answered ++ [.serve 2, asking 0] ++ (List.replicate j answered).flatten ++
      (List.replicate i overflown).flatten
  have hun₆ := unopened_run .default rest hr₂ ⟨by decide, by rw [hnext₂]; decide⟩ hun₂
  have hrun : (Gateway.initial newThread).run .default (uninvited j i) =
      (g₁.step .default (.accept 0)).run .default rest := by
    simp only [uninvited, run_append, run_one, g₁, g₀, rest, answered, overflown]
  rw [hrun]
  refine ⟨hun₆, ?_⟩
  simp only [rest, answered, overflown, run_append]
  exact h₆.inbound

theorem uninvited_not_served :
    ¬∀ (cfg : ServerConfig) (t : Thread) (as : List Action), Booted t →
      Along cfg (fun g a => Served g a (g.step cfg a)) (.initial t) as := by
  intro h
  obtain ⟨hun, hin⟩ :=
    uninvited_next (egressCapacity - 1) (inboundCapacity - egressCapacity) rfl rfl
  have hserved := (along_append.mp (h .default newThread (uninvited (egressCapacity - 1)
    (inboundCapacity - egressCapacity) ++ [.take .obliging]) booted_newThread)).2.1
  obtain ⟨o, ho, htype, hs⟩ := hserved.introduced _ _ _ rfl hin (by decide)
  exact hun o (List.mem_append_left _ ho) htype hs

end OrderMatching.Registration
