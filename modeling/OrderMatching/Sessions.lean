import OrderMatching.EventStreams
import OrderMatching.Moves
import OrderMatching.Startup

namespace OrderMatching.Sessions

open OrderMatching.Orders OrderMatching.Commands OrderMatching.Log OrderMatching.Exchange
open OrderMatching.Snapshot OrderMatching.MatchingThread OrderMatching.LedgerStep
open OrderMatching.LogFold OrderMatching.Registry OrderMatching.Acceptance OrderMatching.Bookkeeping
open OrderMatching.Answers OrderMatching.Posting OrderMatching.StepCases OrderMatching.Startup
open OrderMatching.Uncrossed OrderMatching.EventStreams OrderMatching.Network OrderMatching.Threads
open OrderMatching.Moves

/-- A thread as `main` hands it to the gateway: fresh, or restored from the
snapshot of an earlier run, with any commands of a log replayed on top. -/
inductive Booted : Thread → Prop where
  | fresh (risk : RiskConfig) (wal : Option Wal) (snap : SnapshotPolicy) :
      Booted (Thread.fresh risk wal snap)
  | restored {t : Thread} (risk : RiskConfig) (wal : Option Wal) (snap : SnapshotPolicy)
      (lastSeq baseline : UInt64) :
      Reached t →
        Booted
          (((Thread.fresh risk wal snap).restore
            (exportSnapshot t.ledger lastSeq)).setSnapshotBaseline baseline)
  | recovered {t : Thread} (env : Env) (cs : List OrderCommand)
      (hcs : ∀ c ∈ cs, isLoggable c.type = true) :
      Booted t → Booted (t.recover env cs)

/-- The start of the gateway boots a thread, if the snapshot it reads was
written by a thread and the log holds what is logged. -/
theorem booted_start {cfg : Config} {env : Env} {f : Files} {nowNs : UInt64}
    {refused : Option String} {t : Thread} (h : start cfg env f nowNs refused = some t)
    (hsnap : (chooseSnapshot cfg f).haveSnapshot = true → ∃ t₀ lastSeq, Reached t₀ ∧
      (chooseSnapshot cfg f).data.data = exportSnapshot t₀.ledger lastSeq)
    (hlog : ∀ r, recovery cfg f = some r → ∀ c ∈ r.pending, isLoggable c.type = true) :
    Booted t := by
  unfold start at h
  cases hr : recovery cfg f with
  | none => simp [hr] at h
  | some r =>
    simp only [hr] at h
    split at h
    · cases h
    · have hbase : ∀ t₁ : Thread, Booted t₁ →
          Booted (if r.pending.isEmpty then t₁ else t₁.recover env r.pending) := by
        intro t₁ h₁
        split
        · exact h₁
        · exact .recovered env _ (hlog r hr) h₁
      rw [← Option.some.inj h]
      apply hbase
      split
      · rename_i hhave
        obtain ⟨t₀, lastSeq, ht₀, hdata⟩ := hsnap hhave
        rw [hdata]
        exact .restored _ _ _ _ _ ht₀
      · exact .fresh _ _ _

structure Vacant (t : Thread) : Prop where
  egress : ∀ s, t.egress s = none
  md : ∀ s, t.md s = none

theorem vacant_replay {t : Thread} (h : Vacant t) (hr : t.replaying = true) (env : Env)
    {c : OrderCommand} (hc : isLoggable c.type = true) :
    Vacant (t.apply env c) ∧ (t.apply env c).replaying = true := by
  have hadm : admits env t c = true := by simp [admits, hr]
  have hp := pushes_apply hadm
  refine ⟨⟨fun s => ?_, fun s => ?_⟩, (core_admitted hadm).2.2.2.trans hr⟩
  · rw [hp.egress, egressAfter]
    cases htype : c.type with
    | sessionOpened => simp [htype, isLoggable] at hc
    | cancelAllForSession => by_cases hs : s = c.session <;> simp [hs, h.egress]
    | _ => exact h.egress s
  · rw [hp.md, mdAfter]
    cases htype : c.type with
    | sessionOpened => simp [htype, isLoggable] at hc
    | cancelAllForSession => by_cases hs : s = c.session <;> simp [hs, h.md]
    | _ => exact h.md s

theorem vacant_recover {t : Thread} (h : Vacant t) (env : Env) {cs : List OrderCommand}
    (hcs : ∀ c ∈ cs, isLoggable c.type = true) : Vacant (t.recover env cs) := by
  have hfold : ∀ (cs : List OrderCommand) (t : Thread),
      (∀ c ∈ cs, isLoggable c.type = true) → Vacant t →
      t.replaying = true → Vacant (cs.foldl (Thread.apply env) t) := by
    intro cs
    induction cs with
    | nil => exact fun _ _ h _ => h
    | cons c cs ih =>
      intro t hcs h hr
      obtain ⟨h', hr'⟩ := vacant_replay h hr env (hcs c (by simp))
      exact ih _ (fun d hd => hcs d (by simp [hd])) h' hr'
  have hv := hfold cs { t with replaying := true } hcs ⟨h.egress, h.md⟩ rfl
  exact ⟨hv.egress, hv.md⟩

theorem Booted.ready {t : Thread} (h : Booted t) :
    (∃ live, Sound t.ledger live) ∧ Vacant t ∧ t.replaying = false := by
  induction h with
  | fresh => exact ⟨⟨_, sound_initial⟩, ⟨fun _ => rfl, fun _ => rfl⟩, rfl⟩
  | restored risk wal snap lastSeq baseline h =>
    exact ⟨(Reached.restore risk wal snap lastSeq h).sound, ⟨fun _ => rfl, fun _ => rfl⟩, rfl⟩
  | @recovered t env cs hcs _ ih =>
    obtain ⟨⟨live, hs⟩, hv, -⟩ := ih
    refine ⟨?_, vacant_recover hv env hcs, rfl⟩
    rw [ledger_recover env hs.quiet]
    exact sound_folds t.risk cs ⟨live, hs⟩

structure Undisturbed (t t' : Thread) : Prop where
  ledger : t'.ledger = t.ledger
  egress : t'.egress = t.egress
  md : t'.md = t.md
  replaying : t'.replaying = t.replaying
  risk : t'.risk = t.risk

theorem Undisturbed.refl (t : Thread) : Undisturbed t t := ⟨rfl, rfl, rfl, rfl, rfl⟩

theorem undisturbed_housekeep (env : Env) (t : Thread) :
    Undisturbed t ((t.pollSync env).maybeSnapshot env) := by
  have hp := posted_maybeSnapshot env env (t.pollSync env)
  obtain ⟨_, -, h⟩ := core_maybeSnapshot env (t.pollSync env)
  exact ⟨congrArg Core.ledger h, hp.egress, hp.md, hp.replaying, congrArg Core.risk h⟩

/-- What the matching thread makes of a command, and what it then has to push.
Nothing comes of one whose record did not go down. -/
inductive Taken (env : Env) (t : Thread) (c : OrderCommand) (t' : Thread) :
    List (Nat × OrderEvent) → Prop where
  | refused (hadm : admits env t c = false) (h : Undisturbed t t') : Taken env t c t' []
  | admitted (hadm : admits env t c = true) (hledger : t'.ledger = (step t.risk t.ledger c).1)
      (hegress : t'.egress = egressAfter t c) (hmd : t'.md = mdAfter t c)
      (hreplaying : t'.replaying = t.replaying) :
      Taken env t c t' (routed t (step t.risk t.ledger c).2 ++ tombstone t c)

/-- The whole answer to a command reaches the queue of a session that is known. -/
theorem told_of_known {t : Thread} {es : List OrderEvent} {e : OrderEvent} (he : e ∈ es) {n : Nat}
    (hknown : t.egress e.session = some (some n)) (rest : List (Nat × OrderEvent)) :
    (n, e) ∈ routed t es ++ rest := by
  refine List.mem_append_left _ (List.mem_filterMap.mpr ⟨e, he, ?_⟩)
  rw [Thread.egressFor, hknown]
  rfl

theorem taken_applyPopped (env : Env) {t : Thread} (hserving : t.replaying = false)
    (c : OrderCommand) :
    Taken (roomy env) t c (t.applyPopped (roomy env) c)
      ((t.applyPopped (roomy env) c).pushed.drop t.pushed.length) := by
  cases hadm : admits (roomy env) t c with
  | false =>
    obtain ⟨w, n, k, happly⟩ := apply_refused hadm
    have hpushed : (t.applyPopped (roomy env) c).pushed = t.pushed := by
      rw [Thread.applyPopped, happly]
    rw [hpushed, List.drop_length]
    refine .refused hadm ?_
    rw [Thread.applyPopped, happly]
    exact ⟨rfl, rfl, rfl, rfl, rfl⟩
  | true =>
    obtain ⟨hledger, -, -, hreplaying⟩ := core_admitted hadm
    have hp := pushes_apply hadm
    have hpushed : (t.applyPopped (roomy env) c).pushed =
        t.pushed ++ (routed t (step t.risk t.ledger c).2 ++ tombstone t c) :=
          hp.roomy hserving fun _ => rfl
    rw [hpushed, List.drop_left]
    exact .admitted hadm hledger hp.egress hp.md hreplaying

/-- What a step does to the commands, the matching thread and the events it
still has to push. -/
inductive Flow (g : Gateway) (a : Action) (g' : Gateway) : Prop where
  | quiet (hnext : g'.nextSessionId = g.nextSessionId) (hin : g'.inbound = g.inbound)
      (happ : g'.applied = g.applied) (hout : g'.outbox = g.outbox ∨ ∃ p, g.outbox = p :: g'.outbox)
      (ht : Undisturbed g.thread g'.thread)
  | opened (hnext : g'.nextSessionId = g.nextSessionId + 1) (hlt : g.nextSessionId < 2 ^ 64)
      (hin : g'.inbound = g.inbound ∨ g'.inbound = g.inbound ++
        [.sessionOpened (UInt64.ofNat g.nextSessionId) (some g.nextSessionId)
          (some g.nextSessionId)]) (happ : g'.applied = g.applied) (hout : g'.outbox = g.outbox)
          (ht : g'.thread = g.thread)
  | sent {n : Nat} {c : Connection} {cmd : OrderCommand} (hc : g.conns n = some c)
      (halive : c.session.alive = true) (hsender : cmd.session = c.session.id)
      (hopened : cmd.type ≠ .sessionOpened)
      (hlast : cmd.type = .cancelAllForSession → ∃ c', g'.conns n = some c' ∧
        c'.session.alive = false) (hnext : g'.nextSessionId = g.nextSessionId)
      (hin : g'.inbound = g.inbound ++ [cmd]) (happ : g'.applied = g.applied)
      (hout : g'.outbox = g.outbox) (ht : g'.thread = g.thread)
  | taken {env : Env} {c : OrderCommand} (ha : a = .take env)
      (hnext : g'.nextSessionId = g.nextSessionId) (hin : g.inbound = c :: g'.inbound)
      (hempty : g.outbox = []) (hl : g.latching = none)
      (happ : g'.applied = if admits (roomy env) g.thread c then g.applied ++ [c] else g.applied)
      (ht : Taken (roomy env) g.thread c g'.thread g'.outbox)

theorem flow_moved {g g' : Gateway} {a : Action} (h : Moved g a g') (hg : Regular g)
    (hserving : g.thread.replaying = false) : Flow g a g' := by
  have hquiet : Undisturbed g.thread g.thread := .refl _
  cases h with
  | accepted ha hlt hpc ho hin =>
    refine .opened rfl hlt ?_ rfl rfl rfl
    obtain ⟨-, h⟩ | ⟨-, h⟩ := hin
    · exact Or.inr h
    · exact Or.inl h
  | requested ha hpc hc hroom hr hpc' =>
    refine .sent hc (hg.serving _ _ hpc hc) hr.sender (fun h => ?_)
      (fun h => ?_) rfl rfl rfl rfl rfl
    · simpa [h] using hr.request
    · simpa [h] using hr.request
  | @closed n c r hc ha hpc hclosed =>
    cases hclosed with
    | killed halive hroom =>
      exact .sent hc halive rfl (by simp [OrderCommand.cancelAll])
        (fun _ => ⟨killed c, Function.update_self .., rfl⟩) rfl rfl rfl rfl rfl
    | _ => exact .quiet rfl rfl rfl (Or.inl rfl) hquiet
  | taken ha hin hout hl => exact .taken ha rfl hin hout hl rfl (taken_applyPopped _ hserving _)
  | pushed ha hout => exact .quiet rfl rfl rfl (Or.inr ⟨_, hout⟩) hquiet
  | overflowing ha hout => exact .quiet rfl rfl rfl (Or.inr ⟨_, hout⟩) hquiet
  | lost ha hout => exact .quiet rfl rfl rfl (Or.inr ⟨_, hout⟩) hquiet
  | housekept env => exact .quiet rfl rfl rfl (Or.inl rfl) (undisturbed_housekeep env g.thread)
  | _ => exact .quiet rfl rfl rfl (Or.inl rfl) hquiet

def waiting (g : Gateway) (n : Nat) : List OrderEvent :=
  ((g.conns n).map fun c => c.egress.items).getD []

theorem waiting_of {g : Gateway} {n : Nat} {c : Connection} (hc : g.conns n = some c) :
    waiting g n = c.egress.items := by simp [waiting, hc]

theorem waiting_touched {g g' : Gateway} {a : Action} {m : Nat} (h : Touched g a m g')
    {e : OrderEvent} (he : e ∈ waiting g' m) :
    e ∈ waiting g m ∨ g.outbox = (m, e) :: g'.outbox := by
  cases hc' : g'.conns m with
  | none => simp [waiting, hc'] at he
  | some c' =>
    rw [waiting_of hc'] at he
    obtain ⟨c, hc, hal⟩ | ⟨ho, -, -⟩ := h.before hc'
    · rw [waiting_of hc]
      cases hal with
      | kept hk => exact Or.inl (hk.egress ▸ he)
      | requested ha hr => exact Or.inl (hr.egress ▸ he)
      | popped hitems =>
        rw [(delivering_deliver _ _).egress] at he
        rw [hitems]
        exact Or.inl (List.mem_cons_of_mem _ he)
      | pushed hout =>
        obtain he | he := List.mem_append.mp he
        · exact Or.inl he
        · rw [hout, List.mem_singleton.mp he]
          exact Or.inr rfl
      | _ => exact Or.inl he
    · rw [ho.egress] at he
      cases he

theorem waiting_stays {g g' : Gateway} {a : Action} {m : Nat} (h : Touched g a m g')
    (hr : Regular g) {c' : Connection} (hc' : g'.conns m = some c') {e : OrderEvent}
    (he : e ∈ waiting g m) :
    e ∈ waiting g' m ∨ ∃ c items, g.conns m = some c ∧ c.egress.items = e :: items ∧
      c' = (queued c items).deliver e := by
  rw [waiting_of hc']
  obtain ⟨c, hc, hal⟩ | ⟨-, hm, -⟩ := h.before hc'
  · rw [waiting_of hc] at he
    cases hal with
    | kept hk => exact Or.inl (by rw [hk.egress]; exact he)
    | requested ha hreq => exact Or.inl (by rw [hreq.egress]; exact he)
    | @popped f items hitems =>
      rw [hitems] at he
      obtain rfl | he := List.mem_cons.mp he
      · exact Or.inr ⟨c, items, hc, hitems, rfl⟩
      · rw [(delivering_deliver _ _).egress]
        exact Or.inl he
    | pushed => exact Or.inl (List.mem_append_left _ he)
    | _ => exact Or.inl he
  · cases hc : g.conns m with
    | none => simp [waiting, hc] at he
    | some c => exact absurd (hr.below m c hc).2 (by omega)

theorem outbox_stays {g g' : Gateway} {a : Action} (h : Moved g a g') {n : Nat} {c : Connection}
    (hc : g.conns n = some c) {e : OrderEvent} (he : (n, e) ∈ g.outbox) :
    (n, e) ∈ g'.outbox ∨ e ∈ waiting g' n ∨
      a = .push ∧ (∃ outbox, g.outbox = (n, e) :: outbox) ∧
        ¬c.egress.items.length < egressCapacity ∧
        (e.type ≠ .sessionRetired → g'.latching = some n) := by
  have hhead : ∀ {m f outbox}, g.outbox = (m, f) :: outbox → (n, e) ∈ outbox ∨ n = m ∧ e = f := by
    intro m f outbox hout
    rw [hout, List.mem_cons, Prod.mk.injEq] at he
    exact he.symm
  cases h with
  | taken ha hin hout => simp [hout] at he
  | @pushed m f outbox d ha hout hl hd hroom =>
    obtain he | ⟨rfl, rfl⟩ := hhead hout
    · exact Or.inl he
    · refine Or.inr (Or.inl ?_)
      rw [waiting_of (Function.update_self ..)]
      exact List.mem_append_right _ List.mem_cons_self
  | @overflowing m f outbox d ha hout hl hd hfull =>
    obtain he | ⟨rfl, rfl⟩ := hhead hout
    · exact Or.inl he
    · rw [hc, Option.some.injEq] at hd
      exact Or.inr (Or.inr ⟨ha, ⟨outbox, hout⟩, hd ▸ hfull, fun _ => rfl⟩)
  | @lost m f outbox ha hout hl hlost =>
    obtain he | ⟨rfl, rfl⟩ := hhead hout
    · exact Or.inl he
    · obtain hnone | ⟨d, hd, hfull, htype⟩ := hlost
      · simp [hnone] at hc
      · rw [hc, Option.some.injEq] at hd
        exact Or.inr (Or.inr ⟨ha, ⟨outbox, hout⟩, hd ▸ hfull, fun h => absurd htype h⟩)
  | _ => exact Or.inl he

def Issued (g : Gateway) (s : UInt64) : Prop := 0 < s.toNat ∧ s.toNat < g.nextSessionId

theorem issued_last {g g' : Gateway} (hnext : g'.nextSessionId = g.nextSessionId + 1) {s : UInt64}
    (hs : Issued g' s) (hnot : ¬Issued g s) : s = UInt64.ofNat g.nextSessionId := by
  obtain ⟨hpos, hlt⟩ := hs
  have hge : ¬s.toNat < g.nextSessionId := fun hlt => hnot ⟨hpos, hlt⟩
  have hsame : s.toNat = g.nextSessionId := by omega
  rw [← hsame, UInt64.ofNat_toNat]

/-- Whatever is under way names a session that was accepted, and the queue of
that session. -/
structure Addressed (g : Gateway) : Prop where
  sound : ∃ live, Sound g.thread.ledger live
  replaying : g.thread.replaying = false
  commands : ∀ c ∈ g.applied ++ g.inbound, Issued g c.session
  opening : ∀ c ∈ g.inbound, c.type = .sessionOpened →
    c.egress = some c.session.toNat ∧ c.mdQueue = some c.session.toNat
  egress : ∀ s q, g.thread.egress s = some q → q = some s.toNat ∧ Issued g s
  md : ∀ s q, g.thread.md s = some q → q = some s.toNat ∧ Issued g s
  outbox : ∀ p ∈ g.outbox, p.1 = p.2.session.toNat ∧ Issued g p.2.session
  waiting : ∀ n, ∀ e ∈ waiting g n, e.session.toNat = n

theorem addressed_initial {t : Thread} (h : Booted t) : Addressed (.initial t) := by
  obtain ⟨hs, hv, hr⟩ := h.ready
  refine ⟨hs, hr, fun _ hc => absurd hc List.not_mem_nil, fun _ hc => absurd hc List.not_mem_nil,
    fun s q hq => ?_, fun s q hq => ?_, fun _ hp => absurd hp List.not_mem_nil,
    fun _ _ he => absurd he List.not_mem_nil⟩
  · exact absurd ((hv.egress s).symm.trans hq) (Option.some_ne_none q).symm
  · exact absurd ((hv.md s).symm.trans hq) (Option.some_ne_none q).symm

theorem registered_after {m : UInt64 → Option (Option Nat)} {s : UInt64} {q : Option Nat}
    {c : OrderCommand} {queue : Option Nat} {g : Gateway}
    (hm : ∀ s q, m s = some q → q = some s.toNat ∧ Issued g s)
    (hopening : c.type = .sessionOpened → queue = some c.session.toNat) (hc : Issued g c.session)
    (h : (match c.type with
      | .sessionOpened => Function.update m c.session (some queue)
      | .cancelAllForSession => Function.update m c.session none
      | _ => m) s = some q) : q = some s.toNat ∧ Issued g s := by
  cases htype : c.type with
  | sessionOpened =>
    simp only [htype] at h
    by_cases hs : s = c.session
    · rw [hs, Function.update_self, Option.some.injEq] at h
      rw [← h, hopening htype, hs]
      exact ⟨rfl, hc⟩
    · rw [Function.update_of_ne hs] at h
      exact hm s q h
  | cancelAllForSession =>
    simp only [htype] at h
    by_cases hs : s = c.session
    · rw [hs, Function.update_self] at h
      cases h
    · rw [Function.update_of_ne hs] at h
      exact hm s q h
  | _ =>
    simp only [htype] at h
    exact hm s q h

theorem egress_of_egressFor {t : Thread} {s : UInt64} {q : Nat} (h : t.egressFor s = some q) :
    t.egress s = some (some q) := Option.join_eq_some_iff.mp h

theorem outbox_taken {env : Env} {t t' : Thread} {c : OrderCommand} {out : List (Nat × OrderEvent)}
    (h : Taken env t c t' out) {p : Nat × OrderEvent} (hp : p ∈ out) :
    t.egress p.2.session = some (some p.1) := by
  cases h with
  | refused => cases hp
  | admitted =>
    obtain hp | hp := List.mem_append.mp hp
    · obtain ⟨e, -, hq⟩ := List.mem_filterMap.mp hp
      obtain ⟨q, hq', rfl⟩ := Option.map_eq_some_iff.mp hq
      exact egress_of_egressFor hq'
    · unfold tombstone at hp
      split at hp
      · obtain ⟨q, hq, rfl⟩ := List.mem_map.mp hp
        exact egress_of_egressFor (Option.mem_toList.mp hq)
      · cases hp

theorem trace_taken {env : Env} {g g' : Gateway} {c : OrderCommand}
    (hin : g.inbound = c :: g'.inbound)
    (happ : g'.applied = if admits (roomy env) g.thread c then g.applied ++ [c] else g.applied) :
    (g'.applied ++ g'.inbound).Sublist (g.applied ++ g.inbound) := by
  rw [happ, hin]
  split
  · rw [List.append_assoc]
    exact List.Sublist.refl _
  · exact (List.Sublist.refl _).append (List.sublist_cons_self _ _)

theorem addressed_moved {g g' : Gateway} {a : Action} (h : Moved g a g') (hg : Regular g)
    (hi : Addressed g) :
    Addressed g' := by
  have hwaiting : ∀ n, ∀ e ∈ waiting g' n, e.session.toNat = n := by
    intro n e he
    obtain he | he := waiting_touched (h.touched n) he
    · exact hi.waiting n e he
    · exact (hi.outbox _ (he ▸ List.mem_cons_self)).1.symm
  have hf := flow_moved h hg hi.replaying
  have hsame : g'.nextSessionId = g.nextSessionId → ∀ s, Issued g' s ↔ Issued g s :=
    fun hnext s => by rw [Issued, hnext, Issued]
  cases hf with
  | quiet hnext hin happ hout ht =>
    refine ⟨by rw [ht.ledger]; exact hi.sound, ht.replaying.trans hi.replaying, ?_, ?_, ?_, ?_,
      ?_, hwaiting⟩
    · simpa only [happ, hin, hsame hnext] using hi.commands
    · rw [hin]
      exact hi.opening
    · simpa only [ht.egress, hsame hnext] using hi.egress
    · simpa only [ht.md, hsame hnext] using hi.md
    · intro p hp
      rw [hsame hnext]
      obtain ho | ⟨q, ho⟩ := hout
      · exact hi.outbox p (ho ▸ hp)
      · exact hi.outbox p (ho ▸ List.mem_cons_of_mem _ hp)
  | opened hnext hlt hin happ hout ht =>
    have hle : g.nextSessionId < g'.nextSessionId := hnext ▸ Nat.lt_succ_self _
    have hmono : ∀ s, Issued g s → Issued g' s := fun s h => h.imp_right (·.trans hle)
    have hid : (UInt64.ofNat g.nextSessionId).toNat = g.nextSessionId :=
      UInt64.toNat_ofNat_of_lt' hlt
    refine ⟨ht ▸ hi.sound, ht ▸ hi.replaying, fun c hc => ?_, fun c hc htype => ?_,
      fun s q hq => ?_, fun s q hq => ?_, fun p hp => ?_, hwaiting⟩
    · rw [happ] at hc
      obtain hin | hin := hin
      · exact hmono _ (hi.commands c (hin ▸ hc))
      · rw [hin, ← List.append_assoc] at hc
        obtain hc | hc := List.mem_append.mp hc
        · exact hmono _ (hi.commands c hc)
        · rw [List.mem_singleton.mp hc]
          exact ⟨hid.symm ▸ hg.started, hid.trans_lt hle⟩
    · obtain hin | hin := hin
      · exact hi.opening c (hin ▸ hc) htype
      · rw [hin] at hc
        obtain hc | hc := List.mem_append.mp hc
        · exact hi.opening c hc htype
        · rw [List.mem_singleton.mp hc]
          exact ⟨congrArg some hid.symm, congrArg some hid.symm⟩
    · exact (hi.egress s q (ht ▸ hq)).imp_right (hmono s)
    · exact (hi.md s q (ht ▸ hq)).imp_right (hmono s)
    · exact (hi.outbox p (hout ▸ hp)).imp_right (hmono _)
  | @sent n c cmd hc halive hsender hopened hlast hnext hin happ hout ht =>
    have hcmd : Issued g cmd.session := by
      have hn := hg.below n c hc
      rw [hsender, Issued, hg.named hc]
      exact hn
    refine ⟨ht ▸ hi.sound, ht ▸ hi.replaying, fun d hd => ?_, fun d hd htype => ?_, ?_, ?_,
      ?_, hwaiting⟩
    · rw [happ, hin, ← List.append_assoc] at hd
      rw [hsame hnext]
      obtain hd | hd := List.mem_append.mp hd
      · exact hi.commands d hd
      · rw [List.mem_singleton.mp hd]
        exact hcmd
    · rw [hin] at hd
      obtain hd | hd := List.mem_append.mp hd
      · exact hi.opening d hd htype
      · rw [List.mem_singleton.mp hd] at htype
        exact absurd htype hopened
    · simpa only [ht, hsame hnext] using hi.egress
    · simpa only [ht, hsame hnext] using hi.md
    · simpa only [hout, hsame hnext] using hi.outbox
  | @taken env c ha hnext hin hempty hl happ ht =>
    have hmem : c ∈ g.inbound := by simp [hin]
    have hcmd : Issued g c.session := hi.commands c (List.mem_append_right _ hmem)
    have hout : ∀ p ∈ g'.outbox, p.1 = p.2.session.toNat ∧ Issued g' p.2.session := by
      intro p hp
      obtain ⟨hq, hlt⟩ := hi.egress _ _ (outbox_taken ht hp)
      exact ⟨Option.some.inj hq, (hsame hnext _).mpr hlt⟩
    have hcommands : ∀ d ∈ g'.applied ++ g'.inbound, Issued g' d.session :=
      fun d hd => (hsame hnext _).mpr (hi.commands d ((trace_taken hin happ).subset hd))
    have hopening : ∀ d ∈ g'.inbound, d.type = .sessionOpened →
        d.egress = some d.session.toNat ∧ d.mdQueue = some d.session.toNat :=
      fun d hd => hi.opening d (by simp [hin, hd])
    have hafter : (∃ live, Sound g'.thread.ledger live) ∧ g'.thread.replaying = false ∧
        (∀ s q, g'.thread.egress s = some q → q = some s.toNat ∧ Issued g' s) ∧
        ∀ s q, g'.thread.md s = some q → q = some s.toNat ∧ Issued g' s := by
      simp only [hsame hnext]
      generalize g'.outbox = out at ht
      cases ht with
      | refused hadm hu =>
        rw [hu.ledger, hu.replaying, hu.egress, hu.md]
        exact ⟨hi.sound, hi.replaying, hi.egress, hi.md⟩
      | admitted hadm hledger hegress hmd hreplaying =>
        obtain ⟨live, hs⟩ := hi.sound
        rw [hledger, hreplaying, hegress, hmd]
        exact ⟨sound_step hs _ c, hi.replaying,
          fun s q => registered_after hi.egress (fun htype => (hi.opening c hmem htype).1) hcmd,
          fun s q => registered_after hi.md (fun htype => (hi.opening c hmem htype).2) hcmd⟩
    exact ⟨hafter.1, hafter.2.1, hcommands, hopening, hafter.2.2.1, hafter.2.2.2, hout, hwaiting⟩

structure Running (g : Gateway) : Prop where
  regular : Regular g
  addressed : Addressed g

theorem running_initial {t : Thread} (h : Booted t) : Running (.initial t) :=
  ⟨regular_initial t, addressed_initial h⟩

theorem Running.step {g : Gateway} (h : Running g) (cfg : ServerConfig) (a : Action) :
    Running (g.step cfg a) :=
  ⟨regular_step cfg h.regular a, addressed_moved (moved_step cfg h.regular a) h.regular h.addressed⟩

theorem Running.run {g : Gateway} (h : Running g) (cfg : ServerConfig) (as : List Action) :
    Running (g.run cfg as) := by
  induction as generalizing g with
  | nil => exact h
  | cons a as ih => exact ih (h.step cfg a)

theorem Running.moved {g : Gateway} (h : Running g) (cfg : ServerConfig) (a : Action) :
    Moved g a (g.step cfg a) :=
  moved_step cfg h.regular a

theorem next_run (cfg : ServerConfig) (as : List Action) {g : Gateway} (hr : Running g)
    (has : ∀ a ∈ as, ∀ nowNs, a ≠ .accept nowNs) :
    (g.run cfg as).nextSessionId = g.nextSessionId := by
  induction as generalizing g with
  | nil => rfl
  | cons a as ih =>
    refine (ih (hr.step cfg a) fun b hb => has b (List.mem_cons_of_mem _ hb)).trans ?_
    obtain hnext | ⟨hnext, -⟩ := next_moved (hr.moved cfg a)
    · exact hnext
    · obtain ⟨nowNs, ha⟩ := opening_accepts (hr.moved cfg a) hnext
      exact absurd ha (has a List.mem_cons_self nowNs)

end OrderMatching.Sessions
