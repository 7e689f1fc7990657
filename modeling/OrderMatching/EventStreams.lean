import OrderMatching.Accounting
import OrderMatching.Uncrossed

namespace OrderMatching.EventStreams

open OrderMatching.Orders OrderMatching.Book OrderMatching.Engine OrderMatching.Queues
open OrderMatching.Commands OrderMatching.Log OrderMatching.Exchange OrderMatching.MatchingThread
open OrderMatching.LedgerStep OrderMatching.LogFold OrderMatching.Registry OrderMatching.Acceptance
open OrderMatching.Bookkeeping OrderMatching.Answers OrderMatching.Posting OrderMatching.Modify
open OrderMatching.StepCases OrderMatching.Accounting OrderMatching.Uncrossed

/-- The turns a call of `drain` is made of. -/
inductive Turn where
  | pop (c : OrderCommand)
  | sync
  | snapshot

def turn (env : Env) (t : Thread) : Turn → Thread
  | .pop c => t.applyPopped env c
  | .sync => t.pollSync env
  | .snapshot => t.maybeSnapshot env

def turns (env : Env) (t : Thread) (ts : List Turn) : Thread := ts.foldl (turn env) t

theorem turns_append (env : Env) (t : Thread) (as bs : List Turn) :
    turns env t (as ++ bs) = turns env (turns env t as) bs := List.foldl_append

theorem drain_eq_turns (env : Env) (t : Thread) (batch : List OrderCommand) :
    t.drain env batch =
      turns env t (batch.map .pop ++ ((if batch.isEmpty then [] else [.sync]) ++ [.snapshot])) := by
  have hpops : turns env t (batch.map .pop) = batch.foldl (Thread.applyPopped env) t := by
    rw [turns, List.foldl_map]
    rfl
  rw [Thread.drain, turns_append, hpops]
  cases batch <;> rfl

def Registering (queueOf : UInt64 → Nat) (t : Thread) : Turn → Prop
  | .pop c =>
    if c.type = .sessionOpened then c.egress = some (queueOf c.session)
    else t.egressFor c.session = some (queueOf c.session)
  | _ => True

/-- Every command of the run comes from a session that is registered then. -/
def RegisteredRun (env : Env) (queueOf : UInt64 → Nat) : Thread → List Turn → Prop
  | _, [] => True
  | t, a :: ts => Registering queueOf t a ∧ RegisteredRun env queueOf (turn env t a) ts

instance (queueOf : UInt64 → Nat) (t : Thread) : DecidablePred (Registering queueOf t)
  | .pop _ => inferInstanceAs (Decidable (ite _ _ _))
  | .sync => isTrue trivial
  | .snapshot => isTrue trivial

instance decidableRegisteredRun (env : Env) (queueOf : UInt64 → Nat) :
    ∀ (t : Thread) (ts : List Turn), Decidable (RegisteredRun env queueOf t ts)
  | _, [] => isTrue trivial
  | t, a :: ts =>
    have := decidableRegisteredRun env queueOf (turn env t a) ts
    inferInstanceAs (Decidable (_ ∧ _))

/-- The owners of the live orders are registered. -/
def Attended (queueOf : UInt64 → Nat) (t : Thread) : Prop :=
  ∀ x s, t.ledger.ownerOf x = some s → t.egressFor s = some (queueOf s)

/-- What has been pushed from `t` on to `t'`. -/
def pushedSince (t t' : Thread) : List (Nat × OrderEvent) := t'.pushed.drop t.pushed.length

/-- The order events pushed to one queue from `t` on to `t'`. -/
def stream (t t' : Thread) (q : Nat) : List OrderEvent :=
  (((pushedSince t t').filter (fun p => p.1 = q)).map Prod.snd).filter
    (fun e => e.type ≠ .sessionRetired)

/-- From `t` on to `t'` each of the events `es` went to the queue of its
session, and nothing else but tombstones was pushed. -/
def Told (queueOf : UInt64 → Nat) (t t' : Thread) (es : List OrderEvent) : Prop :=
  ∃ ps, t'.pushed = t.pushed ++ ps ∧
    ps.filter (fun p => p.2.type ≠ .sessionRetired) = es.map fun e => (queueOf e.session, e)

theorem Told.trans {queueOf : UInt64 → Nat} {t t' t'' : Thread} {es fs : List OrderEvent}
    (h : Told queueOf t t' es) (h' : Told queueOf t' t'' fs) : Told queueOf t t'' (es ++ fs) := by
  obtain ⟨ps, hps, hes⟩ := h
  obtain ⟨qs, hqs, hfs⟩ := h'
  refine ⟨ps ++ qs, ?_, ?_⟩
  · rw [hqs, hps, List.append_assoc]
  · rw [List.filter_append, hes, hfs, List.map_append]

theorem Told.pushed {queueOf : UInt64 → Nat} {t t' : Thread} {es : List OrderEvent}
    (h : Told queueOf t t' es) :
    (pushedSince t t').filter (fun p => p.2.type ≠ .sessionRetired) = es.map fun e =>
      (queueOf e.session, e) := by
  obtain ⟨ps, hps, hes⟩ := h
  rw [pushedSince, hps, List.drop_left, hes]

theorem Told.stream {queueOf : UInt64 → Nat} {t t' : Thread} {es : List OrderEvent}
    (h : Told queueOf t t' es) (hq : Function.Injective queueOf) (s : UInt64) :
    stream t t' (queueOf s) = es.filter (fun e => e.session = s) := by
  have hswap : EventStreams.stream t t' (queueOf s) = (((pushedSince t t').filter
      (fun p => p.2.type ≠ .sessionRetired)).filter (fun p => p.1 = queueOf s)).map Prod.snd := by
    rw [EventStreams.stream, List.filter_map, List.filter_filter, List.filter_filter]
    congr 2
    funext p
    simp [Bool.and_comm]
  have hid : (Prod.snd ∘ fun e : OrderEvent => (queueOf e.session, e)) = id := rfl
  rw [hswap, h.pushed, List.filter_map, List.map_map, hid, List.map_id]
  congr 1
  funext e
  simp [hq.eq_iff]

/-- A thread `t` that has been serving registered sessions since `t₀`, with the
events it has told them. -/
structure Reporting (queueOf : UInt64 → Nat) (t₀ t : Thread) (live : Nat → Option Entry)
    (es : List OrderEvent) : Prop where
  sound : Sound t.ledger live
  serving : t.replaying = false
  owners : ∀ x d, live x = some d → t.egressFor d.owner = some (queueOf d.owner)
  told : Told queueOf t₀ t es
  known : ∀ e ∈ es, e.exchangeOrderId < t.ledger.nextExchangeId

theorem routed_registered {queueOf : UInt64 → Nat} {t : Thread} {es : List OrderEvent}
    (h : ∀ e ∈ es, t.egressFor e.session = some (queueOf e.session)) :
    routed t es = es.map fun e => (queueOf e.session, e) := by
  induction es with
  | nil => rfl
  | cons e es ih =>
    have he := h e (by simp)
    rw [routed, List.filterMap_cons, he, Option.map_some, List.map_cons,
      ← ih fun d hd => h d (by simp [hd])]
    rfl

theorem tombstone_filter (t : Thread) (c : OrderCommand) :
    (tombstone t c).filter (fun p => p.2.type ≠ .sessionRetired) = [] := by
  refine List.filter_eq_nil_iff.mpr fun p hp => ?_
  unfold tombstone at hp
  split at hp
  · obtain ⟨q, -, rfl⟩ := List.mem_map.mp hp
    simp [OrderEvent.sessionRetired]
  · cases hp

theorem egressFor_other {t t' : Thread} {c : OrderCommand} (h : t'.egress = egressAfter t c)
    {s : UInt64} (hs : s ≠ c.session) : t'.egressFor s = t.egressFor s := by
  have hsame : egressAfter t c s = t.egress s := by
    unfold egressAfter
    cases c.type <;> simp [hs]
  rw [Thread.egressFor, h, hsame, Thread.egressFor]

theorem egressFor_sender {queueOf : UInt64 → Nat} {t t' : Thread} {c : OrderCommand}
    (h : t'.egress = egressAfter t c) (hreg : Registering queueOf t (.pop c))
    (hc : c.type ≠ .cancelAllForSession) :
    t'.egressFor c.session = some (queueOf c.session) := by
  rw [Thread.egressFor, h, egressAfter]
  cases htype : c.type with
  | sessionOpened =>
    rw [Registering, if_pos htype] at hreg
    simp [hreg]
  | cancelAllForSession => exact absurd htype hc
  | _ =>
    rw [Registering, if_neg (by simp [htype])] at hreg
    exact hreg

/-- What one command does for a thread that is serving: nothing at all if its
record did not go down, else a step whose events all arrive. -/
inductive Advances (env : Env) (t : Thread) (live : Nat → Option Entry) (c : OrderCommand) :
    (Nat → Option Entry) → List OrderEvent → Nat → Prop where
  | refused (h : admits env t c = false) : Advances env t live c live [] t.ledger.nextExchangeId
  | stepped (h : admits env t c = true) {live' : Nat → Option Entry} {es : List OrderEvent}
      {n : Nat} (hstep : Stepped t.risk t.ledger live c live' es n) :
      Advances env t live c live' es n

theorem told_apply {queueOf : UInt64 → Nat} {env : Env} {t : Thread}
    {live live' : Nat → Option Entry} {c : OrderCommand} {n : Nat} (hs : Sound t.ledger live)
    (hserving : t.replaying = false)
    (howners : ∀ x d, live x = some d → t.egressFor d.owner = some (queueOf d.owner))
    (hreg : Registering queueOf t (.pop c))
    (hflow : (t.apply env c).stats.egressOverflows = t.stats.egressOverflows)
    (hadm : admits env t c = true)
    (hstep : Stepped t.risk t.ledger live c live' (step t.risk t.ledger c).2 n) :
    Told queueOf t (t.apply env c) (step t.risk t.ledger c).2 := by
  obtain ⟨tail, htail, hpushed⟩ := (pushes_apply hadm).counted hserving hflow
  have hsent : ∀ e ∈ (step t.risk t.ledger c).2,
      t.egressFor e.session = some (queueOf e.session) := by
    intro e he
    obtain ⟨-, hs | ⟨x, d, hd, hs⟩⟩ := hstep.told hs e he
    · have hopened : c.type ≠ .sessionOpened := by
        intro hc
        rw [step, hc] at he
        cases he
      rw [Registering, if_neg hopened] at hreg
      rw [hs, hreg]
    · rw [hs]
      exact howners x d hd
  have htail' : tail.filter (fun p => p.2.type ≠ .sessionRetired) = [] := by
    obtain rfl | rfl := htail
    · rfl
    · exact tombstone_filter t c
  refine ⟨_, hpushed, ?_⟩
  rw [List.filter_append, htail', List.append_nil, routed_registered hsent]
  refine List.filter_eq_self.mpr fun p hp => ?_
  obtain ⟨e, he, rfl⟩ := List.mem_map.mp hp
  simpa using hstep.alerts e he

theorem owners_step {queueOf : UInt64 → Nat} {t t' : Thread} {live live' : Nat → Option Entry}
    {c : OrderCommand} {es : List OrderEvent} {n : Nat} (hs : Sound t.ledger live)
    (howners : ∀ x d, live x = some d → t.egressFor d.owner = some (queueOf d.owner))
    (hreg : Registering queueOf t (.pop c)) (hegress : t'.egress = egressAfter t c)
    (hstep : Stepped t.risk t.ledger live c live' es n) {x : Nat} {d : Entry}
    (hd : live' x = some d) :
    t'.egressFor d.owner = some (queueOf d.owner) := by
  by_cases ho : d.owner = c.session
  · rw [ho]
    exact egressFor_sender hegress hreg fun hretire => hstep.retires hs hretire hd ho
  · rw [egressFor_other hegress ho]
    obtain ⟨-, -, ho', -⟩ | ⟨d', hd', ho', -⟩ := hstep.names hs hd
    · exact absurd ho' ho
    · rw [ho']
      exact howners x d' hd'

theorem Reporting.pop {queueOf : UInt64 → Nat} {env : Env} {t₀ t : Thread}
    {live : Nat → Option Entry} {es : List OrderEvent} {c : OrderCommand}
    (h : Reporting queueOf t₀ t live es) (hreg : Registering queueOf t (.pop c))
    (hflow : (t.applyPopped env c).stats.egressOverflows = t.stats.egressOverflows) :
    ∃ live' fs, Reporting queueOf t₀ (t.applyPopped env c) live' (es ++ fs) ∧
      Told queueOf t (t.applyPopped env c) fs ∧
      Advances env t live c live' fs (t.applyPopped env c).ledger.nextExchangeId := by
  cases hadm : admits env t c with
  | false =>
    obtain ⟨w, n, k, happly⟩ := apply_refused hadm
    have hledger : (t.applyPopped env c).ledger = t.ledger := by rw [Thread.applyPopped, happly]
    have hegress : (t.applyPopped env c).egress = t.egress := by rw [Thread.applyPopped, happly]
    have hserving : (t.applyPopped env c).replaying = t.replaying := by
      rw [Thread.applyPopped, happly]
    have htold : Told queueOf t (t.applyPopped env c) [] := by
      refine ⟨[], ?_, rfl⟩
      rw [Thread.applyPopped, happly, List.append_nil]
    refine ⟨live, [],
      ⟨hledger ▸ h.sound, hserving.trans h.serving, ?_, h.told.trans htold, ?_⟩, htold, ?_⟩
    · simpa only [Thread.egressFor, hegress] using h.owners
    · simpa only [hledger, List.append_nil] using h.known
    · rw [hledger]
      exact .refused hadm
  | true =>
    obtain ⟨hledger, -, -, hserving⟩ := core_admitted hadm
    obtain ⟨live', hsound, hstep⟩ := step_cases h.sound t.risk c
    have htold : Told queueOf t (t.applyPopped env c) (step t.risk t.ledger c).2 :=
      told_apply h.sound h.serving h.owners hreg hflow hadm hstep
    have hledger' : (t.applyPopped env c).ledger = (step t.risk t.ledger c).1 := hledger
    refine ⟨live', _,
      ⟨hledger' ▸ hsound, hserving.trans h.serving, fun x d hd => ?_, h.told.trans htold,
      fun e he => ?_⟩, htold, ?_⟩
    · exact owners_step h.sound h.owners hreg (pushes_apply hadm).egress hstep hd
    · rw [hledger']
      obtain he | he := List.mem_append.mp he
      · exact (h.known e he).trans_le hstep.next_le
      · exact (hstep.told h.sound e he).1
    · rw [hledger']
      exact .stepped hadm hstep

theorem Reporting.quiet {queueOf : UInt64 → Nat} {t₀ t t' : Thread} {live : Nat → Option Entry}
    {es : List OrderEvent} (h : Reporting queueOf t₀ t live es) (hledger : t'.ledger = t.ledger)
    (hposted : Posted .obliging t t' []) : Reporting queueOf t₀ t' live es := by
  have hpushed := hposted.pushed h.serving (hposted.roomy fun _ => rfl)
  have htold : Told queueOf t t' [] := ⟨[], hpushed, rfl⟩
  refine ⟨hledger ▸ h.sound, hposted.replaying.trans h.serving, ?_,
    by simpa using h.told.trans htold, ?_⟩
  · simpa only [Thread.egressFor, hposted.egress] using h.owners
  · simpa only [hledger] using h.known

theorem posted_maybeSnapshot (env env' : Env) (t : Thread) :
    Posted env' t (t.maybeSnapshot env) [] := by
  unfold Thread.maybeSnapshot
  split
  · exact .refl env' t
  · split
    · exact .refl env' t
    · dsimp only
      split <;> split <;> exact .silent rfl rfl rfl rfl rfl

theorem overflows_turn (env : Env) (t : Thread) (a : Turn) :
    t.stats.egressOverflows ≤ (turn env t a).stats.egressOverflows := by
  cases a with
  | pop c =>
    show _ ≤ (t.apply env c).stats.egressOverflows
    cases hadm : admits env t c with
    | false =>
      obtain ⟨w, n, k, happly⟩ := apply_refused hadm
      rw [happly]
    | true => exact (pushes_apply hadm).overflows
  | sync => exact Nat.le_refl _
  | snapshot => exact (posted_maybeSnapshot env env t).overflows

theorem overflows_turns (env : Env) (t : Thread) (ts : List Turn) :
    t.stats.egressOverflows ≤ (turns env t ts).stats.egressOverflows := by
  induction ts generalizing t with
  | nil => exact Nat.le_refl _
  | cons a ts ih => exact (overflows_turn env t a).trans (ih _)

theorem registeredRun_append {env : Env} {queueOf : UInt64 → Nat} {t : Thread} {as bs : List Turn}
    (h : RegisteredRun env queueOf t (as ++ bs)) :
    RegisteredRun env queueOf t as ∧ RegisteredRun env queueOf (turns env t as) bs := by
  induction as generalizing t with
  | nil => exact ⟨trivial, h⟩
  | cons a as ih =>
    obtain ⟨h1, h2⟩ := ih h.2
    exact ⟨⟨h.1, h1⟩, h2⟩

theorem Advances.running {env : Env} {t : Thread} {live live' : Nat → Option Entry}
    {c : OrderCommand} {es fs : List OrderEvent} {n : Nat} (h : Advances env t live c live' fs n)
    (hs : Sound t.ledger live) {s : UInt64} {x q : Nat} (hx : x < t.ledger.nextExchangeId)
    (hx₀ : x ≠ 0) (hrun : Running s x q es (live x)) :
    Running s x q (es ++ fs) (live' x) := by
  cases h with
  | refused => simpa using hrun
  | stepped _ hstep => exact running_step hs hstep hx hx₀ hrun

theorem Advances.next_le {env : Env} {t : Thread} {live live' : Nat → Option Entry}
    {c : OrderCommand} {fs : List OrderEvent} {n : Nat} (h : Advances env t live c live' fs n) :
    t.ledger.nextExchangeId ≤ n := by
  cases h with
  | refused => exact Nat.le_refl _
  | stepped _ hstep => exact hstep.next_le

theorem Reporting.turns {queueOf : UInt64 → Nat} {env : Env} {t₀ t : Thread}
    {live : Nat → Option Entry} {es : List OrderEvent} {ts : List Turn}
    (h : Reporting queueOf t₀ t live es) (hreg : RegisteredRun env queueOf t ts)
    (hflow : (turns env t ts).stats.egressOverflows = t.stats.egressOverflows) :
    ∃ live' fs, Reporting queueOf t₀ (turns env t ts) live' (es ++ fs) ∧
      ∀ {s x q}, x < t.ledger.nextExchangeId → x ≠ 0 → Running s x q es (live x) →
        Running s x q (es ++ fs) (live' x) := by
  induction ts generalizing t live es with
  | nil =>
    refine ⟨live, [], ?_, fun _ _ hrun => by simpa using hrun⟩
    rw [List.append_nil]
    exact h
  | cons a ts ih =>
    have hfirst := overflows_turn env t a
    have hrest := overflows_turns env (turn env t a) ts
    have hall : (EventStreams.turns env (turn env t a) ts).stats.egressOverflows =
        t.stats.egressOverflows := hflow
    have hnow : (turn env t a).stats.egressOverflows = t.stats.egressOverflows := by omega
    have hlater : (EventStreams.turns env (turn env t a) ts).stats.egressOverflows =
        (turn env t a).stats.egressOverflows := by omega
    cases a with
    | pop c =>
      obtain ⟨live₁, fs, h₁, -, hadv⟩ := h.pop hreg.1 hnow
      obtain ⟨live₂, gs, h₂, hrun₂⟩ := ih h₁ hreg.2 hlater
      refine ⟨live₂, fs ++ gs, ?_, fun hx hx₀ hrun => ?_⟩
      · rw [← List.append_assoc]
        exact h₂
      · rw [← List.append_assoc]
        exact hrun₂ (hx.trans_le hadv.next_le) hx₀ (hadv.running h.sound hx hx₀ hrun)
    | sync => exact ih (h.quiet rfl (.silent rfl rfl rfl rfl rfl)) hreg.2 hlater
    | snapshot =>
      have hledger := ledger_maybeSnapshot env t
      obtain ⟨live₂, gs, h₂, hrun₂⟩ :=
        ih (h.quiet hledger (posted_maybeSnapshot env _ t)) hreg.2 hlater
      exact ⟨live₂, gs, h₂,
        fun hx => hrun₂ (hx.trans_eq (congrArg Ledger.nextExchangeId hledger.symm))⟩

def Places (env : Env) (t : Thread) (c : OrderCommand) : Prop :=
  admits env t c = true ∧
    match c.type with
    | .newOrder => t.ledger.checkRisk t.risk c = .none
    | .modify =>
      let oldId := t.ledger.findOrder c.session c.clientOrderId
      oldId ≠ 0 ∧ (withdrawn t.ledger oldId).checkRisk t.risk
        (replacement c ((t.ledger.sideOf oldId).getD .bid)) = .none
    | _ => False

theorem Advances.running_placed {env : Env} {t : Thread} {live live' : Nat → Option Entry}
    {c : OrderCommand} {es fs : List OrderEvent} {n : Nat} (h : Advances env t live c live' fs n)
    (hs : Sound t.ledger live) (hplace : Places env t c)
    (hnew : ∀ e ∈ es, e.exchangeOrderId < t.ledger.nextExchangeId) :
    Running c.session t.ledger.nextExchangeId c.quantity.toNat (es ++ fs)
      (live' t.ledger.nextExchangeId) ∧
      t.ledger.nextExchangeId < n := by
  obtain ⟨hadm, hplace⟩ := hplace
  have hnew' : ∀ e ∈ es, e.exchangeOrderId ≠ t.ledger.nextExchangeId := fun e he => (hnew e he).ne
  cases h with
  | refused hadm' => simp [hadm] at hadm'
  | stepped _ hstep =>
    cases hstep with
    | newOrder hc hp =>
      simp only [hc] at hplace
      cases hp with
      | refused hrisk => exact absurd hplace hrisk
      | placed hrisk => exact ⟨Accounting.running_placed hs hrisk hnew', by omega⟩
    | @replaced y e _ _ _ hc hx he hkey hp =>
      have hnext : (withdrawn t.ledger y).nextExchangeId = t.ledger.nextExchangeId :=
        (withdrawn_frame t.ledger y).2
      have hside : (t.ledger.sideOf y).getD .bid = e.side := by rw [hs.registers.side, he]; rfl
      simp only [hc, hx, hside] at hplace
      cases hp with
      | refused hrisk => exact absurd hplace.2 hrisk
      | placed hrisk =>
        have hw : Sound (withdrawn t.ledger y) (Function.update live y none) := hs.cancel y
        rw [← hnext] at hnew' ⊢
        exact ⟨Accounting.running_placed hw hrisk hnew', by omega⟩
    | opened hc => simp [hc] at hplace
    | subscribed hc => simp [hc] at hplace
    | unknown hc hx => obtain hc | hc := hc <;> simp [hc, hx] at hplace
    | cancelled hc => simp [hc] at hplace
    | retired hc => simp [hc] at hplace

def fillsPushed (t t' : Thread) : List (Option Nat × Nat × Int × Nat) :=
  ((pushedSince t t').filter (fun p => p.2.type = .fill)).map
    fun p => (some p.1, p.2.exchangeOrderId, p.2.priceTicks, p.2.quantity)

def fillsDue (queueOf : UInt64 → Nat) (ownerOf : Nat → Option UInt64) (tr : Trade) :
    List (Option Nat × Nat × Int × Nat) :=
  [((ownerOf tr.buyerId).map queueOf, tr.buyerId, tr.priceTicks, tr.quantity),
    ((ownerOf tr.sellerId).map queueOf, tr.sellerId, tr.priceTicks, tr.quantity)]

theorem Told.fills {queueOf : UInt64 → Nat} {t t' : Thread} {es : List OrderEvent}
    (h : Told queueOf t t' es) {ownerOf : Nat → Option UInt64} {trades : List Trade}
    (hes : (es.filter (fun e => e.type = .fill)).map tiding = trades.flatMap (tidings ownerOf)) :
    fillsPushed t t' = trades.flatMap (fillsDue queueOf ownerOf) := by
  let sent (r : Option UInt64 × Nat × Int × Nat) : Option Nat × Nat × Int × Nat :=
    (r.1.map queueOf, r.2)
  have hkept : (pushedSince t t').filter (fun p => p.2.type = .fill) =
      ((pushedSince t t').filter (fun p => p.2.type ≠ .sessionRetired)).filter
        (fun p => p.2.type = .fill) := by
    rw [List.filter_filter]
    refine List.filter_congr fun p _ => ?_
    by_cases hp : p.2.type = .fill
    · simp [hp]
    · simp [hp]
  have hsent : fillsPushed t t' = ((es.filter (fun e => e.type = .fill)).map tiding).map sent := by
    rw [fillsPushed, hkept, h.pushed, List.filter_map, List.map_map, List.map_map]
    rfl
  rw [hsent, hes, List.map_flatMap]
  rfl

def tradesMade (env : Env) (t : Thread) (c : OrderCommand) : List Trade :=
  if admits env t c then tradesOf t.risk t.ledger c else []

theorem Advances.tidings {env : Env} {t : Thread} {live live' : Nat → Option Entry}
    {c : OrderCommand} {fs : List OrderEvent} {n : Nat} (h : Advances env t live c live' fs n)
    (hs : Sound t.ledger live) :
    (fs.filter (fun e => e.type = .fill)).map tiding =
      (tradesMade env t c).flatMap (tidings (t.ledger.recordOrder c).ownerOf) := by
  cases h with
  | refused hadm => simp [tradesMade, hadm]
  | stepped hadm hstep =>
    rw [tradesMade, if_pos hadm]
    exact stepped_tidings hs hstep

theorem serving_apply {t : Thread} (env : Env) (c : OrderCommand) :
    (t.apply env c).replaying = t.replaying := by
  cases hadm : admits env t c with
  | false =>
    obtain ⟨w, n, k, happly⟩ := apply_refused hadm
    rw [happly]
  | true =>
    obtain ⟨-, -, -, h⟩ := core_admitted hadm
    exact h

theorem serving_turns (env : Env) (t : Thread) (ts : List Turn) :
    (turns env t ts).replaying = t.replaying := by
  induction ts generalizing t with
  | nil => rfl
  | cons a ts ih =>
    refine (ih (turn env t a)).trans ?_
    cases a with
    | pop c => exact serving_apply env c
    | sync => rfl
    | snapshot => exact (posted_maybeSnapshot env env t).replaying

theorem serving_of_reached {t : Thread} (h : Reached t) : t.replaying = false := by
  induction h with
  | fresh => rfl
  | apply env c _ ih => exact (serving_apply env c).trans ih
  | drain env batch _ ih =>
    rw [drain_eq_turns]
    exact (serving_turns env _ _).trans ih
  | recover => rfl
  | restore => rfl

/-- What the sessions are told adds up: the account of every order that is
placed while its owners are registered and no queue overflows. -/
theorem events_account {queueOf : UInt64 → Nat} (hq : Function.Injective queueOf) {env : Env}
    {t₀ : Thread} (h₀ : Reached t₀) (hattended : Attended queueOf t₀) {ts : List Turn}
    (hreg : RegisteredRun env queueOf t₀ ts)
    (hflow : (turns env t₀ ts).stats.egressOverflows = t₀.stats.egressOverflows)
    (before : List Turn) (c : OrderCommand) (after : List Turn)
    (hts : ts = before ++ .pop c :: after) :
    let t := turns env t₀ before
    let t' := turns env t₀ ts
    let x := t.ledger.nextExchangeId
    let es := stream t₀ t' (queueOf c.session)
    (Places env t c → Accounted x c.quantity.toNat es ∧
      ∀ o ∈ t'.ledger.book.allOrders, o.id = x → o.quantity = lastRemaining x c.quantity.toNat es) ∧
    fillsPushed t (t.applyPopped env c) =
      (tradesMade env t c).flatMap (fillsDue queueOf (t.ledger.recordOrder c).ownerOf) := by
  subst hts
  obtain ⟨live₀, hs₀⟩ := h₀.sound
  have hstart : Reporting queueOf t₀ t₀ live₀ [] := by
    refine ⟨hs₀, serving_of_reached h₀, fun x d hd => ?_,
      ⟨[], (List.append_nil _).symm, rfl⟩, nofun⟩
    exact hattended x d.owner (by rw [hs₀.registers.owner, hd]; rfl)
  obtain ⟨hreg₁, hreg₂, hreg₃⟩ := registeredRun_append hreg
  generalize ht : turns env t₀ before = t at hreg₂ hreg₃
  have hrun : turns env t₀ (before ++ .pop c :: after) = turns env (t.applyPopped env c) after := by
    rw [turns_append, ht]
    rfl
  rw [hrun] at hflow ⊢
  have hle₁ : t₀.stats.egressOverflows ≤ t.stats.egressOverflows :=
    ht ▸ overflows_turns env t₀ before
  have hle₂ : t.stats.egressOverflows ≤ (t.applyPopped env c).stats.egressOverflows :=
    overflows_turn env t (.pop c)
  have hle₃ := overflows_turns env (t.applyPopped env c) after
  obtain ⟨live₁, es₁, h₁, -⟩ := hstart.turns hreg₁ (by rw [ht]; omega)
  rw [ht] at h₁
  have hpop : (t.applyPopped env c).stats.egressOverflows = t.stats.egressOverflows := by omega
  obtain ⟨live₂, es₂, h₂, htold, hadv⟩ := h₁.pop hreg₂ hpop
  obtain ⟨live₃, es₃, h₃, hcarry⟩ := h₂.turns hreg₃ (by omega)
  refine ⟨fun hplace => ?_, htold.fills (hadv.tidings h₁.sound)⟩
  obtain ⟨hopen, hlt⟩ := hadv.running_placed h₁.sound hplace h₁.known
  have hlast := hcarry hlt h₁.sound.started.ne' hopen
  obtain ⟨haccount, hfills⟩ := hlast.shared
  have hstream := h₃.told.stream hq c.session
  rw [← hstream] at haccount hfills
  refine ⟨haccount, fun o ho hid => ?_⟩
  obtain ⟨d, hd, hquantity, -⟩ := h₃.sound.rests o ho
  rw [hid] at hd
  have hleft := (hlast.left d hd).2.1
  have hreported := haccount.lastRemaining_eq
  rw [hfills] at hreported
  omega

def sellFour : List Turn :=
  [.pop (.sessionOpened 1 (some 1) none), .pop (.sessionOpened 2 (some 2) none),
    .pop (.newOrder 1 7 100 10 .bid .limit), .snapshot, .pop (.newOrder 2 7 100 4 .ask .limit)]

theorem sellFour_accounted :
    let t₀ := Thread.fresh .default none ⟨"", 0⟩
    let es := stream t₀ (turns .obliging t₀ sellFour) 1
    es.length = 2 ∧ Accounted 1 10 es ∧ lastRemaining 1 10 es = 6 := by
  have hq : Function.Injective UInt64.toNat := fun _ _ => UInt64.toNat.inj
  have hplaces :
      Places .obliging (turns .obliging (Thread.fresh .default none ⟨"", 0⟩) (sellFour.take 2))
        (.newOrder 1 7 100 10 .bid .limit) := by
    refine ⟨by decide +kernel, ?_⟩
    show Ledger.checkRisk _ _ _ = .none
    decide +kernel
  refine ⟨by decide +kernel, ?_, by decide +kernel⟩
  exact ((events_account hq (.fresh .default none ⟨"", 0⟩) nofun (by decide +kernel)
    (by decide +kernel) (sellFour.take 2) (.newOrder 1 7 100 10 .bid .limit)
    (sellFour.drop 3) rfl).1 hplaces).1

end OrderMatching.EventStreams
