import OrderMatching.Answers

namespace OrderMatching.Posting

open OrderMatching.Orders OrderMatching.Book OrderMatching.Engine OrderMatching.Commands
open OrderMatching.Log OrderMatching.Exchange OrderMatching.MatchingThread OrderMatching.LedgerStep
open OrderMatching.LogFold OrderMatching.Views OrderMatching.Answers

def routed (t : Thread) (es : List OrderEvent) : List (Nat × OrderEvent) :=
  es.filterMap fun e => (t.egressFor e.session).map fun q => (q, e)

theorem routed_append (t : Thread) (es fs : List OrderEvent) :
    routed t (es ++ fs) = routed t es ++ routed t fs :=
  List.filterMap_append

/-- From `t` to `t'` the events `es` are emitted, each to the queue of its
session. They all arrive unless the overflow count has moved. -/
structure Posted (env : Env) (t t' : Thread) (es : List OrderEvent) : Prop where
  egress : t'.egress = t.egress
  md : t'.md = t.md
  replaying : t'.replaying = t.replaying
  overflows : t.stats.egressOverflows ≤ t'.stats.egressOverflows
  roomy : (∀ n, env.egressRoom n = true) → t'.stats.egressOverflows = t.stats.egressOverflows
  pushed : t.replaying = false → t'.stats.egressOverflows = t.stats.egressOverflows →
    t'.pushed = t.pushed ++ routed t es

theorem Posted.refl (env : Env) (t : Thread) : Posted env t t [] :=
  ⟨rfl, rfl, rfl, Nat.le_refl _, fun _ => rfl, fun _ _ => (List.append_nil _).symm⟩

theorem Posted.trans {env : Env} {t t' t'' : Thread} {es fs : List OrderEvent}
    (h : Posted env t t' es) (h' : Posted env t' t'' fs) : Posted env t t'' (es ++ fs) := by
  have hroute : routed t' fs = routed t fs := by simp only [routed, Thread.egressFor, h.egress]
  refine ⟨h'.egress.trans h.egress, h'.md.trans h.md, h'.replaying.trans h.replaying,
    h.overflows.trans h'.overflows,
    fun hroom => (h'.roomy hroom).trans (h.roomy hroom), fun hlive hsame => ?_⟩
  have h1 := h.overflows
  have h2 := h'.overflows
  rw [h'.pushed (h.replaying.trans hlive) (by omega), h.pushed hlive (by omega), hroute,
    routed_append, List.append_assoc]

theorem Posted.silent {env : Env} {t t' : Thread} (hegress : t'.egress = t.egress)
    (hmd : t'.md = t.md) (hreplaying : t'.replaying = t.replaying)
    (hstats : t'.stats.egressOverflows = t.stats.egressOverflows) (hpushed : t'.pushed = t.pushed) :
    Posted env t t' [] :=
  ⟨hegress, hmd, hreplaying, hstats.ge, fun _ => hstats,
    fun _ _ => hpushed.trans (List.append_nil _).symm⟩

theorem posted_setLedger (env : Env) (t : Thread) (l : Ledger) :
    Posted env t { t with ledger := l } [] :=
  .silent rfl rfl rfl rfl rfl

theorem Posted.setLedger {env : Env} {t t' : Thread} {es : List OrderEvent} (h : Posted env t t' es)
    (l : Ledger) :
    Posted env t { t' with ledger := l } es := by
  simpa using h.trans (posted_setLedger env t' l)

theorem posted_emit (env : Env) (t : Thread) (e : OrderEvent) :
    Posted env t (t.emit env (t.egressFor e.session) e) [e] := by
  cases hr : t.replaying with
  | true =>
    have hemit : t.emit env (t.egressFor e.session) e = { t with emitted := t.emitted ++ [e] } := by
      simp [Thread.emit, hr]
    rw [hemit]
    exact ⟨rfl, rfl, rfl, Nat.le_refl _, fun _ => rfl,
      fun hlive => by rw [hr] at hlive; cases hlive⟩
  | false =>
    cases hq : t.egressFor e.session with
    | none =>
      have hemit : t.emit env none e = { t with emitted := t.emitted ++ [e] } := by
        simp [Thread.emit, hr]
      rw [hemit]
      exact ⟨rfl, rfl, rfl, Nat.le_refl _, fun _ => rfl, fun _ _ => by simp [routed, hq]⟩
    | some q =>
      cases hroom : env.egressRoom t.asked with
      | true =>
        simp only [Thread.emit, hr, hroom, if_true, Bool.false_eq_true, if_false]
        exact ⟨rfl, rfl, hr.symm, Nat.le_refl _, fun _ => rfl, fun _ _ => by simp [routed, hq]⟩
      | false =>
        simp only [Thread.emit, hr, hroom, Bool.false_eq_true, if_false]
        refine ⟨rfl, rfl, hr.symm, Nat.le_succ _, fun hall => ?_,
          fun _ hsame => absurd hsame (Nat.succ_ne_self _)⟩
        rw [hall] at hroom
        cases hroom

theorem posted_publishBook (env : Env) (t : Thread) : Posted env t (t.publishBook env) [] := by
  have hview : IgnoresBook fun t =>
      (t.egress, t.md, t.replaying, t.stats.egressOverflows, t.pushed) :=
    fun _ _ _ _ _ => rfl
  have hsame := hview.publishBook env t
  simp only [Prod.mk.injEq] at hsame
  obtain ⟨hegress, hmd, hreplaying, hstats, hpushed⟩ := hsame
  exact .silent hegress hmd hreplaying hstats hpushed

theorem Posted.publishBook {env : Env} {t t' : Thread} {es : List OrderEvent}
    (h : Posted env t t' es) :
    Posted env t (t'.publishBook env) es := by
  simpa using h.trans (posted_publishBook env t')

theorem posted_routeFill (env : Env) (t : Thread) (xoid : Nat) (trade : Trade) :
    Posted env t (t.routeFill env xoid trade) (routeFill t.ledger xoid trade).2 := by
  cases ho : t.ledger.ownerOf xoid with
  | none =>
    simp only [Thread.routeFill, routeFill, ho]
    exact .refl env t
  | some s =>
    let rem := (t.ledger.remainingOf xoid).getD 0 - trade.quantity
    let l : Ledger :=
      { t.ledger with remainingOf := Function.update t.ledger.remainingOf xoid (some rem) }
    have hemit := (posted_setLedger env t l).trans (posted_emit env { t with ledger := l }
      (.fill s ((t.ledger.clientIdOf xoid).getD 0) xoid trade.priceTicks trade.quantity rem))
    simp only [Thread.routeFill, routeFill, ho]
    split
    · exact hemit.setLedger _
    · exact hemit

theorem posted_publishTrade (env : Env) (t : Thread) (trade : Trade) :
    Posted env t (t.publishTrade env trade) (publishTrade t.ledger trade).2 := by
  let priced : Thread := { t with ledger := { t.ledger with lastTradeTicks := trade.priceTicks } }
  have hbuyer :=
    (posted_setLedger env t priced.ledger).trans (posted_routeFill env priced trade.buyerId trade)
  have hseller :=
    posted_routeFill env (priced.routeFill env trade.buyerId trade) trade.sellerId trade
  have hledger : (priced.routeFill env trade.buyerId trade).ledger =
      (routeFill priced.ledger trade.buyerId trade).1 :=
    congrArg Core.ledger (core_routeFill env priced trade.buyerId trade)
  rw [hledger] at hseller
  exact hbuyer.trans hseller

theorem posted_publishAll (env : Env) (t : Thread) (trades : List Trade) :
    Posted env t (trades.foldl (Thread.publishTrade env) t) (publishAll t.ledger trades).2 := by
  induction trades generalizing t with
  | nil => exact .refl env t
  | cons trade trades ih =>
    have hrest := ih (t.publishTrade env trade)
    rw [show (t.publishTrade env trade).ledger = (publishTrade t.ledger trade).1 from
      congrArg Core.ledger (core_publishTrade env t trade)] at hrest
    exact (posted_publishTrade env t trade).trans hrest

theorem posted_publishTrades (env : Env) (t : Thread) (start : Nat) :
    Posted env t (t.publishTrades env start) (publishTrades t.ledger start).2 :=
  (posted_publishAll env t (t.ledger.engine.tradeLog.drop start)).setLedger _

theorem posted_applyNewOrder (env : Env) (t : Thread) (c : OrderCommand) :
    Posted env t (t.applyNewOrder env c) (stepNewOrder t.risk t.ledger c).2 := by
  unfold Thread.applyNewOrder stepNewOrder
  dsimp only
  split
  · exact posted_emit env t (.reject c.session c.clientOrderId _)
  · have hset := ((posted_setLedger env t (t.ledger.recordOrder c)).setLedger
      ((t.ledger.recordOrder c).process (t.ledger.incoming c)).2)
    split
    · have hlog : (t.ledger.recordOrder c).engine.tradeLog = t.ledger.engine.tradeLog := rfl
      have hack :=
        hset.trans
          (posted_emit env _ (.ack c.session c.clientOrderId (t.ledger.incoming c).id false))
      have hpub :=
        hack.trans (posted_publishTrades env _ (t.ledger.recordOrder c).engine.tradeLog.length)
      rw [ledger_emit, hlog] at hpub
      split
      · exact hpub.publishBook.setLedger _
      · exact hpub.publishBook
    · exact (hset.setLedger _).trans (posted_emit env _ (.reject c.session c.clientOrderId _))

theorem posted_applyCancel (env : Env) (t : Thread) (c : OrderCommand) :
    Posted env t (t.applyCancel env c) (stepCancel t.ledger c).2 := by
  unfold Thread.applyCancel stepCancel
  dsimp only
  split
  · exact posted_emit env t (.reject c.session c.clientOrderId _)
  · have hset := posted_setLedger env t
      (t.ledger.process (cancelRequest (t.ledger.findOrder c.session c.clientOrderId))).2
    split
    · exact ((hset.setLedger _).trans
        (posted_emit env _ (.ack c.session c.clientOrderId _ true))).publishBook
    · exact hset.trans (posted_emit env _ (.reject c.session c.clientOrderId _))

theorem posted_applyModify (env : Env) (t : Thread) (c : OrderCommand) :
    Posted env t (t.applyModify env c) (stepModify t.risk t.ledger c).2 := by
  unfold Thread.applyModify stepModify
  dsimp only
  split
  · exact posted_emit env t (.reject c.session c.clientOrderId _)
  · have hset := fun l l' => (posted_setLedger env t l).setLedger l'
    split
    · exact ((hset _ _).setLedger _).trans (posted_applyNewOrder env _ _)
    · exact (hset _ _).trans (posted_emit env _ (.reject c.session c.clientOrderId _))

def egressAfter (t : Thread) (c : OrderCommand) : UInt64 → Option (Option Nat) :=
  match c.type with
  | .sessionOpened => Function.update t.egress c.session (some c.egress)
  | .cancelAllForSession => Function.update t.egress c.session none
  | _ => t.egress

def mdAfter (t : Thread) (c : OrderCommand) : UInt64 → Option (Option Nat) :=
  match c.type with
  | .sessionOpened => Function.update t.md c.session (some c.mdQueue)
  | .cancelAllForSession => Function.update t.md c.session none
  | _ => t.md

def tombstone (t : Thread) (c : OrderCommand) : List (Nat × OrderEvent) :=
  if c.type = .cancelAllForSession then
    (t.egressFor c.session).toList.map fun q => (q, .sessionRetired c.session)
  else []

/-- What the switch of `apply` pushes: the routed events, then the tombstone,
whose failure nobody counts. -/
structure Pushes (env : Env) (t t' : Thread) (c : OrderCommand) : Prop where
  egress : t'.egress = egressAfter t c
  md : t'.md = mdAfter t c
  overflows : t.stats.egressOverflows ≤ t'.stats.egressOverflows
  roomy : t.replaying = false → (∀ n, env.egressRoom n = true) →
    t'.pushed = t.pushed ++ (routed t (step t.risk t.ledger c).2 ++ tombstone t c)
  counted : t.replaying = false → t'.stats.egressOverflows = t.stats.egressOverflows →
    ∃ tail, (tail = [] ∨ tail = tombstone t c) ∧
      t'.pushed = t.pushed ++ (routed t (step t.risk t.ledger c).2 ++ tail)

theorem Posted.pushes {env : Env} {t t' : Thread} {c : OrderCommand}
    (h : Posted env t t' (step t.risk t.ledger c).2) (hopened : c.type ≠ .sessionOpened)
    (hretired : c.type ≠ .cancelAllForSession) : Pushes env t t' c := by
  have hafter : egressAfter t c = t.egress := by
    unfold egressAfter
    split
    · exact absurd (by assumption) hopened
    · exact absurd (by assumption) hretired
    · rfl
  have hmd : mdAfter t c = t.md := by
    unfold mdAfter
    split
    · exact absurd (by assumption) hopened
    · exact absurd (by assumption) hretired
    · rfl
  have htomb : tombstone t c = [] := if_neg hretired
  refine ⟨h.egress.trans hafter.symm, h.md.trans hmd.symm, h.overflows, fun hlive hroom => ?_,
    fun hlive hsame => ⟨[], Or.inl rfl, ?_⟩⟩
  · rw [htomb, List.append_nil]
    exact h.pushed hlive (h.roomy hroom)
  · rw [List.append_nil]
    exact h.pushed hlive hsame

theorem pushTombstone_spec (env : Env) (t : Thread) (c : OrderCommand)
    (hc : c.type = .cancelAllForSession) :
    (t.pushTombstone env c.session).egress = t.egress ∧ (t.pushTombstone env c.session).md = t.md ∧
      (t.pushTombstone env c.session).stats = t.stats ∧
      ((∀ n, env.egressRoom n = true) →
        (t.pushTombstone env c.session).pushed = t.pushed ++ tombstone t c) ∧
      ∃ tail, (tail = [] ∨ tail = tombstone t c) ∧
        (t.pushTombstone env c.session).pushed = t.pushed ++ tail := by
  cases hq : t.egressFor c.session with
  | none =>
    have htomb : tombstone t c = [] := by simp [tombstone, hc, hq]
    simp only [Thread.pushTombstone, hq]
    refine ⟨trivial, trivial, trivial, fun _ => ?_, [], Or.inl rfl, ?_⟩
    · rw [htomb, List.append_nil]
    · rw [List.append_nil]
  | some q =>
    have htomb : tombstone t c = [(q, .sessionRetired c.session)] := by simp [tombstone, hc, hq]
    simp only [Thread.pushTombstone, hq]
    split
    · exact ⟨rfl, rfl, rfl, fun _ => by rw [htomb], _, Or.inr rfl, by rw [htomb]⟩
    · rename_i hroom
      exact ⟨rfl, rfl, rfl, fun hall => absurd (hall t.asked) hroom, [], Or.inl rfl,
        (List.append_nil _).symm⟩

theorem pushes_applyCancelAll (env : Env) (t : Thread) (c : OrderCommand)
    (hc : c.type = .cancelAllForSession) :
    Pushes env t (t.applyCancelAll env c) c := by
  obtain ⟨heg, hmd, hst, hroomy, tail, htail, hpush⟩ := pushTombstone_spec env t c hc
  let t₂ := t.pushTombstone env c.session
  let t₃ : Thread := { retire t₂ c.session with ledger := stepCancelAll t.ledger c }
  have happly : t.applyCancelAll env c = t₃.publishBook env := applyCancelAll_eq env t c
  have hbook := posted_publishBook env t₃
  have hreplaying : t₃.replaying = t.replaying :=
    congrArg Core.replaying (core_pushTombstone env t c.session)
  have hstats : t₃.stats.egressOverflows = t.stats.egressOverflows := by
    rw [show t₃.stats.egressOverflows = t₂.stats.egressOverflows from rfl, hst]
  have hnone : (step t.risk t.ledger c).2 = [] := by rw [step, hc]
  have hpushed : ∀ hlive : t.replaying = false,
      (t₃.publishBook env).stats.egressOverflows = t₃.stats.egressOverflows →
      (t₃.publishBook env).pushed = t₂.pushed := by
    intro hlive hsame
    change _ = t₃.pushed
    simpa [routed] using hbook.pushed (hreplaying.trans hlive) hsame
  rw [happly]
  refine ⟨?_, ?_, ?_, fun hlive hroom => ?_, fun hlive hsame => ⟨tail, htail, ?_⟩⟩
  · rw [hbook.egress, egressAfter, hc]
    exact congrArg (fun m => Function.update m c.session none) heg
  · rw [hbook.md, mdAfter, hc]
    exact congrArg (fun m => Function.update m c.session none) hmd
  · rw [← hstats]
    exact hbook.overflows
  · rw [hpushed hlive (hbook.roomy hroom), hroomy hroom, hnone]
    rfl
  · rw [hpushed hlive (hsame.trans hstats.symm), hpush, hnone]
    rfl

theorem pushes_dispatch (env : Env) (t : Thread) (c : OrderCommand) :
    Pushes env t (t.dispatch env c) c := by
  unfold Thread.dispatch
  cases hc : c.type with
  | sessionOpened =>
    have hnone : (step t.risk t.ledger c).2 = [] := by rw [step, hc]
    have htomb : tombstone t c = [] := by simp [tombstone, hc]
    refine ⟨by rw [egressAfter, hc], by rw [mdAfter, hc], Nat.le_refl _, fun _ _ => ?_,
      fun _ _ => ⟨[], Or.inl rfl, ?_⟩⟩
    · rw [hnone, htomb]
      exact (List.append_nil _).symm
    · rw [hnone]
      exact (List.append_nil _).symm
  | subscribe =>
    have hsub : Posted env t { t with
        subscribers := setSubscriber t.subscribers c.session (subscribedDepth c.quantity) } [] :=
      .silent rfl rfl rfl rfl rfl
    refine Posted.pushes ?_ (by simp [hc]) (by simp [hc])
    rw [step, hc]
    exact (hsub.trans (posted_emit env _ (.ack c.session 0 0 false))).publishBook
  | newOrder =>
    refine Posted.pushes ?_ (by simp [hc]) (by simp [hc])
    rw [step, hc]
    exact posted_applyNewOrder env t c
  | cancel =>
    refine Posted.pushes ?_ (by simp [hc]) (by simp [hc])
    rw [step, hc]
    exact posted_applyCancel env t c
  | modify =>
    refine Posted.pushes ?_ (by simp [hc]) (by simp [hc])
    rw [step, hc]
    exact posted_applyModify env t c
  | cancelAllForSession => exact pushes_applyCancelAll env t c hc

theorem pushes_apply {env : Env} {t : Thread} {c : OrderCommand} (h : admits env t c = true) :
    Pushes env t (t.apply env c) c := by
  obtain ⟨w, n, cs, happly⟩ := apply_admitted h
  rw [happly]
  obtain ⟨h1, h2, h3, h4, h5⟩ :=
    pushes_dispatch env { t with wal := w, asked := n, appended := cs } c
  exact ⟨h1, h2, h3, h4, h5⟩

end OrderMatching.Posting
