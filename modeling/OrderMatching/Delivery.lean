import OrderMatching.Flooding

namespace OrderMatching.Delivery

open OrderMatching.Orders OrderMatching.Commands OrderMatching.Exchange OrderMatching.MatchingThread
open OrderMatching.Network OrderMatching.Threads OrderMatching.Moves OrderMatching.Sessions
open OrderMatching.Flooding

def orderEvents (items : List OrderEvent) : List OrderEvent :=
  items.filter fun e => e.type ≠ .sessionRetired

theorem orderEvents_append (es fs : List OrderEvent) :
    orderEvents (es ++ fs) = orderEvents es ++ orderEvents fs :=
  List.filter_append _ _

def Stopped (g : Gateway) (n : Nat) (c : Connection) : Prop :=
  g.pc = .leaving n ∧ c.closeMode = .immediate

/-- The state of the stream to one client. While the socket is open and the
overflow flag is not seen, what was delivered and what is still in the queue are
together what was emitted, up to events behind an overflow. -/
structure Streaming (g : Gateway) (n : Nat) : Prop where
  delivered : g.delivered n <+: g.emitted n
  unseen : g.nextSessionId ≤ n → g.emitted n = [] ∧ g.delivered n = []
  behind : ∀ c, g.conns n = some c → c.fdOpen = true → ¬Stopped g n c →
    (c.egress.overflowed = false ∨ g.pc = .draining n) →
      g.delivered n ++ orderEvents c.egress.items <+: g.emitted n
  complete : ∀ c, g.conns n = some c → c.fdOpen = true → ¬Stopped g n c →
    c.egress.overflowed = false →
    g.latching ≠ some n → g.delivered n ++ orderEvents c.egress.items = g.emitted n

theorem streaming_absent {g : Gateway} {n : Nat} (hnone : g.conns n = none)
    (hdelivered : g.delivered n <+: g.emitted n)
    (hunseen : g.nextSessionId ≤ n → g.emitted n = [] ∧ g.delivered n = []) : Streaming g n :=
  ⟨hdelivered, hunseen, fun _ hc => absurd (hnone.symm.trans hc) nofun,
    fun _ hc => absurd (hnone.symm.trans hc) nofun⟩

theorem streaming_initial (t : Thread) (n : Nat) : Streaming (.initial t) n :=
  streaming_absent rfl List.prefix_rfl fun _ => ⟨rfl, rfl⟩

theorem Streaming.frame {g g' : Gateway} {n : Nat} (h : Streaming g n)
    (hemitted : g'.emitted n = g.emitted n) (hdelivered : g'.delivered n = g.delivered n)
    (hnext : g.nextSessionId ≤ g'.nextSessionId)
    (hconn : ∀ c', g'.conns n = some c' → c'.fdOpen = true → ∃ c, g.conns n = some c ∧
      c.fdOpen = true ∧ c.egress = c'.egress ∧ (Stopped g n c → Stopped g' n c'))
    (hpc : g'.pc = .draining n → g.pc = .draining n ∨ ∀ c, g.conns n = some c →
      c.egress.overflowed = false)
    (hlatch : g.latching = some n → g'.latching = some n) : Streaming g' n := by
  refine ⟨by rw [hemitted, hdelivered]; exact h.delivered, fun hn => ?_,
    fun c' hc' hopen hstop hflag => ?_, fun c' hc' hopen hstop hflag hl => ?_⟩
  · rw [hemitted, hdelivered]
    exact h.unseen (hnext.trans hn)
  · obtain ⟨c, hc, hopen', hegress, hstop'⟩ := hconn c' hc' hopen
    rw [hemitted, hdelivered, ← hegress]
    refine h.behind c hc hopen' (fun hs => hstop (hstop' hs)) ?_
    obtain hflag | hflag := hflag
    · rw [← hegress] at hflag
      exact Or.inl hflag
    · obtain hpc | hpc := hpc hflag
      · exact Or.inr hpc
      · exact Or.inl (hpc c hc)
  · obtain ⟨c, hc, hopen', hegress, hstop'⟩ := hconn c' hc' hopen
    rw [hemitted, hdelivered, ← hegress]
    rw [← hegress] at hflag
    exact h.complete c hc hopen' (fun hs => hstop (hstop' hs)) hflag fun hl' => hl (hlatch hl')

/-- A push that finds room in a queue after its overflow was flagged, while the
network thread is still popping from it. -/
def latePush (g : Gateway) : Action → Bool
  | .push =>
    match g.outbox with
    | [] => false
    | (n, _) :: _ =>
      match g.conns n with
      | none => false
      | some c => g.pc = .draining n && c.egress.overflowed &&
          c.egress.items.length < egressCapacity
  | _ => false

variable {g : Gateway} {n : Nat}

theorem emittedWith_self (g : Gateway) (n : Nat) (e : OrderEvent) :
    g.emittedWith n e n = g.emitted n ++ orderEvents [e] := by
  unfold Gateway.emittedWith
  split
  · rename_i he
    simp [orderEvents, he]
  · rename_i he
    simp [orderEvents, he]

theorem emitted_grows (g : Gateway) (n : Nat) (e : OrderEvent) :
    g.emitted n <+: g.emittedWith n e n := by
  rw [emittedWith_self]
  exact List.prefix_append _ _

theorem emittedWith_of_ne (g : Gateway) {m n : Nat} (h : n ≠ m) (e : OrderEvent) :
    g.emittedWith m e n = g.emitted n := by
  unfold Gateway.emittedWith
  split
  · rfl
  · exact Function.update_of_ne h _ _

theorem Streaming.other {g' : Gateway} (h : Streaming g n) {m : Nat} (hn : n ≠ m)
    {o : Option Connection} (hconns : g'.conns = Function.update g.conns m o)
    (hemitted : g'.emitted n = g.emitted n) (hdelivered : g'.delivered n = g.delivered n)
    (hnext : g.nextSessionId ≤ g'.nextSessionId) (hleave : g.pc = .leaving n → g'.pc = .leaving n)
    (hpc : g'.pc = .draining n → g.pc = .draining n)
    (hlatch : g.latching = some n → g'.latching = some n) : Streaming g' n := by
  refine h.frame hemitted hdelivered hnext (fun c' hc' hopen => ?_)
    (fun hd => Or.inl (hpc hd)) hlatch
  rw [hconns, Function.update_of_ne hn] at hc'
  exact ⟨c', hc', hopen, rfl, fun hs => ⟨hleave hs.1, hs.2⟩⟩

theorem Streaming.accepted (h : Streaming g g.nextSessionId) {c : Connection}
    (ho : Opened g.nextSessionId c) (inbound : List OrderCommand) :
    Streaming { g.setConn g.nextSessionId c with
      nextSessionId := g.nextSessionId + 1, inbound := inbound } g.nextSessionId := by
  obtain ⟨hemitted, hdelivered⟩ := h.unseen (Nat.le_refl _)
  have hempty : g.delivered g.nextSessionId ++ orderEvents c.egress.items =
      g.emitted g.nextSessionId := by
    rw [ho.egress, hdelivered, hemitted]
    rfl
  refine ⟨h.delivered, fun hn => absurd hn (Nat.not_succ_le_self _), fun d hd _ _ _ => ?_,
    fun d hd _ _ _ _ => ?_⟩
  · obtain rfl := update_same hd
    exact hempty ▸ List.prefix_rfl
  · obtain rfl := update_same hd
    exact hempty

theorem Streaming.push (h : Streaming g n) {e : OrderEvent} {outbox : List (Nat × OrderEvent)}
    {c : Connection} (hout : g.outbox = (n, e) :: outbox) (hl : g.latching = none)
    (hc : g.conns n = some c) (hroom : c.egress.items.length < egressCapacity)
    (hlate : latePush g .push = false) (hnext : n < g.nextSessionId) :
    Streaming ({ g with outbox := outbox, emitted := g.emittedWith n e }.setConn n
      (queued c (c.egress.items ++ [e]))) n := by
  have hemit := emittedWith_self g n e
  have hflagged : c.egress.overflowed = true → g.pc ≠ .draining n := by
    intro hflag hpc
    simp [latePush, hout, hc, hpc, hflag, hroom] at hlate
  have hcomplete : c.fdOpen = true → ¬Stopped g n c → c.egress.overflowed = false →
      g.delivered n ++ orderEvents (c.egress.items ++ [e]) = g.emittedWith n e n := by
    intro hopen hstop hflag
    rw [hemit, orderEvents_append, ← List.append_assoc,
      h.complete c hc hopen hstop hflag (by simp [hl])]
  refine ⟨?_, fun hn => absurd hnext (Nat.not_lt.mpr hn), fun c' hc' hopen hstop hflag => ?_,
    fun c' hc' hopen hstop hflag _ => ?_⟩
  · exact h.delivered.trans (emitted_grows g n e)
  · obtain rfl := update_same hc'
    obtain hflag | hpc := hflag
    · exact hcomplete hopen hstop hflag ▸ List.prefix_rfl
    · cases hover : c.egress.overflowed with
      | false => exact hcomplete hopen hstop hover ▸ List.prefix_rfl
      | true => exact absurd hpc (hflagged hover)
  · obtain rfl := update_same hc'
    exact hcomplete hopen hstop hflag

theorem delivers_order {c : Connection} {e : OrderEvent} (h : delivers c e = true) :
    c.fdOpen = true ∧ orderEvents [e] = [e] := by
  unfold delivers at h
  cases hr : reply e with
  | none => simp [hr] at h
  | some r =>
    have he : e.type ≠ .sessionRetired := by
      intro he
      simp [reply, he] at hr
    exact ⟨(Bool.and_eq_true_iff.mp h).1, by simp [orderEvents, he]⟩

theorem Streaming.pop (h : Streaming g n) {e : OrderEvent} {items : List OrderEvent}
    {c : Connection} {pc : Pc} (hpc : g.pc = .draining n) (hc : g.conns n = some c)
    (hitems : c.egress.items = e :: items)
    (hpc' : pc =
      if ((queued c items).deliver e).closeMode = .immediate ∧ e.type ≠ .sessionRetired then
        .leaving n
      else .draining n)
    (hnext : n < g.nextSessionId) :
    Streaming { g.setConn n ((queued c items).deliver e) with
      pc := pc
      delivered :=
        if delivers c e then Function.update g.delivered n (g.delivered n ++ [e])
        else g.delivered } n := by
  have hd := delivering_deliver (queued c items) e
  have hstop : ¬Stopped g n c := fun hs => absurd (hpc.symm.trans hs.1) nofun
  have hsplit : orderEvents c.egress.items = orderEvents [e] ++ orderEvents items := by
    rw [hitems, ← orderEvents_append]
    rfl
  cases hdel : delivers c e with
  | true =>
    obtain ⟨hopen, hone⟩ := delivers_order hdel
    have hnow : Function.update g.delivered n (g.delivered n ++ [e]) n ++ orderEvents items =
        g.delivered n ++ orderEvents c.egress.items := by
      rw [Function.update_self, hsplit, hone, List.append_assoc]
    have hbehind := h.behind c hc hopen hstop (Or.inr hpc)
    rw [← hnow] at hbehind
    refine ⟨(List.prefix_append _ _).trans hbehind, fun hn => absurd hnext (Nat.not_lt.mpr hn),
      fun c' hc' _ _ _ => ?_, fun c' hc' _ _ hflag hl => ?_⟩
    · obtain rfl := update_same hc'
      rw [hd.egress]
      exact hbehind
    · obtain rfl := update_same hc'
      rw [hd.egress] at hflag ⊢
      exact hnow.trans (h.complete c hc hopen hstop hflag hl)
  | false =>
    -- a frame that did not fit ends the stream, and a tombstone has no frame
    have hrest : ∀ {c'}, Function.update g.conns n (some ((queued c items).deliver e)) n = some c' →
        c'.fdOpen = true → ¬(pc = .leaving n ∧ c'.closeMode = .immediate) →
          c.fdOpen = true ∧ orderEvents c'.egress.items = orderEvents c.egress.items ∧
            c'.egress.overflowed = c.egress.overflowed := by
      intro c' hc' hopen hgo
      obtain rfl := update_same hc'
      have hopen' : c.fdOpen = true := hd.fdOpen.symm.trans hopen
      have himm := hd.lost hopen' hdel
      have he : e.type = .sessionRetired := by
        by_contra he
        exact hgo ⟨hpc'.trans (if_pos ⟨himm, he⟩), himm⟩
      have hnil : orderEvents [e] = [] := by simp [orderEvents, he]
      rw [hd.egress, hsplit, hnil]
      exact ⟨hopen', rfl, rfl⟩
    refine ⟨h.delivered, fun hn => absurd hnext (Nat.not_lt.mpr hn), fun c' hc' hopen hgo _ => ?_,
      fun c' hc' hopen hgo hflag hl => ?_⟩
    · obtain ⟨hopen', hsame, -⟩ := hrest hc' hopen hgo
      rw [hsame]
      exact h.behind c hc hopen' hstop (Or.inr hpc)
    · obtain ⟨hopen', hsame, hover⟩ := hrest hc' hopen hgo
      rw [hsame]
      exact h.complete c hc hopen' hstop (hover.symm.trans hflag) hl

theorem Streaming.overflow (h : Streaming g n) (e : OrderEvent) (outbox : List (Nat × OrderEvent))
    (hnext : n < g.nextSessionId) :
    Streaming { g with outbox := outbox, emitted := g.emittedWith n e, latching := some n } n := by
  have hgrow := emitted_grows g n e
  refine ⟨h.delivered.trans hgrow, fun hn => absurd hnext (Nat.not_lt.mpr hn),
    fun c hc hopen hstop hflag => ?_, fun c hc hopen hstop hflag hl => absurd rfl hl⟩
  exact (h.behind c hc hopen hstop hflag).trans hgrow

theorem Streaming.flag (h : Streaming g n) {c : Connection} (hc : g.conns n = some c)
    (hnext : n < g.nextSessionId) :
    Streaming ({ g with latching := none }.setConn n (flagged c)) n := by
  refine ⟨h.delivered, fun hn => absurd hnext (Nat.not_lt.mpr hn),
    fun c' hc' hopen hstop hflag => ?_, fun c' hc' hopen hstop hflag _ => ?_⟩
  · obtain rfl := update_same hc'
    obtain hflag | hpc := hflag
    · cases hflag
    · exact h.behind c hc hopen hstop (Or.inr hpc)
  · obtain rfl := update_same hc'
    cases hflag

theorem streaming_moved {g' : Gateway} {a : Action} (hm : Moved g a g') (hr : Running g)
    (h : Streaming g n) (hlate : latePush g a = false) : Streaming g' n := by
  have hbelow : ∀ {m c}, g.conns m = some c → m < g.nextSessionId :=
    fun hc => (hr.regular.below _ _ hc).2
  have hsame : ∀ c', g.conns n = some c' → c'.fdOpen = true →
      (g.pc = .leaving n → g'.pc = .leaving n) →
      ∃ c, g.conns n = some c ∧ c.fdOpen = true ∧ c.egress = c'.egress ∧
        (Stopped g n c → Stopped g' n c') :=
    fun c' hc' hopen hleave => ⟨c', hc', hopen, rfl, fun hs => ⟨hleave hs.1, hs.2⟩⟩
  cases hm with
  | still => exact h
  | turned hpc hleave hserve =>
    refine h.frame rfl rfl (Nat.le_refl _) (fun c hc hopen => ⟨c, hc, hopen, rfl, fun hs => ?_⟩)
      (fun hd => absurd hd (hpc n)) id
    exact absurd hs.2 (hleave n c hs.1 hc)
  | @kept m c c' pc hc hk hpc hstay hserve hmode =>
    by_cases hn : n = m
    · subst hn
      refine h.frame rfl rfl (Nat.le_refl _) (fun d hd hopen => ?_) (fun hd => absurd hd (hpc n)) id
      obtain rfl := update_same hd
      refine ⟨c, hc, hk.fdOpen.symm.trans hopen, hk.egress.symm, fun hs => ⟨?_, hk.closing hs.2⟩⟩
      exact (hstay n hs.1).trans hs.1
    · exact h.other hn rfl rfl rfl (Nat.le_refl _) (fun hl => (hstay n hl).trans hl)
        (fun hd => absurd hd (hpc n)) id
  | @accepted c nowNs ha hlt hpc ho inbound hin =>
    by_cases hn : n = g.nextSessionId
    · subst hn
      exact h.accepted ho inbound
    · exact h.other hn rfl rfl rfl (Nat.le_succ _) id id id
  | @requested m c c' cmd pc ha hpc hc hroom hreq hpc' =>
    have hleave : g.pc ≠ .leaving n := by simp [hpc]
    have hdrain : pc ≠ .draining n := by
      obtain h | h := hpc' <;> simp [h]
    by_cases hn : n = m
    · subst hn
      refine h.frame rfl rfl (Nat.le_refl _) (fun d hd hopen => ?_) (fun hd => absurd hd hdrain) id
      obtain rfl := update_same hd
      exact ⟨c, hc, hreq.fdOpen.symm.trans hopen, hreq.egress.symm, fun hs => absurd hs.1 hleave⟩
    · exact h.other hn rfl rfl rfl (Nat.le_refl _) (fun hl => absurd hl hleave)
        (fun hd => absurd hd hdrain) id
  | @checked m c hpc hc hflag =>
    refine h.frame rfl rfl (Nat.le_refl _) (fun d hd hopen => hsame d hd hopen ?_) (fun hd => ?_) id
    · exact fun hl => absurd (hpc.symm.trans hl) nofun
    · obtain rfl : m = n := by simpa using hd
      refine Or.inr fun d hd => ?_
      rw [hc, Option.some.injEq] at hd
      exact hd ▸ hflag
  | @popped m c e items pc ha hpc hc hitems hpc' =>
    by_cases hn : n = m
    · subst hn
      exact h.pop hpc hc hitems hpc' (hbelow hc)
    · refine h.other hn rfl rfl ?_ (Nat.le_refl _) (fun hl => absurd (hpc.symm.trans hl) nofun)
        (fun hd => ?_) id
      · change (if delivers c e then Function.update g.delivered m (g.delivered m ++ [e])
          else g.delivered) n = _
        split
        · exact Function.update_of_ne hn _ _
        · rfl
      · have hd' : pc = .draining n := hd
        rw [hpc'] at hd'
        split at hd'
        · cases hd'
        · exact absurd (Pc.draining.inj hd').symm hn
  | @closed m c r hc ha hpc hclosed =>
    by_cases hn : n = m
    · subst hn
      refine h.frame rfl rfl (Nat.le_refl _) (fun d hd hopen => ?_) nofun id
      have hshut := (hclosed.shut (update_here hd)).1
      rw [hshut] at hopen
      cases hopen
    · refine h.other hn rfl rfl rfl (Nat.le_refl _) (fun hl => ?_) nofun id
      obtain hpc | hpc := hpc
      · simp [hpc] at hl
      · rw [hpc, Pc.leaving.injEq] at hl
        exact absurd hl.symm hn
  | taken ha hin hout hl =>
    exact h.frame rfl rfl (Nat.le_refl _) (fun d hd hopen => hsame d hd hopen id) Or.inl id
  | @pushed m e outbox c ha hout hl hc hroom =>
    by_cases hn : n = m
    · subst hn
      exact h.push hout hl hc hroom (ha ▸ hlate) (hbelow hc)
    · exact h.other hn rfl (emittedWith_of_ne g hn e) rfl (Nat.le_refl _) id id id
  | @overflowing m e outbox c ha hout hl hc hfull he =>
    by_cases hn : n = m
    · subst hn
      exact h.overflow e outbox (hbelow hc)
    · refine h.frame (emittedWith_of_ne g hn e) rfl (Nat.le_refl _)
        (fun d hd hopen => hsame d hd hopen id) Or.inl ?_
      exact fun hl' => absurd (hl.symm.trans hl') nofun
  | @lost m e outbox ha hout hl hc =>
    by_cases hn : n = m
    · subst hn
      obtain hc | ⟨c, hc, -, he⟩ := hc
      · have hbox := hr.addressed.outbox (n, e) (by simp [hout])
        have hnext : n < g.nextSessionId := hbox.1.trans_lt hbox.2.2
        exact streaming_absent hc (h.delivered.trans (emitted_grows g n e))
          fun hn => absurd hnext (Nat.not_lt.mpr hn)
      · have hemit : g.emittedWith n e = g.emitted := if_pos he
        exact h.frame (congrFun hemit n) rfl (Nat.le_refl _)
          (fun d hd hopen => hsame d hd hopen id) Or.inl id
    · exact h.frame (emittedWith_of_ne g hn e) rfl (Nat.le_refl _)
        (fun d hd hopen => hsame d hd hopen id) Or.inl id
  | @latched m c hl hc =>
    by_cases hn : n = m
    · subst hn
      exact h.flag hc (hbelow hc)
    · refine h.other hn rfl rfl rfl (Nat.le_refl _) id id fun hl' => ?_
      rw [hl, Option.some.injEq] at hl'
      exact absurd hl'.symm hn
  | @unlatched m hl hc =>
    by_cases hn : n = m
    · subst hn
      exact streaming_absent hc h.delivered h.unseen
    · refine h.frame rfl rfl (Nat.le_refl _) (fun d hd hopen => hsame d hd hopen id) Or.inl
        fun hl' => ?_
      rw [hl, Option.some.injEq] at hl'
      exact absurd hl'.symm hn
  | erased hout hl =>
    exact h.frame rfl rfl (Nat.le_refl _) (fun d hd hopen => hsame d hd hopen id) Or.inl id
  | housekept env hout hl =>
    exact h.frame rfl rfl (Nat.le_refl _) (fun d hd hopen => hsame d hd hopen id) Or.inl id

/-- In every run without a late push, each client is delivered a beginning of
what was emitted for it. -/
theorem delivered_prefix {t : Thread} (h : Booted t) (cfg : ServerConfig) {as : List Action}
    (hrun : Along cfg (fun g a => latePush g a = false) (.initial t) as) (n : Nat) :
    ((Gateway.initial t).run cfg as).delivered n <+:
      ((Gateway.initial t).run cfg as).emitted n := by
  have hstep : ∀ (g : Gateway) (a : Action), (Running g ∧ Streaming g n) → latePush g a = false →
      Running (g.step cfg a) ∧ Streaming (g.step cfg a) n := by
    rintro g a ⟨hr, hs⟩ hlate
    exact ⟨hr.step cfg a, streaming_moved (hr.moved cfg a) hr hs hlate⟩
  exact (hrun.keeps hstep ⟨running_initial h, streaming_initial t n⟩).2.delivered

def askedOnce : List Action :=
  admission ++ [asking 7, .readDone, .endPass 0, .take .obliging, .push, .drain 1, .pop,
    .pop, .endPass 0]

theorem askedOnce_delivered :
    ((Gateway.initial newThread).run .default askedOnce).delivered 1 = [refusal 1 7] ∧
    ∀ n, ((Gateway.initial newThread).run .default askedOnce).delivered n <+:
      ((Gateway.initial newThread).run .default askedOnce).emitted n :=
  ⟨by decide +kernel, delivered_prefix booted_newThread .default (by decide +kernel)⟩

/-- The queue takes `j + 1` answers, and the next one overflows while the network
thread is popping. Once it has made room, one more answer gets in behind the
one that was lost. -/
def overtaken (j : Nat) : List Action :=
  admission ++ List.replicate (j + 2) (asking 0) ++ [asking 1] ++ [.readDone, .endPass 0] ++
    (List.replicate (j + 1) [.take .obliging, .push]).flatten ++ [.drain 1] ++
    [.take .obliging, .push, .latch] ++ [.pop] ++ [.take .obliging, .push] ++
      List.replicate j .pop ++ [.pop]

theorem overtaken_streams (j : Nat) (hj : j + 1 = egressCapacity) :
    ((Gateway.initial newThread).run .default (overtaken j)).delivered 1 =
        List.replicate (j + 1) (refusal 1 0) ++ [refusal 1 1] ∧
      ((Gateway.initial newThread).run .default (overtaken j)).emitted 1 =
        List.replicate (j + 2) (refusal 1 0) ++ [refusal 1 1] := by
  have hsmall : j + 3 ≤ inboundCapacity := by
    simp only [egressCapacity, inboundCapacity] at *; omega
  have hroom : 18 * (j + 2) ≤ ServerConfig.default.maxWriteBuffer := by
    simp only [egressCapacity, ServerConfig.default] at *
    omega
  have h₁ := (pressed_admission .default).asks .default rfl rfl 0 (j + 2) (by simp; omega)
  have h₂ := (h₁.ask .default rfl rfl 1 (by simp; omega)).rest .default rfl 0
  have hqueue : [] ++ List.replicate (j + 2) (OrderCommand.cancel (UInt64.ofNat 1) 0) ++
      [.cancel (UInt64.ofNat 1) 1] = List.replicate (j + 1) (.cancel (UInt64.ofNat 1) 0) ++
        [.cancel (UInt64.ofNat 1) 0, .cancel (UInt64.ofNat 1) 1] := by
    simp [List.replicate_succ']
  rw [hqueue] at h₂
  have h₃ :=
    (Pressed.answers .default .obliging 0 (j + 1) h₂
      (by simp [Connection.create, hj])).check .default rfl
  have h₄ := Pressed.overflow .default .obliging h₃ (by simp [queued, Connection.create, hj])
  obtain ⟨c₅, h₅, hc₅, hegress₅, hwriter₅⟩ := h₄.pop .default ⟨rfl, rfl⟩ rfl
    (by simp [queued, flagged, Connection.create]; omega)
  have hitems₅ : c₅.egress.items = List.replicate j (refusal 1 0) := by rw [hegress₅]
  have h₆ := Pressed.answer .default .obliging h₅ (by rw [hitems₅, List.length_replicate]; omega)
  obtain ⟨c₇, h₇, hc₇, hegress₇, hwriter₇⟩ :=
    h₆.pops .default 0 j ⟨hc₅.fdOpen, hc₅.closeMode⟩ (congrArg (· ++ [refusal 1 1]) hitems₅)
      (by simp [queued, hwriter₅, flagged, Connection.create]; omega)
  obtain ⟨c₈, h₈, -⟩ := h₇.pop .default hc₇ (by rw [hegress₇])
    (by simp [hwriter₇, queued, hwriter₅, flagged, Connection.create]; omega)
  rw [overtaken]
  simp only [run_append, run_one] at h₈ ⊢
  refine ⟨h₈.delivered.trans ?_, h₈.emitted.trans ?_⟩
  · simp [List.replicate_succ]
  · simp [List.replicate_succ']

theorem not_prefix_of_lost {delivered emitted : List OrderEvent} (j : Nat)
    (hd : delivered = List.replicate (j + 1) (refusal 1 0) ++ [refusal 1 1])
    (he : emitted = List.replicate (j + 2) (refusal 1 0) ++ [refusal 1 1]) :
    ¬delivered <+: emitted := by
  intro h
  have hat : delivered[j + 1]? = emitted[j + 1]? := by
    obtain ⟨rest, rfl⟩ := h
    rw [List.getElem?_append_left (by simp [hd])]
  rw [hd, he, List.getElem?_append_right (by simp), List.getElem?_append_left (by simp)] at hat
  simp [refusal, OrderEvent.reject] at hat

theorem overtaken_not_prefix :
    ¬∀ (cfg : ServerConfig) (t : Thread) (as : List Action) (n : Nat), Booted t →
      ((Gateway.initial t).run cfg as).delivered n <+:
        ((Gateway.initial t).run cfg as).emitted n := by
  intro h
  obtain ⟨hd, he⟩ := overtaken_streams (egressCapacity - 1) rfl
  exact not_prefix_of_lost _ hd he
    (h .default newThread (overtaken (egressCapacity - 1)) 1 booted_newThread)

end OrderMatching.Delivery
