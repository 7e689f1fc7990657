import OrderMatching.Registration

namespace OrderMatching.Reclaim

open OrderMatching.Orders OrderMatching.Commands OrderMatching.Exchange OrderMatching.MatchingThread
open OrderMatching.LedgerStep OrderMatching.Answers OrderMatching.Posting OrderMatching.Startup
open OrderMatching.Network OrderMatching.Threads OrderMatching.Moves OrderMatching.Sessions
open OrderMatching.Flooding OrderMatching.Lifetime OrderMatching.Registration

/-- The matching thread hears of session `n`, and whatever it pushes to it finds
room. -/
def heard (n : Nat) (g : Gateway) : Action → Bool
  | .accept _ => decide (g.nextSessionId = n → g.inbound.length < inboundCapacity)
  | .push =>
    match g.outbox with
    | [] => true
    | (m, _) :: _ =>
      match g.conns m with
      | none => true
      | some c => decide (m = n → c.egress.items.length < egressCapacity)
  | _ => true

theorem room_of_heard {g : Gateway} {n : Nat} (h : heard n g .push = true) {e : OrderEvent}
    {outbox : List (Nat × OrderEvent)} (hout : g.outbox = (n, e) :: outbox) {c : Connection}
    (hc : g.conns n = some c) : c.egress.items.length < egressCapacity := by
  simpa [heard, hout, hc] using h

def Told (g : Gateway) (n : Nat) : Prop :=
  (∃ e ∈ waiting g n, e.type = .sessionRetired) ∨ ∃ e, (n, e) ∈ g.outbox ∧ e.type = .sessionRetired

/-- The matching thread hears of a session before it hears from it, and knows its
queue until it retires it. -/
structure Known (g : Gateway) (n : Nat) : Prop where
  registered : Registered g
  heralded : (g.conns n).isSome = true → Heralded g (UInt64.ofNat n)

/-- A session that the matching thread has heard of. Its queue is known from the
command that opens the session to the one that retires it, it has not
overflowed, and it holds the tombstone as long as the connection retires. -/
structure Tracked (g : Gateway) (n : Nat) : Prop where
  known : Known g n
  told : ∀ c, g.conns n = some c → c.retiring = true → Retired g (UInt64.ofNat n) → Told g n
  flag : ∀ c, g.conns n = some c → c.egress.overflowed = false
  latching : g.latching ≠ some n
  mode : ∀ c, g.conns n = some c → c.retiring = true → c.closeMode = .immediate → g.pc = .leaving n

theorem known_initial (t : Thread) (n : Nat) : Known (.initial t) n := by
  refine ⟨(introduced_initial t).registered, fun hsome => ?_⟩
  obtain ⟨c, hc⟩ := Option.isSome_iff_exists.mp hsome
  exact absurd hc (conns_initial t n c)

theorem tracked_initial (t : Thread) (n : Nat) : Tracked (.initial t) n :=
  ⟨known_initial t n, fun c hc => absurd hc (conns_initial t n c),
    fun c hc => absurd hc (conns_initial t n c),
    (Option.some_ne_none n).symm, fun c hc => absurd hc (conns_initial t n c)⟩

variable {g g' : Gateway} {a : Action} {n : Nat}

theorem Known.egress (h : Known g n) (hr : Regular g) {c : Connection} (hc : g.conns n = some c)
    (hret : ¬Retired g (UInt64.ofNat n)) {d : OrderCommand} {ds : List OrderCommand}
    (hin : g.inbound = d :: ds) (hd : d.session = UInt64.ofNat n)
    (htype : d.type ≠ .sessionOpened) :
    g.thread.egress d.session = some (some n) := by
  have hheralded := hd ▸ h.heralded (by simp [hc])
  have hn : d.session.toNat = n := by rw [hd, ← (hr.wired n c hc).sessionId, hr.named hc]
  rw [h.registered _ (hheralded.sender hin htype) (hd ▸ hret), hn]

theorem flag_touched (h : Touched g a n g') (hi : Tracked g n) {c' : Connection}
    (hc' : g'.conns n = some c') :
    c'.egress.overflowed = false := by
  obtain ⟨c, hc, hal⟩ | ⟨ho, -, -⟩ := h.before hc'
  · have hflag := hi.flag c hc
    cases hal with
    | kept hk => rw [hk.egress, hflag]
    | requested ha hr => rw [hr.egress, hflag]
    | popped =>
      rw [(delivering_deliver _ _).egress]
      exact hflag
    | flagged hl => exact absurd hl hi.latching
    | _ => exact hflag
  · rw [ho.egress]

theorem latching_heard (h : Moved g a g') (hheard : heard n g a = true) (hi : Tracked g n) :
    g'.latching ≠ some n := by
  intro hl
  cases h with
  | @overflowing m e outbox c ha hout _ hc hfull =>
    obtain rfl : m = n := Option.some.inj hl
    subst ha
    exact hfull (room_of_heard hheard hout hc)
  | latched => exact absurd hl nofun
  | unlatched => exact absurd hl nofun
  | _ => exact hi.latching hl

theorem retiring_touched (h : Touched g a n g') {c' : Connection} (hc' : g'.conns n = some c')
    (hret : c'.retiring = true) :
    ∃ c, g.conns n = some c ∧ (c.retiring = true ∨ c.session.alive = true) := by
  obtain ⟨c, hc, hal⟩ | ⟨ho, -, -⟩ := h.before hc'
  · refine ⟨c, hc, ?_⟩
    cases hal with
    | kept hk => exact Or.inl (hk.retiring.symm.trans hret)
    | requested ha hr => exact Or.inl (hr.retiring.symm.trans hret)
    | popped =>
      rw [(delivering_deliver _ _).retiring] at hret
      split at hret
      · cases hret
      · exact Or.inl hret
    | killed halive => exact Or.inr halive
    | _ => exact Or.inl hret
  · rw [ho.retiring] at hret
    cases hret

theorem waiting_retiring (h : Touched g a n g') (hr : Regular g) {c' : Connection}
    (hc' : g'.conns n = some c') (hret : c'.retiring = true) {e : OrderEvent} (he : e ∈ waiting g n)
    (htype : e.type = .sessionRetired) :
    e ∈ waiting g' n := by
  obtain he | ⟨c, items, hc, hitems, rfl⟩ := waiting_stays h hr hc' he
  · exact he
  · rw [(delivering_deliver _ _).retiring, if_pos htype] at hret
    cases hret

theorem outbox_heard (h : Moved g a g') (hheard : heard n g a = true) {c : Connection}
    (hc : g.conns n = some c) {e : OrderEvent} (he : (n, e) ∈ g.outbox) :
    (n, e) ∈ g'.outbox ∨ e ∈ waiting g' n := by
  obtain he | he | ⟨rfl, ⟨outbox, hout⟩, hfull, -⟩ := outbox_stays h hc he
  · exact Or.inl he
  · exact Or.inr he
  · exact absurd (room_of_heard hheard hout hc) hfull

theorem mode_moved (h : Moved g a g') (hr : Running g) (hi : Tracked g n) {c' : Connection}
    (hc' : g'.conns n = some c') (hret : c'.retiring = true) (himm : c'.closeMode = .immediate) :
    g'.pc = .leaving n := by
  cases h with
  | turned hpc hleave => exact absurd himm (hleave n c' (hi.mode c' hc' hret himm) hc')
  | @kept m c d pc hc hk hpc hstay hserve hmode =>
    obtain ⟨rfl, ⟨⟩⟩ | ⟨-, hd⟩ := update_cases hc'
    · have hret' := hk.retiring.symm.trans hret
      obtain himm' | halive | hpc' := hmode himm
      · exact (hstay n (hi.mode c hc hret' himm')).trans (hi.mode c hc hret' himm')
      · rw [(hr.regular.wired n c hc).retires hret'] at halive
        cases halive
      · exact hpc'
    · have hleave := hi.mode c' hd hret himm
      exact (hstay n hleave).trans hleave
  | @accepted c nowNs ha hlt hpc ho =>
    obtain ⟨rfl, ⟨⟩⟩ | ⟨-, hd⟩ := update_cases hc'
    · rw [ho.retiring] at hret
      cases hret
    · exact hi.mode c' hd hret himm
  | @requested m c d cmd pc ha hpc hc hroom hreq =>
    obtain ⟨rfl, ⟨⟩⟩ | ⟨-, hd⟩ := update_cases hc'
    · have halive := hr.regular.serving n c hpc hc
      rw [(hr.regular.wired n c hc).retires (hreq.retiring.symm.trans hret)] at halive
      cases halive
    · exact absurd (hpc.symm.trans (hi.mode c' hd hret himm)) nofun
  | checked hpc => exact absurd (hpc.symm.trans (hi.mode c' hc' hret himm)) nofun
  | @popped m c e items pc ha hpc hc hitems hpc' =>
    obtain ⟨rfl, ⟨⟩⟩ | ⟨-, hd⟩ := update_cases hc'
    · have he : e.type ≠ .sessionRetired := by
        intro he
        rw [(delivering_deliver _ _).retiring, if_pos he] at hret
        cases hret
      exact hpc'.trans (if_pos ⟨himm, he⟩)
    · exact absurd (hpc.symm.trans (hi.mode c' hd hret himm)) nofun
  | @closed m c r hc ha hpc hclosed =>
    obtain ⟨rfl, hd⟩ | ⟨hne, hd⟩ := update_cases hc'
    · exact absurd ((hclosed.shut hd).2.symm.trans himm) nofun
    · have hleave := hi.mode c' hd hret himm
      obtain hpc | hpc := hpc
      · exact absurd (hpc.symm.trans hleave) nofun
      · exact absurd (Pc.leaving.inj (hpc.symm.trans hleave)) (Ne.symm hne)
  | @pushed m e outbox c ha hout hl hc hroom =>
    obtain ⟨rfl, ⟨⟩⟩ | ⟨-, hd⟩ := update_cases hc'
    · exact hi.mode c hc hret himm
    · exact hi.mode c' hd hret himm
  | @latched m c hl hc =>
    obtain ⟨rfl, ⟨⟩⟩ | ⟨-, hd⟩ := update_cases hc'
    · exact hi.mode c hc hret himm
    · exact hi.mode c' hd hret himm
  | _ => exact hi.mode c' hc' hret himm

theorem told_moved (h : Moved g a g') (hheard : heard n g a = true) (hr : Running g)
    (hi : Retirement g) (ht : Tracked g n) {c' : Connection} (hc' : g'.conns n = some c')
    (hret : c'.retiring = true) (hdone : Retired g' (UInt64.ofNat n)) : Told g' n := by
  obtain ⟨c, hc, hwas⟩ := retiring_touched (h.touched n) hc' hret
  have hid := (hr.regular.wired n c hc).sessionId
  by_cases hold : Retired g (UInt64.ofNat n)
  · have hret' : c.retiring = true := by
      refine hwas.resolve_right fun halive => ?_
      obtain ⟨d, hd, htype, hsame⟩ := hold
      exact hi.alive n c hc halive d (List.mem_append_left _ hd) htype (hsame.trans hid.symm)
    obtain ⟨e, he, htype⟩ | ⟨e, he, htype⟩ := ht.told c hc hret' hold
    · exact Or.inl ⟨e, waiting_retiring (h.touched n) hr.regular hc' hret he htype, htype⟩
    · obtain he | he := outbox_heard h hheard hc he
      · exact Or.inr ⟨e, he, htype⟩
      · exact Or.inl ⟨e, he, htype⟩
  · -- the command that retires the session is taken now, and its queue is known
    have hf := flow_moved h hr.regular hr.addressed.replaying
    have hsame : g'.applied = g.applied → Told g' n := by
      intro happ
      rw [Retired, happ] at hdone
      exact absurd hdone hold
    cases hf with
    | quiet hnext hin happ => exact hsame happ
    | opened hnext hlt hin happ => exact hsame happ
    | sent hconn halive hsender hopened hlast hnext hin happ => exact hsame happ
    | @taken env cmd ha hnext hin hempty hl happ htaken =>
      generalize hout : g'.outbox = out at htaken
      cases htaken with
      | refused hadm =>
        rw [hadm] at happ
        exact hsame happ
      | admitted hadm =>
        rw [hadm, if_pos rfl] at happ
        obtain ⟨d, hd, htype, hs⟩ := hdone
        rw [happ, List.mem_append, List.mem_singleton] at hd
        obtain hd | rfl := hd
        · exact absurd ⟨d, hd, htype, hs⟩ hold
        · have hknown := ht.known.egress hr.regular hc hold hin hs (by simp [htype])
          refine Or.inr ⟨.sessionRetired d.session, ?_, rfl⟩
          rw [hout, tombstone, if_pos htype, Thread.egressFor, hknown]
          exact List.mem_append_right _ List.mem_cons_self

theorem existed_touched (h : Touched g a n g') (hsome : (g'.conns n).isSome = true) :
    (g.conns n).isSome = true ∨ n = g.nextSessionId ∧ g'.nextSessionId = n + 1 := by
  obtain ⟨c', hc'⟩ := Option.isSome_iff_exists.mp hsome
  obtain ⟨c, hc, -⟩ | ⟨-, hm, hnext⟩ := h.before hc'
  · exact Or.inl (Option.isSome_of_eq_some hc)
  · exact Or.inr ⟨hm, hnext⟩

theorem known_moved (h : Moved g a g') (hr : Running g) (hknown : Known g n)
    (hopening : n = g.nextSessionId → g'.nextSessionId = n + 1 →
      g'.inbound = g.inbound ++ [.sessionOpened (UInt64.ofNat n) (some n) (some n)]) :
    Known g' n := by
  refine ⟨registered_moved h hr hknown.registered, fun hsome => ?_⟩
  obtain hwas | ⟨hn, hnext⟩ := existed_touched (h.touched n) hsome
  · exact heralded_moved h hr (hknown.heralded hwas)
  · have hfit := (h.regular hr.regular).bounded
    refine Or.inr (announced_new hr (fun hissued => ?_) (hopening hn hnext))
    rw [Issued, UInt64.toNat_ofNat_of_lt' (show n < 2 ^ 64 by omega)] at hissued
    omega

theorem tracked_moved (h : Moved g a g') (hheard : heard n g a = true) (hr : Running g)
    (hi : Retirement g) (ht : Tracked g n) : Tracked g' n := by
  have hroom : n = g.nextSessionId → ∀ nowNs, a = .accept nowNs →
      g.inbound.length < inboundCapacity := by
    rintro rfl nowNs rfl
    simpa [heard] using hheard
  exact ⟨known_moved h hr ht.known fun hn => opening_room h (hroom hn) hn,
    fun _ hc => told_moved h hheard hr hi ht hc, fun _ hc => flag_touched (h.touched n) ht hc,
    latching_heard h hheard ht, fun _ hc => mode_moved h hr ht hc⟩

/-- The matching thread is done with the command that retires session `n`. -/
structure Processed (g : Gateway) (n : Nat) : Prop where
  retired : Retired g (UInt64.ofNat n)
  pushed : ∀ p ∈ g.outbox, p.2.type = .sessionRetired → p.1 ≠ n

/-- Steps that may fall between those that make up a pass of the network loop:
the matching thread's, and what the network thread does for market data and
output. -/
def beside : Action → Bool
  | .market _ _ _ | .writable _ | .sendError | .take _ | .push | .latch | .erase | .housekeep _ =>
    true
  | _ => false

/-- One pass of the network loop over a connection with `k` events in its
queue: `drain_egress`, then the check of `ready_to_close`. -/
def pass (n k : Nat) (nowNs : UInt64) : List Action :=
  .drain n :: (List.replicate (k + 1) .pop ++ [.endPass nowNs])

def frameBytes (items : List OrderEvent) : Nat :=
  (items.map fun e => ((reply e).map Reply.size).getD 0).sum

/-- A dead connection whose tombstone can be reached: nothing stops the loop
that pops what is ahead of it. -/
structure Reachable (c : Connection) : Prop where
  dead : c.session.alive = false
  told : ∃ e ∈ c.egress.items, e.type = .sessionRetired
  flag : c.egress.overflowed = false
  mode : c.closeMode ≠ .immediate
  fits : c.writer.pending + frameBytes c.egress.items ≤ c.writer.capacity

inductive Passing (g : Gateway) (n : Nat) (nowNs : UInt64) : List Action → Prop where
  | ready {c : Connection} (hpc : g.pc = .polling) (hc : g.conns n = some c) (h : Reachable c) :
      Passing g n nowNs (pass n c.egress.items.length nowNs)
  | draining {c : Connection} (hpc : g.pc = .draining n) (hc : g.conns n = some c)
      (h : Reachable c) :
      Passing g n nowNs (List.replicate (c.egress.items.length + 1) .pop ++ [.endPass nowNs])
  | delivered {c : Connection} {k : Nat}
      (hpc : g.pc = .leaving n ∨ g.pc = .draining n ∧ c.egress.items.length < k)
      (hc : g.conns n = some c) (hdead : c.session.alive = false) (hret : c.retiring = false)
      (hmode : c.closeMode = .immediate) :
      Passing g n nowNs (List.replicate k .pop ++ [.endPass nowNs])
  | erased (hpc : g.pc = .polling) (hc : g.conns n = none) : Passing g n nowNs []

theorem Processed.silent (h : Processed g n) (hr : Running g) (hi : Retirement g) :
    (∀ p ∈ g.outbox, p.1 ≠ n) ∧ g.latching ≠ some n := by
  refine ⟨fun p hp hn => ?_, fun hl => (hi.latching n hl).2.2 h.retired⟩
  by_cases htype : p.2.type = .sessionRetired
  · exact h.pushed p hp htype hn
  · apply hi.pending p hp htype
    have hs : UInt64.ofNat n = p.2.session := by
      rw [← hn, (hr.addressed.outbox p hp).1, UInt64.ofNat_toNat]
    exact hs ▸ h.retired

/-- What a step beside the pass may do to a connection: nothing, or keep it as
it is on its way out. -/
def Bypassed (g g' : Gateway) (n : Nat) : Prop :=
  g'.pc = g.pc ∧ (g'.conns n = g.conns n ∨
    g.pc = .leaving n ∧ ∃ c c', g.conns n = some c ∧ g'.conns n = some c' ∧ Kept c c')

theorem bypassed_self (g : Gateway) (n : Nat) : Bypassed g g n := ⟨rfl, Or.inl rfl⟩

theorem bypassed_here {m : Nat} (hpc : g.pc = .leaving m) {p : Connection → Bool}
    {f : Connection → Connection} (hf : ∀ c, Kept c (f c)) :
    Bypassed g (g.onConn m fun c => if p c then g.setConn m (f c) else g) n := by
  unfold Gateway.onConn
  cases hc : g.conns m with
  | none => exact bypassed_self g n
  | some c =>
    dsimp only
    split
    · refine ⟨rfl, ?_⟩
      by_cases hn : n = m
      · subst hn
        exact Or.inr ⟨hpc, c, f c, hc, Function.update_self .., hf c⟩
      · exact Or.inl (Function.update_of_ne hn _ _)
    · exact bypassed_self g n

theorem bypassed_push (hout : ∀ p ∈ g.outbox, p.1 ≠ n) : Bypassed g g.push n := by
  unfold Gateway.push
  split
  · exact bypassed_self g n
  · rename_i m e outbox hcons
    have hne : n ≠ m := (hout (m, e) (by simp [hcons])).symm
    split
    · unfold Gateway.onConn
      dsimp only
      split
      · exact ⟨rfl, Or.inl rfl⟩
      · split
        · exact ⟨rfl, Or.inl (Function.update_of_ne hne _ _)⟩
        · split <;> exact ⟨rfl, Or.inl rfl⟩
    · exact bypassed_self g n

theorem bypassed_latch (hl : g.latching ≠ some n) : Bypassed g g.latch n := by
  unfold Gateway.latch
  split
  · exact bypassed_self g n
  · rename_i m hm
    have hne : n ≠ m := fun hn => hl (hn ▸ hm)
    unfold Gateway.onConn
    dsimp only
    split
    · exact ⟨rfl, Or.inl rfl⟩
    · exact ⟨rfl, Or.inl (Function.update_of_ne hne _ _)⟩

theorem bypassed_take (env : Env) : Bypassed g (g.take env) n := by
  unfold Gateway.take
  split
  · exact bypassed_self g n
  · split <;> exact ⟨rfl, Or.inl rfl⟩

theorem bypassed_erase : Bypassed g g.erase n := by
  unfold Gateway.erase
  split <;> exact ⟨rfl, Or.inl rfl⟩

theorem bypassed_housekeep (env : Env) : Bypassed g (g.housekeep env) n := by
  unfold Gateway.housekeep
  split <;> exact ⟨rfl, Or.inl rfl⟩

theorem bypassed_step (cfg : ServerConfig) (hb : beside a = true) (hserve : ∀ m, g.pc ≠ .serving m)
    (hout : ∀ p ∈ g.outbox, p.1 ≠ n) (hl : g.latching ≠ some n) : Bypassed g (g.step cfg a) n := by
  unfold Gateway.step
  cases a with
  | take env => exact bypassed_take env
  | push => exact bypassed_push hout
  | latch => exact bypassed_latch hl
  | erase => exact bypassed_erase
  | housekeep env => exact bypassed_housekeep env
  | market seq bids asks =>
    cases hpc : g.pc with
    | leaving m => exact bypassed_here hpc fun c => kept_queue c _
    | _ => exact bypassed_self g n
  | writable k =>
    cases hpc : g.pc with
    | leaving m => exact bypassed_here hpc (kept_consume k)
    | serving m => exact absurd hpc (hserve m)
    | _ => exact bypassed_self g n
  | sendError =>
    cases hpc : g.pc with
    | leaving m => exact bypassed_here hpc kept_closeNow
    | serving m => exact absurd hpc (hserve m)
    | _ => exact bypassed_self g n
  | _ => cases hb

theorem Passing.bypassed {nowNs : UInt64} {rest : List Action} (h : Passing g n nowNs rest)
    (hs : Bypassed g g' n) :
    Passing g' n nowNs rest := by
  obtain ⟨hpc', hconn⟩ := hs
  cases h with
  | ready hpc hc hreach =>
    obtain hconn | ⟨hleave, -⟩ := hconn
    · exact .ready (hpc'.trans hpc) (hconn.trans hc) hreach
    · exact absurd (hpc.symm.trans hleave) nofun
  | draining hpc hc hreach =>
    obtain hconn | ⟨hleave, -⟩ := hconn
    · exact .draining (hpc'.trans hpc) (hconn.trans hc) hreach
    · exact absurd (hpc.symm.trans hleave) nofun
  | delivered hpc hc hdead hret hmode =>
    rw [← hpc'] at hpc
    obtain hconn | ⟨hleave, c, c', hc₁, hc', hk⟩ := hconn
    · exact .delivered hpc (hconn.trans hc) hdead hret hmode
    · obtain rfl := Option.some.inj (hc.symm.trans hc₁)
      exact .delivered (Or.inl (hpc'.trans hleave)) hc' (hk.alive.trans hdead)
        (hk.retiring.trans hret) (hk.closing hmode)
  | erased hpc hc =>
    obtain hconn | ⟨-, c, c', hc₁, -⟩ := hconn
    · exact .erased (hpc'.trans hpc) (hconn.trans hc)
    · simp [hc] at hc₁

theorem Passing.unserved {nowNs : UInt64} {rest : List Action} (h : Passing g n nowNs rest)
    (m : Nat) :
    g.pc ≠ .serving m := by
  intro hm
  cases h with
  | ready hpc => simp [hpc] at hm
  | draining hpc => simp [hpc] at hm
  | delivered hpc => simp [hm] at hpc
  | erased hpc => simp [hpc] at hm

theorem exists_reply {e : OrderEvent} (he : e.type ≠ .sessionRetired) : ∃ r, reply e = some r := by
  unfold reply
  cases htype : e.type with
  | sessionRetired => exact absurd htype he
  | _ => exact ⟨_, rfl⟩

theorem Passing.pop (cfg : ServerConfig) {nowNs : UInt64} {c : Connection}
    (hpc : g.pc = .draining n) (hc : g.conns n = some c) (h : Reachable c) :
    Passing (g.step cfg .pop) n nowNs
      (List.replicate c.egress.items.length .pop ++ [.endPass nowNs]) := by
  obtain ⟨e, he, htype⟩ := h.told
  cases hitems : c.egress.items with
  | nil => simp [hitems] at he
  | cons f items =>
    have hd := delivering_deliver (queued c items) f
    rw [step_pop cfg hpc hc hitems]
    by_cases hf : f.type = .sessionRetired
    · have hmode : ((queued c items).deliver f).closeMode = .immediate := by
        simp only [Connection.deliver, hf, Connection.closeNow]
      have hpc' : ¬(((queued c items).deliver f).closeMode = .immediate ∧
          f.type ≠ .sessionRetired) :=
        fun h => h.2 hf
      rw [if_neg hpc']
      refine .delivered (Or.inr ⟨rfl, ?_⟩) (Function.update_self ..) (hd.alive.trans h.dead)
        (hd.retiring.trans (if_pos hf)) hmode
      rw [hd.egress]
      exact Nat.lt_succ_self _
    · obtain ⟨r, hreply⟩ := exists_reply hf
      have hbytes : frameBytes c.egress.items = r.size + frameBytes items := by
        simp [frameBytes, hitems, hreply]
      have happend : c.writer.append r.size =
          (true, ⟨c.writer.capacity, c.writer.pending + r.size⟩) := by
        have hfits := h.fits
        exact append_fits (by omega)
      obtain ⟨hmode, hwriter⟩ := hd.written r hreply (congrArg Prod.fst happend)
      have hmode' : ((queued c items).deliver f).closeMode ≠ .immediate := hmode.trans_ne h.mode
      have htold : e ∈ items := by
        rw [hitems] at he
        obtain rfl | he := List.mem_cons.mp he
        · exact absurd htype hf
        · exact he
      have hreach : Reachable ((queued c items).deliver f) := by
        refine ⟨hd.alive.trans h.dead, ⟨e, by rw [hd.egress]; exact htold, htype⟩, ?_, hmode', ?_⟩
        · rw [hd.egress]
          exact h.flag
        · have hfits := h.fits
          rw [hwriter, hd.egress, show (queued c items).writer = c.writer from rfl, happend]
          change c.writer.pending + r.size + frameBytes items ≤ c.writer.capacity
          omega
      rw [if_neg fun h => hmode' h.1]
      have hlen : (f :: items).length = ((queued c items).deliver f).egress.items.length + 1 := by
        rw [hd.egress]
        rfl
      rw [hlen]
      exact .draining rfl (Function.update_self ..) hreach

theorem Passing.skip (cfg : ServerConfig) {nowNs : UInt64} {c : Connection} {k : Nat}
    (hpc : g.pc = .leaving n ∨ g.pc = .draining n ∧ c.egress.items.length < k + 1)
    (hc : g.conns n = some c) (hdead : c.session.alive = false) (hret : c.retiring = false)
    (hmode : c.closeMode = .immediate) :
    Passing (g.step cfg .pop) n nowNs (List.replicate k .pop ++ [.endPass nowNs]) := by
  obtain hpc | ⟨hpc, hlen⟩ := hpc
  · have hstep : g.step cfg .pop = g := by simp only [Gateway.step, hpc]
    rw [hstep]
    exact .delivered (Or.inl hpc) hc hdead hret hmode
  · cases hitems : c.egress.items with
    | nil =>
      have hstep : g.step cfg .pop = { g with pc := .leaving n } := by
        simp only [Gateway.step, hpc, Gateway.onConn, hc, Gateway.pop, hitems]
      rw [hstep]
      exact .delivered (Or.inl rfl) hc hdead hret hmode
    | cons e items =>
      have hd := delivering_deliver (queued c items) e
      rw [step_pop cfg hpc hc hitems]
      refine .delivered ?_ (Function.update_self ..) (hd.alive.trans hdead) ?_ (hd.closing hmode)
      · by_cases he : e.type = .sessionRetired
        · refine Or.inr ⟨if_neg fun h => h.2 he, ?_⟩
          rw [hitems] at hlen
          rw [hd.egress]
          exact Nat.lt_of_succ_lt_succ hlen
        · exact Or.inl (if_pos ⟨hd.closing hmode, he⟩)
      · rw [hd.retiring]
        split
        · rfl
        · exact hret

theorem Passing.endPass (cfg : ServerConfig) {nowNs : UInt64} {c : Connection}
    (hpc : g.pc = .leaving n) (hc : g.conns n = some c) (hdead : c.session.alive = false)
    (hret : c.retiring = false) (hmode : c.closeMode = .immediate) :
    Passing (g.step cfg (.endPass nowNs)) n nowNs [] := by
  have hready : c.readyToClose nowNs = true := by simp only [Connection.readyToClose, hmode]
  have hclose : closeConnection g.inbound c = (g.inbound, none) := by
    simp only [closeConnection, killSession, hdead, hret, Bool.false_eq_true, if_false]
  rw [step_endPass cfg hpc hc hready, Gateway.close, hclose]
  exact .erased rfl (Function.update_self ..)

theorem Passing.step (cfg : ServerConfig) {nowNs : UInt64} {rest : List Action}
    (h : Passing g n nowNs (a :: rest)) :
    Passing (g.step cfg a) n nowNs rest := by
  generalize has : a :: rest = as at h
  cases h with
  | @ready c hpc hc hreach =>
    rw [pass, List.cons.injEq] at has
    obtain ⟨rfl, rfl⟩ := has
    have hstep : g.step cfg (.drain n) = { g with pc := .draining n } := by
      simp [Gateway.step, hpc, Gateway.onConn, hc, Gateway.drain, hreach.flag]
    rw [hstep]
    exact .draining rfl hc hreach
  | @draining c hpc hc hreach =>
    rw [List.replicate_succ, List.cons_append, List.cons.injEq] at has
    obtain ⟨rfl, rfl⟩ := has
    exact .pop cfg hpc hc hreach
  | @delivered c k hpc hc hdead hret hmode =>
    cases k with
    | zero =>
      obtain ⟨rfl, rfl⟩ := List.cons.inj has
      exact .endPass cfg (hpc.resolve_right fun h => Nat.not_lt_zero _ h.2) hc hdead hret hmode
    | succ k =>
      rw [List.replicate_succ, List.cons_append, List.cons.injEq] at has
      obtain ⟨rfl, rfl⟩ := has
      exact .skip cfg hpc hc hdead hret hmode
  | erased => cases has

/-- The pass goes through, whatever falls between its steps. -/
theorem Passing.run (cfg : ServerConfig) {nowNs : UInt64} {as rest : List Action}
    (h : Passing g n nowNs rest) (hr : Running g) (hi : Retirement g) (hp : Processed g n)
    (hn : (UInt64.ofNat n).toNat = n) (has : as.filter (fun a => !beside a) = rest) :
    (g.run cfg as).conns n = none := by
  induction as generalizing g rest with
  | nil =>
    cases h with
    | ready => cases has
    | draining => simp at has
    | delivered => simp at has
    | erased hpc hc => exact hc
  | cons a as ih =>
    have hm := hr.moved cfg a
    obtain ⟨hret, hpushed⟩ := retired_moved hm hr hi hn hp.retired hp.pushed
    refine ih ?_ (hr.step cfg a) (retirement_moved hm hr hi) ⟨hret, hpushed⟩ rfl
    cases hb : beside a with
    | true =>
      rw [List.filter_cons_of_neg (by simp [hb])] at has
      obtain ⟨hout, hl⟩ := hp.silent hr hi
      rw [has]
      exact h.bypassed (bypassed_step cfg hb h.unserved hout hl)
    | false =>
      rw [List.filter_cons_of_pos (by simp [hb])] at has
      rw [← has] at h
      exact h.step cfg

/-- A retired session is reclaimed in one pass. -/
theorem retired_reclaimed {t : Thread} (h : Booted t) (cfg : ServerConfig) {as : List Action}
    {n : Nat} (hrun : Along cfg (fun g a => heard n g a = true) (.initial t) as) {c : Connection}
    (hc : ((Gateway.initial t).run cfg as).conns n = some c) (hret : c.retiring = true)
    (hdone : Processed ((Gateway.initial t).run cfg as) n) :
    (∃ e ∈ c.egress.items, e.type = .sessionRetired) ∧
      (((Gateway.initial t).run cfg as).pc = .polling →
        c.writer.pending + frameBytes c.egress.items ≤ c.writer.capacity →
        ∀ bs nowNs, bs.filter (fun a => !beside a) = pass n c.egress.items.length nowNs →
          (((Gateway.initial t).run cfg as).run cfg bs).conns n = none) := by
  have hstep : ∀ (g : Gateway) (a : Action), (Running g ∧ Retirement g ∧ Tracked g n) →
      heard n g a = true →
      Running (g.step cfg a) ∧ Retirement (g.step cfg a) ∧ Tracked (g.step cfg a) n := by
    rintro g a ⟨hr, hi, ht⟩ hheard
    have hm := hr.moved cfg a
    exact ⟨hr.step cfg a, retirement_moved hm hr hi, tracked_moved hm hheard hr hi ht⟩
  obtain ⟨hr, hi, ht⟩ :=
    hrun.keeps hstep ⟨running_initial h, retirement_initial t, tracked_initial t n⟩
  have htold : ∃ e ∈ c.egress.items, e.type = .sessionRetired := by
    obtain ⟨e, he, htype⟩ | ⟨e, he, htype⟩ := ht.told c hc hret hdone.retired
    · exact ⟨e, waiting_of hc ▸ he, htype⟩
    · exact absurd rfl (hdone.pushed (n, e) he htype)
  refine ⟨htold, fun hpc hfits bs nowNs hbs => ?_⟩
  have hmode : c.closeMode ≠ .immediate :=
    fun himm => absurd (hpc.symm.trans (ht.mode c hc hret himm)) nofun
  have hreach : Reachable c :=
    ⟨(hr.regular.wired n c hc).retires hret, htold, ht.flag c hc, hmode, hfits⟩
  have hn : (UInt64.ofNat n).toNat = n := by
    rw [← (hr.regular.wired n c hc).sessionId, hr.regular.named hc]
  exact Passing.run cfg (.ready hpc hc hreach) hr hi hdone hn hbs

def hungUp : List Action :=
  admission ++ [asking 7, .take .obliging, .push, .hangup, .endPass 0, .take .obliging, .push]

theorem hungUp_reclaimed :
    ((Gateway.initial newThread).run .default hungUp).conns 1 =
        some (queued (killed (.create .default 1 0)) [refusal 1 7, .sessionRetired 1]) ∧
      (((Gateway.initial newThread).run .default hungUp).run .default (pass 1 2 0)).conns
        1 = none := by
  have hrun : Along .default (fun g a => heard 1 g a = true) (.initial newThread) hungUp := by
    decide +kernel
  have hdone : Processed ((Gateway.initial newThread).run .default hungUp) 1 :=
    ⟨⟨.cancelAll 1, by decide +kernel, rfl, rfl⟩, by decide +kernel⟩
  refine ⟨rfl, ?_⟩
  exact (retired_reclaimed booted_newThread .default hrun rfl rfl hdone).2 rfl (by decide)
    (pass 1 2 0) 0 rfl

theorem close_room {c : Connection} (hw : Wired n c) (halive : c.session.alive = true)
    (hroom : g.inbound.length < inboundCapacity) :
    g.close n c = { g with
      conns := Function.update g.conns n (some (killed c))
      inbound := g.inbound ++ [.cancelAll c.session.id]
      pc := .polling } := by
  rw [Gateway.close, closeConnection_alive hw halive, if_pos hroom]

theorem take_cancelAll (env : Env) (hin : g.inbound = [.cancelAll (UInt64.ofNat n)])
    (hidle : g.idle) (hplain : Plain g.thread n) :
    ∃ t d, g.take env = { g with
      inbound := []
      thread := t
      outbox := [(n, .sessionRetired (UInt64.ofNat n))]
      erasing := d
      applied := g.applied ++ [.cancelAll (UInt64.ofNat n)] } := by
  obtain ⟨hadm, -, -, -, -, hpushed⟩ := taken_plain env hplain (.cancelAll (UInt64.ofNat n))
  refine ⟨g.thread.applyPopped (roomy env) (.cancelAll (UInt64.ofNat n)),
    leavingEntries g.thread (.cancelAll (UInt64.ofNat n)), ?_⟩
  have htomb : tombstone g.thread (.cancelAll (UInt64.ofNat n)) =
      [(n, .sessionRetired (UInt64.ofNat n))] := by
    change (g.thread.egressFor (UInt64.ofNat n)).toList.map _ = _
    rw [hplain.egress]
    rfl
  have hdrop : (g.thread.applyPopped (roomy env) (.cancelAll (UInt64.ofNat n))).pushed.drop
      g.thread.pushed.length =
      [(n, .sessionRetired (UInt64.ofNat n))] := hpushed.trans htomb
  rw [take_idle hin hidle, hdrop, hadm, if_pos rfl, if_pos rfl]

/-- A session whose queue has overflowed is closed, and its tombstone finds no
room either. -/
theorem Pressed.perish (cfg : ServerConfig) (env : Env) {c : Connection}
    {emitted delivered : List OrderEvent} (h : Pressed g n .polling c [] emitted delivered)
    (hflag : c.egress.overflowed = true) (hw : Wired n c) (halive : c.session.alive = true)
    (hfull : ¬c.egress.items.length < egressCapacity) :
    (g.run cfg [.drain n, .endPass 0, .take env, .push]).conns n = some (killed c) ∧
      Processed (g.run cfg [.drain n, .endPass 0, .take env, .push]) n := by
  let g₁ : Gateway := { g.setConn n c.closeNow with pc := .leaving n }
  have h₁ : g.step cfg (.drain n) = g₁ := by
    simp only [Gateway.step, h.pc, if_true, Gateway.onConn, h.conn, Gateway.drain, hflag, g₁]
  have hclose := close_room (g := g₁) (c := c.closeNow) ⟨hw.sessionId, hw.socket, hw.retires⟩ halive
    (by simp [g₁, Gateway.setConn, h.inbound, inboundCapacity])
  have h₂ : g₁.step cfg (.endPass 0) = g₁.close n c.closeNow :=
    step_endPass cfg rfl (Function.update_self ..) rfl
  obtain ⟨t, d, h₃⟩ := take_cancelAll (g := g₁.close n c.closeNow) (n := n) env
    (by rw [hclose]; simp [g₁, Gateway.setConn, h.inbound, Connection.closeNow, h.sessionId])
    (by rw [hclose]; exact h.idle) (by rw [hclose]; exact h.plain)
  have hrun : g.run cfg [.drain n, .endPass 0, .take env, .push] =
      ((g₁.close n c.closeNow).take env).push := by
    change (((g.step cfg (.drain n)).step cfg (.endPass 0)).take env).push = _
    rw [h₁, h₂]
  have hpush : ((g₁.close n c.closeNow).take env).push = { g with
      conns := Function.update g.conns n (some (killed c))
      pc := .polling
      inbound := []
      thread := t
      outbox := []
      erasing := d
      applied := g.applied ++ [.cancelAll (UInt64.ofNat n)] } := by
    have hitems : (killed c.closeNow).egress = c.egress := rfl
    rw [h₃, hclose]
    simp only [Gateway.push, g₁, Gateway.setConn, h.idle.2.1, if_true, Gateway.onConn,
      Function.update_self, Function.update_idem, hitems, hfull, if_false]
    rfl
  rw [hrun, hpush]
  refine ⟨Function.update_self .., ⟨⟨_, List.mem_append_right _ List.mem_cons_self, rfl, rfl⟩,
    fun _ hp => absurd hp List.not_mem_nil⟩⟩

def perished (k : Nat) : List Action :=
  admission ++ List.replicate (k + 1) (asking 0) ++ [.readDone, .endPass 0] ++
    (List.replicate k [.take .obliging, .push]).flatten ++ [.take .obliging, .push, .latch] ++
    [.drain 1, .endPass 0, .take .obliging, .push]

theorem perished_untold (k : Nat) (hk : k = egressCapacity) :
    ∃ c, ((Gateway.initial newThread).run .default (perished k)).conns 1 = some c ∧
      c.retiring = true ∧ Processed ((Gateway.initial newThread).run .default (perished k)) 1 ∧
      ∀ e ∈ c.egress.items, e.type ≠ .sessionRetired := by
  have hsmall : k + 1 ≤ inboundCapacity := by simp [hk, egressCapacity, inboundCapacity]
  have h₁ := (pressed_admission .default).asks .default rfl rfl 0 (k + 1) (by simp; omega)
  have h₂ := h₁.rest .default rfl 0
  have hqueue : [] ++ List.replicate (k + 1) (OrderCommand.cancel (UInt64.ofNat 1) 0) =
      List.replicate k (.cancel (UInt64.ofNat 1) 0) ++ [.cancel (UInt64.ofNat 1) 0] := by
    simp [List.replicate_succ']
  rw [hqueue] at h₂
  have h₃ := Pressed.answers .default .obliging 0 k h₂ (by simp [Connection.create, hk])
  have h₄ := Pressed.overflow .default .obliging h₃ (by simp [queued, Connection.create, hk])
  obtain ⟨hc, hdone⟩ := Pressed.perish .default .obliging h₄ rfl
    ⟨rfl, rfl, by simp [flagged, queued, Connection.create]⟩ rfl
    (by simp [flagged, queued, Connection.create, hk])
  rw [perished]
  simp only [run_append]
  refine ⟨_, hc, rfl, hdone, fun e he => ?_⟩
  rw [List.eq_of_mem_replicate (show e ∈ List.replicate k (refusal 1 0) from he)]
  decide

theorem perished_not_reclaimed :
    ¬∀ (cfg : ServerConfig) (t : Thread) (as : List Action) (n : Nat) (c : Connection), Booted t →
      ((Gateway.initial t).run cfg as).conns n = some c → c.retiring = true →
      Processed ((Gateway.initial t).run cfg as) n →
      (∃ e ∈ c.egress.items, e.type = .sessionRetired) ∧
        (((Gateway.initial t).run cfg as).pc = .polling →
          ∀ bs nowNs, bs.filter (fun a => !beside a) = pass n c.egress.items.length nowNs →
            (((Gateway.initial t).run cfg as).run cfg bs).conns n = none) := by
  intro h
  obtain ⟨c, hc, hret, hdone, huntold⟩ := perished_untold egressCapacity rfl
  obtain ⟨⟨e, he, htype⟩, -⟩ :=
    h .default newThread (perished egressCapacity) 1 c booted_newThread hc hret hdone
  exact huntold e he htype

end OrderMatching.Reclaim
