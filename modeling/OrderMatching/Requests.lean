import OrderMatching.Registration
import OrderMatching.Wire

namespace OrderMatching.Requests

open OrderMatching.Orders OrderMatching.Commands OrderMatching.Exchange OrderMatching.MatchingThread
open OrderMatching.LedgerStep OrderMatching.Answers OrderMatching.Posting OrderMatching.Protocol
open OrderMatching.Network OrderMatching.Wire OrderMatching.Threads OrderMatching.Moves
open OrderMatching.Sessions OrderMatching.Lifetime OrderMatching.Registration

/-- The frame that `submit` queues when there is no room for the command. -/
def submitReply (inbound : List OrderCommand) (cmd : OrderCommand) : Option Reply :=
  if inbound.length < inboundCapacity then none else some (.reject cmd.clientOrderId .rateLimited)

/-- The frame that `dispatch` queues, if it does not leave the answer to the
matching thread. -/
def dispatchReply (inbound : List OrderCommand) (c : Connection) (allowed : Bool) (f : Frame) :
    Option Reply :=
  match f with
  | .wrongVersion => some (.reject 0 .malformed)
  | .heartbeat => none
  | f =>
    if allowed = false then some (.reject 0 .rateLimited)
    else
      match f with
      | .newOrder clientOrderId priceTicks quantity side orderType =>
        if quantity = 0 then some (.reject clientOrderId .invalidQty)
        else if (c.session.registerOrder clientOrderId).1 = false then
          some (.reject clientOrderId .duplicateOrderId)
        else submitReply inbound
          (.newOrder c.session.id clientOrderId priceTicks quantity side orderType)
      | .cancel clientOrderId => submitReply inbound (.cancel c.session.id clientOrderId)
      | .modify clientOrderId newPriceTicks newQuantity =>
        submitReply inbound (.modify c.session.id clientOrderId newPriceTicks newQuantity)
      | .subscribe depth => submitReply inbound (.subscribe c.session.id depth)
      | .unknownType => some (.reject 0 .unknownMessageType)
      | _ => some (.reject 0 .malformed)

def asks (d : OrderCommand) : Bool := d.type ≠ .sessionOpened ∧ d.type ≠ .cancelAllForSession

def isAnswer (e : OrderEvent) : Bool := e.type = .ack ∨ e.type = .reject

def answering : Reply → Bool
  | .ack _ _ => true
  | .reject _ _ => true
  | _ => false

def taking (w : WriteBuffer) : Option Reply → WriteBuffer
  | none => w
  | some r => (w.append r.size).2

theorem writer_queue (c : Connection) (r : Reply) :
    (c.queue r).writer = taking c.writer (some r) := by
  obtain h | h := append_cases c.writer r.size
  · simp [Connection.queue, taking, h]
  · simp [Connection.queue, taking, h, Connection.closeNow]

/-- What becomes of a frame: a heartbeat is let be, and any other is either
refused on the spot or passed on. -/
inductive Settled (inbound : List OrderCommand) (c : Connection) (f : Frame) :
    Option Reply → List OrderCommand × Connection → Prop where
  | ignored (hf : f = .heartbeat) : Settled inbound c f none (inbound, c)
  | refused {r : Reply} {c' : Connection} (hf : f ≠ .heartbeat) (hr : answering r = true)
      (hfits : c'.closeMode ≠ .immediate → (c.writer.append r.size).1 = true)
      (hwriter : c'.writer = taking c.writer (some r)) : Settled inbound c f (some r) (inbound, c')
  | forwarded {cmd : OrderCommand} {c' : Connection} (hf : f ≠ .heartbeat) (hasks : asks cmd = true)
      (hsender : cmd.session = c.session.id) (hwriter : c'.writer = c.writer) :
      Settled inbound c f none (inbound ++ [cmd], c')

theorem fits_of_queue {c : Connection} {r : Reply} (h : (c.queue r).closeMode ≠ .immediate) :
    (c.writer.append r.size).1 = true := by
  by_contra hfull
  refine h ?_
  simp only [Connection.queue, hfull]
  rfl

variable {inbound : List OrderCommand} {c : Connection} {f : Frame}

theorem settled_queue (hf : f ≠ .heartbeat) {r : Reply} (hr : answering r = true) :
    Settled inbound c f (some r) (inbound, c.queue r) :=
  .refused hf hr fits_of_queue (writer_queue c r)

theorem settled_submit (hf : f ≠ .heartbeat) {cmd : OrderCommand} (hasks : asks cmd = true)
    (hsender : cmd.session = c.session.id) (after : Connection → Connection)
    (hafter : (after c).writer = c.writer) :
    Settled inbound c f (submitReply inbound cmd)
      (if (submit inbound c cmd).1 then
        ((submit inbound c cmd).2.1, after (submit inbound c cmd).2.2)
      else (submit inbound c cmd).2) := by
  obtain ⟨hroom, h⟩ | ⟨hfull, h⟩ := submit_cases inbound c cmd
  · rw [h, submitReply, if_pos hroom]
    exact .forwarded hf hasks hsender hafter
  · rw [h, submitReply, if_neg hfull]
    exact settled_queue hf rfl

theorem settled_newOrder (coid : UInt64) (priceTicks : Int64) (quantity : UInt32) (side : Side)
    (orderType : Commands.OrderType) :
    Settled inbound c (.newOrder coid priceTicks quantity side orderType)
      (dispatchReply inbound c true (.newOrder coid priceTicks quantity side orderType))
      (dispatch inbound c true (.newOrder coid priceTicks quantity side orderType)) := by
  let c₁ : Connection := { c with session := (c.session.registerOrder coid).2 }
  have hfits : ∀ r, (c₁.queue r).closeMode ≠ .immediate → (c.writer.append r.size).1 = true :=
    fun r h => fits_of_queue (c := c₁) h
  by_cases hq : quantity = 0
  · simp only [dispatch, dispatchReply, hq, if_true]
    exact settled_queue (by simp) rfl
  cases hfresh : (c.session.registerOrder coid).1 with
  | false =>
    simp only [dispatch, dispatchReply, hq, hfresh, if_true, if_false]
    exact .refused (by simp) rfl (hfits _) (writer_queue c₁ _)
  | true =>
    simp only [dispatch, dispatchReply, hq, hfresh, if_false]
    obtain ⟨hroom, h⟩ | ⟨hfull, h⟩ := submit_cases inbound c₁
      (.newOrder c₁.session.id coid priceTicks quantity side orderType)
    · simp only [c₁] at h
      simp only [h, submitReply, hroom, if_true]
      exact .forwarded (by simp) rfl rfl rfl
    · simp only [c₁] at h
      simp only [h, submitReply, hfull, if_false]
      exact .refused (by simp) rfl (hfits _) (writer_queue c₁ _)

theorem settled_dispatch (inbound : List OrderCommand) (c : Connection) (allowed : Bool)
    (f : Frame) :
    Settled inbound c f (dispatchReply inbound c allowed f) (dispatch inbound c allowed f) := by
  cases allowed with
  | false =>
    cases f with
    | heartbeat => exact .ignored rfl
    | _ => exact settled_queue (by simp) rfl
  | true =>
    cases f with
    | heartbeat => exact .ignored rfl
    | newOrder coid priceTicks quantity side orderType => exact settled_newOrder ..
    | cancel coid =>
      have h : Settled inbound c (.cancel coid)
          (submitReply inbound (.cancel c.session.id coid)) _ :=
        settled_submit (by simp) rfl rfl id rfl
      simpa [dispatch, dispatchReply] using h
    | modify coid priceTicks quantity =>
      have h : Settled inbound c (.modify coid priceTicks quantity)
          (submitReply inbound (.modify c.session.id coid priceTicks quantity)) _ :=
        settled_submit (by simp) rfl rfl id rfl
      simpa [dispatch, dispatchReply] using h
    | subscribe depth =>
      exact settled_submit (by simp) rfl rfl (fun c => { c with subscribed := true }) rfl
    | _ => exact settled_queue (by simp) rfl

theorem Settled.writer {q : Option Reply} {d : List OrderCommand × Connection}
    (h : Settled inbound c f q d) : d.2.writer = taking c.writer q := by
  cases h with
  | ignored => rfl
  | refused hf hr hfits hwriter => exact hwriter
  | forwarded hf hasks hsender hwriter => exact hwriter

/-- The matching thread answers a request once, and what else it has to say on
the occasion are fills. -/
theorem step_answers (risk : RiskConfig) (l : Ledger) (d : OrderCommand) :
    if asks d then ∃ e es, (step risk l d).2 = e :: es ∧ isAnswer e = true ∧ e.session = d.session ∧
      ∀ f ∈ es, isAnswer f = false
    else (step risk l d).2 = [] := by
  have hsingle : ∀ (es : List OrderEvent) (e : OrderEvent) (s : UInt64), es = [e] →
      isAnswer e = true → e.session = s →
      ∃ e es', es = e :: es' ∧ isAnswer e = true ∧ e.session = s ∧ ∀ f ∈ es', isAnswer f = false :=
    fun es e s hes he hs => ⟨e, [], hes, he, hs, by simp⟩
  have hplace : ∀ (l : Ledger) (c : OrderCommand), ∃ e es, (stepNewOrder risk l c).2 = e :: es ∧
      isAnswer e = true ∧ e.session = c.session ∧ ∀ f ∈ es, isAnswer f = false := by
    intro l c
    unfold stepNewOrder
    dsimp only
    split
    · exact hsingle _ _ _ rfl rfl rfl
    · split
      · refine ⟨_, _, rfl, rfl, rfl, fun f hf => ?_⟩
        have hfill := publishAll_fills _ _ f hf
        simp [isAnswer, hfill]
      · exact hsingle _ _ _ rfl rfl rfl
  unfold step
  cases hd : d.type with
  | sessionOpened => simp [asks, hd]
  | cancelAllForSession => simp [asks, hd]
  | subscribe =>
    rw [if_pos (by simp [asks, hd])]
    exact hsingle _ _ _ rfl rfl rfl
  | newOrder =>
    rw [if_pos (by simp [asks, hd])]
    exact hplace l d
  | cancel =>
    rw [if_pos (by simp [asks, hd])]
    unfold stepCancel
    dsimp only
    split
    · exact hsingle _ _ _ rfl rfl rfl
    · split <;> exact hsingle _ _ _ rfl rfl rfl
  | modify =>
    rw [if_pos (by simp [asks, hd])]
    unfold stepModify
    dsimp only
    split
    · exact hsingle _ _ _ rfl rfl rfl
    · split
      · exact hplace _ (replacement d _)
      · exact hsingle _ _ _ rfl rfl rfl

/-- The frame that the end of a session queues when there is no room for its
last command. -/
def killReply (inbound : List OrderCommand) (c : Connection) : Option Reply :=
  if c.session.alive then submitReply inbound (.cancelAll c.session.id) else none

/-- The frame that `service_timers` queues. -/
def timerReply (cfg : ServerConfig) (nowNs : UInt64) (c : Connection) : Option Reply :=
  if c.session.timedOut cfg.session nowNs then none
  else if c.session.heartbeatDue cfg.session nowNs then some (.heartbeat nowNs)
  else none

/-- The frame for a connection, with its number and the write buffer that it goes
to. -/
def addressed (g : Gateway) (n : Nat) (q : Connection → Option Reply) :
    Option (Nat × WriteBuffer × Reply) :=
  (g.conns n).bind fun c => (q c).map fun r => (n, c.writer, r)

def queueing (cfg : ServerConfig) (g : Gateway) : Action → Option (Nat × WriteBuffer × Reply)
  | .accept _ =>
    let n := g.nextSessionId
    if g.pc = .polling ∧ n < 2 ^ 64 then
      (submitReply g.inbound (.sessionOpened (UInt64.ofNat n) (some n) (some n))).map fun r =>
        (n, ⟨cfg.maxWriteBuffer, 0⟩, r)
    else none
  | .timers n nowNs => if g.pc = .polling then addressed g n (timerReply cfg nowNs) else none
  | .frame nowNs allowed f =>
    match g.pc with
    | .serving n =>
      addressed g n fun c =>
        dispatchReply g.inbound { c with session := c.session.onInbound nowNs } allowed f
    | _ => none
  | .pop =>
    match g.pc with
    | .draining n => addressed g n fun c => c.egress.items.head?.bind reply
    | _ => none
  | .market seq bids asks =>
    match g.pc with
    | .leaving n =>
      addressed g n fun c => if c.subscribed then some (.bookUpdate seq bids asks) else none
    | _ => none
  | .pollError =>
    match g.pc with
    | .serving n => addressed g n (killReply g.inbound)
    | _ => none
  | .endPass nowNs =>
    match g.pc with
    | .leaving n =>
      addressed g n fun c => if c.readyToClose nowNs then killReply g.inbound c else none
    | _ => none
  | _ => none

def fitting (n : Nat) : Option (Nat × WriteBuffer × Reply) → List Reply
  | none => []
  | some (m, w, r) => if m = n ∧ (w.append r.size).1 = true then [r] else []

def told (cfg : ServerConfig) (g : Gateway) (a : Action) (n : Nat) : List Reply :=
  fitting n (queueing cfg g a)

section Buffers

theorem writer_submit (inbound : List OrderCommand) (c : Connection) (cmd : OrderCommand) :
    (submit inbound c cmd).2.2.writer = taking c.writer (submitReply inbound cmd) := by
  unfold submit submitReply
  split
  · rfl
  · exact writer_queue ..

theorem writer_deliver (c : Connection) (e : OrderEvent) :
    (c.deliver e).writer = taking c.writer (reply e) := by
  unfold Connection.deliver reply
  cases e.type with
  | ack =>
    dsimp only
    split
    · exact writer_queue (c.forgetOrder e.clientOrderId) _
    · exact writer_queue c _
  | reject => exact writer_queue (c.forgetOrder e.clientOrderId) _
  | fill =>
    dsimp only
    split
    · exact writer_queue (c.forgetOrder e.clientOrderId) _
    · exact writer_queue c _
  | sessionRetired => rfl

theorem writer_popped (c : Connection) :
    (popped c).writer = taking c.writer (c.egress.items.head?.bind reply) := by
  unfold popped
  split
  · rename_i hitems
    rw [hitems]
    rfl
  · rename_i e items hitems
    rw [hitems]
    exact writer_deliver (queued c items) e

theorem writer_killSession (inbound : List OrderCommand) (c : Connection) :
    (killSession inbound c).2.writer = taking c.writer (killReply inbound c) := by
  unfold killSession killReply
  split
  · have hsubmit := writer_submit inbound { c with session := { c.session with alive := false } }
      (.cancelAll c.session.id)
    dsimp only
    split <;> exact hsubmit
  · rfl

theorem writer_closeConnection {inbound : List OrderCommand} {c d : Connection}
    (h : (closeConnection inbound c).2 = some d) :
    d.writer = taking c.writer (killReply inbound c) := by
  unfold closeConnection at h
  dsimp only at h
  split at h
  · obtain rfl := Option.some.inj h
    exact writer_killSession inbound c
  · cases h

theorem writer_serviceTimers (cfg : ServerConfig) (c : Connection) (nowNs : UInt64) :
    (serviceTimers cfg c nowNs).writer = taking c.writer (timerReply cfg nowNs c) := by
  unfold serviceTimers timerReply
  split
  · rfl
  · split
    · exact writer_queue c _
    · rfl

def pendingTo (g : Gateway) (n : Nat) : Nat := (g.conns n).elim 0 fun c => c.writer.pending

def flushes (g : Gateway) (n : Nat) : Action → Nat
  | .writable k =>
    match g.pc with
    | .serving m | .leaving m =>
      if m = n then
        (g.conns n).elim 0 fun c => if c.fdOpen then min k c.writer.pending else 0
      else 0
    | _ => 0
  | _ => 0

def silent : Action → Bool
  | .serve _ | .drain _ | .hangup | .readDone | .sendError => true
  | .take _ | .push | .latch | .erase | .housekeep _ => true
  | _ => false

def bytes (rs : List Reply) : Nat := (rs.map Reply.size).sum

variable {g g' : Gateway} {n : Nat} {c' : Connection}

theorem pending_taking (w : WriteBuffer) (m : Nat) (q : Option Reply) :
    (taking w q).pending = w.pending + bytes (fitting m (q.map fun r => (m, w, r))) := by
  cases q with
  | none => rfl
  | some r =>
    obtain h | h := append_cases w r.size
    · simp [taking, fitting, bytes, h]
    · simp [taking, fitting, bytes, h]

theorem pendingTo_of {c : Connection} (hc : g.conns n = some c) :
    pendingTo g n = c.writer.pending := by
  rw [pendingTo, hc, Option.elim_some]

def Unwritten (g : Gateway) (n : Nat) (g' : Gateway) : Prop :=
  ∀ c', g'.conns n = some c' → ∃ c, g.conns n = some c ∧ c'.writer = c.writer

theorem unwritten_of_conns (h : g'.conns = g.conns) : Unwritten g n g' :=
  fun c' hc' => ⟨c', h ▸ hc', rfl⟩

theorem unwritten_onConn {m : Nat} {f : Connection → Gateway}
    (hf : ∀ c, g.conns m = some c → (f c).conns = g.conns ∨
      ∃ d, (f c).conns = Function.update g.conns m (some d) ∧ d.writer = c.writer) :
    Unwritten g n (g.onConn m f) := by
  unfold Gateway.onConn
  cases hc : g.conns m with
  | none => exact unwritten_of_conns rfl
  | some c =>
    obtain hsame | ⟨d, hconns, hwriter⟩ := hf c hc
    · exact unwritten_of_conns hsame
    · intro c' hc'
      rw [hconns] at hc'
      obtain ⟨rfl, ⟨⟩⟩ | ⟨-, hc'⟩ := update_cases hc'
      · exact ⟨c, hc, hwriter⟩
      · exact ⟨c', hc', rfl⟩

theorem Unwritten.pending (h : Unwritten g n g') (hc' : g'.conns n = some c') :
    c'.writer.pending + 0 = pendingTo g n + bytes [] := by
  obtain ⟨c, hc, hwriter⟩ := h c' hc'
  rw [hwriter, pendingTo_of hc]
  rfl

theorem pending_onConn {m : Nat} {f : Connection → Gateway} {q : Connection → Option Reply}
    {o : Connection → Option Connection}
    (hf : ∀ c, g.conns m = some c → (f c).conns = Function.update g.conns m (o c))
    (hwriter : ∀ c d, o c = some d → d.writer = taking c.writer (q c))
    (hc' : (g.onConn m f).conns n = some c') :
    c'.writer.pending + 0 = pendingTo g n + bytes (fitting n (addressed g m q)) := by
  unfold Gateway.onConn at hc'
  unfold addressed
  cases hc : g.conns m with
  | none =>
    rw [hc] at hc'
    exact (unwritten_of_conns rfl).pending hc'
  | some c =>
    rw [hc] at hc'
    change (f c).conns n = some c' at hc'
    rw [hf c hc] at hc'
    obtain ⟨rfl, hd⟩ | ⟨hne, hc'⟩ := update_cases hc'
    · rw [pendingTo_of hc, hwriter c c' hd, pending_taking c.writer n (q c)]
      rfl
    · have hother : fitting n ((q c).map fun r => (m, c.writer, r)) = [] := by
        cases q c with
        | none => rfl
        | some r => exact if_neg fun h => hne h.1.symm
      rw [Option.bind_some, hother]
      exact (unwritten_of_conns rfl).pending hc'

theorem unwritten_push (g : Gateway) (n : Nat) : Unwritten g n g.push := by
  unfold Gateway.push
  split
  · exact unwritten_of_conns rfl
  · split
    · refine unwritten_onConn (g := { g with outbox := _, emitted := _ }) fun c hc => ?_
      split
      · exact Or.inr ⟨_, rfl, rfl⟩
      · split <;> exact Or.inl rfl
    · exact unwritten_of_conns rfl

theorem unwritten_latch (g : Gateway) (n : Nat) : Unwritten g n g.latch := by
  unfold Gateway.latch
  split
  · exact unwritten_of_conns rfl
  · exact unwritten_onConn (g := { g with latching := none }) fun c hc =>
      Or.inr ⟨flagged c, rfl, rfl⟩

theorem conns_take (g : Gateway) (env : Env) : (g.take env).conns = g.conns := by
  unfold Gateway.take
  split
  · rfl
  · split <;> rfl

theorem conns_above (hr : Regular g) (hn : g.nextSessionId ≤ n) : g.conns n = none := by
  rw [Option.eq_none_iff_forall_ne_some]
  intro c hc
  have hlt := (hr.below n c hc).2
  omega

theorem pending_accept (cfg : ServerConfig) (hr : Regular g) (hpc : g.pc = .polling)
    (nowNs : UInt64) (hc' : (g.accept cfg nowNs).conns n = some c') :
    c'.writer.pending + 0 = pendingTo g n + bytes (told cfg g (.accept nowNs) n) := by
  unfold Gateway.accept at hc'
  unfold told queueing
  dsimp only at hc' ⊢
  split at hc'
  · rename_i hlt
    rw [if_pos ⟨hpc, hlt⟩]
    obtain ⟨rfl, ⟨⟩⟩ | ⟨hne, hc'⟩ := update_cases hc'
    · have hnew : g.conns g.nextSessionId = none := conns_above hr (Nat.le_refl _)
      rw [writer_submit, pending_taking _ g.nextSessionId, pendingTo, hnew]
      rfl
    · have hother : fitting n ((submitReply g.inbound (.sessionOpened (UInt64.ofNat g.nextSessionId)
          (some g.nextSessionId) (some g.nextSessionId))).map fun r =>
            (g.nextSessionId, ⟨cfg.maxWriteBuffer, 0⟩, r)) = [] := by
        unfold submitReply
        split
        · rfl
        · exact if_neg fun h => hne h.1.symm
      rw [hother]
      exact (unwritten_of_conns rfl).pending hc'
  · rename_i hlt
    rw [if_neg fun h => hlt h.2]
    exact (unwritten_of_conns rfl).pending hc'

theorem pending_market {m seq : Nat} {bids asks : List (Int × Nat)}
    (hc' : (g.onConn m fun c =>
      if c.subscribed then g.setConn m (c.queue (.bookUpdate seq bids asks))
      else g).conns n = some c') :
    c'.writer.pending + 0 = pendingTo g n + bytes (fitting n (addressed g m fun c =>
      if c.subscribed then some (.bookUpdate seq bids asks) else none)) := by
  refine pending_onConn (o := fun c => some (if c.subscribed then
    c.queue (.bookUpdate seq bids asks) else c)) (fun c hc => ?_) (fun c d hd => ?_) hc'
  · split
    · rfl
    · rw [← hc, Function.update_eq_self]
  · obtain rfl := Option.some.inj hd
    split
    · exact writer_queue c _
    · rfl

theorem pending_endPass {m : Nat} {nowNs : UInt64}
    (hc' : (g.onConn m fun c => g.endPass m nowNs c).conns n = some c') :
    c'.writer.pending + 0 = pendingTo g n + bytes (fitting n (addressed g m fun c =>
      if c.readyToClose nowNs then killReply g.inbound c else none)) := by
  refine pending_onConn (o := fun c => if c.readyToClose nowNs then
    (closeConnection g.inbound c).2 else some c) (fun c hc => ?_) (fun c d hd => ?_) hc'
  · unfold Gateway.endPass
    split
    · rfl
    · rw [← hc, Function.update_eq_self]
  · by_cases hready : c.readyToClose nowNs = true
    · rw [if_pos hready] at hd ⊢
      exact writer_closeConnection hd
    · rw [if_neg hready] at hd ⊢
      exact congrArg Connection.writer (Option.some.inj hd).symm

theorem pending_writable {m k : Nat}
    (hc' : (g.onConn m fun c =>
      if c.fdOpen then g.setConn m { c with writer := c.writer.consume k }
      else g).conns n = some c') :
    c'.writer.pending +
        (if m = n then
          (g.conns n).elim 0 fun c => if c.fdOpen then min k c.writer.pending else 0
        else 0) =
      pendingTo g n := by
  unfold Gateway.onConn at hc'
  cases hc : g.conns m with
  | none =>
    rw [hc] at hc'
    have hne : m ≠ n := by
      rintro rfl
      cases hc.symm.trans hc'
    rw [if_neg hne, pendingTo_of hc']
    rfl
  | some c =>
    rw [hc] at hc'
    dsimp only at hc'
    by_cases hopen : c.fdOpen = true
    · rw [if_pos hopen] at hc'
      obtain ⟨rfl, ⟨⟩⟩ | ⟨hne, hc'⟩ := update_cases hc'
      · rw [if_pos rfl, pendingTo_of hc, hc, Option.elim_some, if_pos hopen]
        exact Nat.sub_add_cancel (Nat.min_le_right ..)
      · rw [if_neg hne.symm, pendingTo_of hc']
        rfl
    · rw [if_neg hopen] at hc'
      rw [pendingTo_of hc']
      split
      · rename_i hn
        subst hn
        rw [hc, Option.elim_some, if_neg hopen]
        rfl
      · rfl

theorem unwritten_step (cfg : ServerConfig) {a : Action} (ha : silent a = true) :
    Unwritten g n (g.step cfg a) := by
  have hself : Unwritten g n g := unwritten_of_conns rfl
  cases a with
  | serve m =>
    simp only [Gateway.step]
    split
    · refine unwritten_onConn fun c hc => ?_
      split <;> exact Or.inl rfl
    · exact hself
  | drain m =>
    simp only [Gateway.step]
    split
    · refine unwritten_onConn fun c hc => Or.inr ⟨checked c, (round_drain hc).conns, ?_⟩
      unfold checked
      split <;> rfl
    · exact hself
  | hangup =>
    simp only [Gateway.step]
    split
    · exact unwritten_onConn fun c hc => Or.inr ⟨c.closeNow, rfl, rfl⟩
    · exact hself
  | readDone =>
    simp only [Gateway.step]
    split
    · exact unwritten_of_conns rfl
    · exact hself
  | sendError =>
    have hmarked : ∀ m, Unwritten g n (g.onConn m fun c =>
        if c.fdOpen then g.setConn m c.closeNow else g) := by
      refine fun m => unwritten_onConn fun c hc => ?_
      split
      · exact Or.inr ⟨c.closeNow, rfl, rfl⟩
      · exact Or.inl rfl
    simp only [Gateway.step]
    split
    · exact hmarked _
    · exact hmarked _
    · exact hself
  | take env => exact unwritten_of_conns (conns_take g env)
  | push => exact unwritten_push g n
  | latch => exact unwritten_latch g n
  | erase =>
    refine unwritten_of_conns ?_
    simp only [Gateway.step, Gateway.erase]
    split <;> rfl
  | housekeep env =>
    refine unwritten_of_conns ?_
    simp only [Gateway.step, Gateway.housekeep]
    split <;> rfl
  | _ => cases ha

/-- What a client is told is what goes to its write buffer. -/
theorem told_buffered (cfg : ServerConfig) (hr : Regular g) (a : Action)
    (hc' : (g.step cfg a).conns n = some c') :
    c'.writer.pending + flushes g n a = pendingTo g n + bytes (told cfg g a n) := by
  have hstill : g.step cfg a = g → queueing cfg g a = none →
      c'.writer.pending + 0 = pendingTo g n + bytes (told cfg g a n) := by
    intro hstep hnone
    rw [told, hnone]
    have hconns : (g.step cfg a).conns = g.conns := by rw [hstep]
    exact (unwritten_of_conns hconns).pending hc'
  cases a with
  | accept nowNs =>
    by_cases hpc : g.pc = .polling
    · simp only [Gateway.step, hpc, if_true] at hc'
      exact pending_accept cfg hr hpc nowNs hc'
    · exact hstill (by simp [Gateway.step, hpc]) (by simp [queueing, hpc])
  | timers m nowNs =>
    by_cases hpc : g.pc = .polling
    · simp only [Gateway.step, hpc, if_true] at hc'
      simp only [told, queueing, hpc, if_true]
      refine pending_onConn (fun c hc => rfl) (fun c d hd => ?_) hc'
      obtain rfl := Option.some.inj hd
      exact writer_serviceTimers cfg c nowNs
    · exact hstill (by simp [Gateway.step, hpc]) (by simp [queueing, hpc])
  | frame nowNs allowed f =>
    cases hpc : g.pc with
    | serving m =>
      simp only [Gateway.step, hpc] at hc'
      simp only [told, queueing, hpc]
      refine pending_onConn (fun c hc => rfl) (fun c d hd => ?_) hc'
      obtain rfl := Option.some.inj hd
      exact (settled_dispatch g.inbound { c with session := c.session.onInbound nowNs }
        allowed f).writer
    | _ => exact hstill (by simp [Gateway.step, hpc]) (by simp [queueing, hpc])
  | pollError =>
    cases hpc : g.pc with
    | serving m =>
      simp only [Gateway.step, hpc] at hc'
      simp only [told, queueing, hpc]
      exact pending_onConn (fun c hc => rfl) (fun c d hd => writer_closeConnection hd) hc'
    | _ => exact hstill (by simp [Gateway.step, hpc]) (by simp [queueing, hpc])
  | pop =>
    cases hpc : g.pc with
    | draining m =>
      simp only [Gateway.step, hpc] at hc'
      simp only [told, queueing, hpc]
      refine pending_onConn (o := fun c => some (popped c)) (fun c hc => (round_pop hc).conns)
        (fun c d hd => ?_) hc'
      obtain rfl := Option.some.inj hd
      exact writer_popped c
    | _ => exact hstill (by simp [Gateway.step, hpc]) (by simp [queueing, hpc])
  | market seq bids asks =>
    cases hpc : g.pc with
    | leaving m =>
      simp only [Gateway.step, hpc] at hc'
      simp only [told, queueing, hpc]
      exact pending_market hc'
    | _ => exact hstill (by simp [Gateway.step, hpc]) (by simp [queueing, hpc])
  | writable k =>
    cases hpc : g.pc with
    | serving m =>
      simp only [Gateway.step, hpc] at hc'
      simp only [flushes, hpc]
      exact pending_writable hc'
    | leaving m =>
      simp only [Gateway.step, hpc] at hc'
      simp only [flushes, hpc]
      exact pending_writable hc'
    | _ =>
      simp only [flushes, hpc]
      exact hstill (by simp [Gateway.step, hpc]) rfl
  | endPass nowNs =>
    cases hpc : g.pc with
    | leaving m =>
      simp only [Gateway.step, hpc] at hc'
      simp only [told, queueing, hpc]
      exact pending_endPass hc'
    | _ => exact hstill (by simp [Gateway.step, hpc]) (by simp [queueing, hpc])
  | _ => exact (unwritten_step cfg rfl).pending hc'

end Buffers

inductive Event where
  | received (nowNs : UInt64) (allowed : Bool) (f : WireFrame)
  | moved (a : Action) (h : ∀ nowNs allowed f, a ≠ .frame nowNs allowed f)

def Event.action : Event → Action
  | .received nowNs allowed f => .frame nowNs allowed f.read
  | .moved a _ => a

def heard (g : Gateway) (n : Nat) : Event → List WireFrame
  | .received _ _ f => if g.pc = .serving n ∧ (g.conns n).isSome = true then [f] else []
  | .moved _ _ => []

/-- The gateway with its account of what each client has sent and was told. -/
structure Tally where
  gateway : Gateway
  received : Nat → List WireFrame
  replies : Nat → List Reply

def Tally.initial (t : Thread) : Tally := ⟨.initial t, fun _ => [], fun _ => []⟩

def Tally.step (cfg : ServerConfig) (T : Tally) (e : Event) : Tally :=
  ⟨T.gateway.step cfg e.action, fun n => T.received n ++ heard T.gateway n e,
    fun n => T.replies n ++ told cfg T.gateway e.action n⟩

def Tally.run (cfg : ServerConfig) (T : Tally) (es : List Event) : Tally :=
  es.foldl (Tally.step cfg) T

/-- A frame that is not a heartbeat of the version spoken here. -/
def expects (f : WireFrame) : Bool := ¬(f.header.type = heartbeatType ∧ f.header.version = version)

theorem expects_iff (f : WireFrame) : expects f = true ↔ f.read ≠ .heartbeat := by
  rw [expects, decide_eq_true_iff, ne_eq, read_heartbeat]

def requestOf (n : Nat) (d : OrderCommand) : Bool := d.session.toNat = n ∧ asks d = true

def answerTo (n : Nat) (p : Nat × OrderEvent) : Bool := p.1 = n ∧ isAnswer p.2 = true

/-- The answers to a client that are still to come: those to its commands on the
queue, those to be pushed, and those that wait to be popped. -/
def owed (g : Gateway) (n : Nat) : Nat :=
  g.inbound.countP (requestOf n) + g.outbox.countP (answerTo n) + (waiting g n).countP isAnswer

/-- The connection is there and nothing has happened that makes the network
thread close it. -/
def Standing (g : Gateway) (n : Nat) : Prop :=
  ∃ c, g.conns n = some c ∧ c.fdOpen = true ∧ c.closeMode ≠ .immediate ∧
    c.egress.overflowed = false ∧ g.latching ≠ some n

/-- A command that is taken gets past the log. -/
def logs (g : Gateway) : Action → Bool
  | .take env =>
    match g.inbound with
    | [] => true
    | c :: _ => admits (roomy env) g.thread c
  | _ => true

section Step

variable {g g' : Gateway} {a : Action} {n : Nat}

theorem not_latching (hm : Moved g a g') (h : Standing g' n) : g.latching ≠ some n := by
  obtain ⟨c', hc', -, -, hflag, hl'⟩ := h
  intro hlatching
  cases hm with
  | taken ha hin hout hl => simp [hl] at hlatching
  | pushed ha hout hl => simp [hl] at hlatching
  | overflowing ha hout hl => simp [hl] at hlatching
  | lost ha hout hl => simp [hl] at hlatching
  | housekept env hout hl => simp [hl] at hlatching
  | latched hl hc =>
    obtain rfl := Option.some.inj (hl.symm.trans hlatching)
    obtain rfl := update_same hc'
    simp [flagged] at hflag
  | unlatched hl hc =>
    obtain rfl := Option.some.inj (hl.symm.trans hlatching)
    exact absurd (hc.symm.trans hc') (by simp)
  | _ => exact hl' hlatching

theorem standing_before (hm : Moved g a g') (h : Standing g' n) :
    n = g.nextSessionId ∨ Standing g n := by
  have hl := not_latching hm h
  obtain ⟨c', hc', hopen, hmode, hflag, -⟩ := h
  obtain ⟨c, hc, hal⟩ | ⟨-, hnew, -⟩ := (hm.touched n).before hc'
  · have hback : (c'.fdOpen = true → c.fdOpen = true) →
        (c.closeMode = .immediate → c'.closeMode = .immediate) →
        (c.egress.overflowed = true → c'.egress.overflowed = true) → n = g.nextSessionId ∨
          Standing g n := by
      intro hfd hclose hover
      refine Or.inr ⟨c, hc, hfd hopen, fun h => hmode (hclose h), ?_, hl⟩
      cases hc : c.egress.overflowed with
      | false => rfl
      | true => simp [hover hc] at hflag
    cases hal with
    | kept hk => exact hback hk.fdOpen.symm.trans hk.closing (by rw [hk.egress]; exact id)
    | requested ha hr =>
      exact hback hr.fdOpen.symm.trans hr.closing.trans (by rw [hr.egress]; exact id)
    | @popped e items hitems =>
      have hdel := delivering_deliver (queued c items) e
      exact hback hdel.fdOpen.symm.trans hdel.closing (by rw [hdel.egress]; exact id)
    | killed => cases hopen
    | rearmed => cases hopen
    | pushed => exact hback id id id
    | flagged => exact hback id id fun _ => rfl
  · exact Or.inl hnew

theorem count_taken {t : Thread} {d : OrderCommand}
    (hqueue : ∀ q, t.egress d.session = some q → q = some d.session.toNat)
    (hknown : d.session.toNat = n → asks d = true → t.egress d.session = some (some n)) :
    (routed t (step t.risk t.ledger d).2 ++ tombstone t d).countP (answerTo n) =
      if d.session.toNat = n ∧ asks d = true then 1 else 0 := by
  have htomb : (tombstone t d).countP (answerTo n) = 0 := by
    rw [List.countP_eq_zero]
    intro p hp
    rw [tombstone] at hp
    split at hp
    · obtain ⟨q, -, rfl⟩ := List.mem_map.mp hp
      simp [answerTo, isAnswer, OrderEvent.sessionRetired]
    · exact absurd hp List.not_mem_nil
  rw [List.countP_append, htomb, Nat.add_zero]
  have hanswers := step_answers t.risk t.ledger d
  cases hasks : asks d with
  | false =>
    rw [if_neg (by simp [hasks])] at hanswers
    rw [hanswers, if_neg (by simp)]
    rfl
  | true =>
    rw [if_pos hasks] at hanswers
    obtain ⟨e, es, hstep, he, hsession, hfills⟩ := hanswers
    have hrest : (routed t es).countP (answerTo n) = 0 := by
      rw [List.countP_eq_zero]
      intro p hp
      obtain ⟨f, hf, hroute⟩ := List.mem_filterMap.mp hp
      obtain ⟨q, -, rfl⟩ := Option.map_eq_some_iff.mp hroute
      simp [answerTo, hfills f hf]
    rw [hstep, routed]
    cases hq : t.egressFor d.session with
    | none =>
      -- nobody is told, which cannot be the client asked about
      rw [List.filterMap_cons_none (by rw [hsession, hq]; rfl)]
      have hother : d.session.toNat ≠ n := by
        intro hn
        simp [Thread.egressFor, hknown hn hasks] at hq
      rw [if_neg (by simp [hother])]
      exact hrest
    | some q =>
      rw [List.filterMap_cons_some (by rw [hsession, hq]; rfl), List.countP_cons]
      obtain rfl : q = d.session.toNat := Option.some.inj (hqueue _ (egress_of_egressFor hq))
      change (routed t es).countP _ + _ = _
      rw [hrest, Nat.zero_add]
      simp [answerTo, he]

theorem owed_congr (hin : g'.inbound.countP (requestOf n) = g.inbound.countP (requestOf n))
    (hout : g'.outbox.countP (answerTo n) = g.outbox.countP (answerTo n))
    (hw : waiting g' n = waiting g n) :
    owed g' n = owed g n := by
  rw [owed, hin, hout, hw, owed]

theorem count_tail {m : Nat} {e : OrderEvent} {outbox : List (Nat × OrderEvent)}
    (hout : g.outbox = (m, e) :: outbox) (hquiet : answerTo n (m, e) = false) :
    outbox.countP (answerTo n) = g.outbox.countP (answerTo n) := by
  rw [hout, List.countP_cons_of_neg (by simp [hquiet])]

/-- Steps other than reading a frame and popping an event only move what is owed
to a client from one queue to the next. -/
theorem owed_moved (hm : Moved g a g') (hr : Running g) (hi : Retirement g) (hreg : Registered g)
    (hframe : ∀ nowNs allowed f, a ≠ .frame nowNs allowed f) (hpop : a ≠ .pop)
    (hlogs : logs g a = true) (hheralded : Heralded g (UInt64.ofNat n)) (hbefore : Standing g n)
    (hafter : Standing g' n) :
    owed g' n = owed g n := by
  obtain ⟨c₀, hc₀, -⟩ := hbefore
  obtain ⟨c', hc', hopen, hmode, hflag, hl'⟩ := hafter
  have hbelow := hr.regular.below n c₀ hc₀
  have hwaiting : ∀ {h : Gateway}, h.conns n = g.conns n → waiting h n = waiting g n := by
    intro h hsame
    rw [waiting, hsame, waiting]
  cases hm with
  | still => rfl
  | turned => rfl
  | checked => rfl
  | unlatched => rfl
  | erased => rfl
  | housekept => rfl
  | @kept m c d pc hc hk =>
    refine owed_congr rfl rfl ?_
    by_cases hn : n = m
    · subst hn
      rw [waiting_of hc, waiting_of hc', update_same hc', hk.egress]
    · exact hwaiting (Function.update_of_ne hn ..)
  | @accepted c nowNs ha hlt hpc ho inbound hin =>
    have hn : n ≠ g.nextSessionId := by omega
    refine owed_congr ?_ rfl (hwaiting (Function.update_of_ne hn ..))
    obtain ⟨-, rfl⟩ | ⟨-, rfl⟩ := hin
    · simp [requestOf, asks, OrderCommand.sessionOpened]
    · rfl
  | requested ha =>
    cases a with
    | frame nowNs allowed f => exact absurd rfl (hframe nowNs allowed f)
    | _ => simp [requesting] at ha
  | popped ha => exact absurd ha hpop
  | @closed m c r hc ha hpc hclosed =>
    have hn : n ≠ m := by
      rintro rfl
      have hshut := (hclosed.shut (update_here hc')).1
      rw [hshut] at hopen
      cases hopen
    refine owed_congr ?_ rfl (hwaiting (Function.update_of_ne hn ..))
    cases hclosed with
    | killed => simp [requestOf, asks, OrderCommand.cancelAll]
    | _ => rfl
  | @taken env d inbound ha hin hout hl he =>
    subst ha
    have hadm : admits (roomy env) g.thread d = true := by simpa only [logs, hin] using hlogs
    have hpushed := outbox_take hr.addressed.replaying hin ⟨hout, hl, he⟩ hadm
    rw [take_idle hin ⟨hout, hl, he⟩] at hpushed
    have hknown : d.session.toNat = n → asks d = true →
        g.thread.egress d.session = some (some n) := by
      rintro rfl hasks
      rw [UInt64.ofNat_toNat] at hheralded
      have htype : d.type ≠ .sessionOpened := by
        intro htype
        simp [asks, htype] at hasks
      exact hreg _ (hheralded.sender hin htype) (hi.fresh hin)
    have hcount := count_taken (fun q hq => (hr.addressed.egress _ q hq).1) hknown
    rw [← hpushed] at hcount
    change inbound.countP (requestOf n) + _ + (waiting g n).countP isAnswer = _
    rw [hcount, owed, hin, hout, List.countP_cons, List.countP_nil]
    by_cases hd : d.session.toNat = n ∧ asks d = true
    · rw [if_pos hd, if_pos (by simp [requestOf, hd])]
    · rw [if_neg hd, if_neg (by simpa [requestOf] using hd)]
  | @pushed m e outbox c ha hout hl hc hroom =>
    by_cases hn : n = m
    · subst hn
      have hlast : waiting ({ g with outbox := outbox, emitted := g.emittedWith n e }.setConn n
          (queued c (c.egress.items ++ [e]))) n = c.egress.items ++ [e] := by
        rw [waiting_of hc', update_same hc']
        rfl
      have hhead : answerTo n (n, e) = isAnswer e := by simp [answerTo]
      rw [owed, owed, hlast, waiting_of hc, hout, List.countP_cons, hhead, List.countP_append,
        List.countP_singleton]
      change g.inbound.countP _ + outbox.countP _ + _ = _
      omega
    · exact owed_congr rfl (count_tail hout (by simp [answerTo, Ne.symm hn]))
        (hwaiting (Function.update_of_ne hn ..))
  | @overflowing m e outbox c ha hout hl hc hfull he =>
    have hn : m ≠ n := by
      rintro rfl
      exact hl' rfl
    exact owed_congr rfl (count_tail hout (by simp [answerTo, hn])) (hwaiting rfl)
  | @lost m e outbox ha hout hl hgone =>
    refine owed_congr rfl (count_tail hout ?_) (hwaiting rfl)
    obtain hgone | ⟨-, -, -, hretired⟩ := hgone
    · have hn : m ≠ n := by
        rintro rfl
        simp [hgone] at hc₀
      simp [answerTo, hn]
    · simp [answerTo, isAnswer, hretired]
  | @latched m c hl hc =>
    have hn : n ≠ m := by
      rintro rfl
      obtain rfl := update_same hc'
      simp [flagged] at hflag
    exact owed_congr rfl rfl (hwaiting (Function.update_of_ne hn ..))

theorem egress_dispatch (inbound : List OrderCommand) (c : Connection) (allowed : Bool)
    (f : Frame) :
    (dispatch inbound c allowed f).2.egress = c.egress := by
  have h := handled_dispatch inbound c allowed f
  generalize dispatch inbound c allowed f = r at h ⊢
  cases h with
  | answered hk => exact hk.egress
  | forwarded hroom hreq => exact hreq.egress

theorem owed_settled (hr : Running g) {m : Nat} {c c₁ : Connection} (hc : g.conns m = some c)
    (hid : c₁.session.id = c.session.id) {f : Frame} {expected : Bool}
    (hf : expected = true ↔ f ≠ .heartbeat) {q : Option Reply} {d : List OrderCommand × Connection}
    (hsettled : Settled g.inbound c₁ f q d) (hegress : d.2.egress = c.egress)
    (hconns : g'.conns = Function.update g.conns m (some d.2)) (hin : g'.inbound = d.1)
    (hout : g'.outbox = g.outbox) (hafter : Standing g' n) :
    (fitting n (q.map fun r => (m, c₁.writer, r))).countP answering + owed g' n =
      owed g n + if m = n ∧ expected = true then 1 else 0 := by
  have hw : waiting g' n = waiting g n := by
    by_cases hn : n = m
    · subst hn
      have hc' : g'.conns n = some d.2 := by rw [hconns, Function.update_self]
      rw [waiting_of hc, waiting_of hc', hegress]
    · rw [waiting, hconns, Function.update_of_ne hn, waiting]
  have hsame : d.1 = g.inbound → owed g' n = owed g n := by
    intro hd
    exact owed_congr (by rw [hin, hd]) (by rw [hout]) hw
  cases hsettled with
  | ignored hbeat =>
    have hnot : expected ≠ true := fun h => hf.mp h hbeat
    simp [fitting, hsame rfl, hnot]
  | @refused r c' hrequest hreply hfits =>
    by_cases hn : m = n
    · obtain ⟨d, hd, -, hmode, -⟩ := hafter
      rw [hconns, hn, Function.update_self, Option.some.injEq] at hd
      subst hd
      simp [fitting, hsame rfl, hf.mpr hrequest, hn, hfits hmode, hreply, Nat.add_comm]
    · simp [fitting, hsame rfl, hn]
  | @forwarded cmd c' hrequest hasks hsender =>
    have hcmd : requestOf n cmd = decide (m = n) := by
      rw [requestOf, hsender, hid, hr.regular.named hc]
      simp [hasks]
    have howed : owed g' n = owed g n + if m = n then 1 else 0 := by
      rw [owed, owed, hin, hout, hw, List.countP_append, List.countP_singleton, hcmd]
      simp only [decide_eq_true_eq]
      omega
    simp [fitting, howed, hf.mpr hrequest]

theorem owed_received (cfg : ServerConfig) (hr : Running g) (nowNs : UInt64) (allowed : Bool)
    (w : WireFrame) (hafter : Standing (g.step cfg (.frame nowNs allowed w.read)) n) :
    (told cfg g (.frame nowNs allowed w.read) n).countP answering +
      owed (g.step cfg (.frame nowNs allowed w.read)) n =
      owed g n + (heard g n (.received nowNs allowed w)).countP expects := by
  by_cases hreading : ∃ m c, g.pc = .serving m ∧ g.conns m = some c
  · obtain ⟨m, c, hpc, hc⟩ := hreading
    let c₁ : Connection := { c with session := c.session.onInbound nowNs }
    have hstep : g.step cfg (.frame nowNs allowed w.read) = g.frame m nowNs allowed w.read c := by
      simp only [Gateway.step, hpc, Gateway.onConn, hc]
    have hqueueing : queueing cfg g (.frame nowNs allowed w.read) =
        (dispatchReply g.inbound c₁ allowed w.read).map fun r => (m, c₁.writer, r) := by
      simp only [queueing, addressed, hpc, hc, Option.bind_some, c₁]
    have hcount : (heard g n (.received nowNs allowed w)).countP expects =
        if m = n ∧ expects w = true then 1 else 0 := by
      have hserving : (g.pc = .serving n ∧ (g.conns n).isSome = true) ↔ m = n := by
        rw [hpc, Pc.serving.injEq, and_iff_left_iff_imp]
        rintro rfl
        simp [hc]
      rw [heard]
      by_cases hn : m = n
      · simp [if_pos (hserving.mpr hn), hn, List.countP_singleton]
      · simp [if_neg (mt hserving.mp hn), hn]
    rw [told, hqueueing, hcount]
    rw [hstep] at hafter ⊢
    have hid : c₁.session.id = c.session.id := rfl
    exact owed_settled hr hc hid (expects_iff w) (settled_dispatch g.inbound c₁ allowed w.read)
      (egress_dispatch g.inbound c₁ allowed w.read) rfl rfl rfl hafter
  · -- nobody is read from, and the step does nothing
    have hnone : ∀ m, g.pc = .serving m → g.conns m = none := fun m hpc =>
      Option.eq_none_iff_forall_ne_some.mpr fun c hc => hreading ⟨m, c, hpc, hc⟩
    have hheard : heard g n (.received nowNs allowed w) = [] := by
      rw [heard, if_neg]
      rintro ⟨hpc, hsome⟩
      simp [hnone n hpc] at hsome
    have hidle : g.step cfg (.frame nowNs allowed w.read) = g ∧
        queueing cfg g (.frame nowNs allowed w.read) = none := by
      cases hpc : g.pc with
      | serving m =>
        simp only [Gateway.step, queueing, addressed, hpc, Gateway.onConn, hnone m hpc,
          Option.bind_none, and_self]
      | _ => simp only [Gateway.step, queueing, hpc, and_self]
    rw [told, hidle.1, hidle.2, hheard]
    exact Nat.add_comm ..

theorem answering_reply {e : OrderEvent} {r : Reply} (h : reply e = some r) :
    answering r = isAnswer e := by
  unfold reply at h
  cases he : e.type with
  | sessionRetired => simp [he] at h
  | _ =>
    rw [he] at h
    obtain rfl := Option.some.inj h
    simp [answering, isAnswer, he]

theorem owed_pop (cfg : ServerConfig) (hafter : Standing (g.step cfg .pop) n) :
    (told cfg g .pop n).countP answering + owed (g.step cfg .pop) n = owed g n := by
  by_cases hpopping : ∃ m c e items, g.pc = .draining m ∧ g.conns m = some c ∧
    c.egress.items = e :: items
  · obtain ⟨m, c, e, items, hpc, hc, hitems⟩ := hpopping
    have hqueueing : queueing cfg g .pop = (reply e).map fun r => (m, c.writer, r) := by
      simp only [queueing, addressed, hpc, hc, hitems, Option.bind_some, List.head?_cons]
    have hdel := delivering_deliver (queued c items) e
    rw [step_pop cfg hpc hc hitems] at hafter ⊢
    obtain ⟨c', hc', hopen, hmode, -⟩ := hafter
    rw [told, hqueueing]
    by_cases hn : n = m
    · subst hn
      obtain rfl := update_same hc'
      have hdelivers : delivers c e = true := by
        by_contra hlost
        have hdropped : delivers (queued c items) e = false := Bool.eq_false_iff.mpr hlost
        exact hmode (hdel.lost (hdel.fdOpen.symm.trans hopen) hdropped)
      obtain ⟨r, hr, hfits⟩ : ∃ r, reply e = some r ∧ (c.writer.append r.size).1 = true := by
        rw [delivers, Bool.and_eq_true] at hdelivers
        cases hr : reply e with
        | none => simp [hr] at hdelivers
        | some r => exact ⟨r, rfl, by simpa [hr] using hdelivers.2⟩
      rw [owed, owed, waiting_of hc', waiting_of hc, hdel.egress, hitems, List.countP_cons,
        ← answering_reply hr]
      simp only [hr, Option.map_some, fitting, hfits, and_self, if_true, List.countP_singleton]
      change _ + (g.inbound.countP _ + g.outbox.countP _ + items.countP _) = _
      omega
    · have hother : owed { g.setConn m ((queued c items).deliver e) with
          pc :=
            if ((queued c items).deliver e).closeMode = .immediate ∧ e.type ≠ .sessionRetired then
              .leaving m
            else .draining m
          delivered :=
            if delivers c e then Function.update g.delivered m (g.delivered m ++ [e])
            else g.delivered } n =
          owed g n := by
        refine owed_congr rfl rfl ?_
        rw [waiting, waiting]
        exact congrArg (fun o => (Option.map _ o).getD []) (Function.update_of_ne hn ..)
      rw [hother]
      cases reply e with
      | none => simp [fitting]
      | some r => simp [fitting, Ne.symm hn]
  · -- there is nothing to pop
    have hidle : queueing cfg g .pop = none ∧ owed (g.step cfg .pop) n = owed g n := by
      cases hpc : g.pc with
      | draining m =>
        cases hc : g.conns m with
        | none =>
          simp only [Gateway.step, queueing, addressed, hpc, Gateway.onConn, hc, Option.bind_none,
            and_self]
        | some c =>
          cases hitems : c.egress.items with
          | nil =>
            simp only [Gateway.step, queueing, addressed, hpc, Gateway.onConn, hc, Gateway.pop,
              hitems, Option.bind_some, List.head?_nil, Option.bind_none, Option.map_none, true_and]
            rfl
          | cons e items => exact absurd ⟨m, c, e, items, hpc, hc, hitems⟩ hpopping
      | _ => simp only [Gateway.step, queueing, hpc, and_self]
    rw [told, hidle.1, hidle.2]
    exact Nat.zero_add _

theorem not_standing_close (g : Gateway) (n : Nat) (c : Connection) :
    ¬Standing (g.close n c) n := by
  rintro ⟨c', hc', hopen, -⟩
  have hshut : (closeConnection g.inbound c).2 = some c' := by
    simpa only [Gateway.close, Function.update_self] using hc'
  unfold closeConnection at hshut
  dsimp only at hshut
  split at hshut
  · obtain rfl := Option.some.inj hshut
    simp at hopen
  · simp at hshut

theorem addressed_some {m : Nat} {q : Connection → Option Reply} {w : WriteBuffer} {r : Reply}
    (h : addressed g m q = some (n, w, r)) : m = n ∧ ∃ c, g.conns n = some c ∧ q c = some r := by
  obtain ⟨c, hc, hq⟩ := Option.bind_eq_some_iff.mp h
  obtain ⟨r', hr, hsame⟩ := Option.map_eq_some_iff.mp hq
  obtain ⟨rfl, -, rfl⟩ : m = n ∧ c.writer = w ∧ r' = r := by simpa using hsame
  exact ⟨rfl, c, hc, hr⟩

theorem mem_fitting {q : Option (Nat × WriteBuffer × Reply)} {r : Reply} (h : r ∈ fitting n q) :
    ∃ w, q = some (n, w, r) := by
  cases q with
  | none => exact absurd h List.not_mem_nil
  | some p =>
    obtain ⟨m, w, r'⟩ := p
    simp only [fitting] at h
    split at h
    · rename_i hfit
      obtain ⟨rfl, -⟩ := hfit
      exact ⟨w, by rw [List.mem_singleton.mp h]⟩
    · exact absurd h List.not_mem_nil

theorem queueing_cases (cfg : ServerConfig) {w : WriteBuffer} {r : Reply}
    (h : queueing cfg g a = some (n, w, r)) :
    n = g.nextSessionId ∧ (g.step cfg a).nextSessionId = n + 1 ∧
      (g.step cfg a).inbound = g.inbound ∨
      ∃ c, g.conns n = some c ∧
        ((∃ nowNs allowed f, a = .frame nowNs allowed f) ∨ a = .pop ∨ answering r = false ∨
        g.step cfg a = g.close n c) := by
  cases a with
  | accept nowNs =>
    simp only [queueing] at h
    split at h
    · rename_i hready
      obtain ⟨hpc, hlt⟩ := hready
      obtain ⟨r', hfull, hsame⟩ := Option.map_eq_some_iff.mp h
      obtain rfl : g.nextSessionId = n := congrArg Prod.fst hsame
      have hroom : ¬g.inbound.length < inboundCapacity := by
        intro hroom
        simp [submitReply, hroom] at hfull
      refine Or.inl ⟨rfl, ?_, ?_⟩
      all_goals simp only [Gateway.step, hpc, if_true, Gateway.accept, hlt, submit, hroom, if_false,
        Gateway.setConn]
    · simp at h
  | timers m nowNs =>
    simp only [queueing] at h
    split at h
    · obtain ⟨-, c, hc, hdue⟩ := addressed_some h
      refine Or.inr ⟨c, hc, Or.inr (Or.inr (Or.inl ?_))⟩
      unfold timerReply at hdue
      split at hdue
      · cases hdue
      · split at hdue <;> cases hdue
        rfl
    · cases h
  | frame nowNs allowed f =>
    cases hpc : g.pc with
    | serving m =>
      simp only [queueing, hpc] at h
      obtain ⟨-, c, hc, -⟩ := addressed_some h
      exact Or.inr ⟨c, hc, Or.inl ⟨nowNs, allowed, f, rfl⟩⟩
    | _ => simp [queueing, hpc] at h
  | pop =>
    cases hpc : g.pc with
    | draining m =>
      simp only [queueing, hpc] at h
      obtain ⟨-, c, hc, -⟩ := addressed_some h
      exact Or.inr ⟨c, hc, Or.inr (Or.inl rfl)⟩
    | _ => simp [queueing, hpc] at h
  | market seq bids asks =>
    cases hpc : g.pc with
    | leaving m =>
      simp only [queueing, hpc] at h
      obtain ⟨-, c, hc, hsub⟩ := addressed_some h
      refine Or.inr ⟨c, hc, Or.inr (Or.inr (Or.inl ?_))⟩
      split at hsub <;> cases hsub
      rfl
    | _ => simp [queueing, hpc] at h
  | pollError =>
    cases hpc : g.pc with
    | serving m =>
      simp only [queueing, hpc] at h
      obtain ⟨rfl, c, hc, -⟩ := addressed_some h
      refine Or.inr ⟨c, hc, Or.inr (Or.inr (Or.inr ?_))⟩
      simp only [Gateway.step, hpc, Gateway.onConn, hc]
    | _ => simp [queueing, hpc] at h
  | endPass nowNs =>
    cases hpc : g.pc with
    | leaving m =>
      simp only [queueing, hpc] at h
      obtain ⟨rfl, c, hc, hready⟩ := addressed_some h
      split at hready
      · rename_i hclose
        refine Or.inr ⟨c, hc, Or.inr (Or.inr (Or.inr ?_))⟩
        simp only [Gateway.step, hpc, Gateway.onConn, hc, Gateway.endPass, hclose, if_true]
      · cases hready
    | _ => simp [queueing, hpc] at h
  | _ => simp [queueing] at h

theorem told_quiet (cfg : ServerConfig) (hframe : ∀ nowNs allowed f, a ≠ .frame nowNs allowed f)
    (hpop : a ≠ .pop) (hn : n ≠ g.nextSessionId) (hafter : Standing (g.step cfg a) n) :
    (told cfg g a n).countP answering = 0 := by
  rw [List.countP_eq_zero]
  intro r hr
  obtain ⟨w, hq⟩ := mem_fitting hr
  obtain ⟨hnew, -⟩ | ⟨c, -, ⟨nowNs, allowed, f, ha⟩ | ha | hquiet | hclose⟩ := queueing_cases cfg hq
  · exact absurd hnew hn
  · exact absurd ha (hframe nowNs allowed f)
  · exact absurd ha hpop
  · simp [hquiet]
  · rw [hclose] at hafter
    exact absurd hafter (not_standing_close g n c)

theorem flushes_nobody (hnone : g.conns n = none) (a : Action) : flushes g n a = 0 := by
  cases a with
  | writable k => cases hpc : g.pc <;> simp [flushes, hpc, hnone]
  | _ => rfl

theorem told_nobody (cfg : ServerConfig) (hr : Running g) (hn : g.nextSessionId ≤ n)
    (hnew : n = g.nextSessionId → (g.step cfg a).nextSessionId = n + 1 →
      (g.step cfg a).inbound ≠ g.inbound) :
    told cfg g a n = [] := by
  rw [List.eq_nil_iff_forall_not_mem]
  intro r hmem
  obtain ⟨w, hq⟩ := mem_fitting hmem
  obtain ⟨hlast, hnext, hin⟩ | ⟨c, hc, -⟩ := queueing_cases cfg hq
  · exact hnew hlast hnext hin
  · have hbelow := (hr.regular.below n c hc).2
    omega

theorem heard_nobody (hr : Running g) (hn : g.nextSessionId ≤ n) (e : Event) :
    heard g n e = [] := by
  cases e with
  | moved a h => rfl
  | received nowNs allowed f =>
    rw [heard, if_neg]
    rintro ⟨-, hsome⟩
    obtain ⟨c, hc⟩ := Option.isSome_iff_exists.mp hsome
    have hbelow := (hr.regular.below n c hc).2
    omega

theorem unopened_of_unissued (hr : Running g) {s : UInt64} (hs : ¬Issued g s) : Unopened g s := by
  rintro o ho - rfl
  exact hs (hr.addressed.commands o ho)

theorem announced_moved (hm : Moved g a g') (hr : Running g) (hr' : Running g') {s : UInt64}
    (h : Unopened g s ∨ Heralded g s) : Unopened g' s ∨ Heralded g' s := by
  by_cases hs : Issued g s
  · exact h.imp (unopened_moved hm hr hs) (heralded_moved hm hr)
  by_cases hs' : Issued g' s
  · cases flow_moved hm hr.regular hr.addressed.replaying with
    | opened hnext hlt hin happ =>
      have hbefore := unopened_of_unissued hr hs
      obtain hin | hin := hin
      · rw [Unopened, hin, happ]
        exact Or.inl hbefore
      · exact Or.inr (Or.inr (announced_new hr hs (issued_last hnext hs' hs ▸ hin)))
    | quiet hnext => exact absurd (by rwa [Issued, hnext] at hs') hs
    | sent hc halive hsender hopened hlast hnext => exact absurd (by rwa [Issued, hnext] at hs') hs
    | taken ha hnext => exact absurd (by rwa [Issued, hnext] at hs') hs
  · exact Or.inl (unopened_of_unissued hr' hs')

theorem heralded_not_unopened {s : UInt64} (h : Heralded g s) : ¬Unopened g s := by
  intro hun
  obtain ⟨o, ho, htype, hs⟩ | ⟨d, ds, hfirst, hd⟩ := h
  · exact hun o (List.mem_append_left _ ho) htype hs
  · have hmem : d ∈ g.inbound.filter (fun c => c.session = s) := by simp [hfirst]
    obtain ⟨hin, hs⟩ := List.mem_filter.mp hmem
    exact hun d (List.mem_append_right _ hin) hd (of_decide_eq_true hs)

theorem owed_new (hm : Moved g a g') (hr : Running g) (hn : g.nextSessionId ≤ n)
    (hin : g'.inbound.countP (requestOf n) = g.inbound.countP (requestOf n))
    (hout : g'.outbox = g.outbox) :
    owed g' n = 0 := by
  have hinbound : g.inbound.countP (requestOf n) = 0 := by
    rw [List.countP_eq_zero]
    intro d hd
    have hlt := (hr.addressed.commands d (List.mem_append_right _ hd)).2
    have hother : d.session.toNat ≠ n := by omega
    simp [requestOf, hother]
  have houtbox : ∀ p ∈ g.outbox, p.1 ≠ n := by
    intro p hp
    obtain ⟨hqueue, hissued⟩ := hr.addressed.outbox p hp
    have hlt := hissued.2
    omega
  have hnone : g.conns n = none := conns_above hr.regular hn
  have hwaiting : waiting g' n = [] := by
    rw [List.eq_nil_iff_forall_not_mem]
    intro e he
    obtain he | he := waiting_touched (hm.touched n) he
    · simp [waiting, hnone] at he
    · exact houtbox (n, e) (by simp [he]) rfl
  have hpushing : g.outbox.countP (answerTo n) = 0 := by
    rw [List.countP_eq_zero]
    intro p hp
    simp [answerTo, houtbox p hp]
  rw [owed, hin, hinbound, hout, hpushing, hwaiting]
  rfl

end Step

/-- The account of one client: as long as its connection stands, every frame
that expects an answer has had one or is owed one. -/
structure Reconciled (T : Tally) (n : Nat) : Prop where
  running : Running T.gateway
  retirement : Retirement T.gateway
  registered : Registered T.gateway
  announced : Unopened T.gateway (UInt64.ofNat n) ∨ Heralded T.gateway (UInt64.ofNat n)
  blank : T.gateway.nextSessionId ≤ n → T.received n = [] ∧ T.replies n = []
  balanced : Standing T.gateway n → Heralded T.gateway (UInt64.ofNat n) →
    (T.replies n).countP answering + owed T.gateway n = (T.received n).countP expects

theorem reconciled_initial {t : Thread} (h : Booted t) (n : Nat) : Reconciled (.initial t) n where
  running := running_initial h
  retirement := retirement_initial t
  registered := (introduced_initial t).registered
  announced := by
    refine Or.inl fun o ho => ?_
    exact absurd ho List.not_mem_nil
  blank _ := ⟨rfl, rfl⟩
  balanced hstanding := by
    obtain ⟨c, hc, -⟩ := hstanding
    cases hc

variable {T : Tally} {n : Nat}

theorem owed_step (cfg : ServerConfig) (h : Reconciled T n) (e : Event)
    (hlogs : logs T.gateway e.action = true) (hheralded : Heralded T.gateway (UInt64.ofNat n))
    (hbefore : Standing T.gateway n) (hafter : Standing (T.gateway.step cfg e.action) n) :
    (told cfg T.gateway e.action n).countP answering + owed (T.gateway.step cfg e.action) n =
      owed T.gateway n + (heard T.gateway n e).countP expects := by
  cases e with
  | received nowNs allowed f => exact owed_received cfg h.running nowNs allowed f hafter
  | moved a hframe =>
    by_cases hpop : a = .pop
    · subst hpop
      exact owed_pop cfg hafter
    · obtain ⟨c, hc, -⟩ := id hbefore
      have hbelow := (h.running.regular.below n c hc).2
      have hquiet := told_quiet cfg hframe hpop (Nat.ne_of_lt hbelow) hafter
      have howed := owed_moved (h.running.moved cfg a) h.running h.retirement h.registered hframe
        hpop hlogs hheralded hbefore hafter
      change (told cfg T.gateway a n).countP answering + owed (T.gateway.step cfg a) n =
        owed T.gateway n + 0
      rw [hquiet, howed, Nat.zero_add, Nat.add_zero]

theorem reconciled_step (cfg : ServerConfig) (h : Reconciled T n) (e : Event)
    (hlogs : logs T.gateway e.action = true) :
    Reconciled (T.step cfg e) n := by
  have hm := h.running.moved cfg e.action
  have hr' := h.running.step cfg e.action
  refine ⟨hr', retirement_moved hm h.running h.retirement,
    registered_moved hm h.running h.registered,
    announced_moved hm h.running hr' h.announced, fun hn => ?_, fun hafter hheralded => ?_⟩
  · have hgrows : T.gateway.nextSessionId ≤ (T.gateway.step cfg e.action).nextSessionId := by
      cases flow_moved hm h.running.regular h.running.addressed.replaying <;> omega
    have hbefore : T.gateway.nextSessionId ≤ n := hgrows.trans hn
    obtain ⟨hreceived, hreplies⟩ := h.blank hbefore
    have htold : told cfg T.gateway e.action n = [] := by
      refine told_nobody cfg h.running hbefore fun _ hnext => ?_
      have hlast : (T.gateway.step cfg e.action).nextSessionId ≤ n := hn
      omega
    simp [Tally.step, hreceived, hreplies, htold, heard_nobody h.running hbefore]
  · change (T.replies n ++ _).countP answering + owed (T.gateway.step cfg e.action) n =
      (T.received n ++ _).countP expects
    rw [List.countP_append, List.countP_append]
    obtain hnew | hbefore := standing_before hm hafter
    · -- the connection is new, and its session is on the queue
      have hbefore : T.gateway.nextSessionId ≤ n := Nat.le_of_eq hnew.symm
      obtain ⟨hreceived, hreplies⟩ := h.blank hbefore
      obtain ⟨c, hc, -⟩ := id hafter
      have hbelow := (hr'.regular.below n c hc).2
      have hissued : ¬Issued T.gateway (UInt64.ofNat n) := by
        rintro ⟨-, hlt⟩
        rw [UInt64.toNat_ofNat_of_lt' (hbelow.trans_le hr'.regular.bounded)] at hlt
        omega
      have hun := unopened_of_unissued h.running hissued
      cases flow_moved hm h.running.regular h.running.addressed.replaying with
      | opened hnext hlt hin happ hout =>
        obtain hin | hin := hin
        · refine absurd ?_ (heralded_not_unopened hheralded)
          change Unopened (T.gateway.step cfg e.action) _
          rwa [Unopened, hin, happ]
        · have htold : told cfg T.gateway e.action n = [] := by
            refine told_nobody cfg h.running hbefore fun _ _ hsame => ?_
            simp [hin] at hsame
          have howed : owed (T.gateway.step cfg e.action) n = 0 := by
            refine owed_new hm h.running hbefore ?_ hout
            simp [hin, requestOf, asks, OrderCommand.sessionOpened]
          simp [hreceived, hreplies, htold, howed, heard_nobody h.running hbefore]
      | quiet hnext => omega
      | sent hc halive hsender hopened hlast hnext => omega
      | taken ha hnext => omega
    · obtain ⟨c, hc, -⟩ := id hbefore
      have hbelow := h.running.regular.below n c hc
      have hissued : Issued T.gateway (UInt64.ofNat n) := by
        rw [Issued, UInt64.toNat_ofNat_of_lt' (hbelow.2.trans_le h.running.regular.bounded)]
        exact hbelow
      have hheralded₀ : Heralded T.gateway (UInt64.ofNat n) := by
        refine h.announced.resolve_left fun hun => ?_
        exact heralded_not_unopened hheralded (unopened_moved hm h.running hissued hun)
      have hbalanced := h.balanced hbefore hheralded₀
      have hstep := owed_step cfg h e hlogs hheralded₀ hbefore hafter
      omega

theorem reconciled_run (cfg : ServerConfig) (es : List Event) {T : Tally} (h : Reconciled T n)
    (hlogs : Along cfg (fun g a => logs g a = true) T.gateway (es.map Event.action)) :
    Reconciled (T.run cfg es) n := by
  induction es generalizing T with
  | nil => exact h
  | cons e es ih => exact ih (reconciled_step cfg h e hlogs.1) hlogs.2

def flushed (cfg : ServerConfig) (n : Nat) : Gateway → List Event → Nat
  | _, [] => 0
  | g, e :: es => flushes g n e.action + flushed cfg n (g.step cfg e.action) es

/-- Of the frames that a client was told, `k` bytes have left and the others are
in its write buffer. -/
structure Buffered (T : Tally) (n k : Nat) : Prop where
  running : Running T.gateway
  blank : T.gateway.nextSessionId ≤ n → T.replies n = [] ∧ k = 0
  pending : ∀ c, T.gateway.conns n = some c → c.writer.pending + k = bytes (T.replies n)

theorem buffered_initial {t : Thread} (h : Booted t) (n : Nat) : Buffered (.initial t) n 0 where
  running := running_initial h
  blank _ := ⟨rfl, rfl⟩
  pending c hc := absurd hc (conns_initial t n c)

theorem bytes_append (rs rs' : List Reply) : bytes (rs ++ rs') = bytes rs + bytes rs' := by
  simp [bytes]

theorem buffered_step (cfg : ServerConfig) {k : Nat} (h : Buffered T n k) (e : Event) :
    Buffered (T.step cfg e) n (k + flushes T.gateway n e.action) := by
  have hm := h.running.moved cfg e.action
  have hr := h.running.regular
  refine ⟨h.running.step cfg e.action, fun hn => ?_, fun c' hc' => ?_⟩
  · have hgrows : T.gateway.nextSessionId ≤ (T.gateway.step cfg e.action).nextSessionId := by
      cases flow_moved hm hr h.running.addressed.replaying <;> omega
    have hbefore : T.gateway.nextSessionId ≤ n := hgrows.trans hn
    obtain ⟨hreplies, hk⟩ := h.blank hbefore
    have htold : told cfg T.gateway e.action n = [] := by
      refine told_nobody cfg h.running hbefore fun _ hnext => ?_
      have hlast : (T.gateway.step cfg e.action).nextSessionId ≤ n := hn
      omega
    have hflushes : flushes T.gateway n e.action = 0 :=
      flushes_nobody (conns_above hr hbefore) e.action
    exact ⟨by simp [Tally.step, hreplies, htold], by omega⟩
  · have hstep := told_buffered cfg hr e.action hc'
    change _ = bytes (T.replies n ++ told cfg T.gateway e.action n)
    rw [bytes_append]
    obtain ⟨c, hc, -⟩ | ⟨-, hnew, -⟩ := (hm.touched n).before hc'
    · have hpending := h.pending c hc
      rw [pendingTo_of hc] at hstep
      omega
    · -- the connection is new, and nothing was said under its number before
      have hbefore : T.gateway.nextSessionId ≤ n := Nat.le_of_eq hnew.symm
      obtain ⟨hreplies, hk⟩ := h.blank hbefore
      have hnone : pendingTo T.gateway n = 0 := by rw [pendingTo, conns_above hr hbefore]; rfl
      have hempty : bytes [] = 0 := rfl
      rw [hreplies, hk]
      omega

theorem buffered_run (cfg : ServerConfig) (es : List Event) {T : Tally} {k : Nat}
    (h : Buffered T n k) : Buffered (T.run cfg es) n (k + flushed cfg n T.gateway es) := by
  induction es generalizing T k with
  | nil => exact h
  | cons e es ih =>
    have hrest := ih (buffered_step cfg h e)
    rwa [Nat.add_assoc] at hrest

/-- The account of what a client was told is that of its write buffer: every byte
of it was sent or waits to be. -/
theorem replies_buffered {t : Thread} (h : Booted t) (cfg : ServerConfig) (es : List Event)
    (n : Nat) {c : Connection} (hc : ((Tally.initial t).run cfg es).gateway.conns n = some c) :
    c.writer.pending + flushed cfg n (.initial t) es =
      bytes (((Tally.initial t).run cfg es).replies n) := by
  have hb := (buffered_run cfg es (buffered_initial h n)).pending c hc
  rwa [Nat.zero_add] at hb

/-- The connection is open, not about to be closed, and no queue holds anything. -/
def drained (g : Gateway) (n : Nat) : Bool :=
  g.inbound.isEmpty && g.outbox.isEmpty && g.latching.isNone &&
    (g.conns n).any fun c => c.fdOpen && !c.closing && c.egress.items.isEmpty &&
      !c.egress.overflowed

theorem standing_drained {g : Gateway} (h : drained g n = true) : Standing g n ∧ owed g n = 0 := by
  simp only [drained, Bool.and_eq_true, List.isEmpty_iff, Option.isNone_iff_eq_none,
    Option.any_eq_true, Bool.not_eq_true'] at h
  obtain ⟨⟨⟨hin, hout⟩, hl⟩, c, hc, ⟨⟨hopen, hclosing⟩, hitems⟩, hflag⟩ := h
  refine ⟨⟨c, hc, hopen, fun hmode => ?_, hflag, by simp [hl]⟩, ?_⟩
  · simp [Connection.closing, hmode] at hclosing
  · simp [owed, hin, hout, waiting_of hc, hitems]

/-- Once the queues are drained, a client whose session was opened has had one
answer to every frame but its heartbeats. -/
theorem answered_once {t : Thread} (h : Booted t) (cfg : ServerConfig) (es : List Event) (n : Nat)
    (hlogs : Along cfg (fun g a => logs g a = true) (.initial t) (es.map Event.action))
    (hopened : Registration.Joined ((Tally.initial t).run cfg es).gateway (UInt64.ofNat n))
    (hdrained : drained ((Tally.initial t).run cfg es).gateway n = true) :
    (((Tally.initial t).run cfg es).replies n).countP answering =
      (((Tally.initial t).run cfg es).received n).countP expects := by
  have hrec := reconciled_run cfg es (reconciled_initial h n) hlogs
  obtain ⟨hstanding, howed⟩ := standing_drained hdrained
  have hbalanced := hrec.balanced hstanding (Or.inl hopened)
  rwa [howed, Nat.add_zero] at hbalanced

/-- A client is admitted and sends these frames, and both threads do what there
is to do. -/
def conversation (fs : List WireFrame) (quiet : List Event) : List Event :=
  [.moved (.accept 0) (by simp), .moved (.take .obliging) (by simp), .moved (.serve 1) (by simp)] ++
    fs.map (.received 0 true) ++ [.moved .readDone (by simp),
      .moved (.endPass 0) (by simp)] ++ quiet

def relay : List Event :=
  [.moved (.take .obliging) (by simp), .moved .push (by simp), .moved (.drain 1) (by simp),
    .moved .pop (by simp), .moved .pop (by simp), .moved (.endPass 0) (by simp)]

theorem conversation_answered :
    (((Tally.initial Flooding.newThread).run .default (conversation
      [encodeNewOrder 1 100 10 .bid .limit, request 9 [], request heartbeatType []] relay)).replies
        1).countP answering = 2 :=
  (answered_once Flooding.booted_newThread .default _ 1 (by decide +kernel)
    ⟨.sessionOpened 1 (some 1) (some 1), by decide +kernel, rfl, rfl⟩ (by decide +kernel)).trans
    (by decide +kernel)

/-- A frame of the type of a heartbeat is answered too if it is of another version. -/
theorem heartbeat_answered :
    ¬∀ (cfg : ServerConfig) (t : Thread) (es : List Event) (n : Nat), Booted t →
      Along cfg (fun g a => logs g a = true) (.initial t) (es.map Event.action) →
      Registration.Joined ((Tally.initial t).run cfg es).gateway (UInt64.ofNat n) →
      drained ((Tally.initial t).run cfg es).gateway n = true →
      (((Tally.initial t).run cfg es).replies n).countP answering =
        (((Tally.initial t).run cfg es).received n).countP fun f =>
          f.header.type ≠ heartbeatType := by
  intro h
  have hcount :=
    h .default Flooding.newThread (conversation [⟨⟨0, heartbeatType, 2⟩, []⟩] []) 1
      Flooding.booted_newThread (by decide +kernel) ⟨.sessionOpened 1 (some 1) (some 1),
        by decide +kernel, rfl, rfl⟩ (by decide +kernel)
  exact absurd hcount (by decide +kernel)

end OrderMatching.Requests
