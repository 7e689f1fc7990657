import OrderMatching.Threads

namespace OrderMatching.Moves

open OrderMatching.Orders OrderMatching.Commands OrderMatching.MatchingThread OrderMatching.Answers
open OrderMatching.Network OrderMatching.Threads

/-- The connection before and after a step that concerns neither its session
nor its queue. Such a step may mark it for closing, and never takes that back. -/
structure Kept (c c' : Connection) : Prop where
  fdOpen : c'.fdOpen = c.fdOpen
  sessionId : c'.session.id = c.session.id
  alive : c'.session.alive = c.session.alive
  liveOrders : c'.session.liveOrders = c.session.liveOrders
  egress : c'.egress = c.egress
  retiring : c'.retiring = c.retiring
  subscribed : c'.subscribed = c.subscribed
  closing : c.closeMode = .immediate → c'.closeMode = .immediate

theorem Kept.refl (c : Connection) : Kept c c := ⟨rfl, rfl, rfl, rfl, rfl, rfl, rfl, id⟩

theorem Kept.trans {c c' c'' : Connection} (h : Kept c c') (h' : Kept c' c'') : Kept c c'' :=
  ⟨h'.fdOpen.trans h.fdOpen, h'.sessionId.trans h.sessionId, h'.alive.trans h.alive,
    h'.liveOrders.trans h.liveOrders, h'.egress.trans h.egress, h'.retiring.trans h.retiring,
    h'.subscribed.trans h.subscribed, fun hc => h'.closing (h.closing hc)⟩

theorem kept_closeNow (c : Connection) : Kept c c.closeNow :=
  ⟨rfl, rfl, rfl, rfl, rfl, rfl, rfl, fun _ => rfl⟩

theorem kept_queue (c : Connection) (r : Reply) : Kept c (c.queue r) := by
  unfold Connection.queue
  dsimp only
  split
  · exact ⟨rfl, rfl, rfl, rfl, rfl, rfl, rfl, id⟩
  · exact kept_closeNow c

theorem kept_serviceTimers (cfg : ServerConfig) (c : Connection) (nowNs : UInt64) :
    Kept c (serviceTimers cfg c nowNs) := by
  unfold serviceTimers
  split
  · exact kept_closeNow c
  · split
    · exact (kept_queue c _).trans ⟨rfl, rfl, rfl, rfl, rfl, rfl, rfl, id⟩
    · exact .refl c

theorem kept_forgetOrder (c : Connection) {x : UInt64} (hx : x ∉ c.session.liveOrders) (r : Reply) :
    Kept c
      ((({ c with session := (c.session.registerOrder x).2 } : Connection).queue
        r).forgetOrder x) := by
  have h := kept_queue { c with session := (c.session.registerOrder x).2 } r
  refine ⟨h.fdOpen, h.sessionId, h.alive, ?_, h.egress, h.retiring, h.subscribed, h.closing⟩
  calc _ = (insert x c.session.liveOrders).erase x := congrArg (Finset.erase · x) h.liveOrders
    _ = c.session.liveOrders := Finset.erase_insert hx

structure Requested (c c' : Connection) (cmd : OrderCommand) : Prop where
  fdOpen : c'.fdOpen = c.fdOpen
  sessionId : c'.session.id = c.session.id
  alive : c'.session.alive = c.session.alive
  egress : c'.egress = c.egress
  retiring : c'.retiring = c.retiring
  closing : c'.closeMode = c.closeMode
  subscribed : c'.subscribed = (c.subscribed || decide (cmd.type = .subscribe))
  sender : cmd.session = c.session.id
  request : cmd.type = .newOrder ∨ cmd.type = .cancel ∨ cmd.type = .modify ∨ cmd.type = .subscribe
  fresh : cmd.type = .newOrder → cmd.clientOrderId ∉ c.session.liveOrders
  registered : c'.session.liveOrders =
    if cmd.type = .newOrder then insert cmd.clientOrderId c.session.liveOrders
    else c.session.liveOrders

theorem submit_cases (inbound : List OrderCommand) (c : Connection) (cmd : OrderCommand) :
    (inbound.length < inboundCapacity ∧ submit inbound c cmd = (true, inbound ++ [cmd], c)) ∨
      (¬inbound.length < inboundCapacity ∧
        submit inbound c cmd =
          (false, inbound, c.queue (.reject cmd.clientOrderId .rateLimited))) := by
  unfold submit
  split
  · rename_i h
    exact Or.inl ⟨h, rfl⟩
  · rename_i h
    exact Or.inr ⟨h, rfl⟩

inductive Handled (inbound : List OrderCommand) (c : Connection) :
    List OrderCommand × Connection → Prop where
  | answered {c' : Connection} (h : Kept c c') : Handled inbound c (inbound, c')
  | forwarded {c' : Connection} {cmd : OrderCommand} (hroom : inbound.length < inboundCapacity)
      (h : Requested c c' cmd) : Handled inbound c (inbound ++ [cmd], c')

theorem handled_submit (inbound : List OrderCommand) (c : Connection) (cmd : OrderCommand)
    (hsender : cmd.session = c.session.id)
    (hrequest : cmd.type = .cancel ∨ cmd.type = .modify ∨ cmd.type = .subscribe) {subscribed : Bool}
    (hsub : subscribed = (c.subscribed || decide (cmd.type = .subscribe))) :
    Handled inbound c (if (submit inbound c cmd).1 then
      ((submit inbound c cmd).2.1, { (submit inbound c cmd).2.2 with subscribed := subscribed })
      else (submit inbound c cmd).2) := by
  have hnew : cmd.type ≠ .newOrder := by
    obtain h | h | h := hrequest <;> simp [h]
  obtain ⟨hroom, h⟩ | ⟨-, h⟩ := submit_cases inbound c cmd
  · rw [h]
    exact .forwarded hroom ⟨rfl, rfl, rfl, rfl, rfl, rfl, hsub, hsender, Or.inr hrequest,
      fun h => absurd h hnew, (if_neg hnew).symm⟩
  · rw [h]
    exact .answered (kept_queue c _)

theorem subscribed_same {c : Connection} {cmd : OrderCommand} (h : cmd.type ≠ .subscribe) :
    c.subscribed = (c.subscribed || decide (cmd.type = .subscribe)) := by simp [h]

theorem handled_newOrder (inbound : List OrderCommand) (c : Connection) (coid : UInt64)
    (priceTicks : Int64) (quantity : UInt32) (side : Side) (orderType : Commands.OrderType) :
    Handled inbound c
      (dispatch inbound c true (.newOrder coid priceTicks quantity side orderType)) := by
  by_cases hq : quantity = 0
  · simp only [dispatch, hq, if_true]
    exact .answered (kept_queue c _)
  by_cases hx : coid ∈ c.session.liveOrders
  · have hsame : ({ c with session := (c.session.registerOrder coid).2 } : Connection) = c := by
      simp only [Session.registerOrder, Finset.insert_eq_self.mpr hx]
    have hdup : (c.session.registerOrder coid).1 = false := by simp [Session.registerOrder, hx]
    simp only [dispatch, hq, hdup, hsame, if_true, if_false]
    exact .answered (kept_queue c _)
  · let c₁ : Connection := { c with session := (c.session.registerOrder coid).2 }
    have hnew : (c.session.registerOrder coid).1 = true := by simp [Session.registerOrder, hx]
    simp only [dispatch, hq, hnew, if_false]
    obtain ⟨hroom, h⟩ | ⟨-, h⟩ := submit_cases inbound c₁
      (.newOrder c₁.session.id coid priceTicks quantity side orderType)
    · simp only [c₁] at h
      simp only [h]
      exact .forwarded hroom ⟨rfl, rfl, rfl, rfl, rfl, rfl, subscribed_same nofun, rfl, Or.inl rfl,
        fun _ => hx, rfl⟩
    · simp only [c₁] at h
      simp only [h]
      exact .answered (kept_forgetOrder c hx _)

theorem handled_dispatch (inbound : List OrderCommand) (c : Connection) (allowed : Bool)
    (f : Frame) :
    Handled inbound c (dispatch inbound c allowed f) := by
  have hreply : ∀ r, Handled inbound c (inbound, c.queue r) := fun r => .answered (kept_queue c r)
  cases allowed with
  | false =>
    cases f with
    | heartbeat => exact .answered (.refl c)
    | _ => exact hreply _
  | true =>
    cases f with
    | heartbeat => exact .answered (.refl c)
    | newOrder coid priceTicks quantity side orderType => exact handled_newOrder ..
    | cancel coid =>
      have h := handled_submit inbound c (.cancel c.session.id coid) rfl
        (by simp [OrderCommand.cancel]) (subscribed_same (by simp [OrderCommand.cancel]))
      obtain ⟨-, hs⟩ | ⟨-, hs⟩ := submit_cases inbound c (.cancel c.session.id coid)
      all_goals
        simp only [dispatch, hs] at h ⊢
        exact h
    | modify coid priceTicks quantity =>
      have h := handled_submit inbound c (.modify c.session.id coid priceTicks quantity) rfl
        (by simp [OrderCommand.modify]) (subscribed_same (by simp [OrderCommand.modify]))
      obtain ⟨-, hs⟩ | ⟨-, hs⟩ :=
        submit_cases inbound c (.modify c.session.id coid priceTicks quantity)
      all_goals
        simp only [dispatch, hs] at h ⊢
        exact h
    | subscribe depth =>
      exact handled_submit inbound c (.subscribe c.session.id depth) rfl
        (by simp [OrderCommand.subscribe]) (by simp [OrderCommand.subscribe])
    | _ => exact hreply _

/-- A connection under the number of its session. Its socket is open while the
session is alive, and it retires only a dead one. -/
structure Wired (n : Nat) (c : Connection) : Prop where
  sessionId : c.session.id = UInt64.ofNat n
  socket : c.fdOpen = c.session.alive
  retires : c.retiring = true → c.session.alive = false

def killed (c : Connection) : Connection :=
  { c with session := { c.session with
    alive := false }, retiring := true, fdOpen := false, closeMode := .none }

/-- What closing a connection comes to. The session is killed once, and the
connection is kept for as long as it is retiring. -/
inductive Closed (inbound : List OrderCommand) (c : Connection) :
    List OrderCommand × Option Connection → Prop where
  | killed (halive : c.session.alive = true) (hroom : inbound.length < inboundCapacity) :
      Closed inbound c (inbound ++ [.cancelAll c.session.id], some (killed c))
  | dropped (halive : c.session.alive = true) (hfull : ¬inbound.length < inboundCapacity) :
      Closed inbound c (inbound, none)
  | rearmed (hretiring : c.retiring = true) :
      Closed inbound c (inbound, some { c with fdOpen := false, closeMode := .none })
  | destroyed (hdead : c.session.alive = false) (hretiring : c.retiring = false) :
      Closed inbound c (inbound, none)

theorem Closed.shut {inbound : List OrderCommand} {c d : Connection}
    {r : List OrderCommand × Option Connection} (h : Closed inbound c r) (hd : r.2 = some d) :
    d.fdOpen = false ∧ d.closeMode = .none := by
  cases h with
  | killed =>
    obtain rfl := Option.some.inj hd
    exact ⟨rfl, rfl⟩
  | rearmed =>
    obtain rfl := Option.some.inj hd
    exact ⟨rfl, rfl⟩
  | dropped => cases hd
  | destroyed => cases hd

theorem closed_closeConnection (inbound : List OrderCommand) {n : Nat} {c : Connection}
    (hw : Wired n c) :
    Closed inbound c (closeConnection inbound c) := by
  cases halive : c.session.alive with
  | false =>
    cases hretiring : c.retiring with
    | false =>
      simp only [closeConnection, killSession, halive, hretiring, Bool.false_eq_true, if_false]
      exact .destroyed halive hretiring
    | true =>
      simp only [closeConnection, killSession, halive, hretiring, Bool.false_eq_true,
        if_false, if_true]
      have h : Closed inbound c _ := .rearmed hretiring
      rwa [hretiring] at h
  | true =>
    let c₁ : Connection := { c with session := { c.session with alive := false } }
    obtain ⟨hroom, h⟩ | ⟨hfull, h⟩ := submit_cases inbound c₁ (.cancelAll c₁.session.id)
    · simp only [c₁] at h
      simp only [closeConnection, killSession, halive, h, if_true]
      exact .killed halive hroom
    · have hk :=
        kept_queue c₁ (.reject (OrderCommand.cancelAll c.session.id).clientOrderId .rateLimited)
      have hretiring : c.retiring = false := by
        by_contra hr
        rw [hw.retires (by simpa using hr)] at halive
        cases halive
      simp only [c₁] at h hk
      simp only [closeConnection, killSession, halive, h, if_true, Bool.false_eq_true,
        if_false, hk.retiring]
      rw [if_neg (by simp [hretiring])]
      exact .dropped halive hfull

theorem closeConnection_alive {inbound : List OrderCommand} {n : Nat} {c : Connection}
    (hw : Wired n c) (halive : c.session.alive = true) :
    closeConnection inbound c = if inbound.length < inboundCapacity then
      (inbound ++ [.cancelAll c.session.id], some (killed c)) else (inbound, none) := by
  have hclosed := closed_closeConnection inbound hw
  generalize closeConnection inbound c = r at hclosed
  cases hclosed with
  | killed _ hroom => rw [if_pos hroom]
  | dropped _ hfull => rw [if_neg hfull]
  | rearmed hretiring =>
    rw [hw.retires hretiring] at halive
    cases halive
  | destroyed hdead => simp [hdead] at halive

/-- A connection as `accept` makes it. -/
structure Opened (n : Nat) (c : Connection) : Prop where
  fdOpen : c.fdOpen = true
  sessionId : c.session.id = UInt64.ofNat n
  alive : c.session.alive = true
  liveOrders : c.session.liveOrders = ∅
  egress : c.egress = ⟨[], false⟩
  retiring : c.retiring = false

def erases (e : OrderEvent) : Bool :=
  match e.type with
  | .reject => true
  | .sessionRetired => false
  | _ => e.closesOrder

/-- The connection before and after the delivery of an event. One whose frame
does not fit marks it for closing. -/
structure Delivering (c : Connection) (e : OrderEvent) (c' : Connection) : Prop where
  fdOpen : c'.fdOpen = c.fdOpen
  sessionId : c'.session.id = c.session.id
  alive : c'.session.alive = c.session.alive
  egress : c'.egress = c.egress
  liveOrders : c'.session.liveOrders =
    if erases e then c.session.liveOrders.erase e.clientOrderId else c.session.liveOrders
  retiring : c'.retiring = if e.type = .sessionRetired then false else c.retiring
  subscribed : c'.subscribed = c.subscribed
  closing : c.closeMode = .immediate → c'.closeMode = .immediate
  lost : c.fdOpen = true → delivers c e = false → c'.closeMode = .immediate
  written : ∀ r, reply e = some r → (c.writer.append r.size).1 = true →
    c'.closeMode = c.closeMode ∧ c'.writer = (c.writer.append r.size).2

theorem delivering_queue (c : Connection) {e : OrderEvent} {r : Reply} (hr : reply e = some r)
    (he : e.type ≠ .sessionRetired) :
    Delivering c e ((if erases e then c.forgetOrder e.clientOrderId else c).queue r) := by
  let c₁ := if erases e then c.forgetOrder e.clientOrderId else c
  have h₁ : c₁.fdOpen = c.fdOpen ∧ c₁.session.id = c.session.id ∧
      c₁.session.alive = c.session.alive ∧
      c₁.egress = c.egress ∧ c₁.retiring = c.retiring ∧ c₁.subscribed = c.subscribed ∧
      c₁.closeMode = c.closeMode ∧ c₁.writer = c.writer ∧
      c₁.session.liveOrders =
        if erases e then c.session.liveOrders.erase e.clientOrderId
        else c.session.liveOrders := by
    simp only [c₁]
    split <;> exact ⟨rfl, rfl, rfl, rfl, rfl, rfl, rfl, rfl, rfl⟩
  obtain ⟨hfd, hid, halive, hegress, hretiring, hsub, hmode, hwriter, hlive⟩ := h₁
  change Delivering c e (c₁.queue r)
  have hqueue : c₁.queue r = if (c.writer.append r.size).1 then
      { c₁ with writer := (c.writer.append r.size).2 }
      else c₁.closeNow := by rw [← hwriter]; rfl
  have hdelivers : delivers c e = (c.fdOpen && (c.writer.append r.size).1) := by
    simp only [delivers, hr]
  cases hfits : (c.writer.append r.size).1 with
  | true =>
    rw [hqueue, hfits, if_pos rfl]
    refine ⟨hfd, hid, halive, hegress, hlive, hretiring.trans (if_neg he).symm, hsub, hmode.trans,
      fun hopen hlost => ?_, fun r' hr' _ => ?_⟩
    · simp [hdelivers, hopen, hfits] at hlost
    · obtain rfl : r = r' := by simpa [hr] using hr'
      exact ⟨hmode, rfl⟩
  | false =>
    rw [hqueue, hfits, if_neg (by simp)]
    refine ⟨hfd, hid, halive, hegress, hlive, hretiring.trans (if_neg he).symm, hsub, fun _ => rfl,
      fun _ _ => rfl, fun r' hr' hfits' => ?_⟩
    obtain rfl : r = r' := by simpa [hr] using hr'
    rw [hfits] at hfits'
    cases hfits'

theorem delivering_deliver (c : Connection) (e : OrderEvent) : Delivering c e (c.deliver e) := by
  cases he : e.type with
  | ack =>
    have hr : reply e = some (.ack e.clientOrderId e.exchangeOrderId) := by simp only [reply, he]
    have h := delivering_queue c hr (by simp [he])
    simp only [erases, he] at h
    simpa only [Connection.deliver, he] using h
  | reject =>
    have hr : reply e = some (.reject e.clientOrderId e.reason) := by simp only [reply, he]
    have h := delivering_queue c hr (by simp [he])
    simp only [erases, he, if_true] at h
    simpa only [Connection.deliver, he] using h
  | fill =>
    have hr : reply e =
        some (.fill e.exchangeOrderId e.priceTicks e.quantity e.remainingQuantity) := by
      simp only [reply, he]
    have h := delivering_queue c hr (by simp [he])
    simp only [erases, he] at h
    simpa only [Connection.deliver, he] using h
  | sessionRetired =>
    have hdeliver : c.deliver e = { c with retiring := false }.closeNow := by
      simp only [Connection.deliver, he]
    rw [hdeliver]
    refine ⟨rfl, rfl, rfl, rfl, ?_, (if_pos he).symm, rfl, fun _ => rfl, fun _ _ => rfl,
      fun r hr => ?_⟩
    · simp [erases, he, Connection.closeNow]
    · simp [reply, he] at hr

theorem mode_queue (c : Connection) (r : Reply) :
    (c.queue r).closeMode = c.closeMode ∨ (c.queue r).closeMode = .immediate := by
  unfold Connection.queue
  dsimp only
  split
  · exact Or.inl rfl
  · exact Or.inr rfl

theorem mode_deliver (c : Connection) (e : OrderEvent) :
    (c.deliver e).closeMode = c.closeMode ∨ (c.deliver e).closeMode = .immediate := by
  unfold Connection.deliver
  cases e.type with
  | ack =>
    dsimp only
    split
    · exact mode_queue (c.forgetOrder e.clientOrderId) _
    · exact mode_queue c _
  | reject => exact mode_queue (c.forgetOrder e.clientOrderId) _
  | fill =>
    dsimp only
    split
    · exact mode_queue (c.forgetOrder e.clientOrderId) _
    · exact mode_queue c _
  | sessionRetired => exact Or.inr rfl

/-- A connection after one round of the loop in `drain_egress`. -/
def popped (c : Connection) : Connection :=
  match c.egress.items with
  | [] => c
  | e :: items => (queued c items).deliver e

def checked (c : Connection) : Connection := if c.egress.overflowed then c.closeNow else c

/-- A step of `drain_egress` on a connection, which it leaves as `d`. -/
structure Round (g : Gateway) (n : Nat) (c d : Connection) (g' : Gateway) : Prop where
  conns : g'.conns = Function.update g.conns n (some d)
  next : g'.nextSessionId = g.nextSessionId
  pc : g'.pc = .draining n ∨ g'.pc = .leaving n
  fdOpen : d.fdOpen = c.fdOpen
  mode : d.closeMode = c.closeMode ∨ d.closeMode = .immediate

theorem round_pop {g : Gateway} {n : Nat} {c : Connection} (hc : g.conns n = some c) :
    Round g n c (popped c) (g.pop n c) := by
  unfold popped Gateway.pop
  cases hitems : c.egress.items with
  | nil =>
    refine ⟨?_, rfl, Or.inr rfl, rfl, Or.inl rfl⟩
    rw [← hc, Function.update_eq_self]
  | cons e items =>
    refine ⟨rfl, rfl, ?_, (delivering_deliver (queued c items) e).fdOpen,
      mode_deliver (queued c items) e⟩
    dsimp only
    split
    · exact Or.inr rfl
    · exact Or.inl rfl

theorem round_drain {g : Gateway} {n : Nat} {c : Connection} (hc : g.conns n = some c) :
    Round g n c (checked c) (g.drain n c) := by
  unfold checked Gateway.drain
  split
  · exact ⟨rfl, rfl, Or.inr rfl, rfl, Or.inr rfl⟩
  · refine ⟨?_, rfl, Or.inl rfl, rfl, Or.inl rfl⟩
    rw [← hc, Function.update_eq_self]

theorem pop_at (g : Gateway) (pc : Pc) (n : Nat) (c : Connection) :
    Gateway.pop { g with pc := pc } n c = g.pop n c := by
  unfold Gateway.pop
  split <;> rfl

theorem drain_at (g : Gateway) (pc : Pc) (n : Nat) (c : Connection) :
    Gateway.drain { g with pc := pc } n c = g.drain n c := rfl

def closing (g : Gateway) : Action → Option Connection
  | .pollError =>
    match g.pc with
    | .serving n => g.conns n
    | _ => none
  | .endPass nowNs =>
    match g.pc with
    | .leaving n => (g.conns n).filter fun c => c.readyToClose nowNs
    | _ => none
  | _ => none

def requesting (g : Gateway) : Action → Option OrderCommand
  | .frame nowNs allowed f =>
    match g.pc with
    | .serving n =>
      (g.conns n).bind fun c =>
        (dispatch g.inbound { c with session := c.session.onInbound nowNs } allowed
          f).1[g.inbound.length]?
    | _ => none
  | _ => none

inductive Moved (g : Gateway) (a : Action) : Gateway → Prop where
  | still : Moved g a g
  | turned {pc : Pc} (hpc : ∀ m, pc ≠ .draining m)
      (hleave : ∀ m c, g.pc = .leaving m → g.conns m = some c → c.closeMode ≠ .immediate)
      (hserve : ∀ m c, pc = .serving m → g.conns m = some c → c.fdOpen = true) :
      Moved g a { g with pc := pc }
  | kept {n : Nat} {c c' : Connection} {pc : Pc} (hc : g.conns n = some c) (hk : Kept c c')
      (hpc : ∀ m, pc ≠ .draining m) (hstay : ∀ m, g.pc = .leaving m → pc = g.pc)
      (hserve : ∀ m, pc = .serving m → g.pc = pc)
      (hmode : c'.closeMode = .immediate → c.closeMode = .immediate ∨ c.session.alive = true ∨
        pc = .leaving n) :
      Moved g a { g.setConn n c' with pc := pc }
  | accepted {c : Connection} {nowNs : UInt64} (ha : a = .accept nowNs)
      (hlt : g.nextSessionId < 2 ^ 64) (hpc : g.pc = .polling) (ho : Opened g.nextSessionId c)
      {inbound : List OrderCommand}
      (hin : g.inbound.length < inboundCapacity ∧ inbound = g.inbound ++
          [.sessionOpened (UInt64.ofNat g.nextSessionId) (some g.nextSessionId)
            (some g.nextSessionId)] ∨
        ¬g.inbound.length < inboundCapacity ∧ inbound = g.inbound) :
      Moved g a { g.setConn g.nextSessionId c with
        nextSessionId := g.nextSessionId + 1, inbound := inbound }
  | requested {n : Nat} {c c' : Connection} {cmd : OrderCommand} {pc : Pc}
      (ha : requesting g a = some cmd) (hpc : g.pc = .serving n) (hc : g.conns n = some c)
      (hroom : g.inbound.length < inboundCapacity) (hr : Requested c c' cmd)
      (hpc' : pc = .leaving n ∨ pc = .serving n) :
      Moved g a { g.setConn n c' with inbound := g.inbound ++ [cmd], pc := pc }
  | checked {n : Nat} {c : Connection} (hpc : g.pc = .polling) (hc : g.conns n = some c)
      (hflag : c.egress.overflowed = false) : Moved g a { g with pc := .draining n }
  | popped {n : Nat} {c : Connection} {e : OrderEvent} {items : List OrderEvent} {pc : Pc}
      (ha : a = .pop) (hpc : g.pc = .draining n) (hc : g.conns n = some c)
      (hitems : c.egress.items = e :: items)
      (hpc' : pc =
        if ((queued c items).deliver e).closeMode = .immediate ∧ e.type ≠ .sessionRetired then
          .leaving n
        else .draining n) :
      Moved g a { g.setConn n ((queued c items).deliver e) with
        pc := pc
        delivered :=
          if delivers c e then Function.update g.delivered n (g.delivered n ++ [e])
          else g.delivered }
  | closed {n : Nat} {c : Connection} {r : List OrderCommand × Option Connection}
      (hc : g.conns n = some c) (ha : closing g a = some c)
      (hpc : g.pc = .serving n ∨ g.pc = .leaving n) (h : Closed g.inbound c r) :
      Moved g a { g with conns := Function.update g.conns n r.2, inbound := r.1, pc := .polling }
  | taken {env : Env} {c : OrderCommand} {inbound : List OrderCommand} (ha : a = .take env)
      (hin : g.inbound = c :: inbound)
      (hout : g.outbox = []) (hl : g.latching = none) (he : g.erasing = none) :
      Moved g a { g with
        inbound := inbound
        thread := g.thread.applyPopped (roomy env) c
        outbox := (g.thread.applyPopped (roomy env) c).pushed.drop g.thread.pushed.length
        erasing := if admits (roomy env) g.thread c then leavingEntries g.thread c else none
        applied := if admits (roomy env) g.thread c then g.applied ++ [c] else g.applied }
  | pushed {n : Nat} {e : OrderEvent} {outbox : List (Nat × OrderEvent)} {c : Connection}
      (ha : a = .push) (hout : g.outbox = (n, e) :: outbox) (hl : g.latching = none)
      (hc : g.conns n = some c) (hroom : c.egress.items.length < egressCapacity) :
      Moved g a ({ g with outbox := outbox, emitted := g.emittedWith n e }.setConn n
        (queued c (c.egress.items ++ [e])))
  | overflowing {n : Nat} {e : OrderEvent} {outbox : List (Nat × OrderEvent)} {c : Connection}
      (ha : a = .push) (hout : g.outbox = (n, e) :: outbox) (hl : g.latching = none)
      (hc : g.conns n = some c) (hfull : ¬c.egress.items.length < egressCapacity)
      (he : e.type ≠ .sessionRetired) :
      Moved g a { g with outbox := outbox, emitted := g.emittedWith n e, latching := some n }
  | lost {n : Nat} {e : OrderEvent} {outbox : List (Nat × OrderEvent)} (ha : a = .push)
      (hout : g.outbox = (n, e) :: outbox) (hl : g.latching = none)
      (hc : g.conns n = none ∨ ∃ c, g.conns n = some c ∧ ¬c.egress.items.length < egressCapacity ∧
        e.type = .sessionRetired) :
      Moved g a { g with outbox := outbox, emitted := g.emittedWith n e }
  | latched {n : Nat} {c : Connection} (hl : g.latching = some n) (hc : g.conns n = some c) :
      Moved g a ({ g with latching := none }.setConn n (flagged c))
  | unlatched {n : Nat} (hl : g.latching = some n) (hc : g.conns n = none) :
      Moved g a { g with latching := none }
  | erased (hout : g.outbox = []) (hl : g.latching = none) : Moved g a { g with erasing := none }
  | housekept (env : Env) (hout : g.outbox = []) (hl : g.latching = none) :
      Moved g a { g with thread := (g.thread.pollSync env).maybeSnapshot env }

/-- The connections go by numbers handed out already, and the network thread
reads from live ones only. -/
structure Regular (g : Gateway) : Prop where
  started : 0 < g.nextSessionId
  bounded : g.nextSessionId ≤ 2 ^ 64
  below : ∀ n c, g.conns n = some c → 0 < n ∧ n < g.nextSessionId
  wired : ∀ n c, g.conns n = some c → Wired n c
  serving : ∀ n c, g.pc = .serving n → g.conns n = some c → c.session.alive = true

variable {g : Gateway} {a : Action}

/-- The number of a connection is the session it was accepted under. -/
theorem Regular.named (h : Regular g) {n : Nat} {c : Connection} (hc : g.conns n = some c) :
    c.session.id.toNat = n := by
  have hlt := (h.below n c hc).2.trans_le h.bounded
  rw [(h.wired n c hc).sessionId, UInt64.toNat_ofNat_of_lt' hlt]

theorem moved_onConn {n : Nat} {f : Connection → Gateway}
    (h : ∀ c, g.conns n = some c → Moved g a (f c)) :
    Moved g a (g.onConn n f) := by
  unfold Gateway.onConn
  cases hc : g.conns n with
  | none => exact .still
  | some c => exact h c hc

theorem moved_close (hg : Regular g) {n : Nat} {c : Connection} (hc : g.conns n = some c)
    (ha : closing g a = some c) (hpc : g.pc = .serving n ∨ g.pc = .leaving n) :
    Moved g a (g.close n c) :=
  .closed hc ha hpc (closed_closeConnection g.inbound (hg.wired n c hc))

theorem moved_accept (cfg : ServerConfig) (nowNs : UInt64) (hpc : g.pc = .polling) :
    Moved g (.accept nowNs) (g.accept cfg nowNs) := by
  unfold Gateway.accept
  dsimp only
  split
  · rename_i hlt
    obtain ⟨hroom, h⟩ | ⟨hfull, h⟩ := submit_cases g.inbound
      (.create cfg (UInt64.ofNat g.nextSessionId) nowNs)
      (.sessionOpened (UInt64.ofNat g.nextSessionId) (some g.nextSessionId) (some g.nextSessionId))
    · rw [h]
      exact .accepted rfl hlt hpc ⟨rfl, rfl, rfl, rfl, rfl, rfl⟩ (Or.inl ⟨hroom, rfl⟩)
    · have hk := kept_queue (.create cfg (UInt64.ofNat g.nextSessionId) nowNs)
        (.reject 0 .rateLimited)
      rw [h]
      exact .accepted rfl hlt hpc ⟨hk.fdOpen, hk.sessionId, hk.alive, hk.liveOrders, hk.egress,
        hk.retiring⟩ (Or.inr ⟨hfull, rfl⟩)
  · exact .still

theorem moved_timers (hpc : g.pc = .polling) {n : Nat} {c : Connection} (hc : g.conns n = some c)
    (cfg : ServerConfig) (nowNs : UInt64) :
    Moved g a (g.setConn n (serviceTimers cfg c nowNs)) := by
  have hmode : (serviceTimers cfg c nowNs).closeMode = .immediate → c.closeMode = .immediate ∨
      c.session.alive = true ∨ g.pc = .leaving n := by
    cases halive : c.session.alive with
    | true => exact fun _ => Or.inr (Or.inl rfl)
    | false =>
      have hsame : serviceTimers cfg c nowNs = c := by
        simp [serviceTimers, Session.timedOut, Session.heartbeatDue, halive]
      rw [hsame]
      exact Or.inl
  have h : Moved g a { g.setConn n (serviceTimers cfg c nowNs) with pc := g.pc } :=
    .kept hc (kept_serviceTimers cfg c nowNs) (by simp [hpc]) (fun _ _ => rfl)
      (fun _ _ => rfl) hmode
  exact h

theorem moved_frame {n : Nat} {c : Connection} (hpc : g.pc = .serving n) (hc : g.conns n = some c)
    (nowNs : UInt64) (allowed : Bool) (f : Frame) :
    Moved g (.frame nowNs allowed f) (g.frame n nowNs allowed f c) := by
  let c₁ : Connection := { c with session := c.session.onInbound nowNs }
  have hk₁ : Kept c c₁ := ⟨rfl, rfl, rfl, rfl, rfl, rfl, rfl, id⟩
  have hreq : requesting g (.frame nowNs allowed f) =
      (dispatch g.inbound c₁ allowed f).1[g.inbound.length]? := by
    simp only [requesting, hpc, hc, Option.bind_some]
    rfl
  have h := handled_dispatch g.inbound c₁ allowed f
  unfold Gateway.frame
  generalize dispatch g.inbound c₁ allowed f = r at h hreq ⊢
  cases h with
  | @answered c' hk =>
    cases hclosing : c'.closing with
    | true =>
      simp only [hclosing, if_true]
      exact .kept hc (hk₁.trans hk) nofun (fun m hm => by simp [hpc] at hm) nofun
        (fun _ => Or.inr (Or.inr rfl))
    | false =>
      simp only [hclosing, Bool.false_eq_true, if_false]
      refine .kept hc (hk₁.trans hk) nofun (fun m hm => by simp [hpc] at hm) (fun _ _ => hpc)
        (fun himm => ?_)
      simp [Connection.closing, himm] at hclosing
  | forwarded hroom hr =>
    refine .requested (hreq.trans (by simp)) hpc hc hroom ⟨hr.fdOpen, hr.sessionId, hr.alive,
      hr.egress, hr.retiring,
      hr.closing, hr.subscribed, hr.sender, hr.request, hr.fresh, hr.registered⟩ ?_
    split
    · exact Or.inl rfl
    · exact Or.inr rfl

theorem moved_drain {n : Nat} {c : Connection} (hpc : g.pc = .polling) (hc : g.conns n = some c) :
    Moved g a (g.drain n c) := by
  unfold Gateway.drain
  split
  · exact .kept hc (kept_closeNow c) nofun (fun m hm => by simp [hpc] at hm) nofun
      (fun _ => Or.inr (Or.inr rfl))
  · rename_i hflag
    exact .checked hpc hc (by simpa using hflag)

theorem moved_pop {n : Nat} {c : Connection} (hpc : g.pc = .draining n) (hc : g.conns n = some c) :
    Moved g .pop (g.pop n c) := by
  unfold Gateway.pop
  cases hitems : c.egress.items with
  | nil => exact .turned nofun (fun m _ hm => by simp [hpc] at hm) nofun
  | cons e items => exact .popped rfl hpc hc hitems rfl

theorem moved_endPass (hg : Regular g) {n : Nat} {c : Connection} (hpc : g.pc = .leaving n)
    (hc : g.conns n = some c) (nowNs : UInt64) :
    Moved g (.endPass nowNs) (g.endPass n nowNs c) := by
  unfold Gateway.endPass
  split
  · rename_i hready
    refine moved_close hg hc ?_ (Or.inr hpc)
    simp [closing, hpc, hc, hready]
  · rename_i hready
    refine .turned nofun (fun m c' hm hc' himm => hready ?_) nofun
    obtain rfl : n = m := by simpa [hpc] using hm
    obtain rfl : c = c' := by simpa [hc] using hc'
    simp [Connection.readyToClose, himm]

theorem moved_take (g : Gateway) (env : Env) : Moved g (.take env) (g.take env) := by
  unfold Gateway.take
  cases hin : g.inbound with
  | nil => exact .still
  | cons c inbound =>
    dsimp only
    split
    · rename_i h
      exact .taken rfl hin h.1 h.2.1 h.2.2
    · exact .still

theorem moved_push (g : Gateway) : Moved g .push g.push := by
  unfold Gateway.push
  cases hout : g.outbox with
  | nil => exact .still
  | cons p outbox =>
    obtain ⟨n, e⟩ := p
    dsimp only
    split
    · rename_i hl
      unfold Gateway.onConn
      dsimp only
      cases hc : g.conns n with
      | none => exact .lost rfl hout hl (Or.inl hc)
      | some c =>
        dsimp only
        split
        · rename_i hroom
          exact .pushed rfl hout hl hc hroom
        · rename_i hfull
          split
          · rename_i he
            exact .lost rfl hout hl (Or.inr ⟨c, hc, hfull, he⟩)
          · rename_i he
            exact .overflowing rfl hout hl hc hfull he
    · exact .still

theorem moved_latch (g : Gateway) : Moved g a g.latch := by
  unfold Gateway.latch
  cases hl : g.latching with
  | none => exact .still
  | some n =>
    unfold Gateway.onConn
    dsimp only
    cases hc : g.conns n with
    | none => exact .unlatched hl hc
    | some c => exact .latched hl hc

theorem moved_erase (g : Gateway) : Moved g a g.erase := by
  unfold Gateway.erase
  split
  · rename_i h
    exact .erased h.1 h.2
  · exact .still

theorem moved_housekeep (g : Gateway) (env : Env) : Moved g a (g.housekeep env) := by
  unfold Gateway.housekeep
  split
  · rename_i h
    exact .housekept env h.1 h.2.1
  · exact .still

theorem moved_here {n : Nat} (hpc : g.pc = .serving n ∨ g.pc = .leaving n) {p : Connection → Bool}
    {f : Connection → Connection} (hf : ∀ c, Kept c (f c))
    (hmode : ∀ c, g.conns n = some c → p c = true → (f c).closeMode = .immediate →
      c.closeMode = .immediate ∨ c.session.alive = true ∨ g.pc = .leaving n) :
    Moved g a (g.onConn n fun c => if p c then g.setConn n (f c) else g) := by
  apply moved_onConn
  intro c hc
  split
  · rename_i hp
    have hdrain : ∀ m, g.pc ≠ .draining m := by
      obtain h | h := hpc <;> simp [h]
    have h : Moved g a { g.setConn n (f c) with pc := g.pc } :=
      .kept hc (hf c) hdrain (fun _ _ => rfl) (fun _ _ => rfl) (hmode c hc hp)
    exact h
  · exact .still

theorem moved_serve {n : Nat} {c : Connection} (hpc : g.pc = .polling) (hc : g.conns n = some c) :
    Moved g a (if c.fdOpen then { g with pc := .serving n } else g) := by
  split
  · rename_i hfd
    refine .turned nofun (fun m _ hm => by simp [hpc] at hm) (fun m c' hm hc' => ?_)
    obtain rfl : n = m := by simpa using hm
    obtain rfl : c = c' := by simpa [hc] using hc'
    exact hfd
  · exact .still

theorem moved_hangup {n : Nat} {c : Connection} (hpc : g.pc = .serving n)
    (hc : g.conns n = some c) :
    Moved g a { g.setConn n c.closeNow with pc := .leaving n } :=
  .kept hc (kept_closeNow c) nofun (fun m hm => by simp [hpc] at hm) nofun
    (fun _ => Or.inr (Or.inr rfl))

theorem kept_consume (k : Nat) (c : Connection) : Kept c { c with writer := c.writer.consume k } :=
  ⟨rfl, rfl, rfl, rfl, rfl, rfl, rfl, id⟩

theorem moved_if {p : Prop} [Decidable p] {g' : Gateway} (h : p → Moved g a g') :
    Moved g a (if p then g' else g) := by
  split
  · rename_i hp
    exact h hp
  · exact .still

/-- The case analysis of a step of the gateway, done once. -/
theorem moved_step (cfg : ServerConfig) (hg : Regular g) (a : Action) :
    Moved g a (g.step cfg a) := by
  have halive : ∀ {n c}, g.conns n = some c → c.fdOpen = true → c.session.alive = true :=
    fun hc hfd => (hg.wired _ _ hc).socket.symm.trans hfd
  unfold Gateway.step
  cases a with
  | accept nowNs => exact moved_if (moved_accept cfg nowNs)
  | timers n nowNs =>
    exact moved_if fun hpc => moved_onConn fun c hc => moved_timers hpc hc cfg nowNs
  | serve n => exact moved_if fun hpc => moved_onConn fun c hc => moved_serve hpc hc
  | drain n => exact moved_if fun hpc => moved_onConn fun c hc => moved_drain hpc hc
  | take env => exact moved_take g env
  | push => exact moved_push g
  | latch => exact moved_latch g
  | erase => exact moved_erase g
  | housekeep env => exact moved_housekeep g env
  | frame nowNs allowed f =>
    cases hpc : g.pc with
    | serving n => exact moved_onConn fun c hc => moved_frame hpc hc nowNs allowed f
    | _ => exact .still
  | hangup =>
    cases hpc : g.pc with
    | serving n => exact moved_onConn fun c hc => moved_hangup hpc hc
    | _ => exact .still
  | readDone =>
    cases hpc : g.pc with
    | serving n => exact .turned nofun (fun m _ hm => by simp [hpc] at hm) nofun
    | _ => exact .still
  | pollError =>
    cases hpc : g.pc with
    | serving n =>
      exact moved_onConn fun c hc => moved_close hg hc (by simp [closing, hpc, hc]) (Or.inl hpc)
    | _ => exact .still
  | pop =>
    cases hpc : g.pc with
    | draining n => exact moved_onConn fun c hc => moved_pop hpc hc
    | _ => exact .still
  | market seq bids asks =>
    cases hpc : g.pc with
    | leaving n =>
      exact moved_here (Or.inr hpc) (fun c => kept_queue c _) (fun _ _ _ _ => Or.inr (Or.inr hpc))
    | _ => exact .still
  | writable k =>
    cases hpc : g.pc with
    | serving n => exact moved_here (Or.inl hpc) (kept_consume k) (fun _ _ _ => Or.inl)
    | leaving n => exact moved_here (Or.inr hpc) (kept_consume k) (fun _ _ _ => Or.inl)
    | _ => exact .still
  | sendError =>
    cases hpc : g.pc with
    | serving n =>
      exact moved_here (Or.inl hpc) kept_closeNow
        (fun _ hc hfd _ => Or.inr (Or.inl (halive hc hfd)))
    | leaving n =>
      exact moved_here (Or.inr hpc) kept_closeNow
        (fun _ hc hfd _ => Or.inr (Or.inl (halive hc hfd)))
    | _ => exact .still
  | endPass nowNs =>
    cases hpc : g.pc with
    | leaving n => exact moved_onConn fun c hc => moved_endPass hg hpc hc nowNs
    | _ => exact .still

theorem regular_initial (t : Thread) : Regular (.initial t) where
  started := Nat.one_pos
  bounded := Nat.one_le_two_pow
  below n c hc := absurd hc (conns_initial t n c)
  wired n c hc := absurd hc (conns_initial t n c)
  serving n c _ hc := absurd hc (conns_initial t n c)

theorem update_cases {conns : Nat → Option Connection} {n m : Nat} {o : Option Connection}
    {d : Connection} (h : Function.update conns n o m = some d) :
    m = n ∧ o = some d ∨ m ≠ n ∧ conns m = some d := by
  by_cases hm : m = n
  · rw [hm, Function.update_self] at h
    exact Or.inl ⟨hm, h⟩
  · rw [Function.update_of_ne hm] at h
    exact Or.inr ⟨hm, h⟩

theorem update_here {conns : Nat → Option Connection} {n : Nat} {o : Option Connection}
    {d : Connection} (h : Function.update conns n o n = some d) : o = some d := by
  rwa [Function.update_self] at h

theorem update_same {conns : Nat → Option Connection} {n : Nat} {c d : Connection}
    (h : Function.update conns n (some c) n = some d) : d = c :=
  (Option.some.inj (update_here h)).symm

theorem Regular.setConn {g' : Gateway} (hg : Regular g) {n : Nat} {c c' : Connection}
    (hc : g.conns n = some c) (hconns : g'.conns = Function.update g.conns n (some c'))
    (hnext : g'.nextSessionId = g.nextSessionId) (hw : Wired n c')
    (hserve : ∀ m, g'.pc = .serving m → g.pc = .serving m ∧
      (m = n → c'.session.alive = c.session.alive)) :
    Regular g' := by
  have hcases : ∀ m d, g'.conns m = some d → m = n ∧ some c' = some d ∨ m ≠ n ∧
      g.conns m = some d :=
    fun m d hd => update_cases (hconns ▸ hd)
  refine ⟨hnext ▸ hg.started, hnext ▸ hg.bounded, fun m d hd => ?_, fun m d hd => ?_,
    fun m d hpc hd => ?_⟩
  · rw [hnext]
    obtain ⟨rfl, -⟩ | ⟨-, hd⟩ := hcases m d hd
    · exact hg.below m c hc
    · exact hg.below m d hd
  · obtain ⟨rfl, ⟨⟩⟩ | ⟨-, hd⟩ := hcases m d hd
    · exact hw
    · exact hg.wired m d hd
  · obtain ⟨rfl, ⟨⟩⟩ | ⟨-, hd⟩ := hcases m d hd
    · exact ((hserve m hpc).2 rfl).trans (hg.serving m c (hserve m hpc).1 hc)
    · exact hg.serving m d (hserve m hpc).1 hd

theorem Regular.same {g' : Gateway} (hg : Regular g) (hconns : g'.conns = g.conns)
    (hnext : g'.nextSessionId = g.nextSessionId)
    (hserve : ∀ m c, g'.pc = .serving m → g.conns m = some c → c.session.alive = true) :
    Regular g' :=
  ⟨hnext ▸ hg.started, hnext ▸ hg.bounded, fun n c hc => hnext ▸ hg.below n c (hconns ▸ hc),
    fun n c hc => hg.wired n c (hconns ▸ hc),
    fun n c hpc hc => hserve n c hpc (hconns ▸ hc)⟩

theorem Regular.remove {g' : Gateway} (hg : Regular g) {n : Nat}
    (hconns : g'.conns = Function.update g.conns n none)
    (hnext : g'.nextSessionId = g.nextSessionId) (hpc : g'.pc = .polling) : Regular g' := by
  have hcases : ∀ m d, g'.conns m = some d → g.conns m = some d := by
    intro m d hd
    obtain ⟨-, ⟨⟩⟩ | ⟨-, hd⟩ := update_cases (hconns ▸ hd)
    exact hd
  refine ⟨hnext ▸ hg.started, hnext ▸ hg.bounded,
    fun m d hd => hnext ▸ hg.below m d (hcases m d hd),
    fun m d hd => hg.wired m d (hcases m d hd), fun m d hm => ?_⟩
  rw [hpc] at hm
  cases hm

theorem Wired.copy {n : Nat} {c c' : Connection} (h : Wired n c)
    (hid : c'.session.id = c.session.id) (hfd : c'.fdOpen = c.fdOpen)
    (halive : c'.session.alive = c.session.alive)
    (hretiring : c'.retiring = true → c.retiring = true) : Wired n c' :=
  ⟨hid.trans h.sessionId, by rw [hfd, halive, h.socket],
    fun hr => halive.trans (h.retires (hretiring hr))⟩

theorem Moved.regular {g' : Gateway} (h : Moved g a g') (hg : Regular g) : Regular g' := by
  cases h with
  | still => exact hg
  | turned hpc hleave hserve =>
    exact hg.same rfl rfl fun m c hm hc => (hg.wired m c hc).socket.symm.trans (hserve m c hm hc)
  | kept hc hk hpc hstay hserve =>
    exact hg.setConn hc rfl rfl
      ((hg.wired _ _ hc).copy hk.sessionId hk.fdOpen hk.alive (hk.retiring.symm.trans ·))
      fun m hm => ⟨(hserve m hm).trans hm, fun _ => hk.alive⟩
  | @accepted c nowNs ha hlt hpc ho inbound hin =>
    refine ⟨Nat.succ_pos _, hlt, fun m d hd => ?_, fun m d hd => ?_, fun m d hm => ?_⟩
    · obtain ⟨rfl, -⟩ | ⟨-, hd⟩ := update_cases hd
      · exact ⟨hg.started, Nat.lt_succ_self _⟩
      · exact (hg.below m d hd).imp_right (·.trans (Nat.lt_succ_self _))
    · obtain ⟨rfl, ⟨⟩⟩ | ⟨-, hd⟩ := update_cases hd
      · exact ⟨ho.sessionId, ho.fdOpen.trans ho.alive.symm, fun hr => by simp [ho.retiring] at hr⟩
      · exact hg.wired m d hd
    · exact absurd (hpc.symm.trans hm) nofun
  | requested ha hpc hc hroom hr hpc' =>
    refine hg.setConn hc rfl rfl
      ((hg.wired _ _ hc).copy hr.sessionId hr.fdOpen hr.alive (hr.retiring.symm.trans ·))
      fun m hm => ⟨?_, fun _ => hr.alive⟩
    obtain h | h := hpc'
    · exact absurd (h.symm.trans hm) nofun
    · exact hpc.trans (h.symm.trans hm)
  | checked => exact hg.same rfl rfl nofun
  | @popped n c e items pc ha hpc hc hitems hpc' =>
    have hd := delivering_deliver (queued c items) e
    refine hg.setConn hc rfl rfl ((hg.wired _ _ hc).copy hd.sessionId hd.fdOpen hd.alive fun hr =>
      ?_) fun m hm => ?_
    · rw [hd.retiring] at hr
      split at hr
      · cases hr
      · exact hr
    · have hm' : pc = .serving m := hm
      rw [hpc'] at hm'
      split at hm' <;> cases hm'
  | @closed n c r hc ha hpc hclosed =>
    cases hclosed with
    | killed =>
      exact hg.setConn hc rfl rfl ⟨(hg.wired n c hc).sessionId, rfl, fun _ => rfl⟩ nofun
    | rearmed hretiring =>
      have hw := hg.wired n c hc
      exact hg.setConn hc rfl rfl ⟨hw.sessionId, (hw.retires hretiring).symm, hw.retires⟩ nofun
    | dropped => exact hg.remove rfl rfl rfl
    | destroyed => exact hg.remove rfl rfl rfl
  | taken => exact hg.same rfl rfl hg.serving
  | pushed ha hout hl hc hroom =>
    exact hg.setConn hc rfl rfl ((hg.wired _ _ hc).copy rfl rfl rfl id) fun m hm =>
      ⟨hm, fun _ => rfl⟩
  | overflowing => exact hg.same rfl rfl hg.serving
  | lost => exact hg.same rfl rfl hg.serving
  | latched hl hc =>
    exact hg.setConn hc rfl rfl ((hg.wired _ _ hc).copy rfl rfl rfl id) fun m hm =>
      ⟨hm, fun _ => rfl⟩
  | unlatched => exact hg.same rfl rfl hg.serving
  | erased => exact hg.same rfl rfl hg.serving
  | housekept => exact hg.same rfl rfl hg.serving

theorem regular_step (cfg : ServerConfig) (hg : Regular g) (a : Action) : Regular (g.step cfg a) :=
  (moved_step cfg hg a).regular hg

inductive Touched (g : Gateway) (a : Action) (m : Nat) (g' : Gateway) : Prop where
  | same (h : g'.conns m = g.conns m)
  | kept {c c' : Connection} (hc : g.conns m = some c) (hc' : g'.conns m = some c') (hk : Kept c c')
  | opened {c : Connection} (hc : g'.conns m = some c) (ho : Opened m c) (hm : m = g.nextSessionId)
      (hnext : g'.nextSessionId = m + 1)
  | requested {c c' : Connection} {cmd : OrderCommand} (hc : g.conns m = some c)
      (hc' : g'.conns m = some c') (ha : requesting g a = some cmd) (hr : Requested c c' cmd)
      (hin : g'.inbound = g.inbound ++ [cmd])
  | popped {c : Connection} {e : OrderEvent} {items : List OrderEvent} (hc : g.conns m = some c)
      (hitems : c.egress.items = e :: items) (hc' : g'.conns m = some ((queued c items).deliver e))
  | killed {c : Connection} (hc : g.conns m = some c) (halive : c.session.alive = true)
      (hc' : g'.conns m = some (killed c))
      (hin : g'.inbound = g.inbound ++ [.cancelAll c.session.id])
  | rearmed {c : Connection} (hc : g.conns m = some c) (hretiring : c.retiring = true)
      (hc' : g'.conns m = some { c with fdOpen := false, closeMode := .none })
  | dropped {c : Connection} (hc : g.conns m = some c) (halive : c.session.alive = true)
      (ha : closing g a = some c) (hfull : ¬g.inbound.length < inboundCapacity)
      (hc' : g'.conns m = none)
  | destroyed {c : Connection} (hc : g.conns m = some c) (hdead : c.session.alive = false)
      (hretiring : c.retiring = false) (hc' : g'.conns m = none) (ha : closing g a = some c)
  | pushed {c : Connection} {e : OrderEvent} {outbox : List (Nat × OrderEvent)} (ha : a = .push)
      (hout : g.outbox = (m, e) :: outbox) (hc : g.conns m = some c)
      (hroom : c.egress.items.length < egressCapacity)
      (hc' : g'.conns m = some (queued c (c.egress.items ++ [e]))) (hout' : g'.outbox = outbox)
  | flagged {c : Connection} (hl : g.latching = some m) (hc : g.conns m = some c)
      (hc' : g'.conns m = some (flagged c))

theorem Moved.touched {g' : Gateway} (h : Moved g a g') (m : Nat) : Touched g a m g' := by
  have hother : ∀ {n o}, g'.conns = Function.update g.conns n o → m ≠ n → Touched g a m g' :=
    fun hconns hm => .same (by rw [hconns, Function.update_of_ne hm])
  cases h with
  | @kept n c c' pc hc hk =>
    by_cases hm : m = n
    · subst hm
      exact .kept hc (Function.update_self ..) hk
    · exact hother rfl hm
  | accepted ha hlt hpc ho =>
    by_cases hm : m = g.nextSessionId
    · subst hm
      exact .opened (Function.update_self ..) ho rfl rfl
    · exact hother rfl hm
  | @requested n c c' cmd pc ha hpc hc hroom hr =>
    by_cases hm : m = n
    · subst hm
      exact .requested hc (Function.update_self ..) ha hr rfl
    · exact hother rfl hm
  | @popped n c e items pc ha hpc hc hitems =>
    by_cases hm : m = n
    · subst hm
      exact .popped hc hitems (Function.update_self ..)
    · exact hother rfl hm
  | @closed n c r hc ha hpc hclosed =>
    by_cases hm : m = n
    · subst hm
      cases hclosed with
      | killed halive => exact .killed hc halive (Function.update_self ..) rfl
      | dropped halive hfull => exact .dropped hc halive ha hfull (Function.update_self ..)
      | rearmed hretiring => exact .rearmed hc hretiring (Function.update_self ..)
      | destroyed hdead hretiring =>
        exact .destroyed hc hdead hretiring (Function.update_self ..) ha
    · exact hother rfl hm
  | @pushed n e outbox c ha hout hl hc hroom =>
    by_cases hm : m = n
    · subst hm
      exact .pushed ha hout hc hroom (Function.update_self ..) rfl
    · exact hother rfl hm
  | @latched n c hl hc =>
    by_cases hm : m = n
    · subst hm
      exact .flagged hl hc (Function.update_self ..)
    · exact hother rfl hm
  | _ => exact .same rfl

inductive Altered (g : Gateway) (a : Action) (m : Nat) (g' : Gateway) (c : Connection) :
    Connection → Prop where
  | kept {c' : Connection} (hk : Kept c c') : Altered g a m g' c c'
  | requested {c' : Connection} {cmd : OrderCommand} (ha : requesting g a = some cmd)
      (hr : Requested c c' cmd) (hin : g'.inbound = g.inbound ++ [cmd]) : Altered g a m g' c c'
  | popped {e : OrderEvent} {items : List OrderEvent} (hitems : c.egress.items = e :: items) :
      Altered g a m g' c ((queued c items).deliver e)
  | killed (halive : c.session.alive = true) : Altered g a m g' c (killed c)
  | rearmed (hretiring : c.retiring = true) :
      Altered g a m g' c { c with fdOpen := false, closeMode := .none }
  | pushed {e : OrderEvent} (hout : g.outbox = (m, e) :: g'.outbox) :
      Altered g a m g' c (queued c (c.egress.items ++ [e]))
  | flagged (hl : g.latching = some m) : Altered g a m g' c (flagged c)

theorem Touched.before {g' : Gateway} {m : Nat} (h : Touched g a m g') {c' : Connection}
    (hc' : g'.conns m = some c') :
    (∃ c, g.conns m = some c ∧ Altered g a m g' c c') ∨
      Opened m c' ∧ m = g.nextSessionId ∧ g'.nextSessionId = m + 1 := by
  -- what the step leaves at the number is the connection at hand
  have hthis : ∀ {c d}, g.conns m = some c → g'.conns m = some d → Altered g a m g' c d →
      ∃ c, g.conns m = some c ∧ Altered g a m g' c c' := by
    intro c d hc hd hal
    obtain rfl := Option.some.inj (hd.symm.trans hc')
    exact ⟨c, hc, hal⟩
  cases h with
  | same h => exact Or.inl ⟨c', h ▸ hc', .kept (.refl c')⟩
  | kept hc hd hk => exact Or.inl (hthis hc hd (.kept hk))
  | opened hd ho hm hnext =>
    obtain rfl := Option.some.inj (hd.symm.trans hc')
    exact Or.inr ⟨ho, hm, hnext⟩
  | requested hc hd ha hr hin => exact Or.inl (hthis hc hd (.requested ha hr hin))
  | popped hc hitems hd => exact Or.inl (hthis hc hd (.popped hitems))
  | killed hc halive hd => exact Or.inl (hthis hc hd (.killed halive))
  | rearmed hc hretiring hd => exact Or.inl (hthis hc hd (.rearmed hretiring))
  | dropped hc halive ha hfull hd => simp [hc'] at hd
  | destroyed hc hdead hretiring hd => simp [hc'] at hd
  | pushed ha hout hc hroom hd hout' => exact Or.inl (hthis hc hd (.pushed (hout' ▸ hout)))
  | flagged hl hc hd => exact Or.inl (hthis hc hd (.flagged hl))

theorem next_moved {g' : Gateway} (h : Moved g a g') :
    g'.nextSessionId = g.nextSessionId ∨
      g'.nextSessionId = g.nextSessionId + 1 ∧ (g'.conns g.nextSessionId).isSome = true := by
  cases h with
  | accepted => exact Or.inr ⟨rfl, by simp [Gateway.setConn]⟩
  | _ => exact Or.inl rfl

theorem opening_accepts {g' : Gateway} (h : Moved g a g')
    (hnext : g'.nextSessionId = g.nextSessionId + 1) :
    ∃ nowNs, a = .accept nowNs := by
  cases h with
  | accepted ha => exact ⟨_, ha⟩
  | _ => simp [Gateway.setConn] at hnext

end OrderMatching.Moves
