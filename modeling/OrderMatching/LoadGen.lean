import Mathlib.Data.List.Chain
import OrderMatching.Clients
import OrderMatching.Lists
import OrderMatching.Loop

namespace OrderMatching.LoadGen

open OrderMatching.Orders OrderMatching.Codec OrderMatching.Protocol OrderMatching.Wire
open OrderMatching.Messages OrderMatching.Framing OrderMatching.Clients OrderMatching.Loop
open OrderMatching.Lists

/-- What a worker is told. With more than a thousand million orders a second the
interval would be zero, and the loop that sends would never end. -/
structure Plan where
  interval : Nat
  startNs : Nat
  warmupEndNs : Nat
  endNs : Nat
  cross : Bool
  paced : 0 < interval

def order (cross : Bool) (coid : Nat) : NewOrder where
  clientOrderId := UInt64.ofNat coid
  priceTicks :=
    if cross then 1000000 + (if coid % 2 = 0 then 100 else -100)
    else 1000000 + (if coid % 2 = 0 then -100 else 100)
  quantity := if cross then UInt32.ofNat (5 + coid % 7 * 3) else 10
  side := if coid % 2 = 0 then .bid else .ask
  orderType := .limit

def frame (cross : Bool) (coid : Nat) : List UInt8 :=
  encodeFrame newOrderType (order cross coid).encode

/-- What happens at one connection: an order goes out whole, or only as far as
the kernel takes it, and frames come in. -/
inductive Event where
  | sent (coid ts : Nat)
  | failed (coid : Nat) (taken : List UInt8)
  | acked (coid ts : Nat)
  | rejected
  | other

structure Client where
  reader : FrameReader
  nextCoid : Nat
  nextSendNs : Nat
  inFlight : List (Nat × Nat)
  trace : List Event

def Client.fresh (p : Plan) : Client := ⟨.empty, 1, p.startNs, [], []⟩

structure Sample where
  latenciesNs : List Int
  sent : Nat
  acked : Nat
  rejected : Nat
  sendFailed : Nat

def Sample.zero : Sample := ⟨[], 0, 0, 0, 0⟩

/-- The clock and the kernel at one connection: when the order of an id is
handed over and how much of it is taken, and when a frame is looked at. -/
structure Net where
  sendTs : Nat → Nat
  taken : Nat → Option Nat
  recvTs : Nat → Nat

section

variable (p : Plan) (net : Net)

def nextSend (t due : Nat) : Nat :=
  if due + p.interval + p.interval * 100 < t then t + p.interval else due + p.interval

def send (t : Nat) (x : Client × Sample) : Client × Sample :=
  let coid := x.1.nextCoid
  let c : Client := { x.1 with nextCoid := coid + 1, nextSendNs := nextSend p t x.1.nextSendNs }
  if net.taken coid = some (frame p.cross coid).length then
    ({ c with
        inFlight := (coid, net.sendTs coid) :: c.inFlight.filter (fun e => e.1 ≠ coid)
        trace := c.trace ++ [.sent coid (net.sendTs coid)] },
      { x.2 with sent := x.2.sent + 1 })
  else
    ({ c with
        trace := c.trace ++ [.failed coid ((frame p.cross coid).take ((net.taken coid).getD 0))] },
      { x.2 with sendFailed := x.2.sendFailed + 1 })

def sendDue (t : Nat) (x : Client × Sample) : Client × Sample :=
  loop (fun x => x.1.nextSendNs ≤ t) (send p net t) (t + 1 - x.1.nextSendNs) x

def onAck (recvTs : Nat) (ack : Ack) (x : Client × Sample) : Client × Sample :=
  let coid := ack.clientOrderId.toNat
  let c : Client := { x.1 with trace := x.1.trace ++ [.acked coid recvTs] }
  match c.inFlight.find? (fun e => e.1 = coid) with
  | none => (c, x.2)
  | some (_, sendTs) =>
    ({ c with inFlight := c.inFlight.filter (fun e => e.1 ≠ coid) },
      { x.2 with
        -- the warm-up is left out by the time of sending
        latenciesNs :=
          if sendTs ≥ p.warmupEndNs then x.2.latenciesNs ++ [(recvTs : Int) - sendTs]
          else x.2.latenciesNs
        acked := x.2.acked + 1 })

def onFrame (x : Client × Sample) (f : WireFrame) : Client × Sample :=
  if f.header.type = ackType then
    match Ack.decode f.payload with
    | none => ({ x.1 with trace := x.1.trace ++ [.other] }, x.2)
    | some ack => onAck p (net.recvTs x.1.trace.length) ack x
  else if f.header.type = rejectType then
    ({ x.1 with trace := x.1.trace ++ [.rejected] }, { x.2 with rejected := x.2.rejected + 1 })
  else ({ x.1 with trace := x.1.trace ++ [.other] }, x.2)

def onBytes (x : Client × Sample) (chunk : List UInt8) : Client × Sample :=
  let (frames, reader) := x.1.reader.feed chunk
  frames.foldl (onFrame p net) ({ x.1 with reader := reader }, x.2)

/-- The calls of `recv` until one has nothing or does not fill the buffer. -/
def receive : List (List UInt8) → Client × Sample → Client × Sample
  | [], x => x
  | chunk :: chunks, x =>
    if chunk = [] then x
    else if chunk.length < 64 * 1024 then onBytes p net x chunk
    else receive chunks (onBytes p net x chunk)

end

def each (f : Nat → Client × Sample → Client × Sample) :
    Nat → List Client → Sample → List Client × Sample
  | _, [], out => ([], out)
  | i, c :: cs, out =>
    let x := f i (c, out)
    let y := each f (i + 1) cs x.2
    (x.1 :: y.1, y.2)

/-- A pass of the loop: the time it starts at, and the bytes that each of its
clients can read in it. -/
structure Pass where
  now : Nat
  arrives : Nat → List (List UInt8)

structure Worker where
  clients : List Client
  out : Sample

def Worker.initial (p : Plan) (n : Nat) : Worker := ⟨List.replicate n (.fresh p), .zero⟩

section

variable (p : Plan) (net : Nat → Net)

def Worker.pass (w : Worker) (a : Pass) : Worker :=
  let x := each (fun i => sendDue p (net i) a.now) 0 w.clients w.out
  let y := each (fun i => receive p (net i) (a.arrives i)) 0 x.1 x.2
  ⟨y.1, y.2⟩

def Worker.run : Worker → List Pass → Worker
  | w, [] => w
  | w, a :: as => if a.now ≥ p.endNs then w else (w.pass p net a).run as

end

theorem receive_invariant {p : Plan} {net : Net} {I : Client × Sample → Prop}
    (hreader : ∀ (x : Client × Sample) (r : FrameReader), I x → I ({ x.1 with reader := r }, x.2))
    (hframe : ∀ x f, I x → I (onFrame p net x f)) (chunks : List (List UInt8)) (x : Client × Sample)
    (h : I x) :
    I (receive p net chunks x) := by
  induction chunks generalizing x with
  | nil => exact h
  | cons chunk chunks ih =>
    have hchunk : I (onBytes p net x chunk) :=
      List.foldlRecOn _ _ (hreader x _ h) (fun y hy f _ => hframe y f hy)
    rw [receive]
    split
    · exact h
    · split
      · exact hchunk
      · exact ih _ hchunk

/-- `main` puts the samples of its workers together. -/
def Sample.add (a b : Sample) : Sample :=
  ⟨a.latenciesNs ++ b.latenciesNs, a.sent + b.sent, a.acked + b.acked, a.rejected + b.rejected,
    a.sendFailed + b.sendFailed⟩

/-- A worker's share of the connections, with all that is outside of it. -/
structure Job where
  clients : Nat
  net : Nat → Net
  passes : List Pass

def Job.worker (p : Plan) (j : Job) : Worker := (Worker.initial p j.clients).run p j.net j.passes

def main (p : Plan) (jobs : List Job) : Sample :=
  jobs.foldl (fun all j => all.add (j.worker p).out) .zero

def sends (trace : List Event) : List (Nat × Nat) :=
  trace.filterMap fun
    | .sent coid ts => some (coid, ts)
    | _ => none

def attempts (trace : List Event) : List Nat :=
  trace.filterMap fun
    | .sent coid _ => some coid
    | .failed coid _ => some coid
    | _ => none

def Event.isRejected : Event → Bool
  | .rejected => true
  | _ => false

def Event.isFailed : Event → Bool
  | .failed _ _ => true
  | _ => false

structure Match where
  coid : Nat
  sentAt : Nat
  ackedAt : Nat

/-- Every order that went out is in flight or has its match, which is the first
ack after it. -/
structure Tallies (c : Client) (matched : List Match) : Prop where
  all : (c.inFlight ++ matched.map fun m => (m.coid, m.sentAt)).Perm (sends c.trace)
  ids : attempts c.trace = List.range' 1 (c.nextCoid - 1)
  started : 1 ≤ c.nextCoid
  waiting : ∀ e ∈ c.inFlight, ∃ pre post, c.trace = pre ++ .sent e.1 e.2 :: post ∧
    ∀ r, .acked e.1 r ∉ post
  first : ∀ m ∈ matched, ∃ pre mid post,
    c.trace = pre ++ .sent m.coid m.sentAt :: (mid ++ .acked m.coid m.ackedAt :: post) ∧
      ∀ r, .acked m.coid r ∉ mid

def share (p : Plan) (x : Client × List Match) : Sample where
  latenciesNs :=
    (x.2.filter fun m => p.warmupEndNs ≤ m.sentAt).map fun m => (m.ackedAt : Int) - m.sentAt
  sent := (sends x.1.trace).length
  acked := x.2.length
  rejected := x.1.trace.countP Event.isRejected
  sendFailed := x.1.trace.countP Event.isFailed

def total (p : Plan) (xs : List (Client × List Match)) : Sample :=
  xs.foldr (fun x all => (share p x).add all) .zero

structure Same (a b : Sample) : Prop where
  latencies : a.latenciesNs.Perm b.latenciesNs
  sent : a.sent = b.sent
  acked : a.acked = b.acked
  rejected : a.rejected = b.rejected
  sendFailed : a.sendFailed = b.sendFailed

theorem Same.refl (a : Sample) : Same a a := ⟨.refl _, rfl, rfl, rfl, rfl⟩

theorem Same.trans {a b c : Sample} (h : Same a b) (h' : Same b c) : Same a c :=
  ⟨h.latencies.trans h'.latencies, h.sent.trans h'.sent, h.acked.trans h'.acked,
    h.rejected.trans h'.rejected, h.sendFailed.trans h'.sendFailed⟩

theorem Same.add_right {a b : Sample} (h : Same a b) (c : Sample) : Same (a.add c) (b.add c) :=
  ⟨h.latencies.append_right _, congrArg (· + c.sent) h.sent, congrArg (· + c.acked) h.acked,
    congrArg (· + c.rejected) h.rejected, congrArg (· + c.sendFailed) h.sendFailed⟩

theorem same_add_right_comm (a b c : Sample) : Same ((a.add b).add c) ((a.add c).add b) where
  latencies := by
    simp only [Sample.add, List.append_assoc]
    exact List.perm_append_comm.append_left _
  sent := Nat.add_right_comm ..
  acked := Nat.add_right_comm ..
  rejected := Nat.add_right_comm ..
  sendFailed := Nat.add_right_comm ..

theorem add_assoc (a b c : Sample) : (a.add b).add c = a.add (b.add c) := by
  simp only [Sample.add, List.append_assoc, Nat.add_assoc]

theorem add_zero (a : Sample) : a.add .zero = a := by
  simp only [Sample.add, Sample.zero, List.append_nil, Nat.add_zero]

theorem zero_add (a : Sample) : Sample.zero.add a = a := by
  simp only [Sample.add, Sample.zero, List.nil_append, Nat.zero_add]

section Tally

variable {p : Plan} {c : Client} {matched : List Match}

theorem sends_append (tr : List Event) (e : Event) : sends (tr ++ [e]) = sends tr ++ sends [e] :=
  List.filterMap_append

theorem attempts_append (tr : List Event) (e : Event) :
    attempts (tr ++ [e]) = attempts tr ++ attempts [e] :=
  List.filterMap_append

theorem sends_sublist (tr : List Event) : ((sends tr).map Prod.fst).Sublist (attempts tr) := by
  induction tr with
  | nil => exact .slnil
  | cons e tr ih =>
    cases e with
    | sent k ts => exact ih.cons_cons k
    | failed k taken => exact ih.cons k
    | _ => exact ih

theorem Tallies.nodup (h : Tallies c matched) : ((sends c.trace).map Prod.fst).Nodup := by
  apply (sends_sublist c.trace).nodup
  rw [h.ids]
  exact List.nodup_range'

theorem Tallies.below (h : Tallies c matched) {e : Nat × Nat} (he : e ∈ sends c.trace) :
    e.1 < c.nextCoid := by
  have hmem : e.1 ∈ attempts c.trace := (sends_sublist c.trace).subset (List.mem_map_of_mem he)
  have hstarted := h.started
  rw [h.ids, List.mem_range'_1] at hmem
  omega

theorem Tallies.sent_of_inFlight (h : Tallies c matched) {e : Nat × Nat} (he : e ∈ c.inFlight) :
    e ∈ sends c.trace :=
  h.all.mem_iff.mp (List.mem_append_left _ he)

theorem Tallies.not_inFlight (h : Tallies c matched) :
    c.inFlight.filter (fun e => e.1 ≠ c.nextCoid) = c.inFlight := by
  apply List.filter_eq_self.mpr
  intro e he
  have hlt := h.below (h.sent_of_inFlight he)
  simp only [ne_eq, decide_eq_true_eq]
  omega

theorem Tallies.waiting_append (h : Tallies c matched) {ev : Event} {e : Nat × Nat}
    (he : e ∈ c.inFlight) (hev : ∀ r, ev ≠ .acked e.1 r) :
    ∃ pre post, c.trace ++ [ev] = pre ++ .sent e.1 e.2 :: post ∧ ∀ r, .acked e.1 r ∉ post := by
  obtain ⟨pre, post, htrace, hpost⟩ := h.waiting e he
  refine ⟨pre, post ++ [ev], by rw [htrace, List.append_assoc, List.cons_append], fun r hr => ?_⟩
  obtain hr | hr := List.mem_append.mp hr
  · exact hpost r hr
  · exact hev r (List.mem_singleton.mp hr).symm

theorem Tallies.first_append (h : Tallies c matched) (ev : Event) {m : Match} (hm : m ∈ matched) :
    ∃ pre mid post,
      c.trace ++ [ev] = pre ++ .sent m.coid m.sentAt :: (mid ++ .acked m.coid m.ackedAt :: post) ∧
      ∀ r, .acked m.coid r ∉ mid := by
  obtain ⟨pre, mid, post, htrace, hmid⟩ := h.first m hm
  exact ⟨pre, mid, post ++ [ev], by simp [htrace], hmid⟩

theorem Tallies.ids_next (h : Tallies c matched) {ev : Event} (hev : attempts [ev] = [c.nextCoid]) :
    attempts (c.trace ++ [ev]) = List.range' 1 (c.nextCoid + 1 - 1) := by
  obtain ⟨k, hk⟩ := Nat.exists_eq_add_of_le' h.started
  rw [attempts_append, h.ids, hev, Nat.add_sub_cancel, hk, Nat.add_sub_cancel, List.range'_1_concat,
    Nat.add_comm 1 k]

theorem Tallies.send (h : Tallies c matched) (ts next : Nat) :
    Tallies
      { c with
        nextCoid := c.nextCoid + 1
        nextSendNs := next
        inFlight := (c.nextCoid, ts) :: c.inFlight.filter (fun e => e.1 ≠ c.nextCoid)
        trace := c.trace ++ [.sent c.nextCoid ts] } matched where
  all := by
    rw [h.not_inFlight, sends_append]
    exact (h.all.cons _).trans (List.perm_append_singleton _ _).symm
  ids := h.ids_next rfl
  started := Nat.le_add_left 1 _
  waiting := by
    rw [h.not_inFlight]
    intro e he
    obtain rfl | he := List.mem_cons.mp he
    · exact ⟨c.trace, [], rfl, by simp⟩
    · exact h.waiting_append he (by simp)
  first m hm := h.first_append _ hm

theorem Tallies.fail (h : Tallies c matched) (taken : List UInt8) (next : Nat) :
    Tallies
      { c with
        nextCoid := c.nextCoid + 1
        nextSendNs := next
        trace := c.trace ++ [.failed c.nextCoid taken] } matched where
  all := by
    rw [sends_append]
    exact h.all.trans (List.Perm.of_eq (List.append_nil _).symm)
  ids := h.ids_next rfl
  started := Nat.le_add_left 1 _
  waiting e he := h.waiting_append he (by simp)
  first m hm := h.first_append _ hm

theorem Tallies.hear (h : Tallies c matched) {ev : Event} (hsends : sends [ev] = [])
    (hattempts : attempts [ev] = []) (hev : ∀ e ∈ c.inFlight, ∀ r, ev ≠ .acked e.1 r) :
    Tallies { c with trace := c.trace ++ [ev] } matched where
  all := by
    rw [sends_append, hsends, List.append_nil]
    exact h.all
  ids := by rw [attempts_append, hattempts, List.append_nil, h.ids]
  started := h.started
  waiting e he := h.waiting_append he (hev e he)
  first m hm := h.first_append _ hm

theorem Tallies.ack (h : Tallies c matched) {coid sendTs : Nat} (he : (coid, sendTs) ∈ c.inFlight)
    (recvTs : Nat) :
    Tallies { c with
        inFlight := c.inFlight.filter (fun e => e.1 ≠ coid)
        trace := c.trace ++ [.acked coid recvTs] } (matched ++ [⟨coid, sendTs, recvTs⟩]) where
  all := by
    have hnodup : (c.inFlight.map Prod.fst).Nodup := by
      have hall := (h.all.map Prod.fst).nodup_iff.mpr h.nodup
      rw [List.map_append] at hall
      exact hall.of_append_left
    have hsame : sends (c.trace ++ [.acked coid recvTs]) = sends c.trace := by
      rw [sends_append]
      exact List.append_nil _
    rw [hsame, List.map_append, ← List.append_assoc]
    calc
      List.Perm _ ((coid, sendTs) :: (c.inFlight.filter (fun e => e.1 ≠ coid) ++ matched.map _)) :=
        List.perm_append_singleton _ _
      List.Perm _ (c.inFlight ++ matched.map _) :=
        ((perm_cons_filter hnodup he).append_right _).symm
      List.Perm _ _ := h.all
  ids := by
    rw [attempts_append, h.ids]
    exact List.append_nil _
  started := h.started
  waiting e he := by
    obtain ⟨he, hne⟩ := List.mem_filter.mp he
    exact h.waiting_append he fun r hr => of_decide_eq_true hne (Event.acked.inj hr).1.symm
  first m hm := by
    obtain hm | hm := List.mem_append.mp hm
    · exact h.first_append _ hm
    · obtain rfl := List.mem_singleton.mp hm
      obtain ⟨pre, post, htrace, hpost⟩ := h.waiting _ he
      exact ⟨pre, post, [], by simp [htrace], hpost⟩

end Tally

section Steps

variable (p : Plan)

def Event.share : Event → Sample
  | .sent _ _ => { Sample.zero with sent := 1 }
  | .failed _ _ => { Sample.zero with sendFailed := 1 }
  | .rejected => { Sample.zero with rejected := 1 }
  | _ => .zero

def Match.share (m : Match) : Sample where
  latenciesNs := if m.sentAt ≥ p.warmupEndNs then [(m.ackedAt : Int) - m.sentAt] else []
  sent := 0
  acked := 1
  rejected := 0
  sendFailed := 0

variable {p}

theorem share_event {c c' : Client} (matched : List Match) {ev : Event}
    (h : c'.trace = c.trace ++ [ev]) :
    share p (c', matched) = (share p (c, matched)).add ev.share := by
  simp only [share, h, sends_append, List.length_append, List.countP_append]
  cases ev <;> simp [Sample.add, Sample.zero, Event.share, sends, Event.isRejected, Event.isFailed]

theorem share_match (c : Client) (matched : List Match) (m : Match) :
    share p (c, matched ++ [m]) = (share p (c, matched)).add (m.share p) := by
  by_cases hm : p.warmupEndNs ≤ m.sentAt <;> simp [share, Sample.add, Match.share, hm]

variable (p) in
def Accounted (rest : Sample) (x : Client × Sample) : Prop :=
  ∃ matched, Tallies x.1 matched ∧ Same x.2 (rest.add (share p (x.1, matched)))

variable {rest : Sample} {x : Client × Sample}

theorem same_event {c c' : Client} {out : Sample} {matched : List Match} {ev : Event}
    (h : Same out (rest.add (share p (c, matched)))) (hc : c'.trace = c.trace ++ [ev]) :
    Same (out.add ev.share) (rest.add (share p (c', matched))) := by
  rw [share_event matched hc, ← add_assoc]
  exact h.add_right ev.share

theorem accounted_send (net : Net) (t : Nat) (h : Accounted p rest x) :
    Accounted p rest (send p net t x) := by
  obtain ⟨matched, htallies, hsame⟩ := h
  unfold send
  dsimp only
  split
  · refine ⟨matched, htallies.send _ _, ?_⟩
    have hadd : ∀ k ts, { x.2 with sent := x.2.sent + 1 } = x.2.add (Event.sent k ts).share := by
      simp [Sample.add, Event.share, Sample.zero]
    rw [hadd]
    exact same_event hsame rfl
  · refine ⟨matched, htallies.fail _ _, ?_⟩
    have hadd : ∀ k taken,
        { x.2 with sendFailed := x.2.sendFailed + 1 } = x.2.add (Event.failed k taken).share := by
      simp [Sample.add, Event.share, Sample.zero]
    rw [hadd]
    exact same_event hsame rfl

theorem accounted_hear {ev : Event} (h : Accounted p rest x) (hsends : sends [ev] = [])
    (hattempts : attempts [ev] = []) (hev : ∀ e ∈ x.1.inFlight, ∀ r, ev ≠ .acked e.1 r) :
    Accounted p rest ({ x.1 with trace := x.1.trace ++ [ev] }, x.2.add ev.share) := by
  obtain ⟨matched, htallies, hsame⟩ := h
  exact ⟨matched, htallies.hear hsends hattempts hev, same_event hsame rfl⟩

theorem accounted_onAck (recvTs : Nat) (ack : Ack) (h : Accounted p rest x) :
    Accounted p rest (onAck p recvTs ack x) := by
  unfold onAck
  dsimp only
  split
  · rename_i hnone
    have hev : ∀ e ∈ x.1.inFlight, ∀ r,
        Event.acked ack.clientOrderId.toNat recvTs ≠ .acked e.1 r := by
      intro e he r heq
      have hne := List.find?_eq_none.mp hnone e he
      exact hne (decide_eq_true (Event.acked.inj heq).1.symm)
    have hheard := accounted_hear h rfl rfl hev
    rwa [show x.2.add (Event.acked ack.clientOrderId.toNat recvTs).share =
      x.2 from add_zero x.2] at hheard
  · rename_i k sendTs hsome
    obtain ⟨matched, htallies, hsame⟩ := h
    obtain rfl : k = ack.clientOrderId.toNat := by simpa using List.find?_some hsome
    refine ⟨_, htallies.ack (List.mem_of_find?_eq_some hsome) recvTs, ?_⟩
    have hheard : ∀ c : Client, c.trace = x.1.trace ++ [.acked ack.clientOrderId.toNat recvTs] →
        Same x.2 (rest.add (share p (c, matched))) := by
      intro c hc
      have hevent := same_event hsame hc
      rwa [show x.2.add (Event.acked ack.clientOrderId.toNat recvTs).share =
        x.2 from add_zero x.2] at hevent
    rw [share_match, ← add_assoc]
    refine Same.trans ?_
      ((hheard _ rfl).add_right (Match.share p ⟨ack.clientOrderId.toNat, sendTs, recvTs⟩))
    by_cases hwarm : sendTs ≥ p.warmupEndNs <;> simp [Sample.add, Match.share, hwarm, Same.refl]

theorem accounted_onFrame (net : Net) (h : Accounted p rest x) (f : WireFrame) :
    Accounted p rest (onFrame p net x f) := by
  have hother : Accounted p rest ({ x.1 with trace := x.1.trace ++ [.other] }, x.2) := by
    rw [← add_zero x.2]
    exact accounted_hear h rfl rfl (by simp)
  unfold onFrame
  split
  · split
    · exact hother
    · exact accounted_onAck _ _ h
  · split
    · have hadd : { x.2 with rejected := x.2.rejected + 1 } = x.2.add Event.rejected.share := by
        simp [Sample.add, Event.share, Sample.zero]
      rw [hadd]
      exact accounted_hear h rfl rfl (by simp)
    · exact hother

theorem accounted_receive (net : Net) (chunks : List (List UInt8)) (h : Accounted p rest x) :
    Accounted p rest (receive p net chunks x) := by
  refine receive_invariant (I := Accounted p rest) ?_
    (fun y f hy => accounted_onFrame net hy f) chunks x h
  rintro y reader ⟨matched, htallies, hsame⟩
  exact ⟨matched,
    ⟨htallies.all, htallies.ids, htallies.started, htallies.waiting, htallies.first⟩, hsame⟩

theorem accounted_sendDue (net : Net) (t : Nat) (h : Accounted p rest x) :
    Accounted p rest (sendDue p net t x) :=
  loop_invariant (fun _ hx _ => accounted_send net t hx) _ x h

theorem accounted_each {f : Nat → Client × Sample → Client × Sample}
    (hf : ∀ i rest x, Accounted p rest x → Accounted p rest (f i x)) (i : Nat)
    {xs : List (Client × List Match)} (hxs : ∀ x ∈ xs, Tallies x.1 x.2) {out : Sample}
    (hout : Same out (rest.add (total p xs))) :
    ∃ ys : List (Client × List Match), ys.map Prod.fst = (each f i (xs.map Prod.fst) out).1 ∧
      (∀ y ∈ ys, Tallies y.1 y.2) ∧
        Same (each f i (xs.map Prod.fst) out).2 (rest.add (total p ys)) := by
  induction xs generalizing i rest out with
  | nil => exact ⟨[], rfl, hxs, hout⟩
  | cons x xs ih =>
    have hfirst : Accounted p (rest.add (total p xs)) (x.1, out) := by
      refine ⟨x.2, hxs x (by simp), hout.trans ?_⟩
      rw [show rest.add (total p (x :: xs)) =
        (rest.add (share p x)).add (total p xs) from (add_assoc ..).symm]
      exact same_add_right_comm ..
    obtain ⟨matched, htallies, hsame⟩ := hf i _ _ hfirst
    obtain ⟨ys, hmap, hys, hrest⟩ :=
      ih (i + 1) (fun y hy => hxs y (by simp [hy])) (hsame.trans (same_add_right_comm ..))
    refine ⟨((f i (x.1, out)).1, matched) :: ys, ?_, ?_, ?_⟩
    · rw [List.map_cons, hmap]
      rfl
    · intro y hy
      obtain rfl | hy := List.mem_cons.mp hy
      · exact htallies
      · exact hys y hy
    · rw [add_assoc] at hrest
      exact hrest

end Steps

/-- The figures are those of the clients: every order that went out counts once
as sent, and once as acked when its first ack has come. -/
def Reports (p : Plan) (clients : List Client) (out : Sample) : Prop :=
  ∃ xs : List (Client × List Match), xs.map Prod.fst = clients ∧ (∀ x ∈ xs, Tallies x.1 x.2) ∧
    Same out (total p xs)

section Reports

variable {p : Plan}

theorem Reports.each {clients : List Client} {out : Sample} (h : Reports p clients out)
    {f : Nat → Client × Sample → Client × Sample}
    (hf : ∀ i rest x, Accounted p rest x → Accounted p rest (f i x)) :
    Reports p (each f 0 clients out).1 (each f 0 clients out).2 := by
  obtain ⟨xs, rfl, hxs, hsame⟩ := h
  rw [← zero_add (total p xs)] at hsame
  obtain ⟨ys, hys, htallies, hsame⟩ := accounted_each hf 0 hxs hsame
  rw [zero_add] at hsame
  exact ⟨ys, hys, htallies, hsame⟩

theorem Reports.run (net : Nat → Net) {w : Worker} (h : Reports p w.clients w.out)
    (as : List Pass) :
    Reports p (w.run p net as).clients (w.run p net as).out := by
  induction as generalizing w with
  | nil => exact h
  | cons a as ih =>
    rw [Worker.run]
    split
    · exact h
    · have hsent := h.each fun i _ _ hx => accounted_sendDue (net i) a.now hx
      exact ih (hsent.each fun i _ _ hx => accounted_receive (net i) (a.arrives i) hx)

theorem tallies_fresh (p : Plan) : Tallies (.fresh p) [] where
  all := .refl _
  ids := rfl
  started := Nat.le_refl 1
  waiting := by simp [Client.fresh]
  first := by simp

theorem total_append (xs ys : List (Client × List Match)) :
    total p (xs ++ ys) = (total p xs).add (total p ys) := by
  induction xs with
  | nil => exact (zero_add _).symm
  | cons x xs ih => exact (congrArg (share p x).add ih).trans (add_assoc ..).symm

theorem Reports.append {cs ds : List Client} {a b : Sample} (h : Reports p cs a)
    (h' : Reports p ds b) :
    Reports p (cs ++ ds) (a.add b) := by
  obtain ⟨xs, rfl, hxs, hsame⟩ := h
  obtain ⟨ys, rfl, hys, hsame'⟩ := h'
  refine ⟨xs ++ ys, List.map_append, fun x hx => (List.mem_append.mp hx).elim (hxs x) (hys x), ?_⟩
  rw [total_append]
  exact ⟨hsame.latencies.append hsame'.latencies, congrArg₂ _ hsame.sent hsame'.sent,
    congrArg₂ _ hsame.acked hsame'.acked, congrArg₂ _ hsame.rejected hsame'.rejected,
    congrArg₂ _ hsame.sendFailed hsame'.sendFailed⟩

theorem reports_initial (n : Nat) :
    Reports p (Worker.initial p n).clients (Worker.initial p n).out := by
  induction n with
  | zero => exact ⟨[], rfl, by simp, .refl _⟩
  | succ n ih =>
    have hfresh : Reports p [.fresh p] .zero :=
      ⟨[(.fresh p, [])], rfl, by simp [tallies_fresh], .refl _⟩
    exact hfresh.append ih

theorem Reports.sent_eq {cs : List Client} {out : Sample} (h : Reports p cs out) :
    out.sent = out.acked + (cs.map fun c => c.inFlight.length).sum := by
  obtain ⟨xs, rfl, hxs, hsame⟩ := h
  rw [hsame.sent, hsame.acked]
  clear hsame
  induction xs with
  | nil => rfl
  | cons x xs ih =>
    have hrest := ih fun y hy => hxs y (by simp [hy])
    have hlen := (hxs x (by simp)).all.length_eq
    rw [List.length_append, List.length_map] at hlen
    simp only [total, List.foldr_cons, Sample.add, share, List.map_cons, List.sum_cons] at hrest ⊢
    omega

end Reports

/-- The figures that are printed, for any number of workers, whatever the clock,
the kernel and the gateway do. -/
theorem figures_true (p : Plan) (jobs : List Job) :
    Reports p (jobs.flatMap fun j => (j.worker p).clients) (main p jobs) ∧
      (main p jobs).sent =
        (main p jobs).acked +
          ((jobs.flatMap fun j => (j.worker p).clients).map fun c => c.inFlight.length).sum := by
  have hmain : ∀ {cs : List Client} {all : Sample}, Reports p cs all →
      Reports p (cs ++ jobs.flatMap fun j => (j.worker p).clients)
        (jobs.foldl (fun all j => all.add (j.worker p).out) all) := by
    induction jobs with
    | nil => simp
    | cons j jobs ih =>
      intro cs all hall
      have hworker := ih (hall.append ((reports_initial j.clients).run j.net j.passes))
      rwa [List.append_assoc] at hworker
  have hreports : Reports p (jobs.flatMap fun j => (j.worker p).clients) (main p jobs) :=
    hmain ⟨[], rfl, by simp, .refl _⟩
  exact ⟨hreports, hreports.sent_eq⟩

section Pacing

variable {p : Plan} (net : Net) {t : Nat}

theorem nextSend_le (t due : Nat) : due + p.interval ≤ nextSend p t due := by
  unfold nextSend
  split <;> omega

theorem nextSend_near {due : Nat} (h : due ≤ t) : nextSend p t due ≤ t + p.interval := by
  unfold nextSend
  split <;> omega

theorem nextSend_far {due : Nat} (h : due + p.interval * 101 < t) :
    nextSend p t due = t + p.interval :=
  if_pos (by omega)

theorem nextSend_close {due : Nat} (h : t ≤ due + p.interval * 101) :
    nextSend p t due = due + p.interval :=
  if_neg (by omega)

structure Advances (p : Plan) (t : Nat) (c c' : Client) (k : Nat) : Prop where
  count : c'.nextCoid = c.nextCoid + k
  slow : c.nextSendNs + k * p.interval ≤ c'.nextSendNs
  near : 0 < k → c'.nextSendNs ≤ t + p.interval
  stay : k = 0 → c'.nextSendNs = c.nextSendNs
  close : t ≤ c.nextSendNs + p.interval * 101 → c'.nextSendNs = c.nextSendNs + k * p.interval
  far : c.nextSendNs + p.interval * 101 < t → k = 0 ∨ k = 1 ∧ t < c'.nextSendNs

theorem send_timing (x : Client × Sample) : (send p net t x).1.nextCoid = x.1.nextCoid + 1 ∧
    (send p net t x).1.nextSendNs = nextSend p t x.1.nextSendNs := by
  unfold send
  dsimp only
  split <;> exact ⟨rfl, rfl⟩

theorem Advances.send {c : Client} {x : Client × Sample} {k : Nat} (h : Advances p t c x.1 k)
    (hdue : x.1.nextSendNs ≤ t) : Advances p t c (send p net t x).1 (k + 1) := by
  obtain ⟨hcoid, hnext⟩ := send_timing net x
  have hslow := h.slow
  have hstep := nextSend_le (p := p) t x.1.nextSendNs
  have hmul : (k + 1) * p.interval = k * p.interval + p.interval := Nat.succ_mul ..
  refine ⟨by rw [hcoid, h.count, Nat.add_assoc], ?_, fun _ => ?_, by simp, fun hclose => ?_,
    fun hfar => ?_⟩
  · rw [hnext, hmul]
    omega
  · rw [hnext]
    exact nextSend_near hdue
  · rw [hnext, nextSend_close (by omega), h.close hclose, hmul]
    omega
  · obtain rfl | ⟨-, hlate⟩ := h.far hfar
    · refine .inr ⟨rfl, ?_⟩
      rw [hnext, h.stay rfl, nextSend_far hfar]
      exact Nat.lt_add_of_pos_right p.paced
    · omega

theorem advances_sendDue (x : Client × Sample) :
    t < (sendDue p net t x).1.nextSendNs ∧ ∃ k, Advances p t x.1 (sendDue p net t x).1 k := by
  constructor
  · have hless : ∀ y : Client × Sample, decide (y.1.nextSendNs ≤ t) = true →
        t + 1 - (send p net t y).1.nextSendNs < t + 1 - y.1.nextSendNs := by
      intro y hy
      have hdue := of_decide_eq_true hy
      have hstep := nextSend_le (p := p) t y.1.nextSendNs
      have hpaced := p.paced
      rw [(send_timing net y).2]
      omega
    have hends := loop_ends (fun y : Client × Sample => t + 1 - y.1.nextSendNs) hless
      (Nat.le_refl (t + 1 - x.1.nextSendNs))
    exact Nat.not_le.mp (of_decide_eq_false hends)
  · have hrefl : Advances p t x.1 x.1 0 :=
      ⟨rfl, by omega, by omega, fun _ => rfl, by simp, fun _ => .inl rfl⟩
    refine loop_invariant (I := fun y => ∃ k, Advances p t x.1 y.1 k) ?_ _ x ⟨0, hrefl⟩
    intro y hy hdue
    obtain ⟨k, hk⟩ := hy
    exact ⟨k + 1, hk.send net (of_decide_eq_true hdue)⟩

theorem Advances.burst {c c' : Client} {k : Nat} (h : Advances p t c c' k) : k ≤ 102 := by
  by_cases hclose : t ≤ c.nextSendNs + p.interval * 101
  · by_contra hmany
    have hnear := h.near (by omega)
    rw [h.close hclose] at hnear
    have hmul : 103 * p.interval ≤ k * p.interval := Nat.mul_le_mul_right _ (by omega)
    have hpaced := p.paced
    omega
  · obtain rfl | ⟨rfl, -⟩ := h.far (Nat.not_le.mp hclose) <;> decide

theorem onAck_timing (ts : Nat) (ack : Ack) (x : Client × Sample) :
    (onAck p ts ack x).1.nextCoid = x.1.nextCoid ∧
      (onAck p ts ack x).1.nextSendNs = x.1.nextSendNs := by
  unfold onAck
  dsimp only
  split <;> exact ⟨rfl, rfl⟩

theorem onFrame_timing (x : Client × Sample) (f : WireFrame) :
    (onFrame p net x f).1.nextCoid = x.1.nextCoid ∧
      (onFrame p net x f).1.nextSendNs = x.1.nextSendNs := by
  unfold onFrame
  split
  · split
    · exact ⟨rfl, rfl⟩
    · exact onAck_timing _ _ x
  · split <;> exact ⟨rfl, rfl⟩

theorem receive_timing (chunks : List (List UInt8)) (x : Client × Sample) :
    (receive p net chunks x).1.nextCoid = x.1.nextCoid ∧
      (receive p net chunks x).1.nextSendNs = x.1.nextSendNs := by
  apply receive_invariant
    (I := fun y => y.1.nextCoid = x.1.nextCoid ∧ y.1.nextSendNs = x.1.nextSendNs)
  · exact fun _ _ hy => hy
  · intro y f hy
    obtain ⟨hcoid, hnext⟩ := onFrame_timing (p := p) net y f
    exact ⟨hcoid.trans hy.1, hnext.trans hy.2⟩
  · exact ⟨rfl, rfl⟩

end Pacing

section Schedule

variable {p : Plan} {net : Nat → Net} {w : Worker}

theorem each_getElem? {f : Nat → Client × Sample → Client × Sample} (i : Nat) {cs : List Client}
    (out : Sample) {j : Nat} {c' : Client} (h : (each f i cs out).1[j]? = some c') :
    ∃ c o, cs[j]? = some c ∧ c' = (f (i + j) (c, o)).1 := by
  induction cs generalizing i out j with
  | nil => cases h
  | cons c cs ih =>
    cases j with
    | zero => exact ⟨c, out, rfl, (Option.some.inj h).symm⟩
    | succ j =>
      obtain ⟨d, o, hd, hc'⟩ := ih (i + 1) _ h
      exact ⟨d, o, hd, by rw [hc', Nat.add_right_comm, Nat.add_assoc]⟩

theorem advances_pass (a : Pass) {j : Nat} {c' : Client}
    (h : (w.pass p net a).clients[j]? = some c') :
    ∃ c, w.clients[j]? = some c ∧ a.now < c'.nextSendNs ∧ ∃ k, Advances p a.now c c' k := by
  obtain ⟨d, o, hd, hc'⟩ := each_getElem? 0 _ h
  obtain ⟨c, o', hc, rfl⟩ := each_getElem? 0 _ hd
  obtain ⟨hcoid, hnext⟩ := receive_timing (p := p) (net (0 + j)) (a.arrives (0 + j))
    ((sendDue p (net (0 + j)) a.now (c, o')).1, o)
  obtain ⟨hdue, k, hk⟩ := advances_sendDue (p := p) (net (0 + j)) (t := a.now) (c, o')
  subst hc'
  refine ⟨c, hc, hnext ▸ hdue, k, ?_⟩
  exact ⟨hcoid.trans hk.count, hnext ▸ hk.slow, hnext ▸ hk.near, hnext ▸ hk.stay, hnext ▸ hk.close,
    hnext ▸ hk.far⟩

structure Paced (p : Plan) (t : Nat) (c : Client) : Prop where
  slow : p.startNs + c.nextCoid * p.interval ≤ c.nextSendNs + p.interval
  near : c.nextSendNs ≤ t + p.interval

theorem Paced.advance {s t k : Nat} {c c' : Client} (h : Paced p s c) (hst : s ≤ t)
    (hk : Advances p t c c' k) :
    Paced p t c' where
  slow := by
    have hslow := h.slow
    have hstep := hk.slow
    rw [hk.count, Nat.add_mul]
    omega
  near := by
    cases k with
    | zero =>
      rw [hk.stay rfl]
      exact h.near.trans (Nat.add_le_add_right hst _)
    | succ k => exact hk.near (Nat.succ_pos k)

structure OnTime (p : Plan) (t : Nat) (c : Client) : Prop where
  due : t ≤ c.nextSendNs
  exact : c.nextSendNs + p.interval = p.startNs + c.nextCoid * p.interval

theorem OnTime.advance {s t k : Nat} {c c' : Client} (h : OnTime p s c)
    (hgap : t ≤ s + p.interval * 101) (hk : Advances p t c c' k) (hdue : t < c'.nextSendNs) :
    OnTime p t c' where
  due := hdue.le
  exact := by
    have hold := h.exact
    have hnext := hk.close (hgap.trans (Nat.add_le_add_right h.due _))
    rw [hk.count, hnext, Nat.add_mul]
    omega

theorem run_concat {as : List Pass} {a : Pass} (has : ∀ b ∈ as ++ [a], b.now < p.endNs) :
    w.run p net (as ++ [a]) = (w.run p net as).pass p net a := by
  induction as generalizing w with
  | nil => exact if_neg (Nat.not_le.mpr (has a (by simp)))
  | cons b as ih =>
    have hb : ¬b.now ≥ p.endNs := Nat.not_le.mpr (has b (by simp))
    rw [List.cons_append, Worker.run, Worker.run, if_neg hb, if_neg hb]
    exact ih fun d hd => has d (List.mem_cons_of_mem b hd)

def times (p : Plan) (as : List Pass) : List Nat := p.startNs :: as.map Pass.now

def lastTime (p : Plan) (as : List Pass) : Nat := (times p as).getLast (List.cons_ne_nil _ _)

theorem times_concat (as : List Pass) (a : Pass) : times p (as ++ [a]) = times p as ++ [a.now] := by
  rw [times, times, List.map_append]
  rfl

theorem isChain_times {R : Nat → Nat → Prop} {as : List Pass} {a : Pass}
    (h : (times p (as ++ [a])).IsChain R) :
    (times p as).IsChain R ∧ R (lastTime p as) a.now := by
  rw [times_concat, List.isChain_append] at h
  obtain ⟨hbefore, -, hlast⟩ := h
  exact ⟨hbefore, hlast _ (List.getLast_mem_getLast? _) _ rfl⟩

theorem paced_run {n : Nat} {as : List Pass} (hmono : (times p as).IsChain (· ≤ ·))
    (hend : ∀ b ∈ as, b.now < p.endNs) {j : Nat} {c : Client}
    (hc : ((Worker.initial p n).run p net as).clients[j]? = some c) :
    Paced p (lastTime p as) c ∧
      ((times p as).IsChain (fun s t => t ≤ s + p.interval * 101) →
        OnTime p (lastTime p as) c) := by
  induction as using List.reverseRecOn generalizing c with
  | nil =>
    obtain rfl : c = .fresh p := List.eq_of_mem_replicate (List.mem_of_getElem? hc)
    refine ⟨⟨?_, Nat.le_add_right ..⟩, fun _ => ⟨Nat.le_refl _, ?_⟩⟩
    · simp [Client.fresh]
    · simp [Client.fresh]
  | append_singleton as a ih =>
    rw [run_concat hend] at hc
    obtain ⟨d, hd, hdue, k, hk⟩ := advances_pass a hc
    obtain ⟨hbefore, hle⟩ := isChain_times hmono
    obtain ⟨hpaced, hontime⟩ := ih hbefore (fun b hb => hend b (by simp [hb])) hd
    have hlast : lastTime p (as ++ [a]) = a.now := by
      simp only [lastTime, times_concat, List.getLast_concat]
    rw [hlast]
    refine ⟨hpaced.advance hle hk, fun hgaps => ?_⟩
    obtain ⟨hsmall, hgap⟩ := isChain_times hgaps
    exact (hontime hsmall).advance hgap hk hdue

end Schedule

theorem Reports.client {p : Plan} {cs : List Client} {out : Sample} (h : Reports p cs out)
    {c : Client} (hc : c ∈ cs) :
    ∃ matched, Tallies c matched := by
  obtain ⟨xs, rfl, hxs, -⟩ := h
  obtain ⟨x, hx, rfl⟩ := List.mem_map.mp hc
  exact ⟨x.2, hxs x hx⟩

theorem tallies_run (p : Plan) (n : Nat) (net : Nat → Net) (as : List Pass) {c : Client}
    (hc : c ∈ ((Worker.initial p n).run p net as).clients) : ∃ matched, Tallies c matched :=
  ((reports_initial n).run net as).client hc

theorem Tallies.length_attempts {c : Client} {matched : List Match} (h : Tallies c matched) :
    (attempts c.trace).length + 1 = c.nextCoid := by
  rw [h.ids, List.length_range', Nat.sub_add_cancel h.started]

/-- A client keeps to its schedule whatever comes back: it never tries more
orders than there are due, never more than a hundred and two in one pass, and
exactly those that are due while no pass comes more than a hundred and one
intervals after the one before. -/
theorem open_loop (p : Plan) (n : Nat) (net : Nat → Net) (as : List Pass) (a : Pass)
    (hmono : (times p (as ++ [a])).IsChain (· ≤ ·)) (hend : a.now < p.endNs) {j : Nat}
    {c c' : Client} (hc : ((Worker.initial p n).run p net as).clients[j]? = some c)
    (hc' : ((Worker.initial p n).run p net (as ++ [a])).clients[j]? = some c') :
    (attempts c'.trace).length ≤ (a.now - p.startNs) / p.interval + 1 ∧
      (attempts c'.trace).length ≤ (attempts c.trace).length + 102 ∧
      ((times p (as ++ [a])).IsChain (fun s t => t ≤ s + p.interval * 101) →
        (attempts c'.trace).length = (a.now - p.startNs) / p.interval + 1) := by
  have hpair := List.isChain_iff_pairwise.mp hmono
  rw [times_concat, List.pairwise_append] at hpair
  obtain ⟨-, -, hall⟩ := hpair
  have hearlier : ∀ b ∈ as ++ [a], b.now < p.endNs := by
    intro b hb
    obtain hb | hb := List.mem_append.mp hb
    · have hle := hall b.now (List.mem_cons_of_mem _ (List.mem_map_of_mem hb)) a.now (by simp)
      omega
    · rwa [List.mem_singleton.mp hb]
  have hstart : p.startNs ≤ a.now := hall p.startNs List.mem_cons_self a.now (by simp)
  obtain ⟨hpaced, hontime⟩ := paced_run hmono hearlier hc'
  have hlast : lastTime p (as ++ [a]) = a.now := by
    simp only [lastTime, times_concat, List.getLast_concat]
  rw [hlast] at hpaced hontime
  obtain ⟨_, htallies⟩ := tallies_run p n net as (List.mem_of_getElem? hc)
  obtain ⟨_, htallies'⟩ := tallies_run p n net (as ++ [a]) (List.mem_of_getElem? hc')
  have hlen := htallies.length_attempts
  have hlen' := htallies'.length_attempts
  rw [run_concat hearlier] at hc'
  obtain ⟨d, hd, hdue, k, hk⟩ := advances_pass a hc'
  obtain rfl : c = d := Option.some.inj (hc.symm.trans hd)
  have hcount := hk.count
  have hburst := hk.burst
  have hmul : c'.nextCoid * p.interval = (attempts c'.trace).length * p.interval + p.interval := by
    rw [← hlen', Nat.succ_mul]
  have hslow := hpaced.slow
  have hnear := hpaced.near
  have hpos := p.paced
  refine ⟨?_, by omega, fun hgaps => ?_⟩
  · rw [← Nat.add_div_right _ hpos, Nat.le_div_iff_mul_le hpos]
    omega
  · have hexact := (hontime hgaps).exact
    rw [← Nat.add_div_right _ hpos]
    refine (Nat.div_eq_of_lt_le ?_ ?_).symm
    · omega
    · rw [Nat.succ_mul]
      omega

def tenths : Plan := ⟨10, 0, 0, 1000, false, by decide⟩

def stuck : Nat → Net := fun _ => ⟨id, fun _ => none, id⟩

theorem open_loop_stuck :
    ∃ c, ((Worker.initial tenths 1).run tenths stuck [⟨35, fun _ => []⟩]).clients[0]? = some c ∧
      (attempts c.trace).length = 4 := by
  have hmono : (times tenths [⟨35, fun _ => []⟩]).IsChain (· ≤ ·) := by simp [times, tenths]
  have hgaps : (times tenths [⟨35, fun _ => []⟩]).IsChain
      (fun s t => t ≤ s + tenths.interval * 101) := by
    simp [times, tenths]
  have hend : (⟨35, fun _ => []⟩ : Pass).now < tenths.endNs := by decide
  have hfresh : ((Worker.initial tenths 1).run tenths stuck []).clients[0]? =
      some (.fresh tenths) := rfl
  obtain ⟨c, hc⟩ :
      ∃ c, ((Worker.initial tenths 1).run tenths stuck [⟨35, fun _ => []⟩]).clients[0]? = some c :=
        ⟨_, rfl⟩
  obtain ⟨-, -, hexact⟩ := open_loop tenths 1 stuck [] ⟨35, fun _ => []⟩ hmono hend hfresh hc
  exact ⟨c, hc, hexact hgaps⟩

def Event.bytes (cross : Bool) : Event → List UInt8
  | .sent coid _ => frame cross coid
  | .failed _ taken => taken
  | _ => []

theorem read_order (m : NewOrder) : (request newOrderType m.encode).read = m.frame :=
  read_newOrder ..

theorem length_order (m : NewOrder) : m.encode.length ≤ 65536 := by simp [NewOrder.encode]

theorem bytes_sends (cross : Bool) {tr : List Event}
    (h : ∀ k taken, .failed k taken ∈ tr → taken = []) :
    tr.flatMap (Event.bytes cross) =
      ((sends tr).map fun e => (newOrderType, (order cross e.1).encode)).flatMap fun m =>
        encodeFrame m.1 m.2 := by
  induction tr with
  | nil => rfl
  | cons e tr ih =>
    have hrest := ih fun k taken hk => h k taken (List.mem_cons_of_mem e hk)
    rw [List.flatMap_cons, hrest]
    cases e with
    | failed k taken =>
      obtain rfl : taken = [] := h k taken List.mem_cons_self
      rfl
    | _ => rfl

/-- As long as no order is cut short, the gateway reads just the orders that
went out, whatever portions they come in, and no id comes twice. -/
theorem orders_understood (p : Plan) (n : Nat) (net : Nat → Net) (as : List Pass) {c : Client}
    (hc : c ∈ ((Worker.initial p n).run p net as).clients)
    (hwhole : ∀ k taken, .failed k taken ∈ c.trace → taken = []) {chunks : List (List UInt8)}
    (hchunks : chunks.flatten = c.trace.flatMap (Event.bytes p.cross)) :
    (FrameReader.empty.feedAll chunks).1.map WireFrame.read =
      (sends c.trace).map (fun e => (order p.cross e.1).frame) ∧
      (∀ before, before <+: chunks → (FrameReader.empty.feedAll before).2.closes = false) ∧
      ((sends c.trace).map Prod.fst).Pairwise (· < ·) := by
  obtain ⟨matched, htallies⟩ := tallies_run p n net as hc
  rw [bytes_sends p.cross hwhole] at hchunks
  have hsmall : ∀ m ∈ (sends c.trace).map fun e => (newOrderType, (order p.cross e.1).encode),
      m.2.length ≤ 65536 := by
    intro m hm
    obtain ⟨e, -, rfl⟩ := List.mem_map.mp hm
    exact length_order _
  obtain ⟨hframes, hopen⟩ := feedAll_requests hsmall hchunks
  refine ⟨?_, hopen, ?_⟩
  · have hread : ∀ e : Nat × Nat,
        (request newOrderType (order p.cross e.1).encode).read = (order p.cross e.1).frame :=
      fun e => read_order (order p.cross e.1)
    simp only [hframes, List.map_map, Function.comp_def, hread]
  · apply List.Pairwise.sublist (sends_sublist c.trace)
    rw [htallies.ids]
    exact List.pairwise_lt_range'

def oneOut : Nat → Net := fun _ => ⟨id, fun coid => if coid = 1 then some 30 else none, id⟩

theorem orders_understood_first :
    ∃ c ∈ ((Worker.initial tenths 1).run tenths oneOut [⟨35, fun _ => []⟩]).clients,
      (FrameReader.empty.feedAll [c.trace.flatMap (Event.bytes false)]).1.map WireFrame.read =
        [(order false 1).frame] := by
  obtain ⟨c, hc, htrace⟩ : ∃ c,
    ((Worker.initial tenths 1).run tenths oneOut [⟨35, fun _ => []⟩]).clients = [c] ∧
      c.trace = [.sent 1 1, .failed 2 [], .failed 3 [], .failed 4 []] := ⟨_, rfl, rfl⟩
  have hmem : c ∈ ((Worker.initial tenths 1).run tenths oneOut [⟨35, fun _ => []⟩]).clients := by
    simp [hc]
  have hwhole : ∀ k taken, .failed k taken ∈ c.trace → taken = [] := by
    intro k taken hk
    simp only [htrace, List.mem_cons, reduceCtorEq, Event.failed.injEq, List.not_mem_nil, or_false,
      false_or] at hk
    obtain ⟨-, h⟩ | ⟨-, h⟩ | ⟨-, h⟩ := hk <;> exact h
  obtain ⟨hread, -, -⟩ :=
    orders_understood tenths 1 oneOut [⟨35, fun _ => []⟩] hmem hwhole (List.flatten_singleton)
  refine ⟨c, hmem, hread.trans ?_⟩
  rw [htrace]
  rfl

end OrderMatching.LoadGen
