import OrderMatching.Flooding

namespace OrderMatching.Broadcast

open OrderMatching.Orders OrderMatching.Book OrderMatching.Commands OrderMatching.Exchange
open OrderMatching.MatchingThread OrderMatching.Views OrderMatching.LedgerStep OrderMatching.LogFold
open OrderMatching.Registry OrderMatching.Acceptance OrderMatching.Bookkeeping OrderMatching.Answers
open OrderMatching.Modify OrderMatching.Posting OrderMatching.Network OrderMatching.Threads
open OrderMatching.Moves OrderMatching.Sessions OrderMatching.Lists

/-- The part of a thread that market data is about: the queues, who has
subscribed, and what was pushed. -/
structure Board where
  md : UInt64 → Option (Option Nat)
  subscribers : List (UInt64 × UInt8)
  bookSeq : Nat
  mdPushed : List (Nat × BookSnapshot)

def board (t : Thread) : Board := ⟨t.md, t.subscribers, t.bookSeq, t.mdPushed⟩

def view (b : OrderBook) (seq : Nat) (depth : UInt8) : BookSnapshot :=
  ⟨seq, (levelsTicks b .bid maxBookDepth).take depth.toNat,
    (levelsTicks b .ask maxBookDepth).take depth.toNat⟩

def share (md : UInt64 → Option (Option Nat)) (b : OrderBook) (seq : Nat) (sub : UInt64 × UInt8) :
    Option (Nat × BookSnapshot) := (md sub.1).join.map fun q => (q, view b seq sub.2)

def Board.push (k : Board) (ps : List (Nat × BookSnapshot)) : Board :=
  { k with mdPushed := k.mdPushed ++ ps }

theorem push_push (k : Board) (ps qs : List (Nat × BookSnapshot)) :
    (k.push ps).push qs = k.push (ps ++ qs) := by
  simp only [Board.push, List.append_assoc]

def Board.publish (k : Board) (b : OrderBook) : Board :=
  if k.subscribers.isEmpty then k
  else { k with bookSeq := k.bookSeq + 1 }.push
    (k.subscribers.filterMap (share k.md b (k.bookSeq + 1)))

def whole (b : OrderBook) (seq : Nat) : BookSnapshot :=
  ⟨seq, levelsTicks b .bid maxBookDepth, levelsTicks b .ask maxBookDepth⟩

section

variable {env : Env} (hroom : ∀ k, env.mdRoom k = true) (b : OrderBook) (seq : Nat)

include hroom

theorem board_publishTo (t : Thread) (sub : UInt64 × UInt8) :
    board (t.publishTo env (whole b seq) sub) = (board t).push (share t.md b seq sub).toList := by
  cases hq : (t.md sub.1).join with
  | none => simp [Thread.publishTo, share, Board.push, board, hq]
  | some q => simp [Thread.publishTo, share, Board.push, board, hq, hroom, view, whole]

theorem board_publishAll (subs : List (UInt64 × UInt8)) (t : Thread) :
    board (subs.foldl (Thread.publishTo env (whole b seq)) t) =
      (board t).push (subs.filterMap (share t.md b seq)) := by
  induction subs generalizing t with
  | nil => simp [Board.push]
  | cons sub subs ih =>
    have hone := board_publishTo hroom b seq t sub
    have hmd : (t.publishTo env (whole b seq) sub).md = t.md := congrArg Board.md hone
    rw [List.foldl_cons, ih, hone, hmd, push_push, List.filterMap_cons]
    cases share t.md b seq sub <;> rfl

theorem board_publishBook {t : Thread} (hserving : t.replaying = false) :
    board (t.publishBook env) = (board t).publish t.ledger.book := by
  have hlive : ¬t.replaying = true := by simp [hserving]
  by_cases hsubs : t.subscribers.isEmpty = true
  · have hempty : (board t).subscribers.isEmpty = true := hsubs
    rw [Thread.publishBook, if_neg hlive, if_pos hsubs, Board.publish, if_pos hempty]
  · have hsome : ¬(board t).subscribers.isEmpty = true := hsubs
    rw [Thread.publishBook, if_neg hlive, if_neg hsubs, Board.publish, if_neg hsome]
    exact board_publishAll hroom t.ledger.book (t.bookSeq + 1) t.subscribers { t with
      bookSeq := t.bookSeq + 1 }

end

theorem ignoresEvents_board : IgnoresEvents board := fun _ _ _ _ _ _ _ => rfl

def subscribersAfter (t : Thread) (c : OrderCommand) : List (UInt64 × UInt8) :=
  match c.type with
  | .subscribe => setSubscriber t.subscribers c.session (subscribedDepth c.quantity)
  | .cancelAllForSession => t.subscribers.filter (fun sub => sub.1 ≠ c.session)
  | _ => t.subscribers

def rostered (t : Thread) (c : OrderCommand) : Board :=
  { board t with md := mdAfter t c, subscribers := subscribersAfter t c }

/-- What a command does to market data. Only the last of these leaves the
subscribers with an old picture of the book. -/
inductive Aired (t : Thread) (c : OrderCommand) (t' : Thread) : Prop where
  | silent (hboard : board t' = board t) (hbook : t'.ledger.book = t.ledger.book)
  | opened (hc : c.type = .sessionOpened) (hboard : board t' = { board t with md := mdAfter t c })
      (hbook : t'.ledger.book = t.ledger.book)
  | published (hc : c.type ≠ .sessionOpened)
      (hboard : board t' = (rostered t c).publish t'.ledger.book)
  | withheld (hc : c.type = .modify) (hrefused : ¬ReplacementPasses t.risk t.ledger c)
      (hboard : board t' = board t)

theorem replaying_emit (env : Env) (t : Thread) (eg : Option Nat) (e : OrderEvent) :
    (t.emit env eg e).replaying = t.replaying := congrArg Core.replaying (core_emit env t eg e)

theorem replaying_publishTrades (env : Env) (t : Thread) (start : Nat) :
    (t.publishTrades env start).replaying = t.replaying :=
  congrArg Core.replaying (core_publishTrades env t start)

section

variable {env : Env} (hroom : ∀ k, env.mdRoom k = true)

include hroom

theorem board_applyNewOrder {t : Thread} (hserving : t.replaying = false) {c : OrderCommand}
    (hrisk : t.ledger.checkRisk t.risk c = .none) :
    board (t.applyNewOrder env c) = (board t).publish (t.applyNewOrder env c).ledger.book := by
  have hacc : ((t.ledger.recordOrder c).process (t.ledger.incoming c)).1.accepted = true :=
    process_accepts t.ledger c
  let t₁ : Thread := { t with ledger := ((t.ledger.recordOrder c).process (t.ledger.incoming c)).2 }
  let t₂ :=
    t₁.emit env (t.egressFor c.session)
      (.ack c.session c.clientOrderId (t.ledger.incoming c).id false)
  let t₃ := t₂.publishTrades env (t.ledger.recordOrder c).engine.tradeLog.length
  have hboard : board t₃ = board t :=
    (ignoresEvents_board.publishTrades env _ _).trans (ignoresEvents_board.emit env t₁ _ _)
  have hlive : t₃.replaying = false :=
    (replaying_publishTrades env _ _).trans ((replaying_emit env t₁ _ _).trans hserving)
  have hpub : board (t₃.publishBook env) = (board t).publish t₃.ledger.book := by
    rw [board_publishBook hroom hlive, hboard]
  have happly : t.applyNewOrder env c = if (t.ledger.incoming c).kind = .market then
      { t₃.publishBook env with
        ledger := (t₃.publishBook env).ledger.forgetOrder (t.ledger.incoming c).id }
      else t₃.publishBook env := by
    simp only [Thread.applyNewOrder, hrisk, ne_eq, not_true_eq_false, if_false, hacc,
      if_true, t₃, t₂, t₁]
  rw [happly]
  split
  · refine hpub.trans ?_
    rw [Ledger.book, Ledger.book, engine_forgetOrder, ledger_publishBook]
  · rw [hpub, ledger_publishBook]

omit hroom in
theorem board_refused {t : Thread} {c : OrderCommand}
    (hrisk : t.ledger.checkRisk t.risk c ≠ .none) :
    board (t.applyNewOrder env c) = board t := by
  simp only [Thread.applyNewOrder, ne_eq, hrisk, not_false_eq_true, if_true]
  exact ignoresEvents_board.emit env t _ _

omit hroom in
theorem rostered_of_order {t : Thread} {c : OrderCommand}
    (hc : c.type = .newOrder ∨ c.type = .cancel ∨ c.type = .modify) : rostered t c = board t := by
  obtain hc | hc | hc := hc <;> simp [rostered, mdAfter, subscribersAfter, hc, board]

theorem aired_newOrder {t : Thread} (hserving : t.replaying = false) {c : OrderCommand}
    (hc : c.type = .newOrder) :
    Aired t c (t.applyNewOrder env c) := by
  by_cases hrisk : t.ledger.checkRisk t.risk c = .none
  · refine .published (by simp [hc]) ?_
    rw [board_applyNewOrder hroom hserving hrisk, rostered_of_order (Or.inl hc)]
  · refine .silent (board_refused hrisk) ?_
    have hledger := congrArg Core.ledger (core_applyNewOrder env t c)
    rw [stepNewOrder_rejects hrisk] at hledger
    exact congrArg Ledger.book hledger

theorem aired_cancel {t : Thread} (hserving : t.replaying = false) {live : Nat → Option Entry}
    (h : Sound t.ledger live) {c : OrderCommand} (hc : c.type = .cancel) :
    Aired t c (t.applyCancel env c) := by
  by_cases hx : t.ledger.findOrder c.session c.clientOrderId = 0
  · have happly : t.applyCancel env c =
        t.emit env (t.egressFor c.session) (.reject c.session c.clientOrderId .unknownOrder) := by
      simp only [Thread.applyCancel, hx, if_true]
    rw [happly]
    exact .silent (ignoresEvents_board.emit env t _ _)
      (congrArg Ledger.book (ledger_emit env t _ _))
  · let x := t.ledger.findOrder c.session c.clientOrderId
    let t₁ : Thread := { t with ledger := withdrawn t.ledger x }
    let t₂ := t₁.emit env (t.egressFor c.session) (.ack c.session c.clientOrderId x true)
    have happly : t.applyCancel env c = t₂.publishBook env := by
      simp only [Thread.applyCancel, hx, if_false, (sound_found h hx).2, if_true, t₂, t₁,
        x, withdrawn]
    have hboard : board t₂ = board t := ignoresEvents_board.emit env t₁ _ _
    have hlive : t₂.replaying = false := (replaying_emit env t₁ _ _).trans hserving
    refine .published (by simp [hc]) ?_
    rw [happly, board_publishBook hroom hlive, ledger_publishBook, hboard,
      rostered_of_order (Or.inr (Or.inl hc))]

theorem aired_modify {t : Thread} (hserving : t.replaying = false) {live : Nat → Option Entry}
    (h : Sound t.ledger live) {c : OrderCommand} (hc : c.type = .modify) :
    Aired t c (t.applyModify env c) := by
  by_cases hx : t.ledger.findOrder c.session c.clientOrderId = 0
  · have happly : t.applyModify env c =
        t.emit env (t.egressFor c.session) (.reject c.session c.clientOrderId .unknownOrder) := by
      simp only [Thread.applyModify, hx, if_true]
    rw [happly]
    exact .silent (ignoresEvents_board.emit env t _ _)
      (congrArg Ledger.book (ledger_emit env t _ _))
  · let x := t.ledger.findOrder c.session c.clientOrderId
    obtain ⟨⟨e, he, -⟩, hacc⟩ := sound_found h hx
    have hside : t.ledger.sideOf x = some e.side := by
      rw [h.registers.side, he]
      rfl
    have hsame : Function.update t.ledger.sideOf x (some e.side) = t.ledger.sideOf := by
      rw [← hside, Function.update_eq_self]
    let t₁ : Thread := { t with ledger := withdrawn t.ledger x }
    have happly : t.applyModify env c = t₁.applyNewOrder env (replacement c e.side) := by
      simp only [Thread.applyModify, hx, if_false]
      rw [hside, Option.getD_some, hsame]
      simp only [hacc, if_true]
      rfl
    rw [happly]
    by_cases hrisk : (withdrawn t.ledger x).checkRisk t.risk (replacement c e.side) = .none
    · refine .published (by simp [hc]) ?_
      rw [rostered_of_order (Or.inr (Or.inr hc))]
      exact board_applyNewOrder (t := t₁) hroom hserving hrisk
    · refine .withheld hc ?_ (board_refused (t := t₁) hrisk)
      simp only [ReplacementPasses, hx, false_or]
      rw [hside, Option.getD_some]
      exact hrisk

theorem aired_cancelAll {t : Thread} (hserving : t.replaying = false) {c : OrderCommand}
    (hc : c.type = .cancelAllForSession) : Aired t c (t.applyCancelAll env c) := by
  let t₂ := t.pushTombstone env c.session
  let t₃ : Thread := { retire t₂ c.session with ledger := stepCancelAll t.ledger c }
  have hboard : board t₂ = board t := ignoresEvents_board.pushTombstone env t c.session
  have hlive : t₃.replaying = false :=
    (congrArg Core.replaying (core_pushTombstone env t c.session)).trans hserving
  have hroster : board t₃ = rostered t c := by
    have hmd : t₂.md = t.md := congrArg Board.md hboard
    have hsubs : t₂.subscribers = t.subscribers := congrArg Board.subscribers hboard
    have hseq : t₂.bookSeq = t.bookSeq := congrArg Board.bookSeq hboard
    have hpushed : t₂.mdPushed = t.mdPushed := congrArg Board.mdPushed hboard
    simp only [rostered, mdAfter, subscribersAfter, hc, board, t₃, retire, hmd, hsubs,
      hseq, hpushed]
  refine .published (by simp [hc]) ?_
  rw [applyCancelAll_eq, board_publishBook hroom hlive, ledger_publishBook, hroster]

theorem aired_dispatch {t : Thread} (hserving : t.replaying = false) {live : Nat → Option Entry}
    (h : Sound t.ledger live) (c : OrderCommand) : Aired t c (t.dispatch env c) := by
  unfold Thread.dispatch
  cases hc : c.type with
  | sessionOpened =>
    refine .opened hc ?_ rfl
    simp only [board, mdAfter, hc]
  | subscribe =>
    let t₁ : Thread :=
      { t with subscribers := setSubscriber t.subscribers c.session (subscribedDepth c.quantity) }
    have hlive :=
      (replaying_emit env t₁ (t₁.egressFor c.session) (.ack c.session 0 0 false)).trans hserving
    refine .published (by simp [hc]) ?_
    dsimp only
    rw [board_publishBook hroom hlive, ignoresEvents_board.emit, ledger_publishBook]
    simp only [rostered, mdAfter, subscribersAfter, hc, board, t₁]
  | newOrder => exact aired_newOrder hroom hserving hc
  | cancel => exact aired_cancel hroom hserving h hc
  | modify => exact aired_modify hroom hserving h hc
  | cancelAllForSession => exact aired_cancelAll hroom hserving hc

theorem aired_applyPopped {t : Thread} (hserving : t.replaying = false) {live : Nat → Option Entry}
    (h : Sound t.ledger live) (c : OrderCommand) : Aired t c (t.applyPopped env c) := by
  cases hadm : admits env t c with
  | false =>
    obtain ⟨w, n, k, happly⟩ := apply_refused hadm
    rw [Thread.applyPopped, happly]
    exact .silent rfl rfl
  | true =>
    obtain ⟨w, n, cs, happly⟩ := apply_admitted hadm
    rw [Thread.applyPopped, happly]
    have haired :=
      aired_dispatch (t := { t with wal := w, asked := n, appended := cs }) hroom hserving h c
    cases haired with
    | silent hboard hbook => exact .silent hboard hbook
    | opened hc hboard hbook => exact .opened hc hboard hbook
    | published hc hboard => exact .published hc hboard
    | withheld hc hrefused hboard => exact .withheld hc hrefused hboard

end

theorem mem_setSubscriber {subs : List (UInt64 × UInt8)} {s : UInt64} {depth : UInt8}
    {sub : UInt64 × UInt8} :
    sub ∈ setSubscriber subs s depth ↔ sub = (s, depth) ∨ sub ∈ subs ∧ sub.1 ≠ s := by
  unfold setSubscriber
  split
  · rename_i hany
    obtain ⟨old, hold, hs⟩ := List.any_eq_true.mp hany
    rw [List.mem_map]
    constructor
    · rintro ⟨d, hd, rfl⟩
      by_cases hds : d.1 = s
      · exact Or.inl (if_pos hds)
      · rw [if_neg hds]
        exact Or.inr ⟨hd, hds⟩
    · rintro (rfl | ⟨hd, hds⟩)
      · exact ⟨old, hold, if_pos (of_decide_eq_true hs)⟩
      · exact ⟨sub, hd, if_neg hds⟩
  · rename_i hany
    have hnone : ∀ d ∈ subs, d.1 ≠ s :=
      fun d hd hs => hany (List.any_eq_true.mpr ⟨d, hd, decide_eq_true hs⟩)
    rw [List.mem_append, List.mem_singleton, or_comm]
    exact or_congr_right ⟨fun hd => ⟨hd, hnone sub hd⟩, And.left⟩

theorem nodup_setSubscriber {subs : List (UInt64 × UInt8)} (h : (subs.map Prod.fst).Nodup)
    (s : UInt64) (depth : UInt8) : ((setSubscriber subs s depth).map Prod.fst).Nodup := by
  unfold setSubscriber
  split
  · have hkeys : (subs.map fun sub => if sub.1 = s then (s, depth) else sub).map Prod.fst =
        subs.map Prod.fst := by
      rw [List.map_map]
      apply List.map_congr_left
      intro d _
      change (if d.1 = s then (s, depth) else d).1 = d.1
      split
      · rename_i hd
        exact hd.symm
      · rfl
    rw [hkeys]
    exact h
  · rename_i hany
    rw [List.map_append, List.nodup_append]
    refine ⟨h, List.nodup_singleton s, ?_⟩
    rintro k hk _ hs rfl
    obtain ⟨d, hd, rfl⟩ := List.mem_map.mp hk
    exact hany (List.any_eq_true.mpr ⟨d, hd, decide_eq_true (List.mem_singleton.mp hs)⟩)

def askedDepth (cs : List OrderCommand) (s : UInt64) : Option UInt32 :=
  (cs.filter fun c => c.type = .subscribe ∧ c.session = s).getLast?.map OrderCommand.quantity

theorem askedDepth_subscribe (cs : List OrderCommand) {c : OrderCommand}
    (hc : c.type = .subscribe) :
    askedDepth (cs ++ [c]) c.session = some c.quantity := by
  rw [askedDepth, List.filter_append, List.filter_cons_of_pos (by simp [hc]), List.filter_nil,
    List.getLast?_concat, Option.map_some]

theorem askedDepth_other (cs : List OrderCommand) {c : OrderCommand} {s : UInt64}
    (hc : ¬(c.type = .subscribe ∧ c.session = s)) : askedDepth (cs ++ [c]) s = askedDepth cs s := by
  rw [askedDepth, List.filter_append, List.filter_cons_of_neg (by simpa using hc), List.filter_nil,
    List.append_nil, askedDepth]

def lastShown (t : Thread) (q : Nat) : Option BookSnapshot :=
  (t.mdPushed.filter fun p => p.1 = q).getLast?.map Prod.snd

/-- Every subscriber with a queue was last shown the book as it is. -/
def Current (t : Thread) : Prop :=
  ∀ sub ∈ t.subscribers, ∀ q, (t.md sub.1).join = some q →
    ∃ seq, lastShown t q = some (view t.ledger.book seq sub.2)

theorem ignoresEvents_subscribers : IgnoresEvents Thread.subscribers := fun _ _ _ _ _ _ _ => rfl

theorem ignoresBook_subscribers : IgnoresBook Thread.subscribers := fun _ _ _ _ _ => rfl

theorem subscribers_dispatch (env : Env) (t : Thread) (c : OrderCommand) :
    (t.dispatch env c).subscribers = subscribersAfter t c := by
  unfold Thread.dispatch subscribersAfter
  cases c.type with
  | sessionOpened => rfl
  | subscribe =>
    exact (ignoresBook_subscribers.publishBook env _).trans
      (ignoresEvents_subscribers.emit env _ _ _)
  | newOrder => exact ignoresEvents_subscribers.applyNewOrder env ignoresBook_subscribers t c
  | cancel => exact ignoresEvents_subscribers.applyCancel env ignoresBook_subscribers t c
  | modify => exact ignoresEvents_subscribers.applyModify env ignoresBook_subscribers t c
  | cancelAllForSession =>
    refine (ignoresBook_subscribers.publishBook env _).trans ?_
    exact congrArg (List.filter _) (ignoresEvents_subscribers.pushTombstone env _ c.session)

theorem Booted.unsubscribed {t : Thread} (h : Booted t) : t.subscribers = [] := by
  induction h with
  | fresh => rfl
  | restored => rfl
  | @recovered t env cs hcs _ ih =>
    have hfold : ∀ (cs : List OrderCommand) (t : Thread), (∀ c ∈ cs, isLoggable c.type = true) →
        t.replaying = true →
        t.subscribers = [] → (cs.foldl (Thread.apply env) t).subscribers = [] := by
      intro cs
      induction cs with
      | nil => exact fun _ _ _ h => h
      | cons c cs ih =>
        intro t hcs hr h
        have hadm : admits env t c = true := by simp [admits, hr]
        obtain ⟨w, n, ds, happly⟩ := apply_admitted hadm
        refine ih _ (fun d hd => hcs d (List.mem_cons_of_mem _ hd))
          ((core_admitted hadm).2.2.2.trans hr) ?_
        rw [happly, subscribers_dispatch, subscribersAfter]
        have hlog := hcs c List.mem_cons_self
        cases htype : c.type with
        | subscribe => simp [htype, isLoggable] at hlog
        | cancelAllForSession => simp [h]
        | _ => exact h
    exact hfold cs { t with replaying := true } hcs rfl ih

theorem board_housekeep (env : Env) (t : Thread) :
    board ((t.pollSync env).maybeSnapshot env) = board t := by
  have hsnap : ∀ t : Thread, board (t.maybeSnapshot env) = board t := by
    intro t
    unfold Thread.maybeSnapshot
    split
    · rfl
    · split
      · rfl
      · dsimp only
        split
        · split <;> rfl
        · split <;> rfl
  exact hsnap _

theorem subscribers_applyPopped (env : Env) (t : Thread) (c : OrderCommand) :
    (t.applyPopped env c).subscribers =
      if admits env t c then subscribersAfter t c else t.subscribers := by
  cases hadm : admits env t c with
  | false =>
    obtain ⟨w, n, k, happly⟩ := apply_refused hadm
    rw [Thread.applyPopped, happly]
    rfl
  | true =>
    obtain ⟨w, n, cs, happly⟩ := apply_admitted hadm
    rw [Thread.applyPopped, happly]
    exact subscribers_dispatch env _ c

variable {g g' : Gateway} {a : Action}

theorem thread_moved (h : Moved g a g') :
    board g'.thread = board g.thread ∧ g'.thread.ledger = g.thread.ledger ∧ g'.applied = g.applied ∨
      ∃ env c, a = .take env ∧ g.inbound = c :: g'.inbound ∧
        g'.thread = g.thread.applyPopped (roomy env) c ∧
        g'.applied = if admits (roomy env) g.thread c then g.applied ++ [c] else g.applied := by
  cases h with
  | @taken env c inbound ha hin => exact Or.inr ⟨env, c, ha, hin, rfl, rfl⟩
  | housekept env => exact Or.inl ⟨board_housekeep env _, (undisturbed_housekeep env _).ledger, rfl⟩
  | _ => exact Or.inl ⟨rfl, rfl, rfl⟩

def Unheard (g : Gateway) : Prop :=
  ∀ pre o post, g.inbound = pre ++ o :: post → o.type = .sessionOpened → ∀ c ∈ g.applied ++ pre,
    c.session ≠ o.session

theorem unheard_moved (hm : Moved g a g') (hr : Running g) (h : Unheard g) : Unheard g' := by
  cases flow_moved hm hr.regular hr.addressed.replaying with
  | quiet hnext hin happ => rwa [Unheard, hin, happ]
  | opened hnext hlt hin happ =>
    obtain hin | hin := hin
    · rwa [Unheard, hin, happ]
    · intro pre o post hsplit htype c hc hs
      rw [hin] at hsplit
      rw [happ] at hc
      obtain ⟨rfl, rfl⟩ | ⟨post', hsplit⟩ := concat_split hsplit
      · have hissued := (hr.addressed.commands c hc).2
        rw [hs] at hissued
        simp only [OrderCommand.sessionOpened] at hissued
        rw [UInt64.toNat_ofNat_of_lt' hlt] at hissued
        omega
      · exact h pre o post' hsplit htype c hc hs
  | sent hc halive hsender hopened hlast hnext hin happ =>
    intro pre o post hsplit htype
    rw [hin] at hsplit
    rw [happ]
    obtain ⟨-, rfl⟩ | ⟨post', hsplit⟩ := concat_split hsplit
    · exact absurd htype hopened
    · exact h pre o post' hsplit htype
  | @taken env d ha hnext hin hempty hl happ =>
    intro pre o post hsplit htype c hc
    refine h (d :: pre) o post (by rw [hin, hsplit]; rfl) htype c ?_
    rw [happ] at hc
    split at hc
    · simpa using hc
    · obtain hc | hc := List.mem_append.mp hc
      · exact List.mem_append_left _ hc
      · exact List.mem_append_right _ (List.mem_cons_of_mem _ hc)

structure Enrolled (g : Gateway) : Prop where
  distinct : (g.thread.subscribers.map Prod.fst).Nodup
  depth : ∀ sub ∈ g.thread.subscribers,
    ∃ quantity, askedDepth g.applied sub.1 = some quantity ∧ sub.2 = subscribedDepth quantity
  unheard : Unheard g

theorem enrolled_initial {t : Thread} (h : Booted t) : Enrolled (.initial t) := by
  have hnone := Booted.unsubscribed h
  refine ⟨?_, ?_, ?_⟩
  · change (t.subscribers.map Prod.fst).Nodup
    rw [hnone]
    exact List.nodup_nil
  · intro sub hsub
    change sub ∈ t.subscribers at hsub
    rw [hnone] at hsub
    exact absurd hsub List.not_mem_nil
  · intro pre o post hsplit
    simp [Gateway.initial] at hsplit

theorem enrolled_moved (hm : Moved g a g') (hr : Running g) (h : Enrolled g) : Enrolled g' := by
  have hunheard := unheard_moved hm hr h.unheard
  obtain ⟨hboard, -, happ⟩ | ⟨env, c, -, -, ht, happ⟩ := thread_moved hm
  · have hsubs : g'.thread.subscribers = g.thread.subscribers := congrArg Board.subscribers hboard
    exact ⟨by rw [hsubs]; exact h.distinct, by rw [hsubs, happ]; exact h.depth, hunheard⟩
  · have hsubs := subscribers_applyPopped (roomy env) g.thread c
    rw [← ht] at hsubs
    cases hadm : admits (roomy env) g.thread c with
    | false =>
      simp only [hadm, Bool.false_eq_true, if_false] at hsubs happ
      exact ⟨by rw [hsubs]; exact h.distinct, by rw [hsubs, happ]; exact h.depth, hunheard⟩
    | true =>
      simp only [hadm, if_true] at hsubs happ
      have hkept : ∀ sub ∈ g.thread.subscribers, (c.type = .subscribe → sub.1 ≠ c.session) →
          ∃ quantity, askedDepth g'.applied sub.1 = some quantity ∧
            sub.2 = subscribedDepth quantity := by
        intro sub hsub hne
        rw [happ, askedDepth_other _ fun hc => hne hc.1 hc.2.symm]
        exact h.depth sub hsub
      cases htype : c.type with
      | subscribe =>
        simp only [subscribersAfter, htype] at hsubs
        refine ⟨by rw [hsubs]; exact nodup_setSubscriber h.distinct _ _, ?_, hunheard⟩
        intro sub hsub
        rw [hsubs, mem_setSubscriber] at hsub
        obtain rfl | ⟨hsub, hne⟩ := hsub
        · rw [happ]
          exact ⟨c.quantity, askedDepth_subscribe _ htype, rfl⟩
        · exact hkept sub hsub fun _ => hne
      | cancelAllForSession =>
        simp only [subscribersAfter, htype] at hsubs
        refine ⟨?_, ?_, hunheard⟩
        · rw [hsubs]
          exact h.distinct.sublist (List.filter_sublist.map _)
        · intro sub hsub
          rw [hsubs] at hsub
          exact hkept sub (List.mem_filter.mp hsub).1 (by simp [htype])
      | _ =>
        simp only [subscribersAfter, htype] at hsubs
        exact ⟨by rw [hsubs]; exact h.distinct,
          fun sub hsub => hkept sub (by rwa [hsubs] at hsub) (by simp [htype]), hunheard⟩

theorem lastShown_publish {k : Board} (hdistinct : (k.subscribers.map Prod.fst).Nodup)
    (hmd : ∀ s q, (k.md s).join = some q → q = s.toNat) {sub : UInt64 × UInt8}
    (hsub : sub ∈ k.subscribers) {q : Nat} (hq : (k.md sub.1).join = some q) (b : OrderBook) :
    ((k.publish b).mdPushed.filter fun p => p.1 = q).getLast?.map Prod.snd =
      some (view b (k.bookSeq + 1) sub.2) := by
  have hne : ¬k.subscribers.isEmpty = true := by
    rw [List.isEmpty_iff]
    exact List.ne_nil_of_mem hsub
  let shares := (k.subscribers.filterMap (share k.md b (k.bookSeq + 1))).filter fun p => p.1 = q
  have hmem : (q, view b (k.bookSeq + 1) sub.2) ∈ shares := by
    refine List.mem_filter.mpr ⟨List.mem_filterMap.mpr ⟨sub, hsub, ?_⟩, decide_eq_true rfl⟩
    rw [share, hq, Option.map_some]
  have hall : ∀ p ∈ shares, p = (q, view b (k.bookSeq + 1) sub.2) := by
    intro p hp
    obtain ⟨hp, hpq⟩ := List.mem_filter.mp hp
    obtain ⟨d, hd, hshare⟩ := List.mem_filterMap.mp hp
    obtain ⟨q', hq', rfl⟩ := Option.map_eq_some_iff.mp hshare
    have hsame : d.1 = sub.1 := by
      rw [← UInt64.toNat_inj, ← hmd _ _ hq', ← hmd _ _ hq]
      exact of_decide_eq_true hpq
    rw [List.inj_on_of_nodup_map hdistinct hd hsub hsame] at hq' ⊢
    rw [Option.some.inj (hq'.symm.trans hq)]
  have hlast : shares.getLast? = some (q, view b (k.bookSeq + 1) sub.2) := by
    rw [List.getLast?_eq_getLast_of_ne_nil (List.ne_nil_of_mem hmem)]
    exact congrArg some (hall _ (List.getLast_mem _))
  have hpushed : (k.publish b).mdPushed.filter (fun p => p.1 = q) =
      k.mdPushed.filter (fun p => p.1 = q) ++ shares := by
    rw [Board.publish, if_neg hne]
    exact List.filter_append ..
  rw [hpushed, List.getLast?_append, hlast]
  rfl

theorem publish_frame (k : Board) (b : OrderBook) :
    (k.publish b).md = k.md ∧ (k.publish b).subscribers = k.subscribers := by
  unfold Board.publish
  split <;> exact ⟨rfl, rfl⟩

theorem askedDepth_heard {cs : List OrderCommand} {s : UInt64} {quantity : UInt32}
    (h : askedDepth cs s = some quantity) : ∃ c ∈ cs, c.type = .subscribe ∧ c.session = s := by
  obtain ⟨c, hc, -⟩ := Option.map_eq_some_iff.mp h
  obtain ⟨hmem, hs⟩ := List.mem_filter.mp (List.mem_of_getLast? hc)
  exact ⟨c, hmem, of_decide_eq_true hs⟩

theorem Current.same {t t' : Thread} (h : Current t) (hboard : board t' = board t)
    (hbook : t'.ledger.book = t.ledger.book) : Current t' := by
  have hsubs : t'.subscribers = t.subscribers := congrArg Board.subscribers hboard
  have hmd : t'.md = t.md := congrArg Board.md hboard
  have hpushed : t'.mdPushed = t.mdPushed := congrArg Board.mdPushed hboard
  rw [Current, hsubs, hmd, hbook]
  simp only [lastShown, hpushed]
  exact h

instance (risk : RiskConfig) (l : Ledger) (c : OrderCommand) :
    Decidable (ReplacementPasses risk l c) :=
  inferInstanceAs (Decidable (_ ∨ _))

/-- No order is withdrawn for a replacement that is then refused. -/
def replaceable (g : Gateway) : Action → Bool
  | .take env =>
    match g.inbound with
    | [] => true
    | c :: _ => c.type ≠ .modify || !admits (roomy env) g.thread c ||
        decide (ReplacementPasses g.thread.risk g.thread.ledger c)
  | _ => true

theorem current_moved (hm : Moved g a g') (hr : Running g) (hr' : Running g') (he : Enrolled g)
    (he' : Enrolled g') (hroom : ∀ env, a = .take env → ∀ k, env.mdRoom k = true)
    (hpasses : replaceable g a = true) (h : Current g.thread) : Current g'.thread := by
  obtain ⟨hboard, hledger, -⟩ | ⟨env, c, rfl, hin, ht, -⟩ := thread_moved hm
  · exact h.same hboard (congrArg Ledger.book hledger)
  · cases hadm : admits (roomy env) g.thread c with
    | false =>
      obtain ⟨w, n, k, happly⟩ := apply_refused hadm
      rw [ht, Thread.applyPopped, happly]
      exact h.same rfl rfl
    | true =>
      obtain ⟨live, hsound⟩ := hr.addressed.sound
      have hmdRoom : ∀ k, (roomy env).mdRoom k = true := hroom env rfl
      have haired := aired_applyPopped hmdRoom hr.addressed.replaying hsound c
      rw [← ht] at haired
      cases haired with
      | silent hboard hbook => exact h.same hboard hbook
      | withheld hc hrefused => simp [replaceable, hin, hc, hadm, hrefused] at hpasses
      | opened hc hboard hbook =>
        -- nobody has subscribed under a number that is opened only now
        intro sub hsub q hq
        have hsubs : g'.thread.subscribers = g.thread.subscribers :=
          congrArg Board.subscribers hboard
        have hmd : g'.thread.md = mdAfter g.thread c := congrArg Board.md hboard
        have hpushed : g'.thread.mdPushed = g.thread.mdPushed := congrArg Board.mdPushed hboard
        rw [hsubs] at hsub
        obtain ⟨quantity, hasked, -⟩ := he.depth sub hsub
        obtain ⟨d, hd, -, hds⟩ := askedDepth_heard hasked
        have hne : sub.1 ≠ c.session := by
          rw [← hds]
          exact he.unheard [] c _ hin hc d (List.mem_append_left _ hd)
        have hsame : mdAfter g.thread c sub.1 = g.thread.md sub.1 := by
          simp only [mdAfter, hc, Function.update_of_ne hne]
        rw [hmd, hsame] at hq
        rw [lastShown, hpushed, hbook]
        exact h sub hsub q hq
      | published hc hboard =>
        intro sub hsub q hq
        obtain ⟨hmd, hsubs⟩ := publish_frame (rostered g.thread c) g'.thread.ledger.book
        rw [← hboard] at hmd hsubs
        have hown : ∀ s q, ((rostered g.thread c).md s).join = some q → q = s.toNat := by
          intro s q hs
          rw [← hmd] at hs
          exact Option.some.inj (hr'.addressed.md s _ (Option.join_eq_some_iff.mp hs)).1
        refine ⟨g.thread.bookSeq + 1, ?_⟩
        have hlast := lastShown_publish (k := rostered g.thread c)
          (by rw [← hsubs]; exact he'.distinct) hown (by rw [← hsubs]; exact hsub)
          (by rw [← hmd]; exact hq) g'.thread.ledger.book
        rw [← hboard] at hlast
        exact hlast

/-- No push of a snapshot in the run is dropped. -/
def Undropped (as : List Action) : Prop := ∀ env, .take env ∈ as → ∀ k, env.mdRoom k = true

/-- As long as no replacement is refused and no snapshot dropped, every
subscriber is shown the book as every command leaves it. -/
theorem current_run {t : Thread} (h : Booted t) (cfg : ServerConfig) {as : List Action}
    (hroom : Undropped as) (hrun : Along cfg (fun g a => replaceable g a = true) (.initial t) as) :
    Current ((Gateway.initial t).run cfg as).thread := by
  have hboth := hrun.also (Q := fun a => ∀ env, a = .take env → ∀ k, env.mdRoom k = true)
    fun a ha env hae => hroom env (hae ▸ ha)
  have hnobody : Current (Gateway.initial t).thread := by
    intro sub hsub
    change sub ∈ t.subscribers at hsub
    rw [Booted.unsubscribed h] at hsub
    exact absurd hsub List.not_mem_nil
  have hkeep : ∀ g a, Running g ∧ Enrolled g ∧ Current g.thread →
      (∀ env, a = .take env → ∀ k, env.mdRoom k = true) ∧ replaceable g a = true →
      Running (g.step cfg a) ∧ Enrolled (g.step cfg a) ∧ Current (g.step cfg a).thread := by
    rintro g a ⟨hr, he, hcurrent⟩ ⟨hroom, hpasses⟩
    have hm := hr.moved cfg a
    have he' := enrolled_moved hm hr he
    exact ⟨hr.step cfg a, he', current_moved hm hr (hr.step cfg a) he he' hroom hpasses hcurrent⟩
  exact (hboth.keeps hkeep ⟨running_initial h, enrolled_initial h, hnobody⟩).2.2

def repriced (price : Int64) : List Action :=
  Flooding.admission ++ [.frame 0 true (.newOrder 1 100 10 .bid .limit), .take .obliging, .push,
    .frame 0 true (.subscribe 1), .take .obliging, .push, .frame 0 true (.modify 1 price 5),
    .take .obliging]

theorem undropped_repriced (price : Int64) : Undropped (repriced price) := by
  intro env henv k
  have hobliging : env = .obliging := by simpa [repriced, Flooding.admission] using henv
  rw [hobliging]
  rfl

theorem repriced_current :
    Current ((Gateway.initial Flooding.newThread).run .default (repriced 101)).thread ∧
    lastShown ((Gateway.initial Flooding.newThread).run .default (repriced 101)).thread 1 =
      some ⟨2, [(101, 5)], []⟩ :=
  ⟨current_run Flooding.booted_newThread .default (undropped_repriced 101) (by decide +kernel),
    by decide +kernel⟩

/-- The new price is refused, and the bid that is gone is still shown. -/
theorem repriced_not_current :
    ¬∀ (cfg : ServerConfig) (t : Thread) (as : List Action), Booted t → Undropped as →
      Current ((Gateway.initial t).run cfg as).thread := by
  intro h
  have hcurrent :=
    h .default Flooding.newThread (repriced 0) Flooding.booted_newThread (undropped_repriced 0)
  obtain ⟨seq, hlast⟩ := hcurrent (1, 1) (by decide +kernel) 1 (by decide +kernel)
  have hshown :
      (lastShown ((Gateway.initial Flooding.newThread).run .default (repriced 0)).thread 1).map
        BookSnapshot.bids = some [(100, 10)] := by decide +kernel
  have hempty : levelsTicks
      ((Gateway.initial Flooding.newThread).run .default (repriced 0)).thread.ledger.book .bid
      maxBookDepth = [] := by decide +kernel
  rw [hlast] at hshown
  simp [view, hempty] at hshown

end OrderMatching.Broadcast
