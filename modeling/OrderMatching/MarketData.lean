import Mathlib.Data.List.Induction
import OrderMatching.Broadcast
import OrderMatching.Conflation

namespace OrderMatching.MarketData

open OrderMatching.Orders OrderMatching.Book OrderMatching.Commands OrderMatching.Exchange
open OrderMatching.MatchingThread OrderMatching.Acceptance OrderMatching.Posting
open OrderMatching.Network OrderMatching.Threads OrderMatching.Moves OrderMatching.Sessions
open OrderMatching.Broadcast OrderMatching.Conflation

def marketDataCapacity : Nat := 64

/-- The two threads with the market data queues between them. `airing` is what
`publish_book` still has to push, `latest` what `drain_market_data` has popped
last while it is at a connection. The last three fields are history, for each
connection: the snapshots built for it, the updates queued to it, and those
that its write buffer took. -/
structure Feed where
  gateway : Gateway
  queues : Nat → List BookSnapshot
  airing : List (Nat × BookSnapshot)
  latest : Nat → Option BookSnapshot
  built : Nat → List BookSnapshot
  updates : Nat → List BookSnapshot
  written : Nat → List BookSnapshot

def Feed.initial (t : Thread) : Feed :=
  ⟨.initial t, fun _ => [], [], fun _ => none, fun _ => [], fun _ => [], fun _ => []⟩

/-- A step of the gateway, one push of a snapshot or one round of the loop that
pops them. -/
inductive Signal where
  | gateway (a : Action)
  | air
  | look

/-- The outside as the matching thread sees it when every snapshot has room:
what it pushes then is what it tries to push in any case. -/
def tuned (env : Env) : Env := { env with mdRoom := fun _ => true }

def sharesOf (ps : List (Nat × BookSnapshot)) (n : Nat) : List BookSnapshot :=
  (ps.filter fun p => p.1 = n).map Prod.snd

def Feed.take (cfg : ServerConfig) (f : Feed) (env : Env) : Feed :=
  if f.airing = [] then
    let g := f.gateway.step cfg (.take (tuned env))
    let airing := g.thread.mdPushed.drop f.gateway.thread.mdPushed.length
    { f with gateway := g, airing := airing, built := fun n => f.built n ++ sharesOf airing n }
  else f

/-- One push of `publish_book`, after the order events of the command. A full
queue drops the snapshot, and a queue that is gone takes nothing. -/
def Feed.air (f : Feed) : Feed :=
  match f.airing with
  | [] => f
  | (n, snap) :: airing =>
    if f.gateway.idle then
      if (f.gateway.conns n).isSome ∧ (f.queues n).length < marketDataCapacity then
        { f with airing := airing, queues := Function.update f.queues n (f.queues n ++ [snap]) }
      else { f with airing := airing }
    else f

def updateOf (snap : BookSnapshot) : Reply := .bookUpdate snap.seq snap.bids snap.asks

/-- One round of the loop in `drain_market_data`: a pop, or the end of the loop
and the update for the last snapshot popped. -/
def Feed.look (cfg : ServerConfig) (f : Feed) : Feed :=
  match f.gateway.pc with
  | .leaving n =>
    match f.gateway.conns n with
    | none => f
    | some c =>
      if c.subscribed then
        match f.queues n, f.latest n with
        | snap :: rest, _ =>
          { f with
            queues := Function.update f.queues n rest
            latest := Function.update f.latest n (some snap) }
        | [], none => f
        | [], some snap =>
          { f with
            gateway := f.gateway.step cfg (.market snap.seq snap.bids snap.asks)
            latest := Function.update f.latest n none
            updates := Function.update f.updates n (f.updates n ++ [snap])
            written := if (c.writer.append (updateOf snap).size).1 then
              Function.update f.written n (f.written n ++ [snap]) else f.written }
      else f
  | _ => f

def Feed.outgoing (f : Feed) : Option (Connection × BookSnapshot) :=
  match f.gateway.pc with
  | .leaving n =>
    match f.gateway.conns n with
    | none => none
    | some c =>
      if c.subscribed = true ∧ f.queues n = [] then (f.latest n).map fun snap => (c, snap)
      else none
  | _ => none

/-- Whether the write buffer takes the update that is queued in this round. -/
def Feed.writes (f : Feed) : Bool :=
  match f.outgoing with
  | none => true
  | some (c, snap) => (c.writer.append (updateOf snap).size).1

def Feed.looping (f : Feed) : Bool :=
  match f.gateway.pc with
  | .leaving n => (f.latest n).isSome
  | _ => false

def Feed.step (cfg : ServerConfig) (f : Feed) : Signal → Feed
  | .gateway (.take env) => f.take cfg env
  | .gateway (.housekeep env) =>
    if f.airing = [] then { f with gateway := f.gateway.step cfg (.housekeep env) } else f
  | .gateway .push => { f with gateway := f.gateway.step cfg .push }
  | .gateway .latch => { f with gateway := f.gateway.step cfg .latch }
  | .gateway .erase => { f with gateway := f.gateway.step cfg .erase }
  | .gateway (.market _ _ _) => f
  | .gateway a => if f.looping then f else { f with gateway := f.gateway.step cfg a }
  | .air => f.air
  | .look => f.look cfg

def Feed.run (cfg : ServerConfig) (f : Feed) (ss : List Signal) : Feed := ss.foldl (Feed.step cfg) f

theorem feedRun_append (cfg : ServerConfig) (f : Feed) (ss rs : List Signal) :
    f.run cfg (ss ++ rs) = (f.run cfg ss).run cfg rs := List.foldl_append

inductive Fed (cfg : ServerConfig) (f : Feed) (s : Signal) : Feed → Prop where
  | moved {g : Gateway}
      (hg : g = f.gateway ∨ ∃ a, g = f.gateway.step cfg a ∧ ∀ env, a ≠ .take env) :
      Fed cfg f s { f with gateway := g }
  | taken (env : Env) (h : f.airing = []) : Fed cfg f s (f.take cfg env)
  | pushed {n : Nat} {snap : BookSnapshot} {airing : List (Nat × BookSnapshot)}
      (h : f.airing = (n, snap) :: airing) (hc : (f.gateway.conns n).isSome = true) :
      Fed cfg f s { f with
        airing := airing, queues := Function.update f.queues n (f.queues n ++ [snap]) }
  | dropped {n : Nat} {snap : BookSnapshot} {airing : List (Nat × BookSnapshot)} (hs : s = .air)
      (h : f.airing = (n, snap) :: airing)
      (hfull : f.gateway.conns n = none ∨ ¬(f.queues n).length < marketDataCapacity) :
      Fed cfg f s { f with airing := airing }
  | popped {n : Nat} {snap : BookSnapshot} {rest : List BookSnapshot}
      (h : f.queues n = snap :: rest) :
      Fed cfg f s { f with
        queues := Function.update f.queues n rest
        latest := Function.update f.latest n (some snap) }
  | queued {n : Nat} {snap : BookSnapshot} {g : Gateway} {written : Nat → List BookSnapshot}
      (hq : f.queues n = []) (h : f.latest n = some snap)
      (hg : g = f.gateway.step cfg (.market snap.seq snap.bids snap.asks))
      (hw : written = Function.update f.written n (f.written n ++ [snap]) ∨
        written = f.written ∧ s = .look ∧ f.writes = false) :
      Fed cfg f s { f with
        gateway := g
        latest := Function.update f.latest n none
        updates := Function.update f.updates n (f.updates n ++ [snap])
        written := written }

variable {cfg : ServerConfig} {f f' : Feed} {s : Signal}

theorem Fed.still : Fed cfg f s f := .moved (Or.inl rfl)

theorem fed_air (f : Feed) : Fed cfg f .air f.air := by
  unfold Feed.air
  split
  · exact .still
  · rename_i n snap airing h
    split
    · split
      · rename_i hroom
        exact .pushed h hroom.1
      · rename_i hroom
        refine .dropped rfl h ?_
        cases hc : f.gateway.conns n with
        | none => exact Or.inl rfl
        | some c => exact Or.inr fun hlt => hroom ⟨by rw [hc]; rfl, hlt⟩
    · exact .still

theorem fed_look (f : Feed) : Fed cfg f .look (f.look cfg) := by
  unfold Feed.look
  split
  · rename_i n hpc
    split
    · exact .still
    · rename_i c hc
      split
      · rename_i hsub
        split
        · rename_i snap rest hq
          exact .popped hq
        · exact .still
        · rename_i snap hq hl
          refine .queued hq hl rfl ?_
          split
          · exact Or.inl rfl
          · rename_i hfull
            refine Or.inr ⟨rfl, rfl, ?_⟩
            simpa [Feed.writes, Feed.outgoing, hpc, hc, hsub, hq, hl] using hfull
      · exact .still
  · exact .still

theorem fed_step (cfg : ServerConfig) (f : Feed) (s : Signal) : Fed cfg f s (f.step cfg s) := by
  cases s with
  | air => exact fed_air f
  | look => exact fed_look f
  | gateway a =>
    have hmoved : (∀ env, a ≠ .take env) →
        Fed cfg f (.gateway a) { f with gateway := f.gateway.step cfg a } :=
      fun ha => .moved (Or.inr ⟨a, rfl, ha⟩)
    unfold Feed.step
    cases a with
    | take env =>
      by_cases h : f.airing = []
      · exact .taken env h
      · have hsame : f.take cfg env = f := if_neg h
        dsimp only
        rw [hsame]
        exact .still
    | market => exact .still
    | push => exact hmoved (by simp)
    | latch => exact hmoved (by simp)
    | erase => exact hmoved (by simp)
    | housekeep env =>
      dsimp only
      split
      · exact hmoved (by simp)
      · exact .still
    | _ =>
      dsimp only
      split
      · exact .still
      · exact hmoved (by simp)

theorem Fed.gateway (h : Fed cfg f s f') :
    f'.gateway = f.gateway ∨ ∃ a, f'.gateway = f.gateway.step cfg a := by
  cases h with
  | moved hg =>
    obtain hg | ⟨a, hg, -⟩ := hg
    · exact Or.inl hg
    · exact Or.inr ⟨a, hg⟩
  | taken env hairing => exact Or.inr ⟨.take (tuned env), by rw [Feed.take, if_pos hairing]⟩
  | pushed => exact Or.inl rfl
  | dropped => exact Or.inl rfl
  | popped => exact Or.inl rfl
  | queued hq hl hg => exact Or.inr ⟨_, hg⟩

theorem Fed.moves (h : Fed cfg f s f') (hr : Running f.gateway) :
    ∃ a, Moved f.gateway a f'.gateway := by
  obtain hg | ⟨a, hg⟩ := h.gateway
  · exact ⟨.readDone, hg ▸ .still⟩
  · exact ⟨a, hg ▸ hr.moved cfg a⟩

structure Live (f : Feed) : Prop where
  running : Running f.gateway
  enrolled : Enrolled f.gateway

theorem live_initial {t : Thread} (h : Booted t) : Live (.initial t) :=
  ⟨running_initial h, enrolled_initial h⟩

theorem live_fed (h : Fed cfg f s f') (hf : Live f) : Live f' := by
  obtain hg | ⟨a, hg⟩ := h.gateway
  · exact ⟨hg ▸ hf.running, hg ▸ hf.enrolled⟩
  · have henrolled := enrolled_moved (hf.running.moved cfg a) hf.running hf.enrolled
    exact ⟨hg ▸ hf.running.step cfg a, hg ▸ henrolled⟩

def Feed.channel (f : Feed) (n : Nat) : Channel BookSnapshot :=
  ⟨sharesOf f.airing n, f.queues n, f.latest n, f.updates n, f.built n⟩

theorem sharesOf_self (n : Nat) (snap : BookSnapshot) (ps : List (Nat × BookSnapshot)) :
    sharesOf ((n, snap) :: ps) n = snap :: sharesOf ps n := by
  rw [sharesOf, List.filter_cons_of_pos (by simp)]
  rfl

theorem sharesOf_of_ne {n m : Nat} (h : m ≠ n) (snap : BookSnapshot)
    (ps : List (Nat × BookSnapshot)) :
    sharesOf ((m, snap) :: ps) n = sharesOf ps n := by
  rw [sharesOf, List.filter_cons_of_neg (by simpa using h), sharesOf]

/-- To each subscriber a step is a move of its channel, or the loss of a
snapshot that finds no room. -/
theorem channel_fed (h : Fed cfg f s f') (n : Nat) :
    (f.channel n).Moves (f'.channel n) ∨
      f'.channel n = (f.channel n).drop ∧ f'.gateway = f.gateway ∧ s = .air ∧
        (∃ snap airing, f.airing = (n, snap) :: airing) ∧
        (f.gateway.conns n = none ∨ ¬(f.queues n).length < marketDataCapacity) := by
  cases h with
  | moved hg => exact Or.inl .idle
  | taken env hairing =>
    have hnone : (f.channel n).pending = [] := by
      change sharesOf f.airing n = []
      rw [hairing]
      rfl
    refine Or.inl ?_
    have hbuild := Channel.Moves.build (sharesOf (f.take cfg env).airing n) hnone
    rw [Feed.take, if_pos hairing] at hbuild ⊢
    exact hbuild
  | @pushed m snap airing hairing hc =>
    refine Or.inl ?_
    by_cases hm : m = n
    · subst hm
      have hpending : (f.channel m).pending = snap :: sharesOf airing m := by
        change sharesOf f.airing m = _
        rw [hairing, sharesOf_self]
      have hpush := Channel.Moves.push hpending
      simp only [Feed.channel, Function.update_self] at hpush ⊢
      exact hpush
    · have hsame : sharesOf f.airing n = sharesOf airing n := by rw [hairing, sharesOf_of_ne hm]
      simp only [Feed.channel, Function.update_of_ne (Ne.symm hm), hsame]
      exact .idle
  | @dropped m snap airing hs hairing hfull =>
    by_cases hm : m = n
    · subst hm
      refine Or.inr ⟨?_, rfl, hs, ⟨snap, airing, hairing⟩, hfull⟩
      simp only [Feed.channel, Channel.drop, hairing, sharesOf_self, List.tail_cons]
    · refine Or.inl ?_
      have hsame : sharesOf f.airing n = sharesOf airing n := by rw [hairing, sharesOf_of_ne hm]
      simp only [Feed.channel, hsame]
      exact .idle
  | @popped m snap rest hq =>
    refine Or.inl ?_
    by_cases hm : m = n
    · subst hm
      have hpop : (f.channel m).Moves _ := .pop hq
      simp only [Feed.channel, Function.update_self] at hpop ⊢
      exact hpop
    · simp only [Feed.channel, Function.update_of_ne (Ne.symm hm)]
      exact .idle
  | @queued m snap g written hq hl hg hw =>
    refine Or.inl ?_
    by_cases hm : m = n
    · subst hm
      have hreveal : (f.channel m).Moves _ := .reveal hq hl
      simp only [Feed.channel, Function.update_self] at hreveal ⊢
      exact hreveal
    · simp only [Feed.channel, Function.update_of_ne (Ne.symm hm)]
      exact .idle

/-- What a publication is about: the book, the subscribers and the number of the
snapshot, as they are when the command is done. -/
def published (t : Thread) : List (Nat × BookSnapshot) :=
  t.subscribers.filterMap (share t.md t.ledger.book t.bookSeq)

/-- A command either publishes nothing or gives every subscriber its share of a
snapshot with the next number. -/
theorem take_publishes (cfg : ServerConfig) {g : Gateway} (hr : Running g) (env : Env) :
    let t := (g.step cfg (.take (tuned env))).thread
    (t.mdPushed.drop g.thread.mdPushed.length = [] ∧ t.bookSeq = g.thread.bookSeq) ∨
      (t.mdPushed.drop g.thread.mdPushed.length = published t ∧
        t.bookSeq = g.thread.bookSeq + 1) := by
  intro t
  have hquiet : board t = board g.thread ∨ board t = { board g.thread with md := t.md } →
      t.mdPushed.drop g.thread.mdPushed.length = [] ∧ t.bookSeq = g.thread.bookSeq := by
    intro h
    have hpushed : t.mdPushed = g.thread.mdPushed := by
      obtain h | h := h
      · exact congrArg Board.mdPushed h
      · exact congrArg Board.mdPushed h
    have hseq : t.bookSeq = g.thread.bookSeq := by
      obtain h | h := h
      · exact congrArg Board.bookSeq h
      · exact congrArg Board.bookSeq h
    rw [hpushed, List.drop_length]
    exact ⟨rfl, hseq⟩
  obtain ⟨hboard, -⟩ | ⟨env', c, ha, -, ht, -⟩ := thread_moved (hr.moved cfg (.take (tuned env)))
  · exact Or.inl (hquiet (Or.inl hboard))
  · obtain rfl : tuned env = env' := by simpa using ha
    obtain ⟨live, hsound⟩ := hr.addressed.sound
    have hroom : ∀ k, (roomy (tuned env)).mdRoom k = true := fun _ => rfl
    have haired := aired_applyPopped hroom hr.addressed.replaying hsound c
    rw [← ht] at haired
    cases haired with
    | silent hboard => exact Or.inl (hquiet (Or.inl hboard))
    | withheld hc hrefused hboard => exact Or.inl (hquiet (Or.inl hboard))
    | opened hc hboard =>
      have hmd : t.md = mdAfter g.thread c := congrArg Board.md hboard
      exact Or.inl (hquiet (Or.inr (by rw [hmd]; exact hboard)))
    | published hc hboard =>
      by_cases hempty : (rostered g.thread c).subscribers.isEmpty = true
      · rw [Board.publish, if_pos hempty] at hboard
        have hpushed : t.mdPushed = g.thread.mdPushed := congrArg Board.mdPushed hboard
        rw [hpushed, List.drop_length]
        exact Or.inl ⟨rfl, congrArg Board.bookSeq hboard⟩
      · rw [Board.publish, if_neg hempty] at hboard
        have hmd : t.md = (rostered g.thread c).md := congrArg Board.md hboard
        have hsubs : t.subscribers = (rostered g.thread c).subscribers :=
          congrArg Board.subscribers hboard
        have hseq : t.bookSeq = g.thread.bookSeq + 1 := congrArg Board.bookSeq hboard
        have hpushed : t.mdPushed = g.thread.mdPushed ++ _ := congrArg Board.mdPushed hboard
        rw [hpushed, List.drop_left]
        refine Or.inr ⟨?_, hseq⟩
        rw [published, hmd, hsubs, hseq]
        rfl

theorem shares_none {md : UInt64 → Option (Option Nat)} {b : OrderBook} {seq : Nat}
    (hown : ∀ s q, (md s).join = some q → q = s.toNat) {subs : List (UInt64 × UInt8)} {n : Nat}
    (h : ∀ sub ∈ subs, sub.1.toNat ≠ n) : sharesOf (subs.filterMap (share md b seq)) n = [] := by
  rw [sharesOf, List.map_eq_nil_iff, List.filter_eq_nil_iff]
  intro p hp hpn
  obtain ⟨sub, hsub, hshare⟩ := List.mem_filterMap.mp hp
  obtain ⟨q, hq, rfl⟩ := Option.map_eq_some_iff.mp hshare
  exact h sub hsub ((hown _ _ hq).symm.trans (of_decide_eq_true hpn))

theorem shares_one {md : UInt64 → Option (Option Nat)} (b : OrderBook) (seq : Nat)
    (hown : ∀ s q, (md s).join = some q → q = s.toNat) {subs : List (UInt64 × UInt8)}
    (hdistinct : (subs.map Prod.fst).Nodup) (n : Nat) :
    sharesOf (subs.filterMap (share md b seq)) n = [] ∨
      ∃ sub ∈ subs, sub.1.toNat = n ∧
        sharesOf (subs.filterMap (share md b seq)) n = [view b seq sub.2] := by
  induction subs with
  | nil => exact Or.inl rfl
  | cons sub subs ih =>
    obtain ⟨hfresh, hrest⟩ := List.nodup_cons.mp hdistinct
    have hskip : sharesOf (subs.filterMap (share md b seq)) n = [] ∨
        ∃ d ∈ sub :: subs, d.1.toNat = n ∧
        sharesOf (subs.filterMap (share md b seq)) n = [view b seq d.2] := by
      obtain h | ⟨d, hd, h⟩ := ih hrest
      · exact Or.inl h
      · exact Or.inr ⟨d, List.mem_cons_of_mem _ hd, h⟩
    rw [List.filterMap_cons]
    cases hq : (md sub.1).join with
    | none => simpa only [share, hq, Option.map_none] using hskip
    | some q =>
      simp only [share, hq, Option.map_some]
      have hqs := hown _ _ hq
      by_cases hn : q = n
      · subst hn
        have hnone : sharesOf (subs.filterMap (share md b seq)) q = [] := by
          refine shares_none hown fun d hd hdq => hfresh ?_
          rw [← UInt64.toNat_inj.mp (hdq.trans hqs)]
          exact List.mem_map_of_mem hd
        rw [sharesOf_self]
        refine Or.inr ⟨sub, List.mem_cons_self, hqs.symm, ?_⟩
        exact congrArg (view b seq sub.2 :: ·) hnone
      · rw [sharesOf_of_ne hn]
        exact hskip

/-- The snapshots built for a connection after a step: the same, or one more,
of the book as the step leaves it. -/
inductive Grown (f f' : Feed) (n : Nat) : Prop where
  | same (hbuilt : f'.built n = f.built n)
      (hseq : f.gateway.thread.bookSeq ≤ f'.gateway.thread.bookSeq)
  | more {sub : UInt64 × UInt8} (hsub : sub ∈ f'.gateway.thread.subscribers) (hn : sub.1.toNat = n)
      (hbuilt : f'.built n = f.built n ++
        [view f'.gateway.thread.ledger.book f'.gateway.thread.bookSeq sub.2])
      (hseq : f'.gateway.thread.bookSeq = f.gateway.thread.bookSeq + 1)

theorem seq_moved {g g' : Gateway} {a : Action} (h : Moved g a g') (ha : ∀ env, a ≠ .take env) :
    g'.thread.bookSeq = g.thread.bookSeq := by
  obtain ⟨hboard, -⟩ | ⟨env, c, hae, -⟩ := thread_moved h
  · exact congrArg Board.bookSeq hboard
  · exact absurd hae (ha env)

theorem grown_fed (h : Fed cfg f s f') (hf : Live f) (hf' : Live f') (n : Nat) : Grown f f' n := by
  cases h with
  | moved hg =>
    refine .same rfl ?_
    obtain rfl | ⟨a, rfl, ha⟩ := hg
    · exact Nat.le_refl _
    · exact (seq_moved (hf.running.moved cfg a) ha).ge
  | taken env hairing =>
    have htake : f.take cfg env = _ := if_pos hairing
    rw [htake] at hf' ⊢
    let g := f.gateway.step cfg (.take (tuned env))
    obtain ⟨hnone, hseq⟩ | ⟨hshares, hseq⟩ := take_publishes cfg hf.running env
    · refine .same ?_ hseq.ge
      dsimp only
      rw [hnone]
      exact List.append_nil _
    · have hown : ∀ s q, (g.thread.md s).join = some q → q = s.toNat := fun s q hq =>
        Option.some.inj (hf'.running.addressed.md s _ (Option.join_eq_some_iff.mp hq)).1
      obtain hnone | ⟨sub, hsub, hn, hone⟩ := shares_one g.thread.ledger.book g.thread.bookSeq hown
        hf'.enrolled.distinct n
      · refine .same ?_ (by rw [hseq]; exact Nat.le_succ _)
        dsimp only
        rw [hshares, published, hnone, List.append_nil]
      · refine .more hsub hn ?_ hseq
        dsimp only
        rw [hshares, published, hone]
  | pushed => exact .same rfl (Nat.le_refl _)
  | dropped => exact .same rfl (Nat.le_refl _)
  | popped => exact .same rfl (Nat.le_refl _)
  | queued hq hl hg =>
    refine .same rfl ?_
    subst hg
    exact (seq_moved (hf.running.moved cfg _) (by simp)).ge

/-- Snapshots are numbered in the order they are built in, and only those that
were built are queued, in that order. -/
structure Ordered (f : Feed) : Prop where
  faithful : ∀ n, (f.channel n).Faithful
  increasing : ∀ n, (f.built n).Pairwise (fun a b => a.seq < b.seq)
  numbered : ∀ n, ∀ snap ∈ f.built n, snap.seq ≤ f.gateway.thread.bookSeq
  written : ∀ n, (f.written n).Sublist (f.updates n)

theorem ordered_initial (t : Thread) : Ordered (.initial t) where
  faithful _ := List.Sublist.refl _
  increasing _ := List.Pairwise.nil
  numbered _ _ h := absurd h List.not_mem_nil
  written _ := List.Sublist.refl _

theorem written_fed (h : Fed cfg f s f') {n : Nat} (hw : (f.written n).Sublist (f.updates n)) :
    (f'.written n).Sublist (f'.updates n) := by
  cases h with
  | taken env hairing =>
    rw [Feed.take, if_pos hairing]
    exact hw
  | @queued m snap g written hq hl hg hwritten =>
    by_cases hm : n = m
    · subst hm
      simp only [Function.update_self]
      obtain rfl | ⟨rfl, -⟩ := hwritten
      · rw [Function.update_self]
        exact hw.append (List.Sublist.refl _)
      · exact hw.trans (List.sublist_append_left _ _)
    · simp only [Function.update_of_ne hm]
      obtain rfl | ⟨rfl, -⟩ := hwritten
      · rw [Function.update_of_ne hm]
        exact hw
      · exact hw
  | _ => exact hw

theorem ordered_fed (h : Fed cfg f s f') (hf : Live f) (hf' : Live f') (ho : Ordered f) :
    Ordered f' where
  faithful n := by
    obtain hm | ⟨hdrop, -⟩ := channel_fed h n
    · exact (ho.faithful n).moves hm
    · rw [hdrop]
      exact (ho.faithful n).drop
  increasing n := by
    cases grown_fed h hf hf' n with
    | same hbuilt =>
      rw [hbuilt]
      exact ho.increasing n
    | more hsub hn hbuilt hseq =>
      rw [hbuilt, List.pairwise_append]
      refine ⟨ho.increasing n, List.pairwise_singleton _ _, fun a ha b hb => ?_⟩
      have hle := ho.numbered n a ha
      rw [List.mem_singleton.mp hb]
      change a.seq < f'.gateway.thread.bookSeq
      omega
  numbered n snap hsnap := by
    cases grown_fed h hf hf' n with
    | same hbuilt hseq =>
      rw [hbuilt] at hsnap
      exact (ho.numbered n snap hsnap).trans hseq
    | more hsub hn hbuilt hseq =>
      rw [hbuilt] at hsnap
      obtain hsnap | hsnap := List.mem_append.mp hsnap
      · have hle := ho.numbered n snap hsnap
        omega
      · rw [List.mem_singleton.mp hsnap]
        exact Nat.le_refl _
  written n := written_fed h (ho.written n)

/-- The feed as every run keeps it. -/
theorem run_ordered {t : Thread} (h : Booted t) (cfg : ServerConfig) (ss : List Signal) :
    Live ((Feed.initial t).run cfg ss) ∧ Ordered ((Feed.initial t).run cfg ss) := by
  have hall : ∀ (ss : List Signal) (f : Feed), Live f → Ordered f → Live (f.run cfg ss) ∧
      Ordered (f.run cfg ss) := by
    intro ss
    induction ss with
    | nil => exact fun f hf ho => ⟨hf, ho⟩
    | cons s ss ih =>
      intro f hf ho
      have hfed := fed_step cfg f s
      have hf' := live_fed hfed hf
      exact ih _ hf' (ordered_fed hfed hf hf' ho)
  exact hall ss _ (live_initial h) (ordered_initial t)

/-- The snapshot shows the book of this moment to a subscriber, at the depth
that is in force for it. -/
def Depicts (g : Gateway) (n : Nat) (snap : BookSnapshot) : Prop :=
  ∃ sub ∈ g.thread.subscribers, sub.1.toNat = n ∧
    snap = view g.thread.ledger.book g.thread.bookSeq sub.2

theorem built_from {t : Thread} (h : Booted t) (cfg : ServerConfig) (ss : List Signal) (n : Nat) :
    ∀ snap ∈ ((Feed.initial t).run cfg ss).built n,
      ∃ rs, rs <+: ss ∧ Depicts ((Feed.initial t).run cfg rs).gateway n snap := by
  induction ss using List.reverseRecOn with
  | nil => exact fun snap hsnap => absurd hsnap List.not_mem_nil
  | append_singleton ss s ih =>
    intro snap hsnap
    have hstep : (Feed.initial t).run cfg (ss ++ [s]) = ((Feed.initial t).run cfg ss).step cfg s :=
      feedRun_append cfg _ ss [s]
    have hfed := fed_step cfg ((Feed.initial t).run cfg ss) s
    rw [← hstep] at hfed
    have hmem : snap ∈ ((Feed.initial t).run cfg ss).built n ∨
        Depicts ((Feed.initial t).run cfg (ss ++ [s])).gateway n snap := by
      cases grown_fed hfed (run_ordered h cfg ss).1 (run_ordered h cfg (ss ++ [s])).1 n with
      | same hbuilt =>
        rw [hbuilt] at hsnap
        exact Or.inl hsnap
      | more hsub hn hbuilt =>
        rw [hbuilt] at hsnap
        obtain hsnap | hsnap := List.mem_append.mp hsnap
        · exact Or.inl hsnap
        · exact Or.inr ⟨_, hsub, hn, List.mem_singleton.mp hsnap⟩
    obtain hold | hnew := hmem
    · obtain ⟨rs, hrs, hdepicts⟩ := ih snap hold
      exact ⟨rs, hrs.trans (List.prefix_append _ _), hdepicts⟩
    · exact ⟨ss ++ [s], List.prefix_refl _, hnew⟩

end OrderMatching.MarketData
