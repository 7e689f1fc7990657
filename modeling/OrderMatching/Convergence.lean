import OrderMatching.MarketData

namespace OrderMatching.Convergence

open OrderMatching.Orders OrderMatching.Book OrderMatching.Commands OrderMatching.Exchange
open OrderMatching.MatchingThread OrderMatching.Network OrderMatching.Threads OrderMatching.Moves
open OrderMatching.Sessions OrderMatching.Flooding OrderMatching.Broadcast OrderMatching.Conflation
open OrderMatching.MarketData

variable {g g' : Gateway} {a : Action}

theorem subscribed_touched {m : Nat} (h : Touched g a m g') {c' : Connection}
    (hc' : g'.conns m = some c') :
    (∃ c, g.conns m = some c ∧ (c.subscribed = true → c'.subscribed = true)) ∨
      m = g.nextSessionId := by
  obtain ⟨c, hc, hal⟩ | ⟨-, hm, -⟩ := h.before hc'
  · refine Or.inl ⟨c, hc, fun hsub => ?_⟩
    cases hal with
    | kept hk => exact hk.subscribed.trans hsub
    | requested ha hr => rw [hr.subscribed, hsub, Bool.true_or]
    | popped => exact (delivering_deliver _ _).subscribed.trans hsub
    | _ => exact hsub
  · exact Or.inr hm

def Marked (g : Gateway) : Prop :=
  ∀ d ∈ g.applied ++ g.inbound, d.type = .subscribe → ∀ c, g.conns d.session.toNat = some c →
    c.subscribed = true

theorem commands_moved (hm : Moved g a g') (hr : Running g) {d : OrderCommand}
    (hd : d ∈ g'.applied ++ g'.inbound) :
    d ∈ g.applied ++ g.inbound ∨ d.type = .sessionOpened ∨ g'.inbound = g.inbound ++ [d] := by
  cases flow_moved hm hr.regular hr.addressed.replaying with
  | quiet hnext hin happ =>
    rw [hin, happ] at hd
    exact Or.inl hd
  | opened hnext hlt hin happ =>
    rw [happ] at hd
    obtain hin | hin := hin
    · rw [hin] at hd
      exact Or.inl hd
    · rw [hin, ← List.append_assoc] at hd
      obtain hd | hd := List.mem_append.mp hd
      · exact Or.inl hd
      · rw [List.mem_singleton.mp hd]
        exact Or.inr (Or.inl rfl)
  | sent hc halive hsender hopened hlast hnext hin happ =>
    rw [happ, hin, ← List.append_assoc] at hd
    obtain hd | hd := List.mem_append.mp hd
    · exact Or.inl hd
    · rw [List.mem_singleton.mp hd]
      exact Or.inr (Or.inr hin)
  | taken ha hnext hin hempty hl happ =>
    rw [hin]
    rw [happ] at hd
    refine Or.inl ?_
    split at hd
    · simpa using hd
    · obtain hd | hd := List.mem_append.mp hd
      · exact List.mem_append_left _ hd
      · exact List.mem_append_right _ (List.mem_cons_of_mem _ hd)

theorem marked_moved (hm : Moved g a g') (hr : Running g) (h : Marked g) : Marked g' := by
  intro d hd htype c' hc'
  have htouched := hm.touched d.session.toNat
  obtain hold | hopened | hnew := commands_moved hm hr hd
  · obtain ⟨c, hc, hsub⟩ | hnext := subscribed_touched htouched hc'
    · exact hsub (h d hold htype c hc)
    · have hissued := (hr.addressed.commands d hold).2
      omega
  · simp [hopened] at htype
  · cases hm with
    | @requested n c₁ c₂ cmd pc ha hpc hc hroom hreq hpc' =>
      obtain rfl : cmd = d := List.singleton_inj.mp (List.append_cancel_left hnew)
      have hn : cmd.session.toNat = n := by rw [hreq.sender, hr.regular.named hc]
      rw [hn] at hc'
      rw [update_same hc', hreq.subscribed, htype]
      simp
    | accepted ha hlt hpc ho hin =>
      obtain ⟨-, hin⟩ | ⟨-, hin⟩ := hin
      · rw [hin] at hnew
        rw [← List.singleton_inj.mp (List.append_cancel_left hnew)] at htype
        simp [OrderCommand.sessionOpened] at htype
      · simp [hin] at hnew
    | closed hc ha hpc hclosed =>
      cases hclosed with
      | killed =>
        rw [← List.singleton_inj.mp (List.append_cancel_left hnew)] at htype
        simp [OrderCommand.cancelAll] at htype
      | _ => simp at hnew
    | taken ha hin =>
      have hlen := congrArg List.length hin
      have hlen' := congrArg List.length hnew
      simp only [List.length_cons, List.length_append, List.length_nil] at hlen hlen'
      omega
    | _ => simp [Gateway.setConn] at hnew

variable {cfg : ServerConfig} {f f' : Feed} {s : Signal}

/-- A snapshot is pushed to a queue, and an update put into a write buffer, that
has room for it. -/
def hasRoom (f : Feed) : Signal → Bool
  | .air =>
    match f.airing with
    | [] => true
    | (n, _) :: _ => (f.gateway.conns n).isNone || decide ((f.queues n).length < marketDataCapacity)
  | .look => f.writes
  | _ => true

/-- Every push and every update of a run finds room. -/
def roomThroughout (cfg : ServerConfig) : Feed → List Signal → Bool
  | _, [] => true
  | f, s :: ss => hasRoom f s && roomThroughout cfg (f.step cfg s) ss

theorem roomThroughout_append (cfg : ServerConfig) (f : Feed) (ss rs : List Signal) :
    roomThroughout cfg f (ss ++ rs) =
      (roomThroughout cfg f ss && roomThroughout cfg (f.run cfg ss) rs) := by
  induction ss generalizing f with
  | nil => rfl
  | cons s ss ih =>
    rw [List.cons_append, roomThroughout, ih, roomThroughout, Bool.and_assoc]
    rfl

/-- Nothing is lost on the way to a connection that is there, and snapshots are
built only for clients that have subscribed. -/
structure Conveys (f : Feed) : Prop where
  live : Live f
  ordered : Ordered f
  marked : Marked f.gateway
  heard : ∀ n, f.built n ≠ [] → ∃ d ∈ f.gateway.applied, d.type = .subscribe ∧ d.session.toNat = n
  lossless : ∀ n, (f.gateway.conns n).isSome = true → (f.channel n).Lossless
  written : ∀ n, f.written n = f.updates n

theorem conveys_initial {t : Thread} (h : Booted t) : Conveys (.initial t) where
  live := live_initial h
  ordered := ordered_initial t
  marked d hd := absurd hd List.not_mem_nil
  heard n hn := absurd rfl hn
  lossless n hn := by simp [Feed.initial, Gateway.initial] at hn
  written _ := rfl

theorem applied_moved (hm : Moved g a g') :
    g.applied ⊆ g'.applied ∧ g'.applied ⊆ g.applied ++ g.inbound := by
  obtain ⟨-, -, happ⟩ | ⟨env, c, -, hin, -, happ⟩ := thread_moved hm
  · rw [happ]
    exact ⟨List.Subset.refl _, List.subset_append_left _ _⟩
  · rw [happ, hin]
    split
    · refine ⟨List.subset_append_left _ _, fun d hd => ?_⟩
      obtain hd | hd := List.mem_append.mp hd
      · exact List.mem_append_left _ hd
      · rw [List.mem_singleton.mp hd]
        exact List.mem_append_right _ List.mem_cons_self
    · exact ⟨List.Subset.refl _, List.subset_append_left _ _⟩

theorem heard_fed (hfed : Fed cfg f s f') (hm : Moved f.gateway a f'.gateway) (hf : Live f)
    (hf' : Live f') {n : Nat}
    (h : f.built n ≠ [] → ∃ d ∈ f.gateway.applied, d.type = .subscribe ∧ d.session.toNat = n)
    (hn : f'.built n ≠ []) :
    ∃ d ∈ f'.gateway.applied, d.type = .subscribe ∧ d.session.toNat = n := by
  cases grown_fed hfed hf hf' n with
  | same hbuilt =>
    rw [hbuilt] at hn
    obtain ⟨d, hd, hds⟩ := h hn
    exact ⟨d, (applied_moved hm).1 hd, hds⟩
  | more hsub hsn =>
    obtain ⟨quantity, hasked, -⟩ := hf'.enrolled.depth _ hsub
    obtain ⟨d, hd, htype, hds⟩ := askedDepth_heard hasked
    exact ⟨d, hd, htype, by rw [hds, hsn]⟩

theorem written_updates (hfed : Fed cfg f s f') (hroom : hasRoom f s = true) {n : Nat}
    (h : f.written n = f.updates n) :
    f'.written n = f'.updates n := by
  cases hfed with
  | taken env hairing =>
    rw [Feed.take, if_pos hairing]
    exact h
  | @queued m snap g written hq hl hg hw =>
    obtain rfl | ⟨-, rfl, hrefused⟩ := hw
    · by_cases hm : n = m
      · subst hm
        simp only [Function.update_self, h]
      · simpa only [Function.update_of_ne hm] using h
    · rw [hasRoom, hrefused] at hroom
      cases hroom
  | _ => exact h

theorem conveys_fed (hfed : Fed cfg f s f') (hroom : hasRoom f s = true) (h : Conveys f) :
    Conveys f' := by
  have hlive := live_fed hfed h.live
  have hordered := ordered_fed hfed h.live hlive h.ordered
  obtain ⟨a, hm⟩ := hfed.moves h.live.running
  have hheard := fun n => heard_fed hfed hm h.live hlive (h.heard n)
  refine ⟨hlive, hordered, marked_moved hm h.live.running h.marked, hheard, fun n hn => ?_,
    fun n => written_updates hfed hroom (h.written n)⟩
  obtain ⟨c', hc'⟩ := Option.isSome_iff_exists.mp hn
  obtain ⟨c, hc, -⟩ | hnext := subscribed_touched (hm.touched n) hc'
  · have hlossless := h.lossless n (by rw [hc]; rfl)
    obtain hmoves | ⟨-, -, rfl, ⟨snap, airing, hairing⟩, hfull⟩ := channel_fed hfed n
    · exact hlossless.moves hmoves
    · simp only [hasRoom, hairing, hc, Option.isNone_some, Bool.false_or,
        decide_eq_true_eq] at hroom
      obtain hgone | hfull := hfull
      · simp [hc] at hgone
      · exact absurd hroom hfull
  · -- the connection is new, and nothing can have been built for it yet
    refine (hordered.faithful n).lossless ?_
    by_contra hbuilt
    obtain ⟨d, hd, -, hds⟩ := hheard n hbuilt
    have hissued := (h.live.running.addressed.commands d ((applied_moved hm).2 hd)).2
    omega

theorem conveys_run {t : Thread} (h : Booted t) (cfg : ServerConfig) {ss : List Signal}
    (hroom : roomThroughout cfg (.initial t) ss = true) :
    Conveys ((Feed.initial t).run cfg ss) := by
  have hall : ∀ (ss : List Signal) (f : Feed), Conveys f → roomThroughout cfg f ss = true →
      Conveys (f.run cfg ss) := by
    intro ss
    induction ss with
    | nil => exact fun f hf _ => hf
    | cons s ss ih =>
      intro f hf hroom
      obtain ⟨hone, hrest⟩ := Bool.and_eq_true_iff.mp hroom
      exact ih _ (conveys_fed (fed_step cfg f s) hone hf) hrest
  exact hall ss _ (conveys_initial h) hroom

/-- A snapshot that was built for a connection, with none but newer ones still
to be pushed. -/
def Handed (f : Feed) (n : Nat) (snap : BookSnapshot) : Prop :=
  snap ∈ f.built n ∧ ∀ later ∈ sharesOf f.airing n, snap.seq < later.seq

theorem handed_fed (hfed : Fed cfg f s f') (hordered : Ordered f') {n : Nat} {snap : BookSnapshot}
    (h : Handed f n snap) : Handed f' n snap := by
  obtain ⟨hmem, hlater⟩ := h
  have htail : ∀ {m x airing}, f.airing = (m, x) :: airing →
      ∀ later ∈ sharesOf airing n, snap.seq < later.seq := by
    intro m x airing hairing later hl
    refine hlater later ?_
    rw [hairing]
    by_cases hm : m = n
    · rw [hm, sharesOf_self]
      exact List.mem_cons_of_mem _ hl
    · rwa [sharesOf_of_ne hm]
  cases hfed with
  | taken env hairing =>
    have hbuilt : (f.take cfg env).built n = f.built n ++ sharesOf (f.take cfg env).airing n := by
      rw [Feed.take, if_pos hairing]
    have hincreasing := hordered.increasing n
    rw [hbuilt, List.pairwise_append] at hincreasing
    refine ⟨?_, fun later hl => hincreasing.2.2 snap hmem later hl⟩
    rw [hbuilt]
    exact List.mem_append_left _ hmem
  | pushed hairing => exact ⟨hmem, htail hairing⟩
  | dropped hs hairing => exact ⟨hmem, htail hairing⟩
  | _ => exact ⟨hmem, hlater⟩

theorem handed_run (cfg : ServerConfig) (rs : List Signal) {n : Nat} {snap : BookSnapshot}
    {f : Feed} (hlive : Live f) (hordered : Ordered f) (h : Handed f n snap) :
    Handed (f.run cfg rs) n snap := by
  induction rs generalizing f with
  | nil => exact h
  | cons s rs ih =>
    have hfed := fed_step cfg f s
    have hlive' := live_fed hfed hlive
    have hordered' := ordered_fed hfed hlive hlive' hordered
    exact ih hlive' hordered' (handed_fed hfed hordered' h)

theorem updates_look {n : Nat} {c : Connection} (hpc : f.gateway.pc = .leaving n)
    (hc : f.gateway.conns n = some c) (hsub : c.subscribed = true) (hq : f.queues n = []) :
    (f.look cfg).updates n = (f.channel n).seen := by
  simp only [Feed.look, hpc, hc, hsub, if_true, hq, Channel.seen, Feed.channel]
  cases f.latest n with
  | none => simp
  | some snap => simp

/-- When a drain has emptied the queue, the last update is the newest snapshot
that is not still to be pushed. -/
theorem Conveys.newest (h : Conveys f) (cfg : ServerConfig) {n : Nat}
    (hpc : f.gateway.pc = .leaving n) (hn : (f.gateway.conns n).isSome = true)
    (hq : f.queues n = []) :
    ∃ done, f.built n = done ++ sharesOf f.airing n ∧
      ((f.look cfg).updates n).getLast? = done.getLast? := by
  obtain ⟨c, hc⟩ := Option.isSome_iff_exists.mp hn
  obtain ⟨done, hbuilt, hseen⟩ := (h.lossless n hn).newest hq
  refine ⟨done, hbuilt, ?_⟩
  cases hsub : c.subscribed with
  | true => rw [updates_look hpc hc hsub hq, hseen]
  | false =>
    -- nothing was ever built for a client that has not subscribed
    have hnothing : f.built n = [] := by
      by_contra hbuilt
      obtain ⟨d, hd, htype, hds⟩ := h.heard n hbuilt
      have hmarked := h.marked d (List.mem_append_left _ hd) htype c (by rw [hds]; exact hc)
      simp [hsub] at hmarked
    have hlook : f.look cfg = f := by simp [Feed.look, hpc, hc, hsub]
    have hcontents := h.ordered.faithful n
    rw [Channel.Faithful, show (f.channel n).built = [] from hnothing, List.sublist_nil,
      Channel.contents, List.append_eq_nil_iff] at hcontents
    have hdone : done = [] := (List.append_eq_nil_iff.mp (hbuilt.symm.trans hnothing)).1
    rw [hlook, hdone, show f.updates n = [] from hcontents.1]

/-- A drain that starts with no publication under way ends with an update in the
write buffer at least as new as all that was built by then, and with the newest
of all if none has come under way in between. -/
theorem drained_newest {t : Thread} (h : Booted t) (cfg : ServerConfig) (ss rs : List Signal)
    (n : Nat) (hroom : roomThroughout cfg (.initial t) (ss ++ rs ++ [.look]) = true)
    (hstart : ((Feed.initial t).run cfg ss).airing = [])
    (hpc : ((Feed.initial t).run cfg (ss ++ rs)).gateway.pc = .leaving n)
    (hn : (((Feed.initial t).run cfg (ss ++ rs)).gateway.conns n).isSome = true)
    (hq : ((Feed.initial t).run cfg (ss ++ rs)).queues n = []) :
    let written := ((Feed.initial t).run cfg (ss ++ rs ++ [.look])).written n
    (∀ snap, (((Feed.initial t).run cfg ss).built n).getLast? = some snap →
      ∃ last, written.getLast? = some last ∧ snap.seq ≤ last.seq) ∧
    (((Feed.initial t).run cfg (ss ++ rs)).airing = [] →
      written.getLast? = (((Feed.initial t).run cfg (ss ++ rs)).built n).getLast?) := by
  intro written
  have hbefore : roomThroughout cfg (.initial t) (ss ++ rs) = true := by
    rw [roomThroughout_append, Bool.and_eq_true] at hroom
    exact hroom.1
  have hconveys := conveys_run h cfg hbefore
  obtain ⟨done, hbuilt, hlast⟩ := hconveys.newest cfg hpc hn hq
  have hwritten : written = (((Feed.initial t).run cfg (ss ++ rs)).look cfg).updates n := by
    have hall : written = ((Feed.initial t).run cfg (ss ++ rs ++ [.look])).updates n :=
      (conveys_run h cfg hroom).written n
    rw [hall, feedRun_append]
    rfl
  rw [← hwritten] at hlast
  refine ⟨fun snap hsnap => ?_, fun hidle => ?_⟩
  · obtain ⟨hlive, hordered⟩ := run_ordered h cfg ss
    have hhanded : Handed ((Feed.initial t).run cfg ss) n snap := by
      refine ⟨List.mem_of_getLast? hsnap, fun later hl => ?_⟩
      rw [hstart] at hl
      exact absurd hl List.not_mem_nil
    obtain ⟨hmem, hlater⟩ := handed_run cfg rs hlive hordered hhanded
    rw [← feedRun_append] at hmem hlater
    have hdone : snap ∈ done := by
      rw [hbuilt] at hmem
      obtain hmem | hmem := List.mem_append.mp hmem
      · exact hmem
      · exact absurd (hlater snap hmem) (Nat.lt_irrefl _)
    have hne := List.ne_nil_of_mem hdone
    refine ⟨done.getLast hne, hlast.trans (List.getLast?_eq_getLast_of_ne_nil hne), ?_⟩
    have hincreasing := hconveys.ordered.increasing n
    rw [hbuilt, List.pairwise_append] at hincreasing
    have hsplit := List.dropLast_append_getLast hne
    rw [← hsplit] at hdone
    obtain hold | hnew := List.mem_append.mp hdone
    · have hpair := hincreasing.1
      rw [← hsplit, List.pairwise_append] at hpair
      exact Nat.le_of_lt (hpair.2.2 snap hold _ (List.mem_singleton.mpr rfl))
    · rw [List.mem_singleton.mp hnew]
  · rw [hidle] at hbuilt
    rw [hbuilt, show sharesOf [] n = [] from rfl, List.append_nil]
    exact hlast

/-- A client subscribes over and over, `k` times, and then rests a bid, before
the network thread looks at its queue. -/
def flood (k : Nat) : List Signal :=
  Flooding.admission.map .gateway ++
    (List.replicate k [.gateway (.frame 0 true (.subscribe 1)), .gateway (.take .obliging),
      .gateway .push, .air]).flatten ++
    [.gateway (.frame 0 true (.newOrder 1 100 10 .bid .limit)), .gateway (.take .obliging),
      .gateway .push, .air, .gateway .readDone]

theorem drained_flood :
    (((Feed.initial Flooding.newThread).run .default
      (flood 2 ++ List.replicate 3 .look ++ [.look])).written 1).getLast? =
      some ⟨3, [(100, 10)], []⟩ := by
  have hdrained :=
    (drained_newest Flooding.booted_newThread .default (flood 2) (List.replicate 3 .look) 1
      (by decide +kernel) (by decide +kernel) (by decide +kernel) (by decide +kernel)
      (by decide +kernel)).2 (by decide +kernel)
  exact hdrained.trans (by decide +kernel)

set_option maxRecDepth 10000 in
/-- One subscription more than the queue has slots, and the bid is not shown,
though every update finds room. -/
theorem flooded_not_newest :
    ¬∀ (cfg : ServerConfig) (t : Thread) (ss rs : List Signal) (n : Nat), Booted t →
      ((Feed.initial t).run cfg ss).airing = [] →
      ((Feed.initial t).run cfg (ss ++ rs)).gateway.pc = .leaving n →
      (((Feed.initial t).run cfg (ss ++ rs)).gateway.conns n).isSome = true →
      ((Feed.initial t).run cfg (ss ++ rs)).queues n = [] →
      ((Feed.initial t).run cfg (ss ++ rs)).airing = [] →
      ((Feed.initial t).run cfg (ss ++ rs)).writes = true →
      (((Feed.initial t).run cfg (ss ++ rs ++ [.look])).written n).getLast? =
        (((Feed.initial t).run cfg (ss ++ rs)).built n).getLast? := by
  intro h
  obtain ⟨f, hf⟩ : ∃ f, (Feed.initial Flooding.newThread).run .default
    (flood marketDataCapacity ++ List.replicate marketDataCapacity .look) = f := ⟨_, rfl⟩
  have hlast := h .default Flooding.newThread (flood marketDataCapacity)
    (List.replicate marketDataCapacity .look) 1 Flooding.booted_newThread (by decide +kernel)
  have hdrained : f.gateway.pc = .leaving 1 ∧ (f.gateway.conns 1).isSome = true ∧ f.queues 1 = [] ∧
      f.airing = [] ∧
      f.writes = true ∧ ¬((f.run .default [.look]).written 1).getLast? = (f.built 1).getLast? := by
    rw [← hf]
    decide +kernel
  rw [feedRun_append _ _ (_ ++ _), hf] at hlast
  obtain ⟨hpc, hn, hq, hidle, hwrites, hstale⟩ := hdrained
  exact hstale (hlast hpc hn hq hidle hwrites)

end OrderMatching.Convergence
