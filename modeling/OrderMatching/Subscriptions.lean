import OrderMatching.MarketData
import OrderMatching.Protocol

namespace OrderMatching.Subscriptions

open OrderMatching.Orders OrderMatching.Book OrderMatching.BookInvariant OrderMatching.Queues
open OrderMatching.Commands OrderMatching.Exchange OrderMatching.MatchingThread
open OrderMatching.Uncrossed OrderMatching.Network OrderMatching.Threads OrderMatching.Sessions
open OrderMatching.Broadcast OrderMatching.Conflation OrderMatching.MarketData
open OrderMatching.Protocol

def bookLevel (l : Int × Nat) : BookLevel := ⟨Int64.ofInt l.1, UInt64.ofNat l.2⟩

/-- The message that `drain_market_data` makes of a snapshot. -/
def bookUpdate (snap : BookSnapshot) : BookUpdate :=
  ⟨UInt64.ofNat snap.seq, snap.bids.map bookLevel, snap.asks.map bookLevel⟩

def frame (snap : BookSnapshot) : List UInt8 :=
  encodeFrame bookUpdateType (encodeBookUpdate (bookUpdate snap))

/-- Levels of an uncrossed market, best price first, with something in each. -/
structure WellFormed (snap : BookSnapshot) : Prop where
  descending : snap.bids.Pairwise fun l m => m.1 < l.1
  ascending : snap.asks.Pairwise fun l m => l.1 < m.1
  uncrossed : ∀ bid ∈ snap.bids, ∀ ask ∈ snap.asks, bid.1 < ask.1
  positive : ∀ l ∈ snap.bids ++ snap.asks, 0 < l.2

theorem levelsTicks_sorted {b : OrderBook} (h : Valid b) (s : Side) (k : Nat) :
    (levelsTicks b s k).Pairwise fun l m => rank s l.1 < rank s m.1 := by
  rw [levelsTicks, List.pairwise_map]
  exact ((h.side s).sorted.sublist (List.take_sublist k _))

theorem levelsTicks_positive {b : OrderBook} (h : Settled b) (s : Side) (k : Nat) :
    ∀ l ∈ levelsTicks b s k, 0 < l.2 := by
  intro l hl
  obtain ⟨lvl, hlvl, rfl⟩ := List.mem_map.mp hl
  have hmem := List.mem_of_mem_take hlvl
  have hv := (h.valid.side s).level lvl hmem
  obtain ⟨o, os, hos⟩ := List.exists_cons_of_ne_nil hv.nonempty
  have hfirst : o ∈ lvl.orders := by
    rw [hos]
    exact List.mem_cons_self
  have hpos := h.positive o (mem_allOrders.mpr ⟨s, List.mem_flatMap.mpr ⟨lvl, hmem, hfirst⟩⟩)
  change 0 < lvl.totalQty
  rw [hv.total, hos, BookUpdates.quantities_cons]
  omega

theorem best_le {b : OrderBook} (h : Valid b) {s : Side} {k : Nat} {l : Int × Nat}
    (hl : l ∈ levelsTicks b s k) :
    ∃ best, bestTicks b s = some best ∧ rank s best ≤ rank s l.1 := by
  obtain ⟨lvl, hlvl, rfl⟩ := List.mem_map.mp hl
  have hmem := List.mem_of_mem_take hlvl
  have hsorted := (h.side s).sorted
  rw [bestTicks]
  cases hls : b.levels s with
  | nil =>
    rw [hls] at hmem
    exact absurd hmem List.not_mem_nil
  | cons top rest =>
    rw [hls] at hmem hsorted
    refine ⟨top.priceTicks, rfl, ?_⟩
    obtain rfl | hrest := List.mem_cons.mp hmem
    · exact Int.le_refl _
    · exact Int.le_of_lt ((List.pairwise_cons.mp hsorted).1 lvl hrest)

theorem wellFormed_levels {b : OrderBook} (h : Settled b) (seq k : Nat) :
    WellFormed ⟨seq, levelsTicks b .bid k, levelsTicks b .ask k⟩ where
  descending := (levelsTicks_sorted h.valid .bid k).imp
    fun hlt => by simpa only [rank_bid, neg_lt_neg_iff] using hlt
  ascending := levelsTicks_sorted h.valid .ask k
  uncrossed bid hbid ask hask := by
    obtain ⟨x, hx, hxl⟩ := best_le h.valid hbid
    obtain ⟨y, hy, hyl⟩ := best_le h.valid hask
    have hlt := best_lt_best h.uncrossed hx hy
    simp only [rank_bid, rank_ask] at hxl hyl
    omega
  positive l hl := by
    obtain hl | hl := List.mem_append.mp hl
    · exact levelsTicks_positive h .bid k l hl
    · exact levelsTicks_positive h .ask k l hl

def depthFor (quantity : UInt32) : Nat :=
  if quantity = 0 then maxBookDepth else min quantity.toNat maxBookDepth

theorem toNat_subscribedDepth (quantity : UInt32) :
    (subscribedDepth quantity).toNat = depthFor quantity := by
  unfold subscribedDepth depthFor
  split
  · rfl
  · exact toNat_count (Nat.min_le_right _ _)

theorem depthFor_le (quantity : UInt32) : depthFor quantity ≤ maxBookDepth := by
  unfold depthFor
  split
  · exact Nat.le_refl _
  · exact Nat.min_le_right _ _

theorem view_levels (b : OrderBook) (seq : Nat) (quantity : UInt32) :
    view b seq (subscribedDepth quantity) =
      ⟨seq, levelsTicks b .bid (depthFor quantity), levelsTicks b .ask (depthFor quantity)⟩ := by
  have hcut : ∀ s, (levelsTicks b s maxBookDepth).take (depthFor quantity) =
      levelsTicks b s (depthFor quantity) := by
    intro s
    rw [levelsTicks, ← List.map_take, List.take_take,
      Nat.min_eq_left (depthFor_le quantity), levelsTicks]
  rw [view, toNat_subscribedDepth, hcut, hcut]

theorem decode_frame {snap : BookSnapshot} (hb : snap.bids.length ≤ maxBookDepth)
    (ha : snap.asks.length ≤ maxBookDepth) :
    decodeHeader ((frame snap).take headerSize) =
        some ⟨UInt32.ofNat ((updateOf snap).size - headerSize), bookUpdateType, version⟩ ∧
      decodeBookUpdate ((frame snap).drop headerSize) = some (bookUpdate snap) := by
  have hlen := length_encodeBookUpdate (bookUpdate snap)
  simp only [bookUpdate, List.length_map, maxBookDepth] at hlen hb ha
  have hsmall : (encodeBookUpdate (bookUpdate snap)).length ≤ maxPayloadSize.toNat := by
    have hmax : maxPayloadSize.toNat = 65536 := rfl
    rw [hmax]
    exact hlen.trans_le (by omega)
  obtain ⟨hheader, hpayload⟩ := decodeHeader_encodeFrame hsmall bookUpdateType
  have hsize : (encodeBookUpdate (bookUpdate snap)).length = (updateOf snap).size - headerSize := by
    refine hlen.trans ?_
    simp only [updateOf, Reply.size, headerSize]
    omega
  rw [hsize] at hheader
  refine ⟨hheader, ?_⟩
  rw [frame, hpayload, decodeBookUpdate_encode]
  simp only [bookUpdate, ← List.map_take, List.take_of_length_le hb, List.take_of_length_le ha,
    maxBookDepth]

theorem length_levelsTicks (b : OrderBook) (s : Side) (k : Nat) :
    (levelsTicks b s k).length ≤ k := by
  rw [levelsTicks, List.length_map]
  exact List.length_take_le k _

theorem frames_wellFormed {t : Thread} (h : Booted t) (cfg : ServerConfig) (ss : List Signal)
    (n : Nat) :
    let f := (Feed.initial t).run cfg ss
    (f.written n).Pairwise (fun a b => a.seq < b.seq) ∧
      ∀ snap ∈ f.written n,
        decodeHeader ((frame snap).take headerSize) =
          some ⟨UInt32.ofNat ((updateOf snap).size - headerSize), bookUpdateType, version⟩ ∧
        decodeBookUpdate ((frame snap).drop headerSize) = some (bookUpdate snap) ∧
        WellFormed snap ∧
        ∃ rs quantity, rs <+: ss ∧
          askedDepth ((Feed.initial t).run cfg rs).gateway.applied (UInt64.ofNat n) =
            some quantity ∧
          snap.bids.length ≤ depthFor quantity ∧ snap.asks.length ≤ depthFor quantity ∧
          snap = ⟨((Feed.initial t).run cfg rs).gateway.thread.bookSeq,
            levelsTicks ((Feed.initial t).run cfg rs).gateway.thread.ledger.book .bid
              (depthFor quantity),
            levelsTicks ((Feed.initial t).run cfg rs).gateway.thread.ledger.book .ask
              (depthFor quantity)⟩ := by
  intro f
  obtain ⟨-, hordered⟩ := run_ordered h cfg ss
  have hsub : (f.written n).Sublist (f.built n) :=
    (hordered.written n).trans ((List.sublist_append_left _ _).trans (hordered.faithful n))
  refine ⟨(hordered.increasing n).sublist hsub, fun snap hsnap => ?_⟩
  obtain ⟨rs, hrs, sub, hmem, hn, hview⟩ := built_from h cfg ss n snap (hsub.subset hsnap)
  obtain ⟨hlive, -⟩ := run_ordered h cfg rs
  obtain ⟨quantity, hasked, hdepth⟩ := hlive.enrolled.depth sub hmem
  obtain ⟨live, hsound⟩ := hlive.running.addressed.sound
  have hid : sub.1 = UInt64.ofNat n := by rw [← hn, UInt64.ofNat_toNat]
  rw [hdepth, view_levels] at hview
  rw [hid] at hasked
  have hbids : snap.bids.length ≤ depthFor quantity := by
    rw [hview]
    exact length_levelsTicks _ _ _
  have hasks : snap.asks.length ≤ depthFor quantity := by
    rw [hview]
    exact length_levelsTicks _ _ _
  have hcap := depthFor_le quantity
  obtain ⟨hheader, hpayload⟩ := decode_frame (hbids.trans hcap) (hasks.trans hcap)
  refine ⟨hheader, hpayload, ?_, rs, quantity, hrs, hasked, hbids, hasks, hview⟩
  rw [hview]
  exact wellFormed_levels hsound.settled _ _

def subscription : List Signal :=
  Flooding.admission.map .gateway ++
    [.gateway (.frame 0 true (.newOrder 1 100 10 .bid .limit)), .gateway (.take .obliging),
      .gateway .push,
      .gateway (.frame 0 true (.subscribe 0)), .gateway (.take .obliging), .gateway .push, .air,
      .gateway .readDone, .look, .look]

theorem subscription_wellFormed :
    ((Feed.initial Flooding.newThread).run .default subscription).written 1 =
      [⟨1, [(100, 10)], []⟩] ∧
      WellFormed ⟨1, [(100, 10)], []⟩ := by
  have hwritten : ((Feed.initial Flooding.newThread).run .default subscription).written 1 =
      [⟨1, [(100, 10)], []⟩] := by
    decide +kernel
  refine ⟨hwritten, ?_⟩
  have hframes :=
    (frames_wellFormed Flooding.booted_newThread .default subscription 1).2 ⟨1, [(100, 10)], []⟩
  rw [hwritten] at hframes
  exact (hframes (List.mem_singleton.mpr rfl)).2.2.1

end OrderMatching.Subscriptions
