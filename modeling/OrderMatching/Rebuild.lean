import Mathlib.Data.List.TakeWhile
import OrderMatching.KeyIndex

namespace OrderMatching.Rebuild

open OrderMatching.Orders OrderMatching.Book OrderMatching.BookInvariant OrderMatching.Engine
open OrderMatching.Crossing OrderMatching.Queues OrderMatching.Exchange OrderMatching.Snapshot
open OrderMatching.Registry OrderMatching.Acceptance OrderMatching.KeyIndex

theorem restAtBack_worst {order : Order} {os : List Order}
    (h : ∀ o ∈ os, rank order.side o.priceTicks ≤ rank order.side order.priceTicks) :
    restAtBack order os = os ++ [order] := by
  have hall : ∀ o ∈ os,
      decide (rank order.side o.priceTicks ≤ rank order.side order.priceTicks) = true :=
    fun o ho => by simpa using h o ho
  simp only [restAtBack, List.takeWhile_eq_self_iff.mpr hall, List.dropWhile_eq_nil_iff.mpr hall]

theorem filter_allOrders {b : OrderBook} (h : Valid b) (s : Side) :
    b.allOrders.filter (fun o => o.side = s) = queue b s := by
  have hall : ∀ t, (queue b t).filter (fun o => o.side = s) = if t = s then queue b t else [] := by
    intro t
    split
    · rename_i hts
      exact List.filter_eq_self.mpr fun o ho => by simp [queue_side h ho, hts]
    · rename_i hts
      exact List.filter_eq_nil_iff.mpr fun o ho => by simp [queue_side h ho, hts]
  have hsplit : b.allOrders = queue b .bid ++ queue b .ask := rfl
  rw [hsplit, List.filter_append, hall, hall]
  cases s <;> simp

theorem queue_addOrder {b : OrderBook} (h : Valid b) {o : Order} (hk : o.kind = .limit)
    (hlast : ∀ r ∈ queue b o.side, rank o.side r.priceTicks ≤ rank o.side o.priceTicks) (s : Side) :
    queue (b.addOrder o) s = queue b s ++ [o].filter (fun r => r.side = s) := by
  obtain ⟨hown, hopp⟩ := sideOrders_addOrder h hk
  by_cases hs : o.side = s
  · subst hs
    have hback : restAtBack o (sideOrders (b.levels o.side)) = queue b o.side ++ [o] :=
      restAtBack_worst hlast
    rw [queue, hown, hback]
    simp
  · rw [queue, eq_opposite_of_ne hs, hopp]
    simp [queue, opposite_ne, Ne.symm]

theorem restoredOrder_exportOrder {l : Ledger} {o : Order} (hk : o.kind = .limit) :
    restoredOrder (exportOrder l o) = o := by
  obtain ⟨id, price, qty, side, kind, stamp⟩ := o
  cases side <;> simp_all [restoredOrder, exportOrder]

def kept (live : Nat → Option Entry) (os : List Order) (x : Nat) : Option Entry :=
  if x ∈ os.map Order.id then live x else none

theorem kept_concat {live : Nat → Option Entry} {o : Order} {e : Entry} (he : live o.id = some e)
    (os : List Order) :
    kept live (os ++ [o]) = Function.update (kept live os) o.id (some e) := by
  funext x
  by_cases hx : x = o.id
  · simp [kept, hx, he]
  · simp [kept, hx]

theorem mem_of_kept {live : Nat → Option Entry} {os : List Order} {x : Nat} {e : Entry}
    (h : kept live os x = some e) :
    x ∈ os.map Order.id ∧ live x = some e := by
  unfold kept at h
  split at h
  · exact ⟨by assumption, h⟩
  · cases h

theorem exported_sorted {b : OrderBook} (h : Valid b) {os rest : List Order} {o : Order}
    (hall : b.allOrders = os ++ o :: rest) :
    ∀ r ∈ os.filter (fun r => r.side = o.side),
      rank o.side r.priceTicks ≤ rank o.side o.priceTicks := by
  have hsort := sideOrders_sorted (h.side o.side)
  rw [show sideOrders (b.levels o.side) = _ from (filter_allOrders h o.side).symm, hall,
    List.filter_append, List.filter_cons_of_pos (by simp), List.pairwise_append] at hsort
  exact fun r hr => hsort.2.2 r hr o (by simp)

structure Rebuilding (live : Nat → Option Entry) (os : List Order) (l : Ledger) : Prop where
  registers : Registers l (kept live os)
  valid : Valid l.book
  queues : ∀ s, queue l.book s = os.filter (fun o => o.side = s)
  quiet : l.engine.tradeLog = []

theorem kept_nil (live : Nat → Option Entry) : kept live [] = fun _ => none := by
  funext x
  simp [kept]

theorem rebuilding_initial (live : Nat → Option Entry) (lastTrade : Int) (next : Nat) :
    Rebuilding live [] { Ledger.initial with
      lastTradeTicks := lastTrade, nextExchangeId := next } := by
  refine ⟨?_, valid_empty, fun s => by cases s <;> rfl, rfl⟩
  rw [kept_nil]
  exact ⟨⟨fun _ => rfl, fun _ => rfl, fun _ => rfl, fun _ => rfl⟩, by simp [Ledger.initial],
    by simp [Ledger.initial]⟩

theorem byClient_restoreOrder {l : Ledger} {live : Nat → Option Entry} (h : Sound l live)
    {o : Order} {e : Entry} (he : live o.id = some e) (l' : Ledger) :
    (restoreOrder l' (exportOrder l o)).byClientId =
      Function.update l'.byClientId e.key (some o.id) := by
  have howner : (exportOrder l o).session = e.owner := by simp [exportOrder, h.registers.owner, he]
  have hclient : (exportOrder l o).clientOrderId = e.client := by
    simp [exportOrder, h.registers.client, he]
  rw [Entry.key, ← howner, ← hclient]
  rfl

theorem exported_new {l : Ledger} {live : Nat → Option Entry} (h : Sound l live)
    {os rest : List Order} {o : Order} (hall : l.book.allOrders = os ++ o :: rest) :
    o.id ∉ os.map Order.id := by
  have hnodup := h.settled.valid.nodup
  rw [hall, List.map_append, List.nodup_append] at hnodup
  exact fun hm => hnodup.2.2 o.id hm o.id (by simp) rfl

theorem rebuilding_step {l l' : Ledger} {live : Nat → Option Entry} (h : Sound l live)
    {os rest : List Order} {o : Order} (hall : l.book.allOrders = os ++ o :: rest)
    (hr : Rebuilding live os l') :
    Rebuilding live (os ++ [o]) (restoreOrder l' (exportOrder l o)) := by
  have ho : o ∈ l.book.allOrders := by simp [hall]
  obtain ⟨s, hs⟩ := mem_queue.mp ho
  have hlimit : o.kind = .limit := ((h.settled.valid.side s).mem hs).2
  obtain ⟨e, he, hrem, hside⟩ := h.rests o ho
  have hnew := exported_new h hall
  have howner : (exportOrder l o).session = e.owner := by simp [exportOrder, h.registers.owner, he]
  have hclient : (exportOrder l o).clientOrderId = e.client := by
    simp [exportOrder, h.registers.client, he]
  have hrestored := restoredOrder_exportOrder (l := l) hlimit
  have hbook : (restoreOrder l' (exportOrder l o)).book = l'.book.addOrder o :=
    congrArg l'.book.addOrder hrestored
  have hlast : ∀ r ∈ queue l'.book o.side, rank o.side r.priceTicks ≤ rank o.side o.priceTicks := by
    rw [hr.queues]
    exact exported_sorted h.settled.valid hall
  refine ⟨?_, ?_, ?_, hr.quiet⟩
  · rw [kept_concat he]
    refine hr.registers.insert e (by simp [kept, hnew]) ?_ ?_ ?_ ?_ ?_
      (byClient_restoreOrder h he l')
    · rw [← howner]
      rfl
    · rw [← hclient]
      rfl
    · rw [hrem]
      rfl
    · rw [hside, ← congrArg Order.side hrestored]
      rfl
    · rw [← howner]
      rfl
  · rw [hbook]
    refine addOrder_valid hr.valid o fun r hr' => ?_
    obtain ⟨t, ht⟩ := mem_queue.mp hr'
    rw [hr.queues] at ht
    exact fun hid => hnew (hid ▸ List.mem_map_of_mem (List.mem_of_mem_filter ht))
  · intro t
    rw [hbook, queue_addOrder hr.valid hlimit hlast, hr.queues, List.filter_append]

theorem rebuilding_all {l l' : Ledger} {live : Nat → Option Entry} (h : Sound l live)
    {os rest : List Order} (hall : l.book.allOrders = os ++ rest) (hr : Rebuilding live os l') :
    Rebuilding live l.book.allOrders ((rest.map (exportOrder l)).foldl restoreOrder l') := by
  induction rest generalizing os l' with
  | nil => simpa [hall] using hr
  | cons o rest ih => exact ih (by simp [hall]) (rebuilding_step h hall hr)

theorem indexed_step {l l' : Ledger} {live : Nat → Option Entry} (h : Sound l live)
    (hi : Indexed l live) {os rest : List Order} {o : Order}
    (hall : l.book.allOrders = os ++ o :: rest) (hkept : Indexed l' (kept live os)) :
    Indexed (restoreOrder l' (exportOrder l o)) (kept live (os ++ [o])) := by
  obtain ⟨e, he, -⟩ := h.rests o (by simp [hall])
  rw [kept_concat he]
  refine indexed_insert hkept o.id e (fun y d hy hkey => ?_) (byClient_restoreOrder h he l')
  obtain ⟨hmem, hlive⟩ := mem_of_kept hy
  have hsame : some y = some o.id := by rw [← hi y d hlive, ← hi o.id e he, hkey]
  exact exported_new h hall (Option.some.inj hsame ▸ hmem)

theorem indexed_all {l l' : Ledger} {live : Nat → Option Entry} (h : Sound l live)
    (hi : Indexed l live) {os rest : List Order} (hall : l.book.allOrders = os ++ rest)
    (hkept : Indexed l' (kept live os)) :
    Indexed ((rest.map (exportOrder l)).foldl restoreOrder l') (kept live l.book.allOrders) := by
  induction rest generalizing os l' with
  | nil => simpa [hall] using hkept
  | cons o rest ih => exact ih (by simp [hall]) (indexed_step h hi hall hkept)

theorem restoreOrder_frame (l : Ledger) (sos : List SnapshotOrder) :
    (sos.foldl restoreOrder l).lastTradeTicks = l.lastTradeTicks ∧
      (sos.foldl restoreOrder l).nextExchangeId = l.nextExchangeId := by
  induction sos generalizing l with
  | nil => exact ⟨rfl, rfl⟩
  | cons so sos ih => exact ih (restoreOrder l so)

theorem clock_restored (sos : List SnapshotOrder) (clock : Nat) :
    let clock' :=
      sos.foldl (fun clock so => if so.timestamp > clock then so.timestamp else clock) clock
    clock ≤ clock' ∧ ∀ so ∈ sos, so.timestamp ≤ clock' := by
  induction sos generalizing clock with
  | nil => simp
  | cons so sos ih =>
    obtain ⟨h1, h2⟩ := ih (if so.timestamp > clock then so.timestamp else clock)
    have hmax : clock ≤ (if so.timestamp > clock then so.timestamp else clock) ∧
        so.timestamp ≤ (if so.timestamp > clock then so.timestamp else clock) := by
      split <;> omega
    refine ⟨hmax.1.trans h1, fun so' hso' => ?_⟩
    obtain rfl | hso' := List.mem_cons.mp hso'
    · exact hmax.2.trans h1
    · exact h2 so' hso'

theorem kept_all {l : Ledger} {live : Nat → Option Entry} (h : Sound l live) :
    kept live l.book.allOrders = live := by
  funext x
  unfold kept
  split
  · rfl
  · rename_i hx
    cases hlive : live x with
    | none => rfl
    | some e =>
      obtain ⟨o, ho, rfl⟩ := h.backed x e hlive
      exact absurd (List.mem_map_of_mem ho) hx

theorem sound_restore {l : Ledger} {live : Nat → Option Entry} (h : Sound l live)
    (lastSeq : UInt64) :
    let l' := restore Ledger.initial (exportSnapshot l lastSeq)
    l'.book = l.book ∧ Sound l' live ∧ l'.lastTradeTicks = l.lastTradeTicks ∧
      l'.nextExchangeId = l.nextExchangeId := by
  intro l'
  have hr := rebuilding_all h (l.book.allOrders.nil_append).symm
    (rebuilding_initial live l.lastTradeTicks l.nextExchangeId)
  obtain ⟨htrade, hnext⟩ : l'.lastTradeTicks = l.lastTradeTicks ∧
      l'.nextExchangeId = l.nextExchangeId :=
    restoreOrder_frame { Ledger.initial with
      lastTradeTicks := l.lastTradeTicks, nextExchangeId := l.nextExchangeId }
      (l.book.allOrders.map (exportOrder l))
  have hbook : l'.book = l.book :=
    book_ext hr.valid h.settled.valid fun s =>
      (hr.queues s).trans (filter_allOrders h.settled.valid s)
  have hreg : Registers l' live := by
    have hkept := hr.registers
    rw [kept_all h] at hkept
    exact ⟨⟨hkept.owner, hkept.client, hkept.remaining, hkept.side⟩, hkept.session, hkept.byClient⟩
  refine ⟨hbook, ⟨hreg, hbook ▸ h.settled, hbook ▸ h.rests, hbook ▸ h.backed, ?_, ?_, hr.quiet⟩,
    htrade, hnext⟩
  · rw [hbook, hnext]
    exact h.fresh
  · rw [hnext]
    exact h.started

/-- What an export determines: the whole book, the table and the index by key,
as long as the index is complete. -/
theorem restore_exportSnapshot {l : Ledger} {live : Nat → Option Entry} (h : Sound l live)
    (hi : Indexed l live) (lastSeq : UInt64) :
    let l' := restore Ledger.initial (exportSnapshot l lastSeq)
    l'.book = l.book ∧ Sound l' live ∧ Indexed l' live ∧ l'.lastTradeTicks = l.lastTradeTicks ∧
      l'.nextExchangeId = l.nextExchangeId ∧
      ∀ o ∈ l'.book.allOrders, o.timestamp ≤ l'.logicalClock := by
  intro l'
  obtain ⟨hbook, hsound, htrade, hnext⟩ := sound_restore h lastSeq
  refine ⟨hbook, hsound, ?_, htrade, hnext, ?_⟩
  · rw [← kept_all h]
    refine indexed_all h hi (l.book.allOrders.nil_append).symm ?_
    rw [kept_nil]
    exact fun _ _ hx => by cases hx
  · intro o ho
    rw [show l'.book = l.book from hbook] at ho
    exact (clock_restored (l.book.allOrders.map (exportOrder l)) _).2 _ (List.mem_map_of_mem ho)

end OrderMatching.Rebuild
