import OrderMatching.Bookkeeping

namespace OrderMatching.KeyIndex

open OrderMatching.Orders OrderMatching.Book OrderMatching.Engine OrderMatching.Queues
open OrderMatching.Commands OrderMatching.Exchange OrderMatching.MatchingThread
open OrderMatching.LedgerStep OrderMatching.Registry OrderMatching.Fills OrderMatching.Acceptance
open OrderMatching.Bookkeeping

def Indexed (l : Ledger) (live : Nat → Option Entry) : Prop :=
  ∀ x e, live x = some e → l.byClientId e.key = some x

theorem indexed_initial : Indexed Ledger.initial (fun _ => none) := by simp [Indexed]

theorem indexed_forgetOrder {l : Ledger} {live : Nat → Option Entry} (hr : Registers l live)
    (hi : Indexed l live) (x : Nat) : Indexed (l.forgetOrder x) (Function.update live x none) := by
  intro y e hy
  have hyx : y ≠ x := by
    rintro rfl
    simp at hy
  rw [Function.update_of_ne hyx] at hy
  rw [byClient_forgetOrder hr.toColumns, if_neg]
  · exact hi y e hy
  · intro hkey
    obtain ⟨d, hd, hde⟩ := Option.map_eq_some_iff.mp hkey
    have hx := hi x d hd
    rw [hde, hi y e hy, Option.some.injEq] at hx
    exact hyx hx

theorem indexed_insert {l l' : Ledger} {live : Nat → Option Entry} (hi : Indexed l live) (x : Nat)
    (e : Entry) (hkey : ∀ y d, live y = some d → d.key ≠ e.key)
    (hbyClient : l'.byClientId = Function.update l.byClientId e.key (some x)) :
    Indexed l' (Function.update live x (some e)) := by
  intro y d hy
  rw [hbyClient]
  by_cases hyx : y = x
  · rw [hyx, Function.update_self, Option.some.injEq] at hy
    rw [← hy, hyx, Function.update_self]
  · rw [Function.update_of_ne hyx] at hy
    rw [Function.update_of_ne (hkey y d hy)]
    exact hi y d hy

theorem indexed_routeFill {l : Ledger} {live : Nat → Option Entry} (hr : Registers l live)
    (hi : Indexed l live) (x : Nat) (t : Trade) :
    Indexed (routeFill l x t).1 (fillEntry live x t.quantity) := by
  cases hx : live x with
  | none =>
    have ho : l.ownerOf x = none := by rw [hr.owner, hx]; rfl
    have hsame : fillEntry live x t.quantity = live := by
      rw [fillEntry, hx, Option.bind_none, ← hx, Function.update_eq_self]
    simp only [routeFill, ho, hsame]
    exact hi
  | some e =>
    have ho : l.ownerOf x = some e.owner := by rw [hr.owner, hx]; rfl
    have hrem : l.remainingOf x = some e.remaining := by rw [hr.remaining, hx]; rfl
    have hset := hr.setRemaining hx (e.remaining - t.quantity)
    have hiset : Indexed { l with
        remainingOf := Function.update l.remainingOf x (some (e.remaining - t.quantity)) }
        (Function.update live x (some { e with remaining := e.remaining - t.quantity })) := by
      intro y d hy
      by_cases hyx : y = x
      · rw [hyx, Function.update_self, Option.some.injEq] at hy
        rw [← hy, hyx]
        exact hi x e hx
      · rw [Function.update_of_ne hyx] at hy
        exact hi y d hy
    simp only [routeFill, ho, hrem, Option.getD_some, fillEntry, hx, Option.bind_some]
    split
    · simpa using indexed_forgetOrder hset hiset x
    · exact hiset

theorem indexed_publishAll {l : Ledger} {live : Nat → Option Entry} (hr : Registers l live)
    (hi : Indexed l live) (trades : List Trade) :
    Indexed (publishAll l trades).1 (trades.foldl fillTrade live) := by
  induction trades generalizing l live with
  | nil => exact hi
  | cons t trades ih =>
    have hr₁ := (hr.setLastTrade t.priceTicks).routeFill t.buyerId t
    have hi₁ : Indexed { l with lastTradeTicks := t.priceTicks } live := hi
    have hi₂ := indexed_routeFill (hr.setLastTrade t.priceTicks) hi₁ t.buyerId t
    exact ih (hr₁.routeFill t.sellerId t) (indexed_routeFill hr₁ hi₂ t.sellerId t)

theorem indexed_cancel {l : Ledger} {live : Nat → Option Entry} (h : Sound l live)
    (hi : Indexed l live) (x : Nat) :
    Indexed ((l.process (cancelRequest x)).2.forgetOrder x) (Function.update live x none) := by
  have hr : Registers (l.process (cancelRequest x)).2 live := h.registers.setEngine _
  have hi' : Indexed (l.process (cancelRequest x)).2 live := hi
  exact indexed_forgetOrder hr hi' x

theorem key_free {l : Ledger} {live : Nat → Option Entry} (hi : Indexed l live) {s coid : UInt64}
    {y : Nat} {e : Entry} (hy : Function.update live (l.findOrder s coid) none y = some e) :
    e.key ≠ keyOf s coid := by
  have hne : y ≠ l.findOrder s coid := by
    rintro rfl
    simp at hy
  rw [Function.update_of_ne hne] at hy
  intro hkey
  have hk : l.byClientId (keyOf s coid) = some y := hkey ▸ hi y e hy
  rw [Ledger.findOrder, hk] at hne
  exact hne rfl

theorem indexed_cancelOrders {l : Ledger} {live : Nat → Option Entry} (h : Sound l live)
    (hi : Indexed l live) (ids : List Nat) : Indexed (cancelOrders l ids) (without live ids) := by
  induction ids generalizing l live with
  | nil => exact without_nil live ▸ hi
  | cons x ids ih => exact without_cons live x ids ▸ ih (h.cancel x) (indexed_cancel h hi x)

/-- An order under a key that no live order has keeps the index complete. -/
theorem indexed_newOrder {l : Ledger} {live : Nat → Option Entry} (h : Sound l live)
    (hi : Indexed l live) {risk : RiskConfig} {c : OrderCommand}
    (hrisk : l.checkRisk risk c = .none)
    (hkey : ∀ y e, live y = some e → e.key ≠ keyOf c.session c.clientOrderId) :
    Indexed (stepNewOrder risk l c).1 (liveAfter l live c) := by
  have hreg := (h.registers.recordOrder c h.not_live).setEngine
    (l.engine.processOrder (l.incoming c)).2
  have hidx : Indexed (matched l c) (Function.update live l.nextExchangeId (some (entryOf c))) :=
    indexed_insert hi l.nextExchangeId (entryOf c) hkey rfl
  have hpub : Indexed (publishAll (matched l c) (printed l c)).1.clearTradeLog _ :=
    indexed_publishAll hreg hidx (printed l c)
  have hpubReg : Registers (publishAll (matched l c) (printed l c)).1.clearTradeLog _ :=
    (hreg.publishAll (printed l c)).setEngine _
  rw [stepNewOrder_eq h hrisk, liveAfter, ← fold_printed h c]
  dsimp only
  split
  · exact indexed_forgetOrder hpubReg hpub l.nextExchangeId
  · exact hpub

end OrderMatching.KeyIndex
