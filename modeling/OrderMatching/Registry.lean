import OrderMatching.LedgerStep
import OrderMatching.Queues

namespace OrderMatching.Registry

open OrderMatching.Orders OrderMatching.Book OrderMatching.BookInvariant OrderMatching.Engine
open OrderMatching.Walk OrderMatching.Priority OrderMatching.Commands OrderMatching.Exchange
open OrderMatching.LedgerStep OrderMatching.Queues

structure Entry where
  owner : UInt64
  client : UInt64
  remaining : Nat
  side : Side

def Entry.key (e : Entry) : UInt64 := keyOf e.owner e.client

structure Columns (l : Ledger) (live : Nat → Option Entry) : Prop where
  owner : ∀ x, l.ownerOf x = (live x).map Entry.owner
  client : ∀ x, l.clientIdOf x = (live x).map Entry.client
  remaining : ∀ x, l.remainingOf x = (live x).map Entry.remaining
  side : ∀ x, l.sideOf x = (live x).map Entry.side

/-- The index by session is exact. The index by key may miss a live order, but
what it holds is live and has that key. -/
structure Registers (l : Ledger) (live : Nat → Option Entry) : Prop extends Columns l live where
  session : ∀ s x, x ∈ (l.sessionOrders s).getD [] ↔ (live x).map Entry.owner = some s
  byClient : ∀ k x, l.byClientId k = some x → (live x).map Entry.key = some k

theorem Columns.update {l l' : Ledger} {live : Nat → Option Entry} (h : Columns l live) (x : Nat)
    (e : Option Entry) (howner : l'.ownerOf = Function.update l.ownerOf x (e.map Entry.owner))
    (hclient : l'.clientIdOf = Function.update l.clientIdOf x (e.map Entry.client))
    (hremaining : l'.remainingOf = Function.update l.remainingOf x (e.map Entry.remaining))
    (hside : l'.sideOf = Function.update l.sideOf x (e.map Entry.side)) :
    Columns l' (Function.update live x e) := by
  have hcol : ∀ {β : Type} {m m' : Nat → Option β} {f : Entry → β}, (∀ y, m y = (live y).map f) →
      m' = Function.update m x (e.map f) → ∀ y, m' y = (Function.update live x e y).map f := by
    intro β m m' f hm hm' y
    by_cases hy : y = x
    · simp [hm', hy]
    · simp [hm', Function.update_of_ne hy, hm y]
  exact ⟨hcol h.owner howner, hcol h.client hclient, hcol h.remaining hremaining, hcol h.side hside⟩

theorem Registers.setEngine {l : Ledger} {live : Nat → Option Entry} (h : Registers l live)
    (e : MatchingEngine) :
    Registers { l with engine := e } live :=
  ⟨⟨h.owner, h.client, h.remaining, h.side⟩, h.session, h.byClient⟩

theorem Registers.setLastTrade {l : Ledger} {live : Nat → Option Entry} (h : Registers l live)
    (p : Int) :
    Registers { l with lastTradeTicks := p } live :=
  ⟨⟨h.owner, h.client, h.remaining, h.side⟩, h.session, h.byClient⟩

theorem registers_initial : Registers Ledger.initial (fun _ => none) :=
  ⟨⟨fun _ => rfl, fun _ => rfl, fun _ => rfl, fun _ => rfl⟩, by simp [Ledger.initial],
    by simp [Ledger.initial]⟩

theorem Columns.forgetOrder_known {l : Ledger} {live : Nat → Option Entry} (h : Columns l live)
    {x : Nat} {e : Entry} (hx : live x = some e) : l.forgetOrder x =
      { l with
        byClientId := Function.update l.byClientId (keyOf e.owner e.client) none
        sessionOrders :=
          Function.update l.sessionOrders e.owner
            ((l.sessionOrders e.owner).map (List.filter (fun id => id ≠ x)))
        ownerOf := Function.update l.ownerOf x none
        clientIdOf := Function.update l.clientIdOf x none
        remainingOf := Function.update l.remainingOf x none
        sideOf := Function.update l.sideOf x none } := by
  have hs : l.ownerOf x = some e.owner := by rw [h.owner, hx]; rfl
  have hc : l.clientIdOf x = some e.client := by rw [h.client, hx]; rfl
  simp [Ledger.forgetOrder, hs, hc]

theorem Columns.forgetOrder_unknown {l : Ledger} {live : Nat → Option Entry} (h : Columns l live)
    {x : Nat} (hx : live x = none) : l.forgetOrder x = l := by
  have hupdate : ∀ {β : Type} {m : Nat → Option β} {f : Entry → β}, (∀ y, m y = (live y).map f) →
      Function.update m x none = m := by
    intro β m f hm
    have hmx : m x = none := by rw [hm, hx]; rfl
    rw [← hmx, Function.update_eq_self]
  have hs : l.ownerOf x = none := by rw [h.owner, hx]; rfl
  simp only [Ledger.forgetOrder, hs, hupdate h.client, hupdate h.remaining, hupdate h.side]

/-- A forgotten order takes its key out of the index, whoever is found there. -/
theorem byClient_forgetOrder {l : Ledger} {live : Nat → Option Entry} (h : Columns l live) (x : Nat)
    (k : UInt64) :
    (l.forgetOrder x).byClientId k =
      if (live x).map Entry.key = some k then none else l.byClientId k := by
  cases hx : live x with
  | none =>
    rw [h.forgetOrder_unknown hx]
    simp
  | some e =>
    rw [h.forgetOrder_known hx]
    dsimp only
    by_cases hk : k = keyOf e.owner e.client
    · have hkey : (some e).map Entry.key = some (keyOf e.owner e.client) := rfl
      rw [hk, Function.update_self, if_pos hkey]
    · rw [Function.update_of_ne hk, if_neg]
      rw [Option.map_some, Option.some.injEq]
      exact fun he => hk he.symm

theorem Registers.forgetOrder {l : Ledger} {live : Nat → Option Entry} (h : Registers l live)
    (x : Nat) :
    Registers (l.forgetOrder x) (Function.update live x none) := by
  cases hx : live x with
  | none =>
    rw [h.forgetOrder_unknown hx, ← hx, Function.update_eq_self]
    exact h
  | some e =>
    rw [h.forgetOrder_known hx]
    refine ⟨h.toColumns.update x none rfl rfl rfl rfl, fun s y => ?_, fun k y hk => ?_⟩
    · have hmem : y ∈ (Function.update l.sessionOrders e.owner
          ((l.sessionOrders e.owner).map (List.filter (fun id => id ≠ x))) s).getD [] ↔
          y ∈ (l.sessionOrders s).getD [] ∧ (s = e.owner → y ≠ x) := by
        by_cases hs : s = e.owner
        · subst hs
          cases l.sessionOrders e.owner <;> simp
        · simp [hs]
      rw [hmem, h.session s y]
      by_cases hy : y = x
      · subst hy
        simp [hx, eq_comm]
      · simp [hy]
    · dsimp only at hk
      by_cases hkey : k = keyOf e.owner e.client
      · simp [hkey] at hk
      · rw [Function.update_of_ne hkey] at hk
        have hk' := h.byClient k y hk
        have hy : y ≠ x := by
          rintro rfl
          rw [hx, Option.map_some, Option.some.injEq] at hk'
          exact hkey hk'.symm
        rwa [Function.update_of_ne hy]

theorem mem_insertOrder {orders : Option (List Nat)} {x y : Nat} :
    y ∈ insertOrder orders x ↔ y = x ∨ y ∈ orders.getD [] := by
  unfold insertOrder
  split
  · exact ⟨Or.inr, fun h => h.elim (fun he => he ▸ by assumption) id⟩
  · simp [or_comm]

theorem Registers.insert {l l' : Ledger} {live : Nat → Option Entry} (h : Registers l live)
    {x : Nat} (e : Entry) (hfresh : live x = none)
    (howner : l'.ownerOf = Function.update l.ownerOf x (some e.owner))
    (hclient : l'.clientIdOf = Function.update l.clientIdOf x (some e.client))
    (hremaining : l'.remainingOf = Function.update l.remainingOf x (some e.remaining))
    (hside : l'.sideOf = Function.update l.sideOf x (some e.side))
    (hsession : l'.sessionOrders =
      Function.update l.sessionOrders e.owner (some (insertOrder (l.sessionOrders e.owner) x)))
    (hkey : l'.byClientId = Function.update l.byClientId e.key (some x)) :
    Registers l' (Function.update live x (some e)) := by
  refine ⟨h.toColumns.update x (some e) howner hclient hremaining hside, fun s y => ?_,
    fun k y hk => ?_⟩
  · have hmem : y ∈ (l'.sessionOrders s).getD [] ↔ y ∈ (l.sessionOrders s).getD [] ∨
        (s = e.owner ∧ y = x) := by
      by_cases hs : s = e.owner
      · subst hs
        simp [hsession, mem_insertOrder, or_comm]
      · simp [hsession, hs]
    rw [hmem, h.session s y]
    by_cases hy : y = x
    · subst hy
      simp [hfresh, eq_comm]
    · simp [hy]
  · rw [hkey] at hk
    by_cases hke : k = e.key
    · rw [hke, Function.update_self, Option.some.injEq] at hk
      rw [← hk, Function.update_self, hke]
      rfl
    · rw [Function.update_of_ne hke] at hk
      have hlive := h.byClient k y hk
      have hy : y ≠ x := by
        rintro rfl
        simp [hfresh] at hlive
      rwa [Function.update_of_ne hy]

theorem Registers.recordOrder {l : Ledger} {live : Nat → Option Entry} (h : Registers l live)
    (c : OrderCommand) (hfresh : live l.nextExchangeId = none) :
    Registers (l.recordOrder c) (Function.update live l.nextExchangeId
      (some ⟨c.session, c.clientOrderId, c.quantity.toNat, c.side⟩)) :=
  h.insert ⟨c.session, c.clientOrderId, c.quantity.toNat, c.side⟩ hfresh rfl rfl rfl rfl rfl rfl

theorem Registers.setRemaining {l : Ledger} {live : Nat → Option Entry} (h : Registers l live)
    {x : Nat} {e : Entry} (hx : live x = some e) (q : Nat) :
    Registers { l with remainingOf := Function.update l.remainingOf x (some q) }
      (Function.update live x (some { e with remaining := q })) := by
  have hcol : ∀ {β : Type} (f : Entry → β), f { e with remaining := q } = f e →
      ∀ y, (Function.update live x (some { e with remaining := q }) y).map f = (live y).map f := by
    intro β f hf y
    by_cases hy : y = x
    · simp [hy, hx, hf]
    · simp [Function.update_of_ne hy]
  refine ⟨⟨fun y => ?_, fun y => ?_, fun y => ?_, fun y => ?_⟩, fun s y => ?_, fun k y hk => ?_⟩
  · exact (h.owner y).trans (hcol Entry.owner rfl y).symm
  · exact (h.client y).trans (hcol Entry.client rfl y).symm
  · by_cases hy : y = x
    · simp [hy]
    · simpa [Function.update_of_ne hy] using h.remaining y
  · exact (h.side y).trans (hcol Entry.side rfl y).symm
  · rw [hcol Entry.owner rfl y]
    exact h.session s y
  · rw [hcol Entry.key rfl y]
    exact h.byClient k y hk

/-- A fill of `q` in the table. -/
def fillEntry (live : Nat → Option Entry) (x q : Nat) : Nat → Option Entry :=
  Function.update live x ((live x).bind fun e =>
    if e.remaining - q = 0 then none else some { e with remaining := e.remaining - q })

theorem Registers.routeFill {l : Ledger} {live : Nat → Option Entry} (h : Registers l live)
    (x : Nat) (t : Trade) :
    Registers (routeFill l x t).1 (fillEntry live x t.quantity) := by
  cases hx : live x with
  | none =>
    have ho : l.ownerOf x = none := by rw [h.owner, hx]; rfl
    have hsame : fillEntry live x t.quantity = live := by
      rw [fillEntry, hx, Option.bind_none, ← hx, Function.update_eq_self]
    simp only [LedgerStep.routeFill, ho, hsame]
    exact h
  | some e =>
    have ho : l.ownerOf x = some e.owner := by rw [h.owner, hx]; rfl
    have hr : l.remainingOf x = some e.remaining := by rw [h.remaining, hx]; rfl
    have hset := h.setRemaining hx (e.remaining - t.quantity)
    simp only [LedgerStep.routeFill, ho, hr, Option.getD_some, fillEntry, hx, Option.bind_some]
    split
    · simpa using hset.forgetOrder x
    · exact hset

def fillTrade (live : Nat → Option Entry) (t : Trade) : Nat → Option Entry :=
  fillEntry (fillEntry live t.buyerId t.quantity) t.sellerId t.quantity

theorem Registers.publishAll {l : Ledger} {live : Nat → Option Entry} (h : Registers l live)
    (trades : List Trade) :
    Registers (publishAll l trades).1 (trades.foldl fillTrade live) := by
  induction trades generalizing l live with
  | nil => exact h
  | cons t trades ih =>
    have h' := ((h.setLastTrade t.priceTicks).routeFill t.buyerId t).routeFill t.sellerId t
    exact ih h'

end OrderMatching.Registry
