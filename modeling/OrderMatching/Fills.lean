import OrderMatching.Registry

namespace OrderMatching.Fills

open OrderMatching.Orders OrderMatching.BookUpdates OrderMatching.Walk OrderMatching.Priority
open OrderMatching.Queues OrderMatching.Registry

theorem fillEntry_of_ne (live : Nat → Option Entry) {x y : Nat} (h : y ≠ x) (q : Nat) :
    fillEntry live x q y = live y := Function.update_of_ne h _ _

theorem fillEntry_self {live : Nat → Option Entry} {x : Nat} {e : Entry} (h : live x = some e)
    (q : Nat) :
    fillEntry live x q x =
      if e.remaining - q = 0 then none else some { e with remaining := e.remaining - q } := by
  simp [fillEntry, h]

theorem fillEntry_comm (live : Nat → Option Entry) {x y : Nat} (h : x ≠ y) (q : Nat) :
    fillEntry (fillEntry live x q) y q = fillEntry (fillEntry live y q) x q := by
  simp only [fillEntry, Function.update_of_ne h, Function.update_of_ne (Ne.symm h)]
  exact Function.update_comm h _ _ live

def fillBoth (n : Nat) (live : Nat → Option Entry) (f : Fill) : Nat → Option Entry :=
  fillEntry (fillEntry live n f.quantity) f.order.id f.quantity

theorem fillTrade_tradeOf {order : Order} {f : Fill} (h : f.order.id ≠ order.id)
    (live : Nat → Option Entry) :
    fillTrade live (tradeOf order f) = fillBoth order.id live f := by
  have hp := parties_tradeOf order f
  cases hs : order.side with
  | bid =>
    simp only [parties, hs, Prod.mk.injEq] at hp
    simp only [fillTrade, fillBoth, hp.1, hp.2.1, hp.2.2]
  | ask =>
    simp only [parties, hs, Prod.mk.injEq] at hp
    simp only [fillTrade, fillBoth, hp.1, hp.2.1, hp.2.2]
    exact fillEntry_comm live h _

theorem fillBoth_of_ne (n : Nat) (live : Nat → Option Entry) (f : Fill) {x : Nat} (hx : x ≠ n)
    (ho : x ≠ f.order.id) :
    fillBoth n live f x = live x := by
  rw [fillBoth, fillEntry_of_ne _ ho, fillEntry_of_ne _ hx]

theorem fillBoth_incoming {n : Nat} {live : Nat → Option Entry} {f : Fill} {e : Entry}
    (hne : f.order.id ≠ n) (he : live n = some e) :
    fillBoth n live f n =
      if e.remaining - f.quantity = 0 then none
      else some { e with remaining := e.remaining - f.quantity } := by
  rw [fillBoth, fillEntry_of_ne _ (Ne.symm hne)]
  exact fillEntry_self he _

theorem fillBoth_resting {n : Nat} {live : Nat → Option Entry} {f : Fill} {e : Entry}
    (hne : f.order.id ≠ n) (he : live f.order.id = some e) :
    fillBoth n live f f.order.id =
      if e.remaining - f.quantity = 0 then none
      else some { e with remaining := e.remaining - f.quantity } := by
  have he' : fillEntry live n f.quantity f.order.id = some e := by rw [fillEntry_of_ne _ hne, he]
  exact fillEntry_self he' _

/-- The table while an order walks the other side: `q` is left of the incoming
order, and the queue still to be walked is in the table as it rests. -/
structure Standing (n : Nat) (e₀ : Entry) (q : Nat) (os : List Order)
    (live : Nat → Option Entry) : Prop where
  incoming : live n = if q = 0 then none else some { e₀ with remaining := q }
  queued : ∀ o ∈ os, 0 < o.quantity ∧ o.id ≠ n ∧ ∃ e, live o.id = some e ∧ e.remaining = o.quantity
  nodup : (os.map Order.id).Nodup

theorem Standing.fill {n q : Nat} {e₀ : Entry} {o : Order} {os : List Order}
    {live : Nat → Option Entry} (h : Standing n e₀ q (o :: os) live) (hq : 0 < q) :
    Standing n e₀ (q - min q o.quantity) os (fillBoth n live ⟨o, min q o.quantity⟩) := by
  have hon : o.id ≠ n := (h.queued o (by simp)).2.1
  have hnodup := h.nodup
  rw [List.map_cons, List.nodup_cons] at hnodup
  refine ⟨?_, fun o' ho' => ?_, hnodup.2⟩
  · have hn := h.incoming
    rw [if_neg (by omega)] at hn
    exact fillBoth_incoming hon hn
  · obtain ⟨h1, h2, h3⟩ := h.queued o' (by simp [ho'])
    have hne : o'.id ≠ o.id := fun hid => hnodup.1 (hid ▸ List.mem_map_of_mem ho')
    exact ⟨h1, h2, by rwa [fillBoth_of_ne n live _ h2 hne]⟩

/-- The fills of a walk, entered one by one, leave the table where the walk
leaves the queue. -/
theorem fills_live (accept : Int → Bool) (n : Nat) (e₀ : Entry) (os : List Order) (q : Nat)
    (live : Nat → Option Entry) (h : Standing n e₀ q os live) :
    let r := walk accept os q
    let live' := r.fills.foldl (fillBoth n) live
    live' n = (if r.remaining = 0 then none else some { e₀ with remaining := r.remaining }) ∧
      (∀ o ∈ r.leftover, ∀ e, live o.id = some e →
        live' o.id = some { e with remaining := o.quantity }) ∧
      (∀ o ∈ os, (live' o.id).isSome = true → ∃ o' ∈ r.leftover, o'.id = o.id) ∧
      ∀ x, x ≠ n → x ∉ os.map Order.id → live' x = live x := by
  induction os generalizing q live with
  | nil => exact ⟨h.incoming, by simp [walk], by simp, fun _ _ _ => rfl⟩
  | cons o os ih =>
    obtain ⟨hpos, hon, e, he, hrem⟩ := h.queued o (by simp)
    have hnodup := h.nodup
    rw [List.map_cons, List.nodup_cons] at hnodup
    by_cases hq : q > 0 ∧ accept o.priceTicks = true
    · let live₁ := fillBoth n live ⟨o, min q o.quantity⟩
      have hself : live₁ o.id = if o.quantity - min q o.quantity = 0 then none
          else some { e with remaining := o.quantity - min q o.quantity } := by
        have hfill : live₁ o.id = _ := fillBoth_resting hon he
        rwa [hrem] at hfill
      have hother : ∀ x, x ≠ n → x ≠ o.id → live₁ x = live x :=
        fun x hx hxo => fillBoth_of_ne n live _ hx hxo
      obtain ⟨i1, i2, i3, i4⟩ := ih (q - min q o.quantity) live₁ (h.fill hq.1)
      rw [walk_cons hq.1 hq.2]
      refine ⟨i1, ?_, ?_, ?_⟩
      · intro o' ho' e' he'
        obtain ho' | ho' := List.mem_append.mp ho'
        · obtain ⟨hr, -⟩ | ⟨hr, hlt⟩ := remainder_cases q o
          · simp [hr] at ho'
          · rw [hr, List.mem_singleton] at ho'
            subst ho'
            have hee : e' = e := by simpa [he] using he'.symm
            have hmin : min q o.quantity = q := Nat.min_eq_left hlt.le
            refine (i4 o.id hon hnodup.1).trans (hself.trans ?_)
            rw [hmin, if_neg (by omega), hee]
        · obtain ⟨r, hr, k, hk, -⟩ := walk_leftover ho'
          have hid : o'.id = r.id := by rw [hk]
          have hne : r.id ≠ o.id := fun hid => hnodup.1 (hid ▸ List.mem_map_of_mem hr)
          refine i2 o' ho' e' ?_
          rw [hid, hother _ (h.queued r (by simp [hr])).2.1 hne, ← hid]
          exact he'
      · intro o' ho' hsome
        obtain rfl | ho' := List.mem_cons.mp ho'
        · have hl : live₁ o'.id ≠ none := by
            rw [← i4 o'.id hon hnodup.1]
            exact Option.isSome_iff_ne_none.mp hsome
          obtain ⟨hr, hle⟩ | ⟨hr, hlt⟩ := remainder_cases q o'
          · rw [hself, Nat.min_eq_right hle, Nat.sub_self, if_pos rfl] at hl
            exact absurd rfl hl
          · refine ⟨{ o' with quantity := o'.quantity - q }, List.mem_append_left _ ?_, rfl⟩
            rw [hr]
            exact List.mem_singleton.mpr rfl
        · obtain ⟨o'', h1, h2⟩ := i3 o' ho' hsome
          exact ⟨o'', List.mem_append_right _ h1, h2⟩
      · intro x hx hxs
        rw [List.map_cons, List.mem_cons, not_or] at hxs
        exact (i4 x hx hxs.2).trans (hother x hx hxs.1)
    · have hw : walk accept (o :: os) q = ⟨[], q, o :: os⟩ := by simp only [walk, hq, if_false]
      rw [hw]
      refine ⟨h.incoming, ?_, fun o' ho' _ => ⟨o', ho', rfl⟩, fun x _ _ => rfl⟩
      intro o' ho' e' he'
      obtain ⟨-, -, e'', h1, h2⟩ := h.queued o' ho'
      have hee : e' = e'' := by simpa [he'] using h1
      rw [hee, ← h2]
      exact h1

/-- Both parties of every trade are in the table when it is entered, with
enough left to pay for it. -/
def Covered : (Nat → Option Entry) → List Trade → Prop
  | _, [] => True
  | live, t :: ts =>
    (∃ e, live t.buyerId = some e ∧ t.quantity ≤ e.remaining) ∧
      (∃ e, live t.sellerId = some e ∧ t.quantity ≤ e.remaining) ∧ t.buyerId ≠ t.sellerId ∧
      Covered (fillTrade live t) ts

theorem covered_fills (accept : Int → Bool) (order : Order) {e₀ : Entry} {os : List Order} {q : Nat}
    {live : Nat → Option Entry} (h : Standing order.id e₀ q os live) :
    Covered live ((walk accept os q).fills.map (tradeOf order)) := by
  induction os generalizing q live with
  | nil => trivial
  | cons o os ih =>
    obtain ⟨-, hon, e, he, hrem⟩ := h.queued o (by simp)
    by_cases hq : q > 0 ∧ accept o.priceTicks = true
    · have hn := h.incoming
      rw [if_neg (by omega)] at hn
      have hp := parties_tradeOf order ⟨o, min q o.quantity⟩
      have hrest := ih (h.fill hq.1)
      rw [walk_cons hq.1 hq.2, List.map_cons, Covered,
        fillTrade_tradeOf (f := ⟨o, min q o.quantity⟩) hon]
      have hin : ∃ e, live order.id = some e ∧ min q o.quantity ≤ e.remaining :=
        ⟨_, hn, Nat.min_le_left _ _⟩
      have hout : ∃ e, live o.id = some e ∧ min q o.quantity ≤ e.remaining :=
        ⟨e, he, hrem ▸ Nat.min_le_right _ _⟩
      cases hs : order.side with
      | bid =>
        simp only [parties, hs, Prod.mk.injEq] at hp
        rw [hp.1, hp.2.1, hp.2.2]
        exact ⟨hin, hout, hon.symm, hrest⟩
      | ask =>
        simp only [parties, hs, Prod.mk.injEq] at hp
        rw [hp.1, hp.2.1, hp.2.2]
        exact ⟨hout, hin, hon, hrest⟩
    · have hw : walk accept (o :: os) q = ⟨[], q, o :: os⟩ := by simp only [walk, hq, if_false]
      rw [hw]
      trivial

end OrderMatching.Fills
