import OrderMatching.BookRuns
import OrderMatching.Engine

namespace OrderMatching.Walk

open OrderMatching.Orders OrderMatching.Book OrderMatching.BookInvariant OrderMatching.BookUpdates
open OrderMatching.BookRuns OrderMatching.Engine OrderMatching.Loop

structure Fill where
  order : Order
  quantity : Nat
  deriving DecidableEq, Repr

structure Outcome where
  fills : List Fill
  remaining : Nat
  leftover : List Order
  deriving DecidableEq, Repr

/-- Price-time priority stated on its own: walk one list of resting orders and
take what each can give for as long as its price is acceptable. -/
def walk (accept : Int → Bool) : List Order → Nat → Outcome
  | [], q => ⟨[], q, []⟩
  | o :: os, q =>
    if q > 0 ∧ accept o.priceTicks then
      let r := walk accept os (q - min q o.quantity)
      ⟨⟨o, min q o.quantity⟩ :: r.fills, r.remaining, remainder (min q o.quantity) o ++ r.leftover⟩
    else ⟨[], q, o :: os⟩

def acceptable (order : Order) (p : Int) : Bool :=
  match order.kind, order.side with
  | .market, _ => true
  | _, .bid => decide (order.priceTicks ≥ p)
  | _, .ask => decide (order.priceTicks ≤ p)

theorem walk_zero (accept : Int → Bool) (os : List Order) : walk accept os 0 = ⟨[], 0, os⟩ := by
  cases os <;> simp [walk]

theorem walk_refused {accept : Int → Bool} {os : List Order}
    (h : ∀ o ∈ os.head?, accept o.priceTicks = false) (q : Nat) :
    walk accept os q = ⟨[], q, os⟩ := by
  cases os with
  | nil => rfl
  | cons o os => simp [walk, h o rfl]

theorem walk_cons {a : Int → Bool} {o : Order} {q : Nat} (hq : 0 < q)
    (ha : a o.priceTicks = true) (os : List Order) :
    walk a (o :: os) q =
      ⟨⟨o, min q o.quantity⟩ :: (walk a os (q - min q o.quantity)).fills,
        (walk a os (q - min q o.quantity)).remaining,
        remainder (min q o.quantity) o ++ (walk a os (q - min q o.quantity)).leftover⟩ := by
  simp [walk, hq, ha]

theorem walk_all {accept : Int → Bool} (ha : ∀ p, accept p = true) (os : List Order) (q : Nat) :
    (walk accept os q).remaining = q - (os.map Order.quantity).sum := by
  induction os generalizing q with
  | nil => rfl
  | cons o os ih =>
    by_cases hq : 0 < q
    · rw [walk_cons hq (ha _), List.map_cons, List.sum_cons]
      dsimp only
      rw [ih]
      omega
    · obtain rfl : q = 0 := by omega
      rw [walk_zero, Nat.zero_sub]

theorem walk_fills {accept : Int → Bool} {os : List Order} {q : Nat} {f : Fill}
    (h : f ∈ (walk accept os q).fills) : f.order ∈ os ∧ accept f.order.priceTicks = true := by
  induction os generalizing q with
  | nil => simp [walk] at h
  | cons o os ih =>
    by_cases hc : q > 0 ∧ accept o.priceTicks = true
    · rw [walk_cons hc.1 hc.2] at h
      obtain rfl | h := List.mem_cons.mp h
      · exact ⟨by simp, hc.2⟩
      · exact ⟨List.mem_cons_of_mem o (ih h).1, (ih h).2⟩
    · simp [walk, hc] at h

theorem orderCount_eq (ls : List PriceLevel) : orderCount ls = (sideOrders ls).length := by
  simp [orderCount, sideOrders, List.length_flatMap]

theorem sideOrders_ne_nil {s : Side} {ls : List PriceLevel} (h : SideValid s ls) :
    sideOrders ls = [] ↔ ls = [] := by
  refine ⟨fun hn => ?_, fun hn => by simp [hn]⟩
  by_contra hne
  obtain ⟨o, ho⟩ := front_isSome h hne
  obtain ⟨rest, he, -⟩ := sideOrders_takeFront h ho 0
  rw [he] at hn
  cases hn

theorem front_eq_head {s : Side} {ls : List PriceLevel} (h : SideValid s ls) :
    front ls = (sideOrders ls).head? := by
  cases hf : front ls with
  | none =>
    cases ls with
    | nil => rfl
    | cons lvl ls =>
      obtain ⟨o, ho⟩ := front_isSome h (List.cons_ne_nil lvl ls)
      rw [hf] at ho
      cases ho
  | some o =>
    obtain ⟨rest, he, -⟩ := sideOrders_takeFront h hf 0
    rw [he]
    rfl

theorem remainder_cases (q : Nat) (o : Order) :
    (remainder (min q o.quantity) o = [] ∧ o.quantity ≤ q) ∨
    (remainder (min q o.quantity) o = [{ o with quantity := o.quantity - q }] ∧
      q < o.quantity) := by
  by_cases h : o.quantity ≤ q
  · exact Or.inl ⟨by simp [remainder, Nat.min_eq_right h], h⟩
  · have hlt : q < o.quantity := Nat.lt_of_not_le h
    refine Or.inr ⟨?_, hlt⟩
    rw [remainder, Nat.min_eq_left hlt.le, if_neg (by omega)]

theorem round_eq {w : Sweep} (hv : Valid w.book) {s : Side} {o : Order}
    (ho : front (w.book.levels s.opposite) = some o) (id timestamp : Nat) :
    let w' := w.round id s timestamp
    ∃ rest, sideOrders (w.book.levels s.opposite) = o :: rest ∧ Valid w'.book ∧
      w'.quantity = w.quantity - min w.quantity o.quantity ∧
      sideOrders (w'.book.levels s.opposite) = remainder (min w.quantity o.quantity) o ++ rest ∧
      w'.book.levels s = w.book.levels s ∧
      w'.trades = w.trades ++ [marketTrade id s timestamp o (min w.quantity o.quantity)] := by
  obtain ⟨rest, he, hrest⟩ :=
    sideOrders_takeFront (hv.side s.opposite) ho (min w.quantity o.quantity)
  have hround : w.round id s timestamp = ⟨w.book.takeFront s.opposite (min w.quantity o.quantity) o,
      w.quantity - min w.quantity o.quantity,
      w.trades ++ [marketTrade id s timestamp o (min w.quantity o.quantity)]⟩ := by
    simp [Sweep.round, ho]
  have hv' := round_valid hv id timestamp (s := s)
  have hlv := levels_takeFront w.book s.opposite (min w.quantity o.quantity) o
  rw [opposite_opposite] at hlv
  rw [hround] at hv' ⊢
  exact ⟨rest, he, hv', rfl, by rw [hlv.1, hrest], hlv.2, rfl⟩

/-- The market loop is the reference walk with every price acceptable. -/
theorem market_loop (id : Nat) (s : Side) (timestamp n : Nat) (w : Sweep) (hv : Valid w.book)
    (hn : (sideOrders (w.book.levels s.opposite)).length ≤ n) :
    let r := walk (fun _ => true) (sideOrders (w.book.levels s.opposite)) w.quantity
    let w' := loop (Sweep.active s) (Sweep.round id s timestamp) n w
    w'.quantity = r.remaining ∧ sideOrders (w'.book.levels s.opposite) = r.leftover ∧
      w'.book.levels s = w.book.levels s ∧
      w'.trades = w.trades ++
        r.fills.map (fun f => marketTrade id s timestamp f.order f.quantity) := by
  induction n generalizing w with
  | zero =>
    have hnil := List.length_eq_zero_iff.mp (Nat.le_zero.mp hn)
    simp [loop, hnil, walk]
  | succ n ih =>
    cases hg : w.active s with
    | false =>
      rw [loop_false hg]
      have hstop : w.quantity = 0 ∨ w.book.levels s.opposite = [] := by
        simpa [Sweep.active, Nat.pos_iff_ne_zero, or_iff_not_imp_left] using hg
      obtain hz | hz := hstop
      · simp [hz, walk_zero]
      · simp [hz, walk]
    | true =>
      rw [loop_true hg]
      obtain ⟨hq, hne⟩ : 0 < w.quantity ∧ w.book.levels s.opposite ≠ [] := by
        simpa [Sweep.active] using hg
      obtain ⟨o, ho⟩ := front_isSome (hv.side s.opposite) hne
      obtain ⟨rest, he, hv', hqty, hopp, hown, htrades⟩ := round_eq hv ho id timestamp
      generalize w.round id s timestamp = w₁ at *
      rw [he, walk_cons hq rfl]
      obtain ⟨hrem, hle⟩ | ⟨hrem, hlt⟩ := remainder_cases w.quantity o
      · rw [hrem, List.nil_append] at hopp
        have hlen : rest.length ≤ n := by
          rw [he] at hn
          simpa using hn
        obtain ⟨h1, h2, h3, h4⟩ := ih w₁ hv' (by rw [hopp]; exact hlen)
        rw [hopp, hqty] at h1 h2 h4
        refine ⟨h1, by rw [h2, hrem, List.nil_append], h3.trans hown, ?_⟩
        rw [h4, htrades]
        simp
      · have hz : w.quantity - min w.quantity o.quantity = 0 := by omega
        rw [hz] at hqty
        rw [loop_false (by simp [Sweep.active, hqty]), hz, walk_zero]
        exact ⟨hqty, hopp, hown, by simp [htrades]⟩

end OrderMatching.Walk
