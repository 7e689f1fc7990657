import OrderMatching.LoadGen
import OrderMatching.LogFold
import OrderMatching.Queues
import OrderMatching.StepCases

namespace OrderMatching.Workload

open OrderMatching.Orders OrderMatching.Commands OrderMatching.Messages OrderMatching.Walk
open OrderMatching.Crossing OrderMatching.Priority OrderMatching.Queues OrderMatching.Exchange
open OrderMatching.LedgerStep OrderMatching.LogFold OrderMatching.Acceptance OrderMatching.LoadGen

def command (s : UInt64) (m : NewOrder) : OrderCommand :=
  .newOrder s m.clientOrderId m.priceTicks m.quantity m.side m.orderType

def quote : Side → Int
  | .bid => 999900
  | .ask => 1000100

theorem order_price (k : Nat) : (order false k).priceTicks.toInt = quote (order false k).side := by
  by_cases hk : k % 2 = 0
  · simp only [order, hk, if_true]
    decide
  · simp only [order, hk, if_false]
    decide

structure Resting (l : Ledger) : Prop where
  sound : ∃ live, Sound l live
  untraded : l.lastTradeTicks = 0
  quoted : ∀ t, ∀ o ∈ queue l.book t, o.priceTicks = quote t ∧ o.quantity = 10

variable {l : Ledger}

theorem Resting.best (h : Resting l) (t : Side) :
    bestTicks l.book t = none ∨ bestTicks l.book t = some (quote t) := by
  obtain ⟨live, hsound⟩ := h.sound
  rw [bestTicks_queue hsound.settled.valid]
  cases hq : queue l.book t with
  | nil => exact .inl rfl
  | cons o os =>
    have hprice := (h.quoted t o (by simp [hq])).1
    exact .inr (congrArg some hprice)

theorem Resting.reference (h : Resting l) :
    l.referencePrice = none ∨ l.referencePrice = some 1000000 := by
  rw [Ledger.referencePrice, h.untraded, if_neg (by decide)]
  obtain hbid | hbid := h.best .bid
  · rw [hbid]
    exact .inl rfl
  · obtain hask | hask := h.best .ask
    · rw [hbid, hask]
      exact .inl rfl
    · rw [hbid, hask]
      exact .inr (by decide)

theorem Resting.passes (h : Resting l) (s : UInt64) (k : Nat) :
    l.checkRisk .default (command s (order false k)) = .none := by
  have hprice : (command s (order false k)).priceTicks.toInt = quote (order false k).side :=
    order_price k
  have hquantity : (command s (order false k)).quantity = 10 := rfl
  have hkind : (command s (order false k)).orderType = .limit := rfl
  simp only [Ledger.checkRisk, hprice, hquantity, hkind]
  obtain hnone | hsome := h.reference
  · rw [hnone]
    cases (order false k).side <;> decide
  · rw [hsome]
    cases (order false k).side <;> decide

theorem Resting.outcome (h : Resting l) (s : UInt64) (k : Nat) :
    outcome l (command s (order false k)) =
      ⟨[], 10, queue l.book (order false k).side.opposite⟩ := by
  have hprice : (l.incoming (command s (order false k))).priceTicks = quote (order false k).side :=
    order_price k
  have hlimit : (l.incoming (command s (order false k))).kind = .limit := rfl
  refine walk_refused (fun o ho => ?_) 10
  have ho' := (h.quoted _ o (List.mem_of_mem_head? ho)).1
  rw [acceptable_limit hlimit, hprice, ho', decide_eq_false_iff_not]
  show ¬rank (order false k).side (quote (order false k).side) ≤
    rank (order false k).side (quote (order false k).side.opposite)
  cases (order false k).side <;> decide

/-- One more order rests, and its client is told so and nothing else. -/
structure Rests (l : Ledger) (s : UInt64) (k : Nat) : Prop where
  resting : Resting (step .default l (command s (order false k))).1
  grows : (step .default l (command s (order false k))).1.book.allOrders.length =
    l.book.allOrders.length + 1
  next : (step .default l (command s (order false k))).1.nextExchangeId = l.nextExchangeId + 1
  told : (step .default l (command s (order false k))).2 =
    [.ack s (UInt64.ofNat k) l.nextExchangeId false]

theorem length_allOrders (b : Book.OrderBook) (t : Side) :
    b.allOrders.length = (queue b t).length + (queue b t.opposite).length := by
  rw [(BookInvariant.allOrders_perm b t).length_eq, List.length_append]
  rfl

theorem Resting.step (h : Resting l) (s : UInt64) (k : Nat) : Rests l s k := by
  obtain ⟨live, hsound⟩ := h.sound
  have hrisk := h.passes s k
  have haccepted := hsound.accepted hrisk
  have hnone := h.outcome s k
  have hlimit : ¬((command s (order false k)).orderType = .market ∨ (10 : Nat) = 0) := by
    show ¬(OrderType.limit = .market ∨ (10 : Nat) = 0)
    decide
  have hown : queue (LedgerStep.step .default l (command s (order false k))).1.book
      (order false k).side =
      restAtBack { l.incoming (command s (order false k)) with quantity := 10 }
        (queue l.book (order false k).side) := by
    refine haccepted.own.trans ?_
    rw [hnone]
    exact if_neg hlimit
  have hopp : queue (LedgerStep.step .default l (command s (order false k))).1.book
      (order false k).side.opposite =
      queue l.book (order false k).side.opposite := by
    refine haccepted.opposite.trans ?_
    rw [hnone]
  have hlast := haccepted.lastTrade
  rw [hnone] at hlast
  have hprinted : printed l (command s (order false k)) = [] := by rw [printed, hnone, List.map_nil]
  refine ⟨⟨⟨_, sound_accepted hsound (quantity_pos hrisk) haccepted⟩, hlast.trans h.untraded,
    fun t o ho => ?_⟩, ?_, haccepted.nextId, ?_⟩
  · by_cases ht : t = (order false k).side
    · subst ht
      rw [hown, mem_restAtBack] at ho
      obtain rfl | ho := ho
      · exact ⟨order_price k, rfl⟩
      · exact h.quoted _ o ho
    · obtain rfl := eq_opposite_of_ne (Ne.symm ht)
      rw [hopp] at ho
      exact h.quoted _ o ho
  · rw [length_allOrders _ (order false k).side, hown, hopp, (restAtBack_perm _ _).length_eq,
      length_allOrders l.book (order false k).side, List.length_cons, Nat.add_right_comm]
  · have hstep := stepNewOrder_eq hsound hrisk
    rw [hprinted] at hstep
    exact congrArg Prod.snd hstep

structure Grown (xs : List (UInt64 × Nat)) (l : Ledger) : Prop where
  resting : Resting l
  size : l.book.allOrders.length = xs.length
  next : l.nextExchangeId = xs.length + 1

end OrderMatching.Workload
