import OrderMatching.StepCases
import OrderMatching.Uncrossed

namespace OrderMatching.TimePriority

open OrderMatching.Orders OrderMatching.Book OrderMatching.BookInvariant OrderMatching.Walk
open OrderMatching.Crossing OrderMatching.Queues OrderMatching.Commands OrderMatching.Exchange
open OrderMatching.MatchingThread OrderMatching.LedgerStep OrderMatching.LogFold
open OrderMatching.Registry OrderMatching.Acceptance OrderMatching.Bookkeeping OrderMatching.Answers
open OrderMatching.Modify OrderMatching.Uncrossed

def KeptInPlace (b b' : OrderBook) (x quantity : Nat) : Prop :=
  ∀ s, queue b' s = (queue b s).map fun o => if o.id = x then { o with quantity := quantity } else o

/-- The modified order has the next exchange id and nothing has the old one; what
does not trade at once rests, and nothing at its price stands behind it. -/
structure GoesBehind (l : Ledger) (r : Result) (x : Nat) (c : OrderCommand) : Prop where
  newId : ∀ o ∈ l.book.allOrders, o.id ≠ l.nextExchangeId
  acked : .ack c.session c.clientOrderId l.nextExchangeId false ∈ r.2
  gone : ∀ o ∈ r.1.book.allOrders, o.id ≠ x
  rests : ∀ s, l.sideOf x = some s → 0 < (outcome (withdrawn l x) (replacement c s)).remaining →
    ∃ o ∈ queue r.1.book s, o.id = l.nextExchangeId
  behind : ∀ s, ∀ o ∈ queue r.1.book s, o.id = l.nextExchangeId →
    o.priceTicks = c.priceTicks.toInt ∧
    ∃ pre post, queue r.1.book s = pre ++ o :: post ∧ ∀ q ∈ post, q.priceTicks ≠ o.priceTicks

def AsksNoMore (l : Ledger) (x : Nat) (c : OrderCommand) : Prop :=
  ∃ o ∈ l.book.allOrders, o.id = x ∧ c.priceTicks.toInt = o.priceTicks ∧
    c.quantity.toNat ≤ o.quantity
deriving Decidable

/-- The table of the protocol's documentation. -/
def Honoured (l : Ledger) (r : Result) (x : Nat) (c : OrderCommand) : Prop :=
  (AsksNoMore l x c → KeptInPlace l.book r.1.book x c.quantity.toNat) ∧
    (¬AsksNoMore l x c → GoesBehind l r x c)

theorem dropWhile_worse {s : Side} {k : Int} {os : List Order}
    (h : os.Pairwise fun a b => rank s a.priceTicks ≤ rank s b.priceTicks) {r : Order}
    (hr : r ∈ os.dropWhile fun o => rank s o.priceTicks ≤ k) : k < rank s r.priceTicks := by
  induction os with
  | nil => simp at hr
  | cons o os ih =>
    obtain ⟨ho, hos⟩ := List.pairwise_cons.mp h
    by_cases hle : rank s o.priceTicks ≤ k
    · rw [List.dropWhile_cons_of_pos (by simpa using hle)] at hr
      exact ih hos hr
    · rw [List.dropWhile_cons_of_neg (by simpa using hle)] at hr
      obtain rfl | hr := List.mem_cons.mp hr
      · exact not_le.mp hle
      · exact lt_of_lt_of_le (not_le.mp hle) (ho r hr)

theorem restAtBack_behind {order : Order} {os : List Order}
    (h : os.Pairwise fun a b => rank order.side a.priceTicks ≤ rank order.side b.priceTicks) :
    ∃ pre post, restAtBack order os = pre ++ order :: post ∧ ∀ r ∈ post,
      r.priceTicks ≠ order.priceTicks := by
  refine ⟨_, _, rfl, fun r hr heq => ?_⟩
  have hworse := dropWhile_worse h hr
  rw [heq] at hworse
  exact lt_irrefl _ hworse

section Replacing

variable {l : Ledger} {live : Nat → Option Entry} (h : Sound l live) {risk : RiskConfig}
  {c : OrderCommand} {x : Nat}
  {e : Entry}

include h

theorem sound_withdrawn (x : Nat) : Sound (withdrawn l x) (Function.update live x none) :=
  h.cancel x

theorem id_withdrawn {s : Side} {o : Order} (ho : o ∈ queue (withdrawn l x).book s) :
    o.id < l.nextExchangeId ∧ o.id ≠ x := by
  rw [queue_withdrawn h, List.mem_filter] at ho
  exact ⟨(h.fresh o (mem_queue.mpr ⟨s, ho.1⟩)).2, by simpa using ho.2⟩

theorem x_lt_next (he : live x = some e) : x < l.nextExchangeId := by
  obtain ⟨o, ho, rfl⟩ := h.backed x e he
  exact (h.fresh o ho).2

variable (hrisk : (withdrawn l x).checkRisk risk (replacement c e.side) = .none)

include hrisk

theorem accepted_replaced :
    Accepted (withdrawn l x) (Function.update live x none) (replacement c e.side)
    (stepNewOrder risk (withdrawn l x) (replacement c e.side)).1 :=
  (sound_withdrawn h x).accepted hrisk

theorem id_opposite {o : Order}
    (ho : o ∈ queue (stepNewOrder risk (withdrawn l x) (replacement c e.side)).1.book
      e.side.opposite) :
    o.id < l.nextExchangeId ∧ o.id ≠ x := by
  have hopp := (accepted_replaced h hrisk).opposite
  change queue _ e.side.opposite = _ at hopp
  rw [hopp] at ho
  obtain ⟨r, hr, k, rfl, -⟩ := walk_leftover ho
  exact id_withdrawn h (o := r) hr

theorem own_replaced :
    queue (stepNewOrder risk (withdrawn l x) (replacement c e.side)).1.book e.side =
      if (outcome (withdrawn l x) (replacement c e.side)).remaining = 0 then
        queue (withdrawn l x).book e.side
      else
        restAtBack
          { (withdrawn l x).incoming (replacement c e.side) with
            quantity := (outcome (withdrawn l x) (replacement c e.side)).remaining }
          (queue (withdrawn l x).book e.side) := by
  have hown := (accepted_replaced h hrisk).own
  have hlimit : (replacement c e.side).orderType ≠ .market := by simp [replacement]
  simp only [hlimit, false_or] at hown
  exact hown

theorem mem_own_replaced {o : Order}
    (ho : o ∈ queue (stepNewOrder risk (withdrawn l x) (replacement c e.side)).1.book e.side) :
    (o.id < l.nextExchangeId ∧ o.id ≠ x) ∨
      (o.id = l.nextExchangeId ∧ o.priceTicks = c.priceTicks.toInt ∧
        ∃ pre post, queue (stepNewOrder risk (withdrawn l x) (replacement c e.side)).1.book e.side =
          pre ++ o :: post ∧ ∀ q ∈ post, q.priceTicks ≠ o.priceTicks) := by
  have hv : Valid (withdrawn l x).book := (sound_withdrawn h x).settled.valid
  rw [own_replaced h hrisk] at ho ⊢
  by_cases hrem : (outcome (withdrawn l x) (replacement c e.side)).remaining = 0
  · rw [if_pos hrem] at ho
    exact .inl (id_withdrawn h ho)
  · rw [if_neg hrem] at ho ⊢
    obtain rfl | ho := mem_restAtBack.mp ho
    · exact .inr ⟨(withdrawn_frame l x).2, rfl,
        restAtBack_behind (sideOrders_sorted (hv.side e.side))⟩
    · exact .inl (id_withdrawn h ho)

/-- Whatever a Modify asks for, the order goes to the back. -/
theorem goesBehind_replaced (he : live x = some e) :
    GoesBehind l (stepNewOrder risk (withdrawn l x) (replacement c e.side)) x c := by
  have hx := x_lt_next h he
  have hnext := (withdrawn_frame l x).2
  refine ⟨fun o ho => (h.fresh o ho).2.ne, ?_, fun o ho => ?_, fun s hs hrem => ?_,
    fun s o ho hid => ?_⟩
  · rw [stepNewOrder_eq (sound_withdrawn h x) hrisk, ← hnext]
    exact List.mem_cons_self
  · obtain ho | ho := (mem_queues e.side).mp ho
    · obtain ⟨-, hne⟩ | ⟨hid, -⟩ := mem_own_replaced h hrisk ho
      · exact hne
      · omega
    · exact (id_opposite h hrisk ho).2
  · obtain rfl : e.side = s := by
      rw [h.registers.side, he] at hs
      exact Option.some.inj hs
    rw [own_replaced h hrisk, if_neg hrem.ne']
    exact ⟨_, mem_restAtBack.mpr (.inl rfl), hnext⟩
  · by_cases hs : e.side = s
    · subst hs
      obtain ⟨hlt, -⟩ | ⟨-, hbehind⟩ := mem_own_replaced h hrisk ho
      · omega
      · exact hbehind
    · obtain rfl := eq_opposite_of_ne hs
      have hlt := (id_opposite h hrisk ho).1
      omega

theorem not_kept_replaced (he : live x = some e) (q : Nat) :
    ¬KeptInPlace l.book (stepNewOrder risk (withdrawn l x) (replacement c e.side)).1.book x q := by
  intro hkept
  obtain ⟨o, ho, rfl⟩ := h.backed x e he
  obtain ⟨s, hs⟩ := mem_queue.mp ho
  have hmem : { o with quantity := q } ∈
      queue (stepNewOrder risk (withdrawn l o.id) (replacement c e.side)).1.book s := by
    rw [hkept s]
    exact List.mem_map.mpr ⟨o, hs, if_pos rfl⟩
  exact (goesBehind_replaced h hrisk he).gone _ (mem_queue.mpr ⟨s, hmem⟩) rfl

end Replacing

/-- Every accepted Modify of a live order sends it to the back under a new
exchange id, so the table is honoured just where the price changes or the quantity
increases. -/
theorem honoured_iff {env : Env} {t : Thread} {c : OrderCommand} (ht : Reached t)
    (hc : c.type = .modify) (hadm : admits env t c = true)
    (hlive : t.ledger.findOrder c.session c.clientOrderId ≠ 0)
    (hack : ∃ ev ∈ answers env t c, ev.type = .ack) :
    GoesBehind t.ledger ((t.apply env c).ledger, answers env t c)
      (t.ledger.findOrder c.session c.clientOrderId) c ∧
      (Honoured t.ledger ((t.apply env c).ledger, answers env t c)
          (t.ledger.findOrder c.session c.clientOrderId) c ↔
        ¬AsksNoMore t.ledger (t.ledger.findOrder c.session c.clientOrderId) c) := by
  obtain ⟨live, h⟩ := ht.sound
  obtain ⟨⟨e, he, -⟩, -⟩ := sound_found h hlive
  obtain ⟨hledger, hanswers⟩ := answers_admitted hadm
  have hstep : step t.risk t.ledger c =
      stepNewOrder t.risk (withdrawn t.ledger (t.ledger.findOrder c.session c.clientOrderId))
        (replacement c e.side) := by
    rw [step, hc]
    exact stepModify_found h t.risk hlive he
  rw [hstep] at hledger hanswers
  have hrisk : (withdrawn t.ledger (t.ledger.findOrder c.session c.clientOrderId)).checkRisk t.risk
      (replacement c e.side) = .none := by
    by_contra hne
    rw [hanswers, stepNewOrder_rejects hne] at hack
    simp [OrderEvent.reject] at hack
  rw [hledger, hanswers]
  have hbehind := goesBehind_replaced h hrisk he
  refine ⟨hbehind, fun hh hmore => ?_, fun hmore => ⟨fun hno => absurd hno hmore, fun _ => hbehind⟩⟩
  exact not_kept_replaced h hrisk he _ (hh.1 hmore)

def twoBids : Thread :=
  ((Thread.fresh .default none ⟨"", 0⟩).apply .obliging (.newOrder 1 1 100 10 .bid .limit)).apply
    .obliging (.newOrder 2 1 100 10 .bid .limit)

theorem reached_twoBids : Reached twoBids := .apply _ _ (.apply _ _ (.fresh _ _ _))

theorem repriced_twoBids : ¬AsksNoMore twoBids.ledger 1 (.modify 1 1 101 10) ∧
    Honoured twoBids.ledger ((twoBids.apply .obliging (.modify 1 1 101 10)).ledger,
      answers .obliging twoBids (.modify 1 1 101 10)) 1 (.modify 1 1 101 10) :=
  ⟨by decide +kernel,
    (honoured_iff reached_twoBids rfl rfl (by decide +kernel) (by decide +kernel)).2.mpr
      (by decide +kernel)⟩

/-- The first of them asks for less, and loses its place. -/
theorem priority_lost :
    ¬∀ (env : Env) (t : Thread) (c : OrderCommand), Reached t → c.type = .modify →
    admits env t c = true → t.ledger.findOrder c.session c.clientOrderId ≠ 0 →
    (∃ ev ∈ answers env t c, ev.type = .ack) →
    Honoured t.ledger ((t.apply env c).ledger, answers env t c)
      (t.ledger.findOrder c.session c.clientOrderId) c := by
  intro h
  have hkept := (h .obliging twoBids (.modify 1 1 100 5) reached_twoBids rfl rfl (by decide +kernel)
    (by decide +kernel)).1 (by decide +kernel) .bid
  exact absurd hkept (by decide +kernel)

end OrderMatching.TimePriority
