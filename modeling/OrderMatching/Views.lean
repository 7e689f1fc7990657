import OrderMatching.MatchingThread

namespace OrderMatching.Views

open OrderMatching.Orders OrderMatching.Commands OrderMatching.Exchange OrderMatching.MatchingThread

variable {α : Type} {view : Thread → α}

/-- A view of the thread in which neither the ledger nor the delivery of events
shows. -/
def IgnoresEvents (view : Thread → α) : Prop :=
  ∀ (t : Thread) (ledger : Ledger) (emitted : List OrderEvent) (asked : Nat)
    (pushed : List (Nat × OrderEvent)) (overflowed : Nat → Bool) (stats : MatchingStats),
    view { t with
      ledger := ledger, emitted := emitted, asked := asked, pushed :=
        pushed, overflowed := overflowed,
                  stats := stats } = view t

def IgnoresBook (view : Thread → α) : Prop :=
  ∀ (t : Thread) (bookSeq asked : Nat) (mdPushed : List (Nat × BookSnapshot)) (dropped : Nat),
    view { t with bookSeq := bookSeq, asked := asked, mdPushed := mdPushed,
                  stats := { t.stats with marketDataDropped := dropped } } = view t

section Book

variable (h : IgnoresBook view) (env : Env)

include h

theorem IgnoresBook.publishTo (snap : BookSnapshot) (t : Thread) (sub : UInt64 × UInt8) :
    view (t.publishTo env snap sub) = view t := by
  unfold Thread.publishTo
  split
  · rfl
  · dsimp only
    split
    · exact h t t.bookSeq _ _ t.stats.marketDataDropped
    · exact h t t.bookSeq _ t.mdPushed _

theorem IgnoresBook.publishBook (t : Thread) : view (t.publishBook env) = view t := by
  have hfold : ∀ (snap : BookSnapshot) (subs : List (UInt64 × UInt8)) (t : Thread),
      view (subs.foldl (Thread.publishTo env snap) t) = view t := by
    intro snap subs
    induction subs with
    | nil => exact fun _ => rfl
    | cons sub subs ih => exact fun t => (ih _).trans (h.publishTo env snap t sub)
  unfold Thread.publishBook
  split
  · rfl
  · split
    · rfl
    · exact (hfold _ _ _).trans (h t _ t.asked t.mdPushed t.stats.marketDataDropped)

end Book

section Events

variable (h : IgnoresEvents view) (env : Env)

include h

theorem IgnoresEvents.setLedger (t : Thread) (l : Ledger) : view { t with ledger := l } = view t :=
  h t l t.emitted t.asked t.pushed t.overflowed t.stats

theorem IgnoresEvents.emit (t : Thread) (eg : Option Nat) (e : OrderEvent) :
    view (t.emit env eg e) = view t := by
  unfold Thread.emit
  dsimp only
  split
  · exact h t t.ledger _ t.asked t.pushed t.overflowed t.stats
  · split
    · exact h t t.ledger _ t.asked t.pushed t.overflowed t.stats
    · split
      · exact h t t.ledger _ _ _ t.overflowed _
      · exact h t t.ledger _ _ t.pushed _ _

theorem IgnoresEvents.pushTombstone (t : Thread) (s : UInt64) :
    view (t.pushTombstone env s) = view t := by
  unfold Thread.pushTombstone
  split
  · rfl
  · split
    · exact h t t.ledger t.emitted _ _ t.overflowed t.stats
    · exact h t t.ledger t.emitted _ t.pushed t.overflowed t.stats

theorem IgnoresEvents.routeFill (t : Thread) (xoid : Nat) (trade : Trade) :
    view (t.routeFill env xoid trade) = view t := by
  unfold Thread.routeFill
  split
  · rfl
  · have hemit := fun (l : Ledger) eg e =>
      (h.emit env { t with ledger := l } eg e).trans (h.setLedger t l)
    dsimp only
    split
    · exact (h.setLedger _ _).trans (hemit _ _ _)
    · exact hemit _ _ _

theorem IgnoresEvents.publishTrades (t : Thread) (start : Nat) :
    view (t.publishTrades env start) = view t := by
  have hone : ∀ (t : Thread) (trade : Trade), view (t.publishTrade env trade) = view t :=
    fun t trade =>
    (h.routeFill env _ _ trade).trans ((h.routeFill env _ _ trade).trans (h.setLedger t _))
  have hall : ∀ (trades : List Trade) (t : Thread),
      view (trades.foldl (Thread.publishTrade env) t) = view t := by
    intro trades
    induction trades with
    | nil => exact fun _ => rfl
    | cons trade trades ih => exact fun t => (ih _).trans (hone t trade)
  exact (h.setLedger _ _).trans (hall _ t)

variable (hbook : IgnoresBook view)

include hbook

theorem IgnoresEvents.applyNewOrder (t : Thread) (c : OrderCommand) :
    view (t.applyNewOrder env c) = view t := by
  unfold Thread.applyNewOrder
  dsimp only
  split
  · exact h.emit env _ _ _
  · have hset := fun l l' :
      Ledger => (h.setLedger { t with ledger := l } l').trans (h.setLedger t l)
    split
    · have hpub := fun (t' : Thread) start =>
        (hbook.publishBook env (t'.publishTrades env start)).trans (h.publishTrades env t' start)
      split
      · exact (h.setLedger _ _).trans ((hpub _ _).trans ((h.emit env _ _ _).trans (hset _ _)))
      · exact (hpub _ _).trans ((h.emit env _ _ _).trans (hset _ _))
    · exact (h.emit env _ _ _).trans ((h.setLedger _ _).trans (hset _ _))

theorem IgnoresEvents.applyCancel (t : Thread) (c : OrderCommand) :
    view (t.applyCancel env c) = view t := by
  unfold Thread.applyCancel
  dsimp only
  split
  · exact h.emit env _ _ _
  · split
    · exact (hbook.publishBook env _).trans
        ((h.emit env _ _ _).trans ((h.setLedger _ _).trans (h.setLedger t _)))
    · exact (h.emit env _ _ _).trans (h.setLedger t _)

theorem IgnoresEvents.applyModify (t : Thread) (c : OrderCommand) :
    view (t.applyModify env c) = view t := by
  unfold Thread.applyModify
  dsimp only
  split
  · exact h.emit env _ _ _
  · have hset := fun l l' :
      Ledger => (h.setLedger { t with ledger := l } l').trans (h.setLedger t l)
    split
    · exact (h.applyNewOrder env hbook _ _).trans ((h.setLedger _ _).trans (hset _ _))
    · exact (h.emit env _ _ _).trans (hset _ _)

end Events

end OrderMatching.Views
