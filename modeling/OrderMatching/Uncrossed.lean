import OrderMatching.Rebuild

namespace OrderMatching.Uncrossed

open OrderMatching.Orders OrderMatching.Book OrderMatching.Queues OrderMatching.Commands
open OrderMatching.Log OrderMatching.Exchange OrderMatching.Snapshot OrderMatching.MatchingThread
open OrderMatching.LedgerStep OrderMatching.LogFold OrderMatching.Registry OrderMatching.Acceptance
open OrderMatching.Bookkeeping OrderMatching.Rebuild

/-- The threads of all runs. A run may start over at any point from the
snapshot of any thread reached before, under any configuration. -/
inductive Reached : Thread → Prop where
  | fresh (risk : RiskConfig) (wal : Option Wal) (snap : SnapshotPolicy) :
      Reached (Thread.fresh risk wal snap)
  | apply {t : Thread} (env : Env) (c : OrderCommand) : Reached t → Reached (t.apply env c)
  | drain {t : Thread} (env : Env) (batch : List OrderCommand) :
      Reached t → Reached (t.drain env batch)
  | recover {t : Thread} (env : Env) (cs : List OrderCommand) :
      Reached t → Reached (t.recover env cs)
  | restore {t : Thread} (risk : RiskConfig) (wal : Option Wal) (snap : SnapshotPolicy)
      (lastSeq : UInt64) :
      Reached t → Reached ((Thread.fresh risk wal snap).restore (exportSnapshot t.ledger lastSeq))

theorem sound_apply {t : Thread} (h : ∃ live, Sound t.ledger live) (env : Env) (c : OrderCommand) :
    ∃ live, Sound (t.apply env c).ledger live := by
  obtain ⟨live, h⟩ := h
  obtain ⟨-, hl | hl⟩ := ledger_apply env t c
  · exact ⟨live, hl ▸ h⟩
  · rw [hl]
    exact sound_step h t.risk c

theorem sound_applies {t : Thread} (h : ∃ live, Sound t.ledger live) (env : Env)
    (cs : List OrderCommand) :
    ∃ live, Sound (cs.foldl (Thread.applyPopped env) t).ledger live := by
  induction cs generalizing t with
  | nil => exact h
  | cons c cs ih =>
    apply ih
    exact sound_apply h env c

theorem ledger_maybeSnapshot (env : Env) (t : Thread) :
    (t.maybeSnapshot env).ledger = t.ledger := by
  obtain ⟨_, -, h⟩ := core_maybeSnapshot env t
  exact congrArg Core.ledger h

theorem ledger_drain (env : Env) (t : Thread) (batch : List OrderCommand) :
    (t.drain env batch).ledger = (batch.foldl (Thread.applyPopped env) t).ledger := by
  rw [Thread.drain, ledger_maybeSnapshot]
  split <;> rfl

theorem Reached.sound {t : Thread} (h : Reached t) : ∃ live, Sound t.ledger live := by
  induction h with
  | fresh => exact ⟨_, sound_initial⟩
  | apply env c _ ih => exact sound_apply ih env c
  | drain env batch _ ih =>
    rw [ledger_drain]
    exact sound_applies ih env batch
  | @recover t env cs _ ih =>
    obtain ⟨live, h⟩ := ih
    rw [ledger_recover env h.quiet]
    exact sound_folds t.risk cs ⟨live, h⟩
  | restore _ _ _ lastSeq _ ih =>
    obtain ⟨live, h⟩ := ih
    exact ⟨live, (sound_restore h lastSeq).2.1⟩

/-- What every step keeps, and what the book and the counters that a snapshot
saves determine, holds along every run. -/
theorem Reached.keeps {P : Ledger → Prop} (hinit : P Ledger.initial)
    (hstep : ∀ {l : Ledger} {live : Nat → Option Entry}, Sound l live → P l →
      ∀ risk c, P (step risk l c).1)
    (hsame : ∀ {l l' : Ledger}, l'.book = l.book → l'.lastTradeTicks = l.lastTradeTicks →
      l'.nextExchangeId = l.nextExchangeId → P l → P l')
    {t : Thread} (h : Reached t) : P t.ledger := by
  have happly : ∀ {t : Thread}, (∃ live, Sound t.ledger live) → P t.ledger →
      ∀ env c, P (t.apply env c).ledger := by
    intro t hs hp env c
    obtain ⟨live, hs⟩ := hs
    obtain ⟨-, hl | hl⟩ := ledger_apply env t c
    · exact hl ▸ hp
    · exact hl ▸ hstep hs hp t.risk c
  induction h with
  | fresh => exact hinit
  | apply env c ht ih => exact happly ht.sound ih env c
  | @drain t env batch ht ih =>
    rw [ledger_drain]
    have hs := ht.sound
    clear ht
    induction batch generalizing t with
    | nil => exact ih
    | cons c batch hrec =>
      exact hrec (t := t.applyPopped env c) (happly hs ih env c) (sound_apply hs env c)
  | @recover t env cs ht ih =>
    obtain ⟨live, hs⟩ := ht.sound
    rw [ledger_recover env hs.quiet]
    have hs : ∃ live, Sound t.ledger live := ⟨live, hs⟩
    generalize t.ledger = l at ih hs
    induction cs generalizing l with
    | nil => exact ih
    | cons c cs hrec =>
      obtain ⟨live, hs⟩ := hs
      exact hrec _ (hstep hs ih t.risk c) (sound_step hs t.risk c)
  | restore _ _ _ lastSeq ht ih =>
    obtain ⟨live, hs⟩ := ht.sound
    obtain ⟨hbook, -, htrade, hnext⟩ := sound_restore hs lastSeq
    exact hsame hbook htrade hnext ih

theorem best_lt_best {b : OrderBook} (h : b.isCrossed = false) {bid ask : Int}
    (hb : bestTicks b .bid = some bid) (ha : bestTicks b .ask = some ask) : bid < ask := by
  obtain ⟨bids, asks, loc⟩ := b
  cases bids with
  | nil => cases hb
  | cons l bids =>
    cases asks with
    | nil => cases ha
    | cons m asks =>
      have hl : l.priceTicks = bid := Option.some.inj hb
      have hm : m.priceTicks = ask := Option.some.inj ha
      simpa [OrderBook.isCrossed, hl, hm] using h

/-- The market is never left crossed, and nothing of quantity zero rests. -/
theorem uncrossed_of_reached {t : Thread} (h : Reached t) :
    (∀ bid ask, bestTicks t.ledger.book .bid = some bid →
      bestTicks t.ledger.book .ask = some ask → bid < ask) ∧
      ∀ o ∈ t.ledger.book.allOrders, 1 ≤ o.quantity := by
  obtain ⟨live, hs⟩ := h.sound
  exact ⟨fun bid ask => best_lt_best hs.settled.uncrossed, hs.settled.positive⟩

/-- A bid and an ask that half fill each other, with a restart from a snapshot in between. -/
def restarted : Thread :=
  ((Thread.fresh .default none ⟨"", 0⟩).restore
    (exportSnapshot
      ((Thread.fresh .default none ⟨"", 0⟩).apply .obliging
        (.newOrder 1 1 100 10 .bid .limit)).ledger 1)).apply .obliging
    (.newOrder 2 1 100 5 .ask .limit)

theorem reached_restarted : Reached restarted :=
  .apply _ _ (.restore _ _ _ _ (.apply _ _ (.fresh _ _ _)))

theorem uncrossed_restarted : bestTicks restarted.ledger.book .bid = some 100 ∧
    (∀ bid ask, bestTicks restarted.ledger.book .bid = some bid →
      bestTicks restarted.ledger.book .ask = some ask →
      bid < ask) ∧ ∀ o ∈ restarted.ledger.book.allOrders, 1 ≤ o.quantity :=
  ⟨by decide +kernel, uncrossed_of_reached reached_restarted⟩

end OrderMatching.Uncrossed
