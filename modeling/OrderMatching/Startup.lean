import OrderMatching.Durability
import OrderMatching.LogFold
import OrderMatching.SnapshotFile

namespace OrderMatching.Startup

open OrderMatching.Commands OrderMatching.Log OrderMatching.LogRead OrderMatching.Exchange
open OrderMatching.Snapshot OrderMatching.SnapshotFile OrderMatching.MatchingThread
open OrderMatching.Durability OrderMatching.LedgerStep OrderMatching.LogFold OrderMatching.Book
open OrderMatching.Orders OrderMatching.Engine

structure Config where
  risk : RiskConfig
  walPath : String
  walCfg : WalConfig
  recover : Bool
  snapPath : String
  snapEvery : UInt64

/-- What a process finds when it starts: the bytes of a file, or the error of
opening it. -/
structure Files where
  snapshot : Except String (List UInt8)
  prev : Except String (List UInt8)
  log : Except String (List UInt8)

structure Chosen where
  haveSnapshot : Bool
  data : Image
  deriving DecidableEq

/-- The newest snapshot first, then the one kept behind it. -/
def chooseSnapshot (cfg : Config) (f : Files) : Chosen :=
  if cfg.snapPath = "" ∨ cfg.recover = false then ⟨false, .blank⟩
  else
    match readSnapshot cfg.snapPath f.snapshot .blank with
    | (.ok _, d) => ⟨true, d⟩
    | (.error _, d) =>
      match readSnapshot (cfg.snapPath ++ ".prev") f.prev d with
      | (.ok _, d) => ⟨true, d⟩
      | (.error _, d) => ⟨false, d⟩

/-- The commands to replay and the number to go on from, if the gateway does
not refuse to start. -/
def recovery (cfg : Config) (f : Files) : Option Recovery :=
  if cfg.walPath = "" ∨ cfg.recover = false then some ⟨[], 0⟩
  else
    recoverLog (chooseSnapshot cfg f).haveSnapshot (chooseSnapshot cfg f).data.lastSeq
      (readWal cfg.walPath f.log)

/-- `main` up to the start of the matching thread. `refused` is the error of
opening the log for appends. -/
def start (cfg : Config) (env : Env) (f : Files) (nowNs : UInt64) (refused : Option String) :
    Option Thread :=
  match recovery cfg f with
  | none => none
  | some r =>
    let opened := Wal.initial.openLog cfg.walPath f.log nowNs r.resumeSeq cfg.walCfg refused
    if cfg.walPath ≠ "" ∧ opened.1 = false then none
    else
      let chosen := chooseSnapshot cfg f
      let wal := if cfg.walPath = "" then none else some opened.2
      let t := Thread.fresh cfg.risk wal ⟨cfg.snapPath, cfg.snapEvery⟩
      let t :=
        if chosen.haveSnapshot then
          (t.restore chosen.data.data).setSnapshotBaseline chosen.data.lastSeq
        else t
      some (if r.pending.isEmpty then t else t.recover env r.pending)

theorem skipCovered_drop (snapSeq : UInt64) (base : Nat) (cs : List OrderCommand)
    (hfit : base + cs.length < 2 ^ 64) :
    skipCovered true snapSeq (UInt64.ofNat base + 1) cs = cs.drop (snapSeq.toNat - base) := by
  induction cs generalizing base with
  | nil => simp [skipCovered]
  | cons c cs ih =>
    rw [List.length_cons] at hfit
    have hnext : UInt64.ofNat base + 1 = UInt64.ofNat (base + 1) := by simp
    have hval : (UInt64.ofNat (base + 1)).toNat = base + 1 :=
      UInt64.toNat_ofNat_of_lt' (show _ < 2 ^ 64 by omega)
    have hrest := ih (base + 1) (by omega)
    rw [skipCovered, hnext, hrest]
    by_cases h : UInt64.ofNat (base + 1) > snapSeq
    · have hlt : snapSeq.toNat < base + 1 := hval ▸ UInt64.lt_iff_toNat_lt.mp h
      rw [if_pos (Or.inr h), Nat.sub_eq_zero_of_le (by omega), Nat.sub_eq_zero_of_le (by omega)]
      rfl
    · have hle : base + 1 ≤ snapSeq.toNat := hval ▸ UInt64.le_iff_toNat_le.mp (UInt64.not_lt.mp h)
      rw [if_neg (not_or.mpr ⟨nofun, h⟩),
        show snapSeq.toNat - base = snapSeq.toNat - (base + 1) + 1 by omega]
      rfl

theorem skipCovered_none (snapSeq seq : UInt64) (cs : List OrderCommand) :
    skipCovered false snapSeq seq cs = cs := by
  induction cs generalizing seq with
  | nil => rfl
  | cons c cs ih => simp [skipCovered, ih]

/-- How far the book goes that the replay starts from. -/
def coveredBy (c : Chosen) : Nat := if c.haveSnapshot then c.data.lastSeq.toNat else 0

/-- Recovery never refuses an intact log. It replays what the snapshot does not
cover, or all there is. -/
theorem recovery_intact {cfg : Config} {f : Files} (hwal : cfg.walPath ≠ "")
    (hrecover : cfg.recover = true) {base : Nat} {cs : List OrderCommand}
    (hlog : f.log = .ok (records (UInt64.ofNat base) cs)) (hfit : base + cs.length < 2 ^ 64) :
    ∃ r, recovery cfg f = some r ∧
      r.pending = (cs.map detached).drop (coveredBy (chooseSnapshot cfg f) - base) ∧
      r.resumeSeq.toNat =
        max (if cs = [] then 0 else base + cs.length)
          (chooseSnapshot cfg f).data.lastSeq.toNat := by
  generalize hc : chooseSnapshot cfg f = chosen
  have hread := readWal_records torn_nil cfg.walPath (UInt64.ofNat base) cs
  rw [List.append_nil] at hread
  let rd : WalReadResult := ⟨cs.map detached, if cs = [] then 0 else UInt64.ofNat base + 1,
    if cs = [] then 0 else UInt64.ofNat base + UInt64.ofNat cs.length, 0, false, 0, ""⟩
  have hlast : rd.lastSeq.toNat = if cs = [] then 0 else base + cs.length := by
    show (if cs = [] then 0 else UInt64.ofNat base + UInt64.ofNat cs.length).toNat = _
    rw [← UInt64.ofNat_add]
    split
    · rfl
    · exact UInt64.toNat_ofNat_of_lt' hfit
  have hrec : recovery cfg f =
      some ⟨skipCovered chosen.haveSnapshot chosen.data.lastSeq rd.firstSeq rd.commands,
      if rd.lastSeq > chosen.data.lastSeq then rd.lastSeq else chosen.data.lastSeq⟩ := by
    rw [recovery, if_neg (by simp [hwal, hrecover]), hc, hlog, hread]
    rfl
  refine ⟨_, hrec, ?_, ?_⟩
  · show skipCovered chosen.haveSnapshot chosen.data.lastSeq
      (if cs = [] then 0 else UInt64.ofNat base + 1) (cs.map detached) = _
    cases hs : chosen.haveSnapshot with
    | false => rw [skipCovered_none, coveredBy, hs, if_neg (by simp), Nat.zero_sub, List.drop_zero]
    | true =>
      cases cs with
      | nil => simp [skipCovered]
      | cons c cs =>
        rw [if_neg (by simp), coveredBy, hs, if_pos rfl]
        exact skipCovered_drop _ base _ (by simpa using hfit)
  · show (if rd.lastSeq > chosen.data.lastSeq then rd.lastSeq else chosen.data.lastSeq).toNat = _
    rw [← hlast]
    split
    · rename_i h
      exact (Nat.max_eq_left (UInt64.le_of_lt h)).symm
    · rename_i h
      exact (Nat.max_eq_right (UInt64.not_lt.mp h)).symm

theorem tradeLog_restore (l : Ledger) (d : SnapshotData) :
    (restore l d).engine.tradeLog = l.engine.tradeLog := by
  have hfold : ∀ (os : List SnapshotOrder) (l : Ledger),
      (os.foldl restoreOrder l).engine.tradeLog = l.engine.tradeLog := by
    intro os
    induction os with
    | nil => exact fun _ => rfl
    | cons o os ih => exact fun l => ih (restoreOrder l o)
  exact hfold d.orders _

def baseLedger (c : Chosen) : Ledger :=
  if c.haveSnapshot then restore Ledger.initial c.data.data else Ledger.initial

/-- A started gateway serves the pending commands on top of the snapshot. -/
theorem ledger_start {cfg : Config} {env : Env} {f : Files} {nowNs : UInt64} {t : Thread}
    {r : Recovery} (hr : recovery cfg f = some r) (h : start cfg env f nowNs none = some t) :
    t.ledger = fold cfg.risk (baseLedger (chooseSnapshot cfg f)) r.pending := by
  simp only [start, hr, Wal.openLog, Bool.true_eq_false, and_false, if_false,
    Option.some.injEq] at h
  generalize chooseSnapshot cfg f = chosen at h ⊢
  generalize (if cfg.walPath = "" then none else some _ : Option Wal) = wal at h
  let t₀ := Thread.fresh cfg.risk wal ⟨cfg.snapPath, cfg.snapEvery⟩
  let t₁ :=
    if chosen.haveSnapshot then
      (t₀.restore chosen.data.data).setSnapshotBaseline chosen.data.lastSeq
    else t₀
  have hledger : t₁.ledger = baseLedger chosen := by
    simp only [t₁, baseLedger]
    split <;> rfl
  have hrisk : t₁.risk = cfg.risk := by
    simp only [t₁]
    split <;> rfl
  have hquiet : t₁.ledger.engine.tradeLog = [] := by
    rw [hledger, baseLedger]
    split
    · exact tradeLog_restore _ _
    · rfl
  have ht : (if r.pending.isEmpty = true then t₁ else t₁.recover env r.pending) = t := h
  rw [← ht, ← hledger, ← hrisk]
  split
  · rename_i hnil
    rw [List.isEmpty_iff.mp hnil]
    rfl
  · exact ledger_recover env hquiet r.pending

/-- The commands numbered `a + 1` to `a + n` of a history. -/
def stretch (history : Nat → OrderCommand) (a n : Nat) : List OrderCommand :=
  (List.range' (a + 1) n).map history

def reread (l : Ledger) (seq : UInt64) : Image :=
  (readSnapshot "" (.ok (writeSnapshot (.of (exportSnapshot l seq)))) .blank).2

/-- Ledgers that come from applying these commands, each of them once and in
this order, with any number of restarts from a snapshot in between. -/
inductive Built (risk : RiskConfig) : List OrderCommand → Ledger → Prop where
  | empty : Built risk [] Ledger.initial
  | applied {cs : List OrderCommand} {l : Ledger} (c : OrderCommand) (h : Built risk cs l) :
      Built risk (cs ++ [c]) (step risk l c).1
  | restored {cs : List OrderCommand} {l : Ledger} (seq : UInt64) (h : Built risk cs l) :
      Built risk cs (restore Ledger.initial (reread l seq).data)

theorem sides_of_export (l : Ledger) (seq : UInt64) :
    ∀ o ∈ (Image.of (exportSnapshot l seq)).orders, o.side ≤ 1 := by
  intro o ho
  obtain ⟨so, hso, rfl⟩ := List.mem_map.mp ho
  obtain ⟨d, -, rfl⟩ := List.mem_map.mp hso
  show (if d.side = .bid then (0 : UInt8) else 1) ≤ 1
  split <;> decide

theorem readSnapshot_export (path : String) (l : Ledger) (seq : UInt64) (out : Image) :
    readSnapshot path (.ok (writeSnapshot (.of (exportSnapshot l seq)))) out =
      (.ok (), reread l seq) := by
  rw [reread, readSnapshot_writeSnapshot _ (sides_of_export l seq),
    readSnapshot_writeSnapshot _ (sides_of_export l seq)]

theorem lastSeq_reread (l : Ledger) (seq : UInt64) : (reread l seq).lastSeq = seq := by
  rw [reread, readSnapshot_writeSnapshot _ (sides_of_export l seq)]
  rfl

theorem step_detached (risk : RiskConfig) (l : Ledger) (c : OrderCommand) :
    step risk l (detached c) = step risk l c :=
  rfl

theorem Built.fold {risk : RiskConfig} {cs : List OrderCommand} {l : Ledger} (h : Built risk cs l)
    (ds : List OrderCommand) : Built risk (cs ++ ds) (fold risk l (ds.map detached)) := by
  induction ds generalizing cs l with
  | nil => simpa [LogFold.fold] using h
  | cons d ds ih =>
    have hnext := ih (h.applied d)
    rw [List.append_assoc, List.singleton_append] at hnext
    rw [List.map_cons, LogFold.fold, List.foldl_cons, step_detached]
    exact hnext

/-- What a restart may rely on: a snapshot that it accepts was written when just
the commands that it counts had been applied. -/
def Exported (risk : RiskConfig) (history : Nat → OrderCommand) (c : Chosen) : Prop :=
  c.haveSnapshot = true → ∃ l, Built risk (stretch history 0 c.data.lastSeq.toNat) l ∧
    c.data = reread l c.data.lastSeq

theorem started_of_recovery {cfg : Config} {f : Files} {r : Recovery} (hr : recovery cfg f = some r)
    (env : Env) (nowNs : UInt64) : ∃ t, start cfg env f nowNs none = some t := by
  simp only [start, hr, Wal.openLog, Bool.true_eq_false, and_false, if_false]
  exact ⟨_, rfl⟩

theorem Exported.base {risk : RiskConfig} {history : Nat → OrderCommand} {c : Chosen}
    (h : Exported risk history c) :
    Built risk (stretch history 0 (coveredBy c)) (baseLedger c) := by
  unfold coveredBy baseLedger
  split
  · rename_i hsnap
    obtain ⟨l, hl, hdata⟩ := h hsnap
    rw [hdata, lastSeq_reread]
    exact hl.restored _
  · exact .empty

def recovering : Config := ⟨.default, "wal", .default, true, "snap", 100⟩

def sellHistory (n : Nat) : OrderCommand :=
  .newOrder 1 (UInt64.ofNat n) (if n = 1 then 100 else 101) 5 .ask .limit

structure OneSided (b : OrderBook) : Prop where
  bids : b.bids = []
  asks : ∀ lvl ∈ b.asks, ∀ o ∈ lvl.orders, o.side = .ask

theorem OneSided.addOrder {b : OrderBook} (h : OneSided b) {o : Order} (hs : o.side = .ask) :
    OneSided (b.addOrder o) := by
  unfold OrderBook.addOrder
  split
  · exact h
  · rw [hs]
    refine ⟨h.bids, KeyedList.forall_alter (fun lvl hlvl => ?_) h.asks⟩
    cases lvl with
    | none => simp [pushBack, hs]
    | some lvl =>
      simp only [pushBack, Option.mem_some, forall_eq', List.mem_append,
        List.mem_singleton] at hlvl ⊢
      rintro x (hx | rfl)
      · exact hlvl x hx
      · exact hs

/-- A market in which `n` orders have come in, all of them to sell, and nothing
has been traded. -/
structure Offered (n : Nat) (l : Ledger) : Prop where
  next : l.nextExchangeId = n + 1
  untraded : l.lastTradeTicks = 0
  book : OneSided l.book

theorem Offered.passes {n : Nat} {l : Ledger} (h : Offered n l) (k : Nat) :
    l.checkRisk .default (sellHistory k) = .none := by
  have href : l.referencePrice = none := by
    simp [Ledger.referencePrice, h.untraded, bestTicks, OrderBook.levels, h.book.bids]
  unfold sellHistory
  split <;> simp [Ledger.checkRisk, href, OrderCommand.newOrder, RiskConfig.default]

theorem OneSided.rests {e : MatchingEngine} (h : OneSided e.book) {o : Order} (hs : o.side = .ask)
    (hk : o.kind = .limit) :
    (e.processOrder o).1.accepted = true ∧
      (e.processOrder o).2 = ⟨e.book.addOrder o, e.tradeLog⟩ := by
  let w : Sweep := ⟨e.book.addOrder o, o.quantity, e.tradeLog⟩
  have hcalm : crossing w = false := by
    simp [crossing, OrderBook.isCrossed, w, (h.addOrder hs).bids]
  have hstill : crossLoop o.id w = w := Loop.loop_false hcalm _
  simp only [MatchingEngine.processOrder, hk, true_and]
  rw [show crossLoop o.id ⟨e.book.addOrder o, o.quantity, e.tradeLog⟩ = w from hstill]

theorem Offered.sell {n : Nat} {l : Ledger} (h : Offered n l) (k : Nat) :
    Offered (n + 1) (step RiskConfig.default l (sellHistory k)).1 := by
  let o := l.incoming (sellHistory k)
  have hpass := h.passes k
  obtain ⟨hacc, hrests⟩ := h.book.rests (e := l.engine) (o := o) rfl rfl
  have hbook : OneSided (l.book.addOrder o) := h.book.addOrder rfl
  have hstep : (step RiskConfig.default l (sellHistory k)).1 =
      Ledger.clearTradeLog { l.recordOrder (sellHistory k) with
        engine := ⟨l.book.addOrder o, l.engine.tradeLog⟩ } := by
    have hprocess : ((l.recordOrder (sellHistory k)).process o).1.accepted = true := hacc
    have hledger : ((l.recordOrder (sellHistory k)).process o).2 =
        { l.recordOrder (sellHistory k) with engine := ⟨l.book.addOrder o, l.engine.tradeLog⟩ } :=
      congrArg (fun e => ({ l.recordOrder (sellHistory k) with engine := e } : Ledger)) hrests
    show (stepNewOrder RiskConfig.default l (sellHistory k)).1 = _
    simp only [stepNewOrder, hpass, ne_eq, not_true_eq_false, if_false]
    rw [if_pos hprocess, hledger]
    simp [publishTrades, publishAll, Ledger.incoming, sellHistory, OrderCommand.newOrder]
  rw [hstep]
  exact ⟨congrArg (· + 1) h.next, h.untraded, hbook⟩

theorem restored_asks {l : Ledger} (h : OneSided l.book) {os : List SnapshotOrder}
    (hs : ∀ so ∈ os, so.side = 1) :
    (os.foldl restoreOrder l).nextExchangeId = l.nextExchangeId ∧
      (os.foldl restoreOrder l).lastTradeTicks = l.lastTradeTicks ∧
      OneSided (os.foldl restoreOrder l).book := by
  induction os generalizing l with
  | nil => exact ⟨rfl, rfl, h⟩
  | cons so os ih =>
    obtain ⟨hso, hos⟩ := List.forall_mem_cons.mp hs
    have hside : (restoredOrder so).side = .ask := by simp [restoredOrder, hso]
    exact ih (l := restoreOrder l so) (h.addOrder hside) hos

theorem restore_asks {d : SnapshotData} (hs : ∀ so ∈ d.orders, so.side = 1) :
    (restore Ledger.initial d).nextExchangeId = d.nextExchangeId ∧
      (restore Ledger.initial d).lastTradeTicks = d.lastTradeTicks ∧
      OneSided (restore Ledger.initial d).book :=
  restored_asks (l := { Ledger.initial with
    lastTradeTicks := d.lastTradeTicks, nextExchangeId := d.nextExchangeId }) ⟨rfl, nofun⟩ hs

theorem Offered.restored {n : Nat} {l : Ledger} (h : Offered n l) (hn : n + 1 < 2 ^ 64)
    (seq : UInt64) :
    Offered n (restore Ledger.initial (reread l seq).data) := by
  have hread := readSnapshot_writeSnapshot "" (sides_of_export l seq) .blank
  have hasks : ∀ so ∈ (reread l seq).data.orders, so.side = 1 := by
    intro so hso
    rw [reread, hread] at hso
    obtain ⟨i, hi, rfl⟩ := List.mem_map.mp hso
    obtain ⟨d, hd, rfl⟩ := List.mem_map.mp (List.mem_of_mem_take hi)
    obtain ⟨o, ho, rfl⟩ := List.mem_map.mp hd
    have hside : o.side = .ask := by
      simp only [OrderBook.allOrders, h.book.bids, sideOrders, List.flatMap_nil, List.nil_append,
        List.mem_flatMap] at ho
      obtain ⟨lvl, hlvl, ho⟩ := ho
      exact h.book.asks lvl hlvl o ho
    simp [OrderImage.of, OrderImage.order, exportOrder, hside]
  have hnext : (reread l seq).nextExchangeId = UInt64.ofNat (n + 1) := by
    rw [reread, hread, ← h.next]
    rfl
  have hlast : (reread l seq).lastTradeTicks = Int64.ofInt 0 := by
    rw [reread, hread, ← h.untraded]
    rfl
  obtain ⟨hn', hl', hbook⟩ := restore_asks hasks
  refine ⟨hn'.trans ?_, hl'.trans ?_, hbook⟩
  · rw [Image.data, hnext]
    exact UInt64.toNat_ofNat_of_lt' hn
  · rw [Image.data, hlast]
    rfl

theorem Built.offered {cs : List OrderCommand} {l : Ledger} (h : Built .default cs l)
    (hsells : ∀ c ∈ cs, ∃ k, c = sellHistory k) (hn : cs.length + 1 < 2 ^ 64) :
    Offered cs.length l := by
  induction h with
  | empty => exact ⟨rfl, rfl, rfl, nofun⟩
  | @applied cs l c h ih =>
    obtain ⟨k, rfl⟩ := hsells c (by simp)
    rw [List.length_append, List.length_singleton] at hn ⊢
    exact (ih (fun c hc => hsells c (List.mem_append_left _ hc)) (by omega)).sell k
  | restored seq h ih => exact (ih hsells hn).restored hn seq

end OrderMatching.Startup
