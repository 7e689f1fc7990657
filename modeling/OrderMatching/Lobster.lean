import OrderMatching.BookEdits
import OrderMatching.Engine

namespace OrderMatching.Lobster

open OrderMatching.Orders OrderMatching.Book OrderMatching.BookInvariant OrderMatching.BookUpdates
open OrderMatching.BookRuns OrderMatching.BookEdits OrderMatching.Engine OrderMatching.Loop

inductive Event where
  | submission
  | cancellation
  | deletion
  | execution
  | hiddenExecution
  | halt
  | other
  deriving DecidableEq

structure LobsterMessage where
  timestampUs : Nat
  type : Int
  orderId : Nat
  size : Nat
  priceTicks : Int
  direction : Int

def LobsterMessage.event (m : LobsterMessage) : Event :=
  match m.type with
  | 1 => .submission
  | 2 => .cancellation
  | 3 => .deletion
  | 4 => .execution
  | 5 => .hiddenExecution
  | 7 => .halt
  | _ => .other

def LobsterMessage.side (m : LobsterMessage) : Side := if m.direction = 1 then .bid else .ask

def LobsterMessage.order (m : LobsterMessage) : Order :=
  ⟨m.orderId, m.priceTicks, m.size, m.side, .limit, m.timestampUs⟩

def applyMessage (e : MatchingEngine) (m : LobsterMessage) : MatchingEngine :=
  match m.event with
  | .submission => (e.processOrder m.order).2
  -- the size of a partial deletion is taken for what remains of the order
  | .cancellation => { e with book := (e.book.replaceRemainingQuantity m.orderId m.size).2 }
  | .deletion =>
    let r := e.book.cancelOrder m.orderId
    if r.1 then { e with book := r.2 }
    else { e with book := (r.2.reduceLevelAfterLobsterExecution m.side m.priceTicks m.size true).2 }
  -- a hidden execution takes from the visible level as well
  | .execution | .hiddenExecution =>
    { e with book := (e.book.reduceLevelAfterLobsterExecution m.side m.priceTicks m.size true).2 }
  | .halt | .other => e

def depth (b : OrderBook) (s : Side) (price : Int) : Nat :=
  (b.levelAt s price).elim 0 PriceLevel.totalQty

theorem depth_eq {b : OrderBook} (h : Valid b) (s : Side) (price : Int) :
    depth b s price = quantities (atPrice b.allOrders s price) := by
  rw [atPrice_allOrders h, depth]
  cases hl : b.levelAt s price with
  | none => rfl
  | some lvl => exact (levelAt_valid h hl).2.total

theorem levelAt_congr {b b' : OrderBook} (h : Valid b) (h' : Valid b') {s : Side} {price : Int}
    (heq : atPrice b'.allOrders s price = atPrice b.allOrders s price) :
    b'.levelAt s price = b.levelAt s price := by
  rw [atPrice_allOrders h, atPrice_allOrders h'] at heq
  cases hl : b.levelAt s price with
  | none =>
    cases hl' : b'.levelAt s price with
    | none => rfl
    | some lvl' =>
      rw [hl, hl'] at heq
      exact absurd heq (levelAt_valid h' hl').2.nonempty
  | some lvl =>
    cases hl' : b'.levelAt s price with
    | none =>
      rw [hl, hl'] at heq
      exact absurd heq.symm (levelAt_valid h hl).2.nonempty
    | some lvl' =>
      obtain ⟨hprice, hvalid⟩ := levelAt_valid h hl
      obtain ⟨hprice', hvalid'⟩ := levelAt_valid h' hl'
      rw [hl, hl'] at heq
      have horders : lvl'.orders = lvl.orders := heq
      have htotal : lvl'.totalQty = lvl.totalQty := by rw [hvalid.total, hvalid'.total, horders]
      have hticks : lvl'.priceTicks = lvl.priceTicks := hprice'.trans hprice.symm
      cases lvl
      cases lvl'
      simp_all

structure Patches (s : Side) (price : Int) (old new : List Order) (b b' : OrderBook) : Prop where
  split : ∃ pre post, b.allOrders = pre ++ old ++ post ∧ b'.allOrders = pre ++ new ++ post
  old_at : ∀ o ∈ old, o.side = s ∧ o.priceTicks = price
  new_at : ∀ o ∈ new, o.side = s ∧ o.priceTicks = price
  valid : Valid b'

theorem atPrice_append (os ps : List Order) (s : Side) (price : Int) :
    atPrice (os ++ ps) s price = atPrice os s price ++ atPrice ps s price := List.filter_append ..

theorem atPrice_self {os : List Order} {s : Side} {price : Int}
    (h : ∀ o ∈ os, o.side = s ∧ o.priceTicks = price) :
    atPrice os s price = os :=
  List.filter_eq_self.mpr fun o ho => decide_eq_true (h o ho)

theorem atPrice_other {os : List Order} {s t : Side} {price q : Int}
    (h : ∀ o ∈ os, o.side = s ∧ o.priceTicks = price) (hne : ¬(t = s ∧ q = price)) :
    atPrice os t q = [] := by
  apply List.filter_eq_nil_iff.mpr
  intro o ho hat
  obtain ⟨hs, hp⟩ := h o ho
  obtain ⟨ht, hq⟩ := of_decide_eq_true hat
  exact hne ⟨ht.symm.trans hs, hq.symm.trans hp⟩

section

variable {s : Side} {price : Int} {old new : List Order} {b b' : OrderBook}

theorem Patches.levelAt (h : Valid b) (hp : Patches s price old new b b') {t : Side} {q : Int}
    (hne : ¬(t = s ∧ q = price)) : b'.levelAt t q = b.levelAt t q := by
  obtain ⟨pre, post, hall, hall'⟩ := hp.split
  apply levelAt_congr h hp.valid
  rw [hall, hall']
  simp only [atPrice_append, atPrice_other hp.old_at hne, atPrice_other hp.new_at hne]

theorem Patches.depth (h : Valid b) (hp : Patches s price old new b b') :
    depth b' s price + quantities old = depth b s price + quantities new := by
  obtain ⟨pre, post, hall, hall'⟩ := hp.split
  rw [depth_eq h, depth_eq hp.valid, hall, hall']
  simp only [atPrice_append, atPrice_self hp.old_at, atPrice_self hp.new_at, quantities_append]
  omega

theorem patches_refl (h : Valid b) (s : Side) (price : Int) : Patches s price [] [] b b where
  split := ⟨b.allOrders, [], by simp, by simp⟩
  old_at := by simp
  new_at := by simp
  valid := h

end

theorem addOrder_patches {b : OrderBook} (h : Valid b) {o : Order} (hk : o.kind = .limit)
    (hfresh : ¬Rests b.allOrders o.id) : Patches o.side o.priceTicks [] [o] b (b.addOrder o) where
  split := by
    obtain ⟨pre, post, hall, halter⟩ := allOrders_alter h o.side o.priceTicks
    refine ⟨pre ++ levelOrders (b.levelAt o.side o.priceTicks), post, ?_, ?_⟩
    · rw [hall]
      simp
    · rw [OrderBook.addOrder, if_neg (not_not.mpr hk), allOrders_setLoc, halter,
        levelOrders_pushBack]
      simp
  old_at := by simp
  new_at := by simp
  valid := addOrder_valid h o fun r hr hid => hfresh ⟨r, hr, hid⟩

theorem cancelOrder_patches {b : OrderBook} (h : Valid b) {o : Order} (ho : o ∈ b.allOrders) :
    (b.cancelOrder o.id).1 = true ∧
      Patches o.side o.priceTicks [o] [] b (b.cancelOrder o.id).2 := by
  have hedits := cancelOrder_edits h o.id
  have hdone := hedits.succeeds.mpr ⟨o, ho, rfl⟩
  obtain ⟨pre, r, post, hall, hid, hall'⟩ := hedits.done hdone
  obtain rfl := id_injective h (by simp [hall]) ho hid
  exact ⟨hdone, ⟨pre, post, by simp [hall], by simp [hall']⟩, by simp, by simp, hedits.valid⟩

theorem replaceRemainingQuantity_patches {b : OrderBook} (h : Valid b) {o : Order}
    (ho : o ∈ b.allOrders) (n : Nat) :
    ∃ new, quantities new = n ∧
      Patches o.side o.priceTicks [o] new b (b.replaceRemainingQuantity o.id n).2 := by
  by_cases hn : n = 0
  · subst hn
    refine ⟨[], rfl, ?_⟩
    rw [OrderBook.replaceRemainingQuantity, if_pos rfl]
    exact (cancelOrder_patches h ho).2
  · have hedits := replaceRemainingQuantity_edits h o.id (Nat.pos_of_ne_zero hn)
    obtain ⟨pre, r, post, hall, hid, hall'⟩ := hedits.done (hedits.succeeds.mpr ⟨o, ho, rfl⟩)
    obtain rfl := id_injective h (by simp [hall]) ho hid
    exact ⟨[{ r with quantity := n }], by simp, ⟨pre, post, by simp [hall], by simp [hall']⟩,
      by simp, by simp, hedits.valid⟩

theorem consumed_at {os : List Order} {n : Nat} {s : Side} {price : Int} (hn : n ≤ quantities os)
    (h : ∀ o ∈ os, o.side = s ∧ o.priceTicks = price) :
    ∀ o ∈ consumed os n, o.side = s ∧ o.priceTicks = price := by
  obtain ⟨dropped, kept, rfl, -, -, -, -, -, hleft⟩ := reduceLoop_spec 0 os n hn
  rw [reduceLoop_consumed] at hleft
  have hkept : ∀ o ∈ kept, o.side = s ∧ o.priceTicks = price :=
    fun o ho => h o (List.mem_append_right _ ho)
  obtain hleft | ⟨r, rest, q, rfl, hleft⟩ := hleft
  · rw [hleft]
    exact hkept
  · rw [hleft]
    intro o ho
    obtain rfl | ho := List.mem_cons.mp ho
    · exact hkept r List.mem_cons_self
    · exact hkept o (List.mem_cons_of_mem _ ho)

theorem reduceLevel_patches {b : OrderBook} (h : Valid b) (s : Side) (price : Int) {n : Nat}
    (hn : n ≤ depth b s price) :
    ∃ old new, quantities new + n = quantities old ∧
      Patches s price old new b (b.reduceLevelAfterLobsterExecution s price n true).2 := by
  by_cases hzero : n = 0
  · subst hzero
    exact ⟨[], [], rfl, patches_refl h s price⟩
  · rw [depth_eq h] at hn
    have hsome : atPrice b.allOrders s price ≠ [] := by
      intro hnil
      rw [hnil] at hn
      exact hzero (Nat.le_zero.mp hn)
    have hedits := reduceLevel_edits h (Nat.pos_of_ne_zero hzero) true hsome
    obtain ⟨pre, post, hall, hall', hsum⟩ := hedits.done (hedits.succeeds.mpr hn)
    have hat : ∀ o ∈ atPrice b.allOrders s price, o.side = s ∧ o.priceTicks = price :=
      fun o ho => of_decide_eq_true (List.mem_filter.mp ho).2
    exact ⟨_, _, hsum, ⟨pre, post, hall, hall'⟩, hat, consumed_at hn hat, hedits.valid⟩

theorem reduceLevel_refused {b : OrderBook} (h : Valid b) (s : Side) (price : Int) {n : Nat}
    (hn : n = 0 ∨ depth b s price < n) :
    (b.reduceLevelAfterLobsterExecution s price n true).2 = b := by
  by_cases hzero : n = 0
  · rw [OrderBook.reduceLevelAfterLobsterExecution, if_pos hzero]
  · have hpos := Nat.pos_of_ne_zero hzero
    have hshort := hn.resolve_left hzero
    by_cases hnone : atPrice b.allOrders s price = []
    · rw [reduceLevel_missing h hpos true hnone]
    · have hedits := reduceLevel_edits h hpos true hnone
      apply hedits.refused
      rw [depth_eq h] at hshort
      exact Bool.eq_false_iff.mpr fun hdone => Nat.not_le.mpr hshort (hedits.succeeds.mp hdone)

def restingQty (b : OrderBook) (id : Nat) : Nat :=
  (b.allOrders.find? fun o => o.id = id).elim 0 Order.quantity

theorem restingQty_of_mem {b : OrderBook} (h : Valid b) {o : Order} (ho : o ∈ b.allOrders) :
    restingQty b o.id = o.quantity := by
  cases hfind : b.allOrders.find? fun r => r.id = o.id with
  | none => simpa using List.find?_eq_none.mp hfind o ho
  | some r =>
    have hid : r.id = o.id := by simpa using List.find?_some hfind
    obtain rfl := id_injective h (List.mem_of_find?_eq_some hfind) ho hid
    rw [restingQty, hfind]
    rfl

def Names (b : OrderBook) (m : LobsterMessage) (o : Order) : Prop :=
  o ∈ b.allOrders ∧ o.id = m.orderId ∧ o.side = m.side ∧ o.priceTicks = m.priceTicks

instance (b : OrderBook) (m : LobsterMessage) (o : Order) : Decidable (Names b m o) :=
  inferInstanceAs (Decidable (_ ∧ _ ∧ _ ∧ _))

/-- What the feed guarantees of a message and the book it is about. -/
def Consistent (b : OrderBook) (m : LobsterMessage) : Prop :=
  match m.event with
  | .submission => ¬Rests b.allOrders m.orderId ∧ (b.addOrder m.order).isCrossed = false
  | .cancellation | .execution => ∃ o, Names b m o ∧ m.size ≤ o.quantity
  | .deletion => ∃ o, Names b m o ∧ m.size = o.quantity
  | _ => True

def delta (m : LobsterMessage) : Int :=
  match m.event with
  | .submission => m.size
  | .cancellation | .deletion | .execution => -m.size
  | _ => 0

/-- By how much `apply_message` misses that. -/
def drift (b : OrderBook) (m : LobsterMessage) : Int :=
  match m.event with
  | .cancellation => 2 * m.size - restingQty b m.orderId
  | .hiddenExecution => if m.size ≤ depth b m.side m.priceTicks then -m.size else 0
  | _ => 0

theorem processOrder_rests (e : MatchingEngine) {o : Order} (hk : o.kind = .limit)
    (hcross : (e.book.addOrder o).isCrossed = false) :
    (e.processOrder o).2.book = e.book.addOrder o := by
  rw [MatchingEngine.processOrder, hk]
  show (crossLoop o.id ⟨e.book.addOrder o, o.quantity, e.tradeLog⟩).book = _
  rw [crossLoop, loop_false (by simp [crossing, hcross])]

theorem size_le_depth {b : OrderBook} (h : Valid b) {m : LobsterMessage} {o : Order}
    (hnames : Names b m o) (hsize : m.size ≤ o.quantity) :
    m.size ≤ depth b m.side m.priceTicks := by
  obtain ⟨ho, -, hside, hprice⟩ := hnames
  have hmem : o ∈ atPrice b.allOrders m.side m.priceTicks :=
    List.mem_filter.mpr ⟨ho, decide_eq_true ⟨hside, hprice⟩⟩
  obtain ⟨pre, post, hsplit⟩ := List.append_of_mem hmem
  rw [depth_eq h, hsplit, quantities_append, quantities_cons]
  omega

/-- One message trades some orders at its side and price for others, with the
change of depth that the feed gives, up to the drift. -/
theorem applyMessage_patches {e : MatchingEngine} {m : LobsterMessage} (h : Valid e.book)
    (hconsistent : Consistent e.book m) :
    ∃ old new, Patches m.side m.priceTicks old new e.book (applyMessage e m).book ∧
      (quantities new : Int) = quantities old + (delta m + drift e.book m) := by
  unfold applyMessage delta drift
  unfold Consistent at hconsistent
  cases hevent : m.event with
  | submission =>
    rw [hevent] at hconsistent
    obtain ⟨hfresh, hcross⟩ := hconsistent
    refine ⟨[], [m.order], ?_, by simp [LobsterMessage.order]⟩
    dsimp only
    rw [processOrder_rests e rfl hcross]
    exact addOrder_patches (o := m.order) h rfl hfresh
  | cancellation =>
    rw [hevent] at hconsistent
    obtain ⟨o, ⟨ho, hid, hside, hprice⟩, -⟩ := hconsistent
    obtain ⟨new, hnew, hpatches⟩ := replaceRemainingQuantity_patches h ho m.size
    rw [hid, hside, hprice] at hpatches
    refine ⟨[o], new, hpatches, ?_⟩
    dsimp only
    rw [hnew, ← hid, restingQty_of_mem h ho, quantities_cons, quantities_nil]
    omega
  | deletion =>
    rw [hevent] at hconsistent
    obtain ⟨o, ⟨ho, hid, hside, hprice⟩, hsize⟩ := hconsistent
    obtain ⟨hdone, hpatches⟩ := cancelOrder_patches h ho
    rw [hid] at hdone
    rw [hid, hside, hprice] at hpatches
    refine ⟨[o], [], ?_, by simp [hsize]⟩
    dsimp only
    rw [if_pos hdone]
    exact hpatches
  | execution =>
    rw [hevent] at hconsistent
    obtain ⟨o, hnames, hsize⟩ := hconsistent
    obtain ⟨old, new, hsum, hpatches⟩ :=
      reduceLevel_patches h m.side m.priceTicks (size_le_depth h hnames hsize)
    refine ⟨old, new, hpatches, ?_⟩
    dsimp only
    omega
  | hiddenExecution =>
    dsimp only
    split
    · rename_i hle
      obtain ⟨old, new, hsum, hpatches⟩ := reduceLevel_patches h m.side m.priceTicks hle
      exact ⟨old, new, hpatches, by omega⟩
    · rename_i hlt
      rw [reduceLevel_refused h m.side m.priceTicks (.inr (Nat.not_le.mp hlt))]
      exact ⟨[], [], patches_refl h _ _, by simp⟩
  | halt => exact ⟨[], [], patches_refl h _ _, by simp⟩
  | other => exact ⟨[], [], patches_refl h _ _, by simp⟩

theorem depth_applyMessage {e : MatchingEngine} {m : LobsterMessage} (h : Valid e.book)
    (hconsistent : Consistent e.book m) :
    (depth (applyMessage e m).book m.side m.priceTicks : Int) =
        depth e.book m.side m.priceTicks + (delta m + drift e.book m) ∧
      (∀ s price, ¬(s = m.side ∧ price = m.priceTicks) →
        (applyMessage e m).book.levelAt s price = e.book.levelAt s price) ∧
      Valid (applyMessage e m).book := by
  obtain ⟨old, new, hpatches, hsum⟩ := applyMessage_patches h hconsistent
  have hdepth := hpatches.depth h
  exact ⟨by omega, fun s price hne => hpatches.levelAt h hne, hpatches.valid⟩

/-- What the feed says of a message that leads from one book to another. -/
structure Follows (m : LobsterMessage) (b b' : OrderBook) : Prop where
  level : (depth b' m.side m.priceTicks : Int) = depth b m.side m.priceTicks + delta m
  others : ∀ s price, ¬(s = m.side ∧ price = m.priceTicks) → b'.levelAt s price = b.levelAt s price
  invisible : m.event = .hiddenExecution ∨ m.event = .halt → b' = b

/-- The messages that the replay gets right: partial deletions of half an order,
and hidden executions of more than the level shows. -/
def Exact (b : OrderBook) (m : LobsterMessage) : Prop :=
  (m.event = .cancellation → restingQty b m.orderId = 2 * m.size) ∧
    (m.event = .hiddenExecution → m.size = 0 ∨ depth b m.side m.priceTicks < m.size)

instance (b : OrderBook) (m : LobsterMessage) : Decidable (Exact b m) :=
  inferInstanceAs (Decidable (_ ∧ _))

theorem drift_eq_zero (b : OrderBook) (m : LobsterMessage) : drift b m = 0 ↔ Exact b m := by
  unfold drift Exact
  cases hevent : m.event with
  | cancellation =>
    simp only [forall_const, reduceCtorEq, false_implies, and_true]
    omega
  | hiddenExecution =>
    simp only [forall_const, reduceCtorEq, false_implies, true_and]
    split
    · omega
    · omega
  | _ => simp

theorem applyMessage_invisible {e : MatchingEngine} {m : LobsterMessage} (h : Valid e.book)
    (hexact : Exact e.book m) (hevent : m.event = .hiddenExecution ∨ m.event = .halt) :
    (applyMessage e m).book = e.book := by
  obtain hevent | hevent := hevent
  · rw [applyMessage, hevent]
    exact reduceLevel_refused h m.side m.priceTicks (hexact.2 hevent)
  · rw [applyMessage, hevent]

/-- The replay follows the feed on submissions, deletions, visible executions
and halts, and of the other two types only on the exact ones. -/
theorem follows_iff {e : MatchingEngine} {m : LobsterMessage} (h : Valid e.book)
    (hconsistent : Consistent e.book m) :
    Follows m e.book (applyMessage e m).book ↔ Exact e.book m := by
  obtain ⟨hlevel, hothers, -⟩ := depth_applyMessage h hconsistent
  constructor
  · intro hfollows
    have := hfollows.level
    exact (drift_eq_zero _ _).mp (by omega)
  · intro hexact
    have hzero := (drift_eq_zero _ _).mpr hexact
    exact ⟨by omega, hothers, applyMessage_invisible h hexact⟩

def bidForHundred : Order := ⟨1, 1000, 100, .bid, .limit, 0⟩

def hundred : MatchingEngine := ⟨OrderBook.empty.addOrder bidForHundred, []⟩

theorem valid_hundred : Valid hundred.book := addOrder_valid valid_empty bidForHundred (by decide)

def fortySold : LobsterMessage := ⟨1, 4, 1, 40, 1000, 1⟩

theorem follows_fortySold : Consistent hundred.book fortySold ∧
    Follows fortySold hundred.book (applyMessage hundred fortySold).book := by
  have hconsistent : Consistent hundred.book fortySold := ⟨bidForHundred, by decide⟩
  exact ⟨hconsistent, (follows_iff valid_hundred hconsistent).mpr (by decide)⟩

/-- A partial deletion of thirty of it, and a hidden execution of thirty at its
price. -/
def thirtyDeleted : LobsterMessage := ⟨1, 2, 1, 30, 1000, 1⟩

def thirtyHidden : LobsterMessage := ⟨1, 5, 0, 30, 1000, 1⟩

theorem thirtyDeleted_leaves_thirty :
    Valid hundred.book ∧ Consistent hundred.book thirtyDeleted ∧
    depth hundred.book .bid 1000 = 100 ∧
      depth (applyMessage hundred thirtyDeleted).book .bid 1000 = 30 ∧
      Consistent hundred.book thirtyHidden ∧
      depth (applyMessage hundred thirtyHidden).book .bid 1000 = 70 :=
  ⟨valid_hundred, ⟨bidForHundred, by decide⟩, by decide, by decide, trivial, by decide⟩

def replay (e : MatchingEngine) (ms : List LobsterMessage) : MatchingEngine :=
  ms.foldl applyMessage e

def ConsistentFeed : MatchingEngine → List LobsterMessage → Prop
  | _, [] => True
  | e, m :: ms => Consistent e.book m ∧ ConsistentFeed (applyMessage e m) ms

def fallsOn (m : LobsterMessage) (s : Side) (price : Int) (n : Int) : Int :=
  if s = m.side ∧ price = m.priceTicks then n else 0

def changes (s : Side) (price : Int) (ms : List LobsterMessage) : Int :=
  (ms.map fun m => fallsOn m s price (delta m)).sum

def missed (s : Side) (price : Int) : MatchingEngine → List LobsterMessage → Int
  | _, [] => 0
  | e, m :: ms => fallsOn m s price (drift e.book m) + missed s price (applyMessage e m) ms

/-- After a whole feed each level is off by the sum of what was missed on it. -/
theorem depth_replay {e : MatchingEngine} (h : Valid e.book) {ms : List LobsterMessage}
    (hfeed : ConsistentFeed e ms) (s : Side) (price : Int) :
    (depth (replay e ms).book s price : Int) =
      depth e.book s price + changes s price ms + missed s price e ms := by
  induction ms generalizing e with
  | nil => simp [replay, changes, missed]
  | cons m ms ih =>
    obtain ⟨hconsistent, hrest⟩ := hfeed
    obtain ⟨hlevel, hothers, hvalid⟩ := depth_applyMessage h hconsistent
    have hstep : (depth (applyMessage e m).book s price : Int) =
        depth e.book s price + fallsOn m s price (delta m) +
          fallsOn m s price (drift e.book m) := by
      unfold fallsOn
      by_cases hat : s = m.side ∧ price = m.priceTicks
      · obtain ⟨rfl, rfl⟩ := hat
        simp only [and_self, if_true]
        omega
      · rw [if_neg hat, if_neg hat, depth, depth, hothers s price hat]
        omega
    have hreplay := ih hvalid hrest
    rw [replay, List.foldl_cons, changes, List.map_cons, List.sum_cons, missed]
    rw [replay, changes] at hreplay
    omega

def ExactFeed : MatchingEngine → List LobsterMessage → Prop
  | _, [] => True
  | e, m :: ms => Exact e.book m ∧ ExactFeed (applyMessage e m) ms

theorem missed_exact {e : MatchingEngine} {ms : List LobsterMessage} (hexact : ExactFeed e ms)
    (s : Side) (price : Int) : missed s price e ms = 0 := by
  induction ms generalizing e with
  | nil => rfl
  | cons m ms ih =>
    obtain ⟨hfirst, hrest⟩ := hexact
    rw [missed, ih hrest, (drift_eq_zero _ _).mpr hfirst, fallsOn]
    split <;> rfl

theorem depth_replay_exact {e : MatchingEngine} (h : Valid e.book) {ms : List LobsterMessage}
    (hfeed : ConsistentFeed e ms) (hexact : ExactFeed e ms) (s : Side) (price : Int) :
    (depth (replay e ms).book s price : Int) = depth e.book s price + changes s price ms := by
  rw [depth_replay h hfeed, missed_exact hexact, Int.add_zero]

end OrderMatching.Lobster
