import OrderMatching.Walk

namespace OrderMatching.BookEdits

open OrderMatching.Orders OrderMatching.Book OrderMatching.BookInvariant OrderMatching.BookUpdates
open OrderMatching.BookRuns OrderMatching.Walk OrderMatching.Loop

def Rests (os : List Order) (id : Nat) : Prop := ∃ o ∈ os, o.id = id

def Deletes (id : Nat) (os os' : List Order) : Prop :=
  ∃ pre o post, os = pre ++ o :: post ∧ o.id = id ∧ os' = pre ++ post

def Resizes (id n : Nat) (os os' : List Order) : Prop :=
  ∃ pre o post, os = pre ++ o :: post ∧ o.id = id ∧ os' = pre ++ { o with quantity := n } :: post

def atPrice (os : List Order) (s : Side) (price : Int) : List Order :=
  os.filter fun o => o.side = s ∧ o.priceTicks = price

/-- What a queue holds when `n` has been taken from its front. -/
def consumed (os : List Order) (n : Nat) : List Order := (walk (fun _ => true) os n).leftover

/-- The orders of one level stand together, and `n` is taken from their front. -/
def Consumes (s : Side) (price : Int) (n : Nat) (os os' : List Order) : Prop :=
  ∃ pre post, os = pre ++ atPrice os s price ++ post ∧
    os' = pre ++ consumed (atPrice os s price) n ++ post ∧
    quantities (consumed (atPrice os s price) n) + n = quantities (atPrice os s price)

/-- An operation on a book that succeeds exactly when it can, does one thing to the
list of all orders, and leaves the book alone when it fails. -/
structure Edits (b : OrderBook) (r : Bool × OrderBook) (can : Prop)
    (does : List Order → List Order → Prop) : Prop where
  succeeds : r.1 = true ↔ can
  done : r.1 = true → does b.allOrders r.2.allOrders
  refused : r.1 = false → r.2 = b
  valid : Valid r.2

theorem levels_alterLevel (b : OrderBook) (s : Side) (price : Int)
    (f : Option PriceLevel → Option PriceLevel) :
    (b.alterLevel s price f).levels s = KeyedList.alter (levelKey s) (rank s price) f (b.levels s) ∧
      (b.alterLevel s price f).levels s.opposite = b.levels s.opposite :=
  ⟨levels_setLevels b s _, levels_setLevels_opposite b s _⟩

theorem allOrders_alter {b : OrderBook} (h : Valid b) (s : Side) (price : Int) :
    ∃ pre post, b.allOrders = pre ++ levelOrders (b.levelAt s price) ++ post ∧
      ∀ f, (b.alterLevel s price f).allOrders =
        pre ++ levelOrders (f (b.levelAt s price)) ++ post := by
  obtain ⟨pre, post, hside, halter⟩ := sideOrders_alter (h.side s) price
  have hlevels := levels_alterLevel b s price
  cases s with
  | bid =>
    refine ⟨pre, post ++ sideOrders b.asks, ?_, fun f => ?_⟩
    · rw [OrderBook.allOrders, show b.bids = b.levels .bid from rfl, hside]
      simp [OrderBook.levelAt]
    · obtain ⟨hbids, hasks⟩ := hlevels f
      change (b.alterLevel .bid price f).bids = _ at hbids
      change (b.alterLevel .bid price f).asks = b.asks at hasks
      rw [OrderBook.allOrders, hbids, hasks, halter f]
      simp [OrderBook.levelAt]
  | ask =>
    refine ⟨sideOrders b.bids ++ pre, post, ?_, fun f => ?_⟩
    · rw [OrderBook.allOrders, show b.asks = b.levels .ask from rfl, hside]
      simp [OrderBook.levelAt]
    · obtain ⟨hasks, hbids⟩ := hlevels f
      change (b.alterLevel .ask price f).asks = _ at hasks
      change (b.alterLevel .ask price f).bids = b.bids at hbids
      rw [OrderBook.allOrders, hbids, hasks, halter f]
      simp [OrderBook.levelAt]

theorem atPrice_allOrders {b : OrderBook} (h : Valid b) (s : Side) (price : Int) :
    atPrice b.allOrders s price = levelOrders (b.levelAt s price) := by
  obtain ⟨pre, post, hall, -⟩ := allOrders_alter h s price
  have hin : ∀ o ∈ levelOrders (b.levelAt s price), o.side = s ∧ o.priceTicks = price := by
    intro o ho
    cases hl : b.levelAt s price with
    | none => simp [hl, levelOrders] at ho
    | some lvl =>
      obtain ⟨hprice, hlvl⟩ := levelAt_valid h hl
      obtain ⟨hp, hs, -⟩ := hlvl.member o (by simpa [hl, levelOrders] using ho)
      exact ⟨hs, hp.trans hprice⟩
  -- An order of this level outside the stretch would carry the id of one inside.
  have hnodup := h.nodup
  rw [hall, List.map_append, List.map_append] at hnodup
  have hout : ∀ o ∈ b.allOrders, o.side = s ∧ o.priceTicks = price →
      o ∈ levelOrders (b.levelAt s price) := by
    rintro o ho ⟨rfl, rfl⟩
    obtain ⟨lvl, hl, hm⟩ := mem_levelAt h ho
    rw [hl]
    exact hm
  have hpre : pre.filter (fun o => o.side = s ∧ o.priceTicks = price) = [] := by
    apply List.filter_eq_nil_iff.mpr
    intro o ho hsp
    have hmem := hout o (by simp [hall, ho]) (by simpa using hsp)
    have hdisj := (List.nodup_append.mp (List.nodup_append.mp hnodup).1).2.2
    exact hdisj o.id (List.mem_map_of_mem ho) o.id (List.mem_map_of_mem hmem) rfl
  have hpost : post.filter (fun o => o.side = s ∧ o.priceTicks = price) = [] := by
    apply List.filter_eq_nil_iff.mpr
    intro o ho hsp
    have hmem := hout o (by simp [hall, ho]) (by simpa using hsp)
    have hdisj := (List.nodup_append.mp hnodup).2.2
    exact hdisj o.id (List.mem_append_right _ (List.mem_map_of_mem hmem)) o.id
      (List.mem_map_of_mem ho) rfl
  rw [atPrice, hall, List.filter_append, List.filter_append, hpre, hpost, List.nil_append,
    List.append_nil]
  apply List.filter_eq_self.mpr
  intro o ho
  simpa using hin o ho

/-- The map, the search and the scan find an order exactly when it rests. -/
theorem locate_cases {b : OrderBook} (h : Valid b) (id : Nat) :
    (∃ o lvl pre post left right, o.id = id ∧ b.locate id = some (o.side, o.priceTicks, lvl, o) ∧
        lvl.orders = left ++ o :: right ∧ lvl.orders.eraseP (fun r => r.id = id) = left ++ right ∧
        (∀ n, setQuantity id n lvl.orders = left ++ { o with quantity := n } :: right) ∧
        b.allOrders = pre ++ lvl.orders ++ post ∧
        ∀ new, (b.alterLevel o.side o.priceTicks fun _ => new).allOrders =
          pre ++ levelOrders new ++ post) ∨
      (¬Rests b.allOrders id ∧ b.locate id = none) := by
  by_cases hrests : Rests b.allOrders id
  · obtain ⟨o, ho, rfl⟩ := hrests
    obtain ⟨lvl, hloc⟩ := locate_of_mem h ho
    obtain ⟨hl, hf⟩ := locate_eq_some hloc
    obtain ⟨left, right, hsplit, -, herase, hset⟩ := find_id_split hf
    obtain ⟨pre, post, hall, halter⟩ := allOrders_alter h o.side o.priceTicks
    rw [hl] at hall
    exact .inl ⟨o, lvl, pre, post, left, right, rfl, hloc, hsplit, herase, hset, hall,
      fun new => halter fun _ => new⟩
  · exact .inr ⟨hrests, locate_eq_none h fun o ho hid => hrests ⟨o, ho, hid⟩⟩

theorem cancelOrder_edits {b : OrderBook} (h : Valid b) (id : Nat) :
    Edits b (b.cancelOrder id) (Rests b.allOrders id) (Deletes id) := by
  have hvalid := cancelOrder_valid h id
  obtain ⟨o, lvl, pre, post, left, right, hid, hloc, hsplit, herase, -, hall, halter⟩
    | ⟨hno, hloc⟩ := locate_cases h id
  · have hrests : Rests b.allOrders id := ⟨o, by simp [hall, hsplit], hid⟩
    simp only [OrderBook.cancelOrder, hloc] at hvalid ⊢
    refine ⟨by simpa using hrests, fun _ => ⟨pre ++ left, o, right ++ post, ?_, hid, ?_⟩,
      by simp, hvalid⟩
    · rw [hall, hsplit]
      simp
    · rw [allOrders_setLoc, halter, levelOrders_dropEmpty, PriceLevel.removeOrder, herase]
      simp
  · simp only [OrderBook.cancelOrder, hloc]
    exact ⟨by simpa using hno, by simp, by simp, h⟩

theorem replaceRemainingQuantity_edits {b : OrderBook} (h : Valid b) (id : Nat) {n : Nat}
    (hn : 0 < n) :
    Edits b (b.replaceRemainingQuantity id n) (Rests b.allOrders id) (Resizes id n) := by
  have hvalid := replaceRemainingQuantity_valid h id n
  rw [OrderBook.replaceRemainingQuantity, if_neg hn.ne'] at hvalid ⊢
  obtain ⟨o, lvl, pre, post, left, right, hid, hloc, hsplit, -, hset, hall, halter⟩ | ⟨hno, hloc⟩ :=
    locate_cases h id
  · have hrests : Rests b.allOrders id := ⟨o, by simp [hall, hsplit], hid⟩
    simp only [hloc] at hvalid ⊢
    refine ⟨by simpa using hrests, fun _ => ⟨pre ++ left, o, right ++ post, ?_, hid, ?_⟩,
      by simp, hvalid⟩
    · rw [hall, hsplit]
      simp
    · rw [halter, hset]
      simp [levelOrders]
  · simp only [hloc]
    exact ⟨by simpa using hno, by simp, by simp, h⟩

theorem reduceLoop_consumed (price : Int) (os : List Order) (total n : Nat) :
    (reduceLoop price os total n).level.orders = consumed os n := by
  induction os generalizing total n with
  | nil => cases n <;> rfl
  | cons o os ih =>
    cases n with
    | zero => rw [consumed, walk_zero, reduceLoop]
    | succ m =>
      rw [consumed, walk_cons m.succ_pos rfl, reduceLoop]
      dsimp only
      obtain ⟨hrem, hle⟩ | ⟨hrem, hlt⟩ := remainder_cases (m + 1) o
      · rw [if_pos (by omega), hrem, List.nil_append]
        exact ih _ _
      · rw [if_neg (by omega), hrem, Nat.min_eq_left hlt.le, Nat.sub_self, walk_zero]
        rfl

/-- The state of that loop: what is in the queue, the level's cached total, the
size still to take, and the ids erased from the location map. -/
structure Reducing where
  orders : List Order
  totalQty : Nat
  remaining : Nat
  gone : List Nat

def Reducing.active (w : Reducing) : Bool := decide (w.remaining > 0) && !w.orders.isEmpty

def Reducing.round (w : Reducing) : Reducing :=
  match w.orders with
  | [] => w
  | front :: os =>
    let take := min w.remaining front.quantity
    if front.quantity - take = 0 then
      ⟨os, w.totalQty - take, w.remaining - take, w.gone ++ [front.id]⟩
    else
      ⟨{ front with quantity := front.quantity - take } :: os, w.totalQty - take,
        w.remaining - take, w.gone⟩

theorem loop_reducing (price : Int) (os : List Order) (total n : Nat) (gone : List Nat)
    {rounds : Nat} (hr : os.length ≤ rounds) :
    ∃ w, loop Reducing.active Reducing.round rounds ⟨os, total, n, gone⟩ = w ∧ w.active = false ∧
      (reduceLoop price os total n).ok = decide (w.remaining = 0) ∧
      (reduceLoop price os total n).level = ⟨price, w.totalQty, w.orders⟩ ∧
      gone ++ (reduceLoop price os total n).gone = w.gone := by
  induction os generalizing total n gone rounds with
  | nil =>
    refine ⟨_, loop_false (by simp [Reducing.active]) rounds, by simp [Reducing.active], ?_⟩
    cases n <;> simp [reduceLoop]
  | cons o os ih =>
    cases n with
    | zero =>
      refine ⟨_, loop_false (by simp [Reducing.active]) rounds, by simp [Reducing.active], ?_⟩
      simp [reduceLoop]
    | succ m =>
      obtain ⟨rounds, rfl⟩ : ∃ k, rounds = k + 1 :=
        ⟨rounds - 1, by simp only [List.length_cons] at hr; omega⟩
      have hlen : os.length ≤ rounds := by simpa using hr
      rw [loop_true (by simp [Reducing.active])]
      simp only [Reducing.round, reduceLoop]
      by_cases hgone : o.quantity - min (m + 1) o.quantity = 0
      · obtain ⟨w, hw, hdone, hok, hlevel, hids⟩ := ih (total - min (m + 1) o.quantity)
          (m + 1 - min (m + 1) o.quantity) (gone ++ [o.id]) hlen
        simp only [if_pos hgone]
        exact ⟨w, hw, hdone, hok, hlevel, by simpa using hids⟩
      · have hmet : m + 1 - min (m + 1) o.quantity = 0 := by omega
        simp only [if_neg hgone, hmet]
        refine ⟨_, loop_false (by simp [Reducing.active]) rounds, by simp [Reducing.active], ?_⟩
        simp

theorem quantities_consumed {os : List Order} {n : Nat} (hn : n ≤ quantities os) :
    quantities (consumed os n) + n = quantities os := by
  obtain ⟨_, _, -, -, -, -, -, hsum, -⟩ := reduceLoop_spec 0 os n hn
  rwa [reduceLoop_consumed] at hsum

theorem reduceLevel_missing {b : OrderBook} (h : Valid b) {s : Side} {price : Int} {n : Nat}
    (hn : 0 < n) (allow : Bool) (hnone : atPrice b.allOrders s price = []) :
    b.reduceLevelAfterLobsterExecution s price n allow = (allow, b) := by
  rw [atPrice_allOrders h] at hnone
  rw [OrderBook.reduceLevelAfterLobsterExecution, if_neg hn.ne']
  cases hl : b.levelAt s price with
  | none => rfl
  | some lvl =>
    rw [hl] at hnone
    exact absurd hnone (levelAt_valid h hl).2.nonempty

theorem reduceLevel_edits {b : OrderBook} (h : Valid b) {s : Side} {price : Int} {n : Nat}
    (hn : 0 < n) (allow : Bool) (hsome : atPrice b.allOrders s price ≠ []) :
    Edits b (b.reduceLevelAfterLobsterExecution s price n allow)
      (n ≤ quantities (atPrice b.allOrders s price)) (Consumes s price n) := by
  have hvalid := reduceLevel_valid h s price n allow
  have hat := atPrice_allOrders h s price
  obtain ⟨pre, post, hall, halter⟩ := allOrders_alter h s price
  rw [OrderBook.reduceLevelAfterLobsterExecution, if_neg hn.ne'] at hvalid ⊢
  cases hl : b.levelAt s price with
  | none =>
    rw [hl] at hat
    exact absurd hat hsome
  | some lvl =>
    have horders : atPrice b.allOrders s price = lvl.orders := by
      rw [hat, hl, levelOrders, Option.elim_some]
    rw [hl] at hvalid
    dsimp only at hvalid ⊢
    by_cases hsize : quantities lvl.orders < n
    · rw [if_pos hsize]
      refine ⟨?_, by simp, fun _ => rfl, h⟩
      rw [horders]
      simpa using hsize
    · obtain ⟨_, _, -, hok, -⟩ := reduceLoop_spec lvl.priceTicks lvl.orders n (by omega)
      rw [← (levelAt_valid h hl).2.total] at hok
      rw [if_neg hsize] at hvalid ⊢
      simp only [hok, if_true] at hvalid ⊢
      refine ⟨?_, fun _ => ⟨pre, post, ?_, ?_, ?_⟩, by simp, hvalid⟩
      · rw [horders]
        simpa using hsize
      · rw [hat]
        exact hall
      · rw [eraseLocs_allOrders, halter, levelOrders_dropEmpty, reduceLoop_consumed, horders]
      · rw [horders]
        exact quantities_consumed (by omega)

/-- What the three operations do to the list of all orders. -/
structure EditsExactly (b : OrderBook) : Prop where
  cancel : ∀ id, Edits b (b.cancelOrder id) (Rests b.allOrders id) (Deletes id)
  replace : ∀ id n, 0 < n →
    Edits b (b.replaceRemainingQuantity id n) (Rests b.allOrders id) (Resizes id n)
  reduce : ∀ s price n allow, 0 < n → atPrice b.allOrders s price ≠ [] →
    Edits b (b.reduceLevelAfterLobsterExecution s price n allow)
      (n ≤ quantities (atPrice b.allOrders s price)) (Consumes s price n)
  missing : ∀ s price n allow, 0 < n → atPrice b.allOrders s price = [] →
    b.reduceLevelAfterLobsterExecution s price n allow = (allow, b)
  ends : ∀ price (os : List Order) total n rounds, os.length ≤ rounds →
    ∃ w, loop Reducing.active Reducing.round rounds ⟨os, total, n, []⟩ = w ∧ w.active = false ∧
      reduceLoop price os total n =
        ⟨decide (w.remaining = 0), ⟨price, w.totalQty, w.orders⟩, w.gone⟩

/-- In every valid book each of them touches what it names and nothing else. -/
theorem editsExactly_of_valid {b : OrderBook} (h : Valid b) : EditsExactly b where
  cancel id := cancelOrder_edits h id
  replace id _ hn := replaceRemainingQuantity_edits h id hn
  reduce _ _ _ allow hn hsome := reduceLevel_edits h hn allow hsome
  missing _ _ _ allow hn hnone := reduceLevel_missing h hn allow hnone
  ends price os total n rounds hr := by
    obtain ⟨w, hw, hdone, hok, hlevel, hgone⟩ := loop_reducing price os total n [] hr
    refine ⟨w, hw, hdone, ?_⟩
    rw [List.nil_append] at hgone
    rw [← hok, ← hlevel, ← hgone]

def twoBids : OrderBook :=
  (OrderBook.empty.addOrder ⟨1, 100, 10, .bid, .limit, 0⟩).addOrder ⟨2, 100, 20, .bid, .limit, 1⟩

theorem editsExactly_twoBids : Valid twoBids ∧ EditsExactly twoBids := by
  have hvalid : Valid twoBids :=
    addOrder_valid (addOrder_valid valid_empty _ (by decide)) _ (by decide)
  exact ⟨hvalid, editsExactly_of_valid hvalid⟩

example : (twoBids.reduceLevelAfterLobsterExecution .bid 100 15 false).2.allOrders =
    [⟨2, 100, 15, .bid, .limit, 1⟩] := by decide

end OrderMatching.BookEdits
