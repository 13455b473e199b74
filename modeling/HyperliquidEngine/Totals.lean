import HyperliquidEngine.Nodes
import Mathlib.Algebra.Order.BigOperators.Group.List
import Mathlib.Algebra.Order.Group.Int

/-!
# Level totals in `int64_t`

Each level keeps `total_qty`, which `enqueue` raises by the new node's quantity and `erase`,
`reduce_qty` and the maker loop lower by what leaves the level, all in `int64_t`. Nothing
bounds the quantities a command brings: they arrive unchecked from the feeds, so the
running total can leave the `int64_t` range.

What the book keeps is the total's residue. `TotalsExact b` says that every level's
`total_qty` is the `int64_t` image of the sum of its nodes' open quantities
(`LevelFIFO.TotalExact`):

- `matchLevel_totalQty`: the maker loop lowers the walked level's total in step with its
  makers;
- `totalsExact_run`: every admissible command keeps `TotalsExact`, so it holds along every
  valid run; where a level's sum fits in `int64_t`, its total is the sum
  (`totalQty_eq_qtySum_run`).

The sum itself need not fit. Two resting bids of `2^62` lots at one price make the level's
total wrap to `-2^63`, and the FOK precheck, which adds the totals, then refuses an order
that the resting quantity covers (`levelTotal_overflows`). The maker loop's `total_filled`
stays in range: it never exceeds the taker's quantity (`LoopAccount.filled_le`).
-/

namespace HyperliquidEngine

open PriceLevels LawfulPriceLevels

theorem LevelFIFO.totalExact_default : (default : LevelFIFO).TotalExact :=
  show (0 : Int) = wrapInt64 0 by decide

/-- Where the sum of a level's open quantities fits in `int64_t`, an exact total is that
sum. -/
theorem LevelFIFO.TotalExact.eq_qtySum {l : LevelFIFO} (h : l.TotalExact) (hs : InInt64 l.qtySum) :
    l.totalQty = l.qtySum := by
  rw [h, wrapInt64_of_mem hs]

namespace OrderBook

section MatchLevel

variable (symbolId : SymbolId) (t : Taker) (px : Int)

/-- **The maker loop keeps the walked level's total in step with its makers**
(order_book.h:449–460): from a total that is the `int64_t` image of `x` plus the makers'
open quantity, the loop ends at the image of `x` plus what the makers left hold. -/
theorem matchLevel_totalQty (ns : List OrderNode) (f : Fill) (x : Int)
    (h : f.totalQty = wrapInt64 (x + openQty ns)) :
    (matchLevel symbolId t px ns f).2.totalQty =
      wrapInt64 (x + openQty (matchLevel symbolId t px ns f).1) := by
  induction ns generalizing f x with
  | nil => exact h
  | cons m ms ih =>
    simp only [matchLevel]
    split_ifs with hq hs hfull
    · exact h
    · -- a skipped maker stays, and counts towards `x` for the rest of the level
      simpa only [openQty_cons, add_assoc] using ih f (x + m.qty) (by rw [h]; simp only [openQty_cons, add_assoc])
    · exact ih _ x (by simp only [h, wrapInt64_sub_wrap, openQty_cons]; ring_nf)
    · simpa only [openQty_cons, add_assoc] using
        ih _ (x + (m.qty - min f.qty m.qty)) (by simp only [h, wrapInt64_sub_wrap, openQty_cons]; ring_nf)

end MatchLevel

section Lawful

variable {L : Type} [PriceLevels L] [LawfulPriceLevels L]

/-- Every level of ladder `l` has an exact total. -/
def LadderTotals (l : L) : Prop := ∀ px, (level l px).TotalExact

/-- Every level of the book has an exact total. -/
def TotalsExact (b : OrderBook L) : Prop := ∀ s, LadderTotals (b.side s)

omit [LawfulPriceLevels L] in
theorem LadderTotals.congr {l l' : L} (h : LadderTotals l) (he : level l' = level l) :
    LadderTotals l' :=
  fun px => he ▸ h px

/-- A write of a level with an exact total keeps a ladder's totals exact, whether or not it
lands. -/
theorem LadderTotals.setLevel {l : L} (h : LadderTotals l) (px : Int) {v : LevelFIFO}
    (hv : v.TotalExact) : LadderTotals (setLevel l px v) := by
  intro qx
  by_cases hq : qx = px
  · subst hq
    rcases level_setLevel_self_or l qx v with h' | h' <;> rw [h']
    exacts [hv, h qx]
  · rw [level_setLevel_ne l v hq]
    exact h qx

theorem LadderTotals.enqueueAt {l : L} (h : LadderTotals l) (t : Side) (px : Int)
    (node : OrderNode) : LadderTotals (enqueueAt l t px node) := by
  have h₁ : LadderTotals (PriceLevels.setLevel (getLevel l px) px
      ((level (getLevel l px) px).enqueue node)) :=
    (h.congr (by funext; simp)).setLevel px (LevelFIFO.totalExact_enqueue (by simpa using h px) _)
  simp only [OrderBook.enqueueAt]
  split
  · exact h₁.congr (by simp)
  · exact h₁

theorem LadderTotals.eraseAt {l : L} (h : LadderTotals l) (s : Side) (px : Int) (addr : Nat) :
    LadderTotals (eraseAt l s px addr) := by
  intro qx
  rw [level_eraseAt]
  split_ifs
  · exact LevelFIFO.totalExact_erase (h px) addr
  · exact h qx

omit [LawfulPriceLevels L] in
theorem TotalsExact.setSide {b : OrderBook L} (hb : TotalsExact b) {s : Side} {l : L}
    (h : LadderTotals l) : TotalsExact (b.setSide s l) := by
  intro s'
  by_cases hs : s' = s
  · subst hs; simpa using h
  · simpa [hs] using hb s'

theorem TotalsExact.rest {b : OrderBook L} (hb : TotalsExact b) (t : Side) (cmd : OrderCommand)
    (rem : Int) : TotalsExact (b.rest t cmd rem) :=
  hb.setSide ((hb t).enqueueAt _ _ _)

theorem TotalsExact.endCommand {α : Type} {b : OrderBook L} (hb : TotalsExact b) (ret : α)
    (es : List BookEvent) : TotalsExact (b.endCommand ret es).book :=
  fun s => (hb s).congr (by simp)

/-- **The level walk keeps every total exact**: each walked level is written back with the
total the maker loop ends at. -/
theorem TotalsExact.matchLoop {b : OrderBook L} (hb : TotalsExact b) (o : Side) (limit : Int)
    (t : Taker) (n : Nat) (qty filled : Int) (trades : List TradeEvent) :
    TotalsExact (matchLoop o limit t n b qty filled trades).1 := by
  induction n generalizing b qty filled trades with
  | zero => exact hb
  | succ n ih =>
    by_cases hq₀ : qty ≤ 0
    · simpa [OrderBook.matchLoop, hq₀] using hb
    simp only [OrderBook.matchLoop, hq₀, if_false]
    split
    · exact hb
    next lp _ =>
    split_ifs with hemp hcross hkept
    · exact hb
    · exact hb
    all_goals
      have hl : LadderTotals (PriceLevels.setLevel (b.side o) lp
          ⟨(matchLevel b.symbolId t (best (b.side o) o) (level (b.side o) lp).nodes
            ⟨qty, filled, (level (b.side o) lp).totalQty, b.idIndex, b.orderPool, trades⟩).1,
          (matchLevel b.symbolId t (best (b.side o) o) (level (b.side o) lp).nodes
            ⟨qty, filled, (level (b.side o) lp).totalQty, b.idIndex, b.orderPool, trades⟩).2.totalQty⟩) :=
        (hb o).setLevel lp (by
          simpa [LevelFIFO.TotalExact, LevelFIFO.qtySum_eq_openQty] using
            matchLevel_totalQty _ _ _ _ _ 0 (by simpa using hb o lp))
    · exact ih (fun s => by by_cases hs : s = o <;> simp [hs, (hb s).congr, hl.congr]) _ _ _
    · exact hb.setSide hl

theorem TotalsExact.matchIfCrossing {b : OrderBook L} (hb : TotalsExact b) (t : Side)
    (cmd : OrderCommand) : TotalsExact (b.matchIfCrossing t cmd).1 := by
  simp only [OrderBook.matchIfCrossing]
  split
  · exact hb.matchLoop _ _ _ _ _ _ _
  · exact hb

theorem TotalsExact.submitLimit {b : OrderBook L} (hb : TotalsExact b) (cmd : OrderCommand) :
    TotalsExact (b.submitLimit cmd).book := by
  have hm := hb.matchIfCrossing cmd.side cmd
  simp only [OrderBook.submitLimit, OrderBook.submitLimitSide, OrderBook.settleLimit]
  split_ifs
  · exact hb.endCommand _ _
  · exact hm.endCommand _ _
  · exact (hm.rest _ _ _).endCommand _ _
  · exact hm.endCommand _ _

theorem TotalsExact.submitMarket {b : OrderBook L} (hb : TotalsExact b) (cmd : OrderCommand) :
    TotalsExact (b.submitMarket cmd).book :=
  (hb.matchLoop _ _ _ _ _ _ _).endCommand _ _

theorem TotalsExact.cancel {b : OrderBook L} (hb : TotalsExact b) (id : OrderId) :
    TotalsExact (b.cancel id).book := by
  cases h : b.idIndex.find id with
  | none => simpa [cancel_of_find_none h] using hb
  | some e =>
    rw [cancel_of_find h]
    have : TotalsExact ({ b.setSide e.side (eraseAt (b.side e.side) e.side e.price e.node) with
        orderPool := b.orderPool.free e.node, idIndex := b.idIndex.erase id } : OrderBook L) :=
      hb.setSide ((hb e.side).eraseAt _ _ _)
    exact this.endCommand _ _

/-- **A modify to a positive quantity keeps every total exact.** In place, the reduction is
taken off the node the index entry designates; a dangling entry reads as a zero node,
which a positive quantity never shrinks, so the in-place path always has its node. -/
theorem TotalsExact.modify {b : OrderBook L} (hb : TotalsExact b) (id : OrderId)
    (newPrice : Int) {newQty : Int} (hq : 0 < newQty) :
    TotalsExact (b.modify id newPrice newQty).book := by
  cases h : b.idIndex.find id with
  | none => simpa [OrderBook.modify, h] using hb
  | some e =>
    simp only [OrderBook.modify, h]
    have hc := TotalsExact.cancel (b := { b with clock := b.clock.now.2 }) hb id
    split_ifs with hin hret
    · cases hn : (level (b.side e.side) e.price).node? e.node with
      | none => simp [OrderBook.entryNode, hn] at hin; omega
      | some m =>
        refine TotalsExact.endCommand (hb.setSide (((hb e.side).congr (by funext; simp)).setLevel _
          ?_)) _ _
        simpa using LevelFIFO.totalExact_reduceQty (hb e.side e.price) hn _
    · exact hc
    · exact hc.submitLimit _

end Lawful

end OrderBook

namespace MatchingEngine

open OrderBook

variable {L : Type} [PriceLevels L] [LawfulPriceLevels L]

/-- **Every command whose modify asks for a positive quantity keeps every level's total
exact.** -/
theorem totalsExact_processCommand {b : OrderBook L} (hb : TotalsExact b) {cmd : OrderCommand}
    (hm : PositiveModify cmd) : TotalsExact (processCommand b cmd).1 := by
  unfold MatchingEngine.processCommand
  split
  · split_ifs
    · exact hb.submitLimit cmd
    · exact hb.submitMarket cmd
  · exact hb.cancel cmd.orderId
  · next ht => exact hb.modify _ _ (hm ht)

/-- **Along every valid run every level's `total_qty` is the `int64_t` image of the sum of
its open quantities.** -/
theorem totalsExact_run {b : OrderBook L} (hb : TotalsExact b) {ids : List OrderId}
    {cmds : List OrderCommand} (hr : ValidRun b ids cmds) : TotalsExact (run b cmds).1 :=
  run_induction_on PositiveModify TotalsExact (fun _ _ h hm => totalsExact_processCommand h hm) hb
    hr.positiveModify

end MatchingEngine

/-- An empty book's totals are exact. -/
theorem OrderBook.totalsExact_new {L : Type} [PriceLevels L] [LawfulPriceLevels L]
    (sym : SymbolId) (bids asks : L) (clock : Clock)
    (hbids : ∀ px, level bids px = default) (hasks : ∀ px, level asks px = default) :
    OrderBook.TotalsExact (OrderBook.new sym bids asks clock) := by
  rintro (_ | _) px
  · simpa [OrderBook.new, hbids] using LevelFIFO.totalExact_default
  · simpa [OrderBook.new, hasks] using LevelFIFO.totalExact_default

/-- Every level of a new dense ladder is empty. -/
theorem PriceLevelsArray.level_new (band : PriceBand) (px : Int) :
    PriceLevelsArray.level (PriceLevelsArray.new band) px = default := by
  unfold PriceLevelsArray.level
  split <;> rfl

/-- The engine's book starts with exact totals. -/
theorem totalsExact_new_array (sym : SymbolId) (bidBand askBand : PriceBand) (clock : Clock) :
    OrderBook.TotalsExact
      (OrderBook.new sym (PriceLevelsArray.new bidBand) (PriceLevelsArray.new askBand) clock) :=
  OrderBook.totalsExact_new _ _ _ _ (PriceLevelsArray.level_new _) (PriceLevelsArray.level_new _)

open MatchingEngine

/-- **A level total is its orders' sum wherever that sum fits**, in every state a valid run
reaches from the engine's book. -/
theorem totalQty_eq_qtySum_run (sym : SymbolId) (band : PriceBand) (clock : Clock)
    (cmds : List OrderCommand) (hr : ValidRun (book sym band clock) [] cmds) (s : Side) (px : Int)
    (hs : InInt64 (level ((run (book sym band clock) cmds).1.side s) px).qtySum) :
    (level ((run (book sym band clock) cmds).1.side s) px).totalQty =
      (level ((run (book sym band clock) cmds).1.side s) px).qtySum :=
  (totalsExact_run (totalsExact_new_array sym band band clock) hr s px).eq_qtySum hs

/-- A level whose orders all have positive quantities and which is not empty has a positive
sum. -/
theorem LevelFIFO.qtySum_pos {v : LevelFIFO} (h : ∀ n ∈ v.nodes, 0 < n.qty) (hv : v.empty = false) :
    0 < v.qtySum := by
  refine List.sum_pos _ (fun x hx => ?_) ?_
  · obtain ⟨n, hn, rfl⟩ := List.mem_map.1 hx
    exact h n hn
  · rw [Ne, List.map_eq_nil_iff, ← LevelFIFO.empty_iff, hv]
    exact Bool.false_ne_true

/-- **Resting orders and trades have positive quantities** along every run from a book with
no resting order, on either ladder, whose modifies ask for positive quantities and whose
cancels and modifies meet no entry or the entry of a resting order: every resting order has a
positive open quantity, so a non-empty level's sum is positive and is its `total_qty` wherever
it fits in `int64_t`; every trade has a positive quantity. A modify through an entry that
`FlatMap::erase` left behind shrinks `total_qty` alone (`NodeMemory.shrink_freed`). -/
theorem positiveQty_run {L : Type} [PriceLevels L] [LawfulPriceLevels L] (b : OrderBook L)
    (hb : ∀ s px, level (b.side s) px = default) (cmds : List OrderCommand)
    (hr : LinkedRun b cmds) :
    (∀ s px, ∀ n ∈ (level ((run b cmds).1.side s) px).nodes, 0 < n.qty) ∧
    (∀ s px, (level ((run b cmds).1.side s) px).empty = false →
      0 < (level ((run b cmds).1.side s) px).qtySum ∧
      (InInt64 (level ((run b cmds).1.side s) px).qtySum →
        (level ((run b cmds).1.side s) px).totalQty = (level ((run b cmds).1.side s) px).qtySum)) ∧
    ∀ tr ∈ tradesOf (run b cmds).2, 0 < tr.qty := by
  have hm := hr.positiveModify
  obtain ⟨hn, htr⟩ := nodesOk_run (F := fun _ => True) (b := b) trivial
    (fun s px n h => by simp [hb s px] at h) hm fun _ _ _ => trivial
  have hT : OrderBook.TotalsExact (run b cmds).1 :=
    run_induction_on PositiveModify OrderBook.TotalsExact
      (fun _ _ h hm => totalsExact_processCommand h hm)
      (fun s px => by rw [hb s px]; exact LevelFIFO.totalExact_default) hm
  have hpos : ∀ s px, ∀ n ∈ (level ((run b cmds).1.side s) px).nodes, 0 < n.qty :=
    fun s px n h => (hn s px n h).1
  exact ⟨hpos, fun s px hv => ⟨LevelFIFO.qtySum_pos (hpos s px) hv, (hT s px).eq_qtySum⟩, htr⟩

/-- The engine's empty book over `[100, 200]`: a bid rests, a sell fills part of it, and a
modify shrinks the rest in place. -/
theorem positiveQty_run_partialFill :
    (∀ s px, level ((book 1 ⟨100, 200⟩ Clock.ticks).side s) px = default) ∧
    LinkedRun (book 1 ⟨100, 200⟩ Clock.ticks) [OrderCommand.newOrder 1 1 .bid 150 10 .limit .gtc 0,
      .newOrder 2 2 .ask 150 4 .limit .gtc 0, .modifyOrder 1 150 3] ∧
    ((∀ s px, ∀ n ∈ (level ((run (book 1 ⟨100, 200⟩ Clock.ticks) [.newOrder 1 1 .bid 150 10 .limit .gtc 0,
        .newOrder 2 2 .ask 150 4 .limit .gtc 0, .modifyOrder 1 150 3]).1.side s) px).nodes, 0 < n.qty) ∧
      (∀ s px, (level ((run (book 1 ⟨100, 200⟩ Clock.ticks) [.newOrder 1 1 .bid 150 10 .limit .gtc 0,
          .newOrder 2 2 .ask 150 4 .limit .gtc 0, .modifyOrder 1 150 3]).1.side s) px).empty = false →
        0 < (level ((run (book 1 ⟨100, 200⟩ Clock.ticks) [.newOrder 1 1 .bid 150 10 .limit .gtc 0,
          .newOrder 2 2 .ask 150 4 .limit .gtc 0, .modifyOrder 1 150 3]).1.side s) px).qtySum ∧
        (InInt64 (level ((run (book 1 ⟨100, 200⟩ Clock.ticks) [.newOrder 1 1 .bid 150 10 .limit .gtc 0,
            .newOrder 2 2 .ask 150 4 .limit .gtc 0, .modifyOrder 1 150 3]).1.side s) px).qtySum →
          (level ((run (book 1 ⟨100, 200⟩ Clock.ticks) [.newOrder 1 1 .bid 150 10 .limit .gtc 0,
            .newOrder 2 2 .ask 150 4 .limit .gtc 0, .modifyOrder 1 150 3]).1.side s) px).totalQty =
          (level ((run (book 1 ⟨100, 200⟩ Clock.ticks) [.newOrder 1 1 .bid 150 10 .limit .gtc 0,
            .newOrder 2 2 .ask 150 4 .limit .gtc 0, .modifyOrder 1 150 3]).1.side s) px).qtySum)) ∧
      ∀ tr ∈ tradesOf (run (book 1 ⟨100, 200⟩ Clock.ticks) [.newOrder 1 1 .bid 150 10 .limit .gtc 0,
        .newOrder 2 2 .ask 150 4 .limit .gtc 0, .modifyOrder 1 150 3]).2, 0 < tr.qty) :=
  ⟨fun s px => by cases s <;> exact PriceLevelsArray.level_new _ px, by decide,
    positiveQty_run _ (fun s px => by cases s <;> exact PriceLevelsArray.level_new _ px) _ (by decide)⟩

/-- Two bids of `2^62` lots at `150` on the engine's book over `[100, 200]`: the level's
orders hold `2^63` lots, its `total_qty` has wrapped to `-2^63`, and the FOK precheck for a
sell of `2^62 + 1` at `150`, which the resting orders cover, finds too little. -/
theorem levelTotal_overflows :
    ValidRun (book 1 ⟨100, 200⟩ Clock.ticks) []
        [.newOrder 1 1 .bid 150 4611686018427387904 .limit .gtc 0,
          .newOrder 2 2 .bid 150 4611686018427387904 .limit .gtc 0] ∧
      (level ((run (book 1 ⟨100, 200⟩ Clock.ticks)
        [.newOrder 1 1 .bid 150 4611686018427387904 .limit .gtc 0,
          .newOrder 2 2 .bid 150 4611686018427387904 .limit .gtc 0]).1.side .bid) 150).qtySum =
        9223372036854775808 ∧
      (level ((run (book 1 ⟨100, 200⟩ Clock.ticks)
        [.newOrder 1 1 .bid 150 4611686018427387904 .limit .gtc 0,
          .newOrder 2 2 .bid 150 4611686018427387904 .limit .gtc 0]).1.side .bid) 150).totalQty =
        -9223372036854775808 ∧
      (run (book 1 ⟨100, 200⟩ Clock.ticks)
        [.newOrder 1 1 .bid 150 4611686018427387904 .limit .gtc 0,
          .newOrder 2 2 .bid 150 4611686018427387904 .limit .gtc 0]).1.checkFokLiquidity .ask
        4611686018427387905 150 = false := by
  decide

end HyperliquidEngine
