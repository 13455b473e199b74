import HyperliquidEngine.BestPrice
import HyperliquidEngine.Nodes

/-!
# The cached top of book never crosses without STP

The book publishes its cached bests; `Uncrossed` says the cached best bid lies strictly
below the cached best ask. Two facts about the walk keep it:

- the walk and the best-price repair only move a side's cached best away from the touch
  (`matchLoop_best_not_better`, `best_eraseAt_not_better`);
- without self-trade prevention a walk that leaves quantity unfilled stops at the sentinel or
  at a best price the limit does not reach (`matchLoop_exit`), since every level it reaches
  is emptied or fills the taker and it has one pass more than there are non-empty levels.

So a residual rests strictly inside the opposite cached best, and `cachedBests_uncrossed`
holds on every run without the STP flag whose prices lie strictly between the sentinels. A
modify resubmits with the flags of the node it replaces, so the run also keeps the STP flag
off every resting node (`NodesOk NoStp`).

The resting orders themselves can cross: after a cancel that leaves the cached best behind
orders that still rest (`HyperliquidEngine.BestPrice`), a crossing order rests instead of
trading with them (`restingCross_counterexample`).
-/

namespace HyperliquidEngine

open PriceLevels LawfulPriceLevels

/-- Flags without the self-trade-prevention bit. -/
def NoStp (flags : UInt32) : Prop := (flags &&& OrderFlags.stp != 0) = false

instance (flags : UInt32) : Decidable (NoStp flags) := inferInstanceAs (Decidable (_ = false))

/-- A price strictly between the two sentinels is strictly better than either side's sentinel. -/
theorem Side.better_empty (s : Side) {px : Int}
    (hin : Sentinel.emptyBid < px ∧ px < Sentinel.emptyAsk) : s.better px (Sentinel.empty s) := by
  cases s <;> simp [hin.1, hin.2]

namespace OrderBook

variable {L : Type} [PriceLevels L] [LawfulPriceLevels L]

/-! ### How each operation moves the cached bests -/

theorem best_enqueueAt (l : L) (t : Side) (px : Int) (node : OrderNode) :
    best (enqueueAt l t px node) t = if t.better px (best l t) then px else best l t := by
  simp only [OrderBook.enqueueAt]
  split_ifs <;> simp_all

theorem best_enqueueAt_of_ne (l : L) {t s : Side} (px : Int) (node : OrderNode) (h : s ≠ t) :
    best (enqueueAt l t px node) s = best l s := by
  simp only [OrderBook.enqueueAt]
  split <;> simp [best_setBest_of_ne _ _ h]

/-- The cancel path only moves its side's best away. -/
theorem best_eraseAt_not_better {l : L} {s : Side} (h : CacheSound l s) (px : Int) (addr : Nat) :
    s.better (best (eraseAt l s px addr) s) (best l s) = false := by
  simp only [OrderBook.eraseAt]
  split
  · simpa using refreshBest_not_better ((h.getLevel px).toPtrSync.setLevel px _)
  · simp [Side.better_irrefl]

theorem best_eraseAt_of_ne (l : L) {s s' : Side} (px : Int) (addr : Nat) (h : s' ≠ s) :
    best (eraseAt l s px addr) s' = best l s' := by
  simp only [OrderBook.eraseAt]
  split <;> simp [best_refreshBest_of_ne _ h]

section MatchLoop

variable (o : Side) (limit : Int)

/-- **The walk only moves the maker side's best away**: each repair after a depleted level
searches away from the touch. -/
theorem matchLoop_best_not_better {b : OrderBook L} (hb : b.BookSound) (t : Taker) (n : Nat)
    (qty filled : Int) (trades : List TradeEvent) :
    o.better (best ((matchLoop o limit t n b qty filled trades).1.side o) o) (best (b.side o) o) =
      false := by
  induction n generalizing b qty filled trades with
  | zero => exact Side.better_irrefl _ _
  | succ n ih =>
    by_cases hq₀ : qty ≤ 0
    · simp [OrderBook.matchLoop, hq₀, Side.better_irrefl]
    simp only [OrderBook.matchLoop, hq₀, if_false]
    split
    · exact Side.better_irrefl _ _
    next lp _ =>
    split_ifs
    · exact Side.better_irrefl _ _
    · exact Side.better_irrefl _ _
    · refine Side.not_better_trans (ih (hb.refreshAfter ((hb o).toPtrSync.setLevel _ _) _ _) _ _ _) ?_
      simpa using refreshBest_not_better ((hb o).toPtrSync.setLevel lp _)
    · simp [Side.better_irrefl]

/-- **Without STP the walk ends filled or where nothing crosses**: given more passes than
non-empty levels, a walk that leaves quantity unfilled stops at the sentinel or at a best
price that the limit does not reach. -/
theorem matchLoop_exit {b : OrderBook L} (hb : b.BookSound) {t : Taker} (ht : t.stp = false)
    {n : Nat} (hn : nonemptyCount (b.side o) < n) (qty filled : Int) (trades : List TradeEvent) :
    (matchLoop o limit t n b qty filled trades).2.1 < qty + filled →
      best ((matchLoop o limit t n b qty filled trades).1.side o) o = Sentinel.empty o ∨
        o.better limit (best ((matchLoop o limit t n b qty filled trades).1.side o) o) := by
  induction n generalizing b qty filled trades with
  | zero => exact absurd hn (Nat.not_lt_zero _)
  | succ n ih =>
    by_cases hq₀ : qty ≤ 0
    · simp only [OrderBook.matchLoop, hq₀, if_true]
      omega
    simp only [OrderBook.matchLoop, hq₀, if_false]
    have hptr := (hb o).ptr_eq
    split
    · -- a null pointer: the cached best is the sentinel
      next hnone =>
      intro _
      rw [hnone] at hptr
      split_ifs at hptr with he
      exact .inl he
    next lp hlp =>
    have hbest : best (b.side o) o ≠ Sentinel.empty o ∧ lp = best (b.side o) o := by
      rw [hlp] at hptr
      split_ifs at hptr with he
      exact ⟨he, (Option.some.inj hptr)⟩
    obtain ⟨hne, rfl⟩ := hbest
    split_ifs with hemp hcross hkept
    · exact absurd hemp (by simpa using (hb o).nonempty hne)
    · exact fun _ => .inr hcross
    all_goals
      set r := matchLevel b.symbolId t (best (b.side o) o) (level (b.side o) (best (b.side o) o)).nodes
        ⟨qty, filled, (level (b.side o) (best (b.side o) o)).totalQty, b.idIndex, b.orderPool, trades⟩
      have A : LevelAccount _ _ r := matchLevel_account _ _ _ _ _
    · -- the level is depleted: one non-empty level fewer, and the walk goes on
      intro hf
      refine ih (hb.refreshAfter ((hb o).toPtrSync.setLevel _ _) _ _) ?_ _ _ _
        (by rw [A.qty_add_filled]; exact hf)
      have hc := nonemptyCount_setLevel_deplete (b.side o) (v := ⟨r.1, r.2.totalQty⟩)
        (by simpa [LevelFIFO.empty] using hkept) (by simpa using hemp)
      simp only [refreshBestAfterDepletion_eq, side_setSide, if_pos, nonemptyCount_refreshBest]
      omega
    · -- makers remain at the level: without STP the taker is filled
      intro hf
      have hq : r.2.qty ≤ 0 := (matchLevel_nonstp _ _ _ ht _ _).resolve_left (by simpa using hkept)
      have := A.qty_add_filled
      simp only at hf hq this
      omega

end MatchLoop

theorem matchIfCrossing_best_not_better {b : OrderBook L} (hb : b.BookSound) (t : Side)
    (cmd : OrderCommand) :
    t.opposite.better (best ((b.matchIfCrossing t cmd).1.side t.opposite) t.opposite)
      (best (b.side t.opposite) t.opposite) = false := by
  simp only [OrderBook.matchIfCrossing]
  split
  · exact matchLoop_best_not_better _ _ hb _ _ _ _ _
  · exact Side.better_irrefl _ _

/-- A limit order without STP leaves quantity unmatched only where its price does not reach
the opposite cached best. -/
theorem matchIfCrossing_exit {b : OrderBook L} (hb : b.BookSound) (t : Side) {cmd : OrderCommand}
    (hstp : stpOf cmd = false) (hf : (b.matchIfCrossing t cmd).2.1 < cmd.qty) :
    best ((b.matchIfCrossing t cmd).1.side t.opposite) t.opposite = Sentinel.empty t.opposite ∨
      t.opposite.better cmd.priceTicks
        (best ((b.matchIfCrossing t cmd).1.side t.opposite) t.opposite) := by
  simp only [OrderBook.matchIfCrossing, matchAgainstSide] at hf ⊢
  split_ifs at hf ⊢ with hc
  · exact matchLoop_exit _ _ hb hstp (Nat.lt_succ_self _) _ _ _ (by rwa [add_zero])
  · rw [not_and_or, not_not] at hc
    rcases hc with hc | hc
    · exact .inl hc
    · exact .inr (by simpa using hc)

/-! ### The invariant -/

/-- The cached best bid lies strictly below the cached best ask. -/
def Uncrossed (b : OrderBook L) : Prop := best (b.side .bid) .bid < best (b.side .ask) .ask

omit [LawfulPriceLevels L] in
/-- The invariant seen from a taker of side `t`: its side's best is strictly better, for the
opposite side, than the opposite best. -/
theorem uncrossed_iff (b : OrderBook L) (t : Side) :
    b.Uncrossed ↔ t.opposite.better (best (b.side t) t) (best (b.side t.opposite) t.opposite) := by
  cases t <;> simp [Uncrossed]

omit [LawfulPriceLevels L] in
/-- Moving both cached bests away from the touch keeps them uncrossed. -/
theorem Uncrossed.of_not_better {b b' : OrderBook L} (hu : b.Uncrossed)
    (h : ∀ s : Side, s.better (best (b'.side s) s) (best (b.side s) s) = false) : b'.Uncrossed := by
  have h₁ := h .bid
  have h₂ := h .ask
  simp only [Uncrossed, Side.better_bid, Side.better_ask, decide_eq_false_iff_not] at *
  omega

theorem Uncrossed.endCommand {α : Type} {b : OrderBook L} (hu : b.Uncrossed) (ret : α)
    (es : List BookEvent) : (b.endCommand ret es).book.Uncrossed := by
  simpa [Uncrossed] using hu

omit [LawfulPriceLevels L] in
/-- A walk against side `o` leaves `o.opposite` alone and moves `o`'s best away. -/
theorem Uncrossed.of_walk {b b' : OrderBook L} (hu : b.Uncrossed) (o : Side)
    (hown : b'.side o.opposite = b.side o.opposite)
    (hopp : o.better (best (b'.side o) o) (best (b.side o) o) = false) : b'.Uncrossed := by
  refine hu.of_not_better fun s => ?_
  rcases Side.eq_or_eq_opposite s o with rfl | rfl
  · exact hopp
  · rw [hown]
    exact Side.better_irrefl _ _

theorem Uncrossed.matchIfCrossing {b : OrderBook L} (hu : b.Uncrossed) (hb : b.BookSound)
    (t : Side) (cmd : OrderCommand) : (b.matchIfCrossing t cmd).1.Uncrossed :=
  hu.of_walk t.opposite (by simpa using matchIfCrossing_side b t cmd)
    (matchIfCrossing_best_not_better hb t cmd)

/-- **A limit order without STP keeps the cached bests uncrossed**: its residual rests only
strictly inside the opposite best. -/
theorem Uncrossed.submitLimit {b : OrderBook L} (hu : b.Uncrossed) (hb : b.BookSound)
    {cmd : OrderCommand} (hstp : stpOf cmd = false)
    (hin : Sentinel.emptyBid < cmd.priceTicks ∧ cmd.priceTicks < Sentinel.emptyAsk) :
    (b.submitLimit cmd).book.Uncrossed := by
  have hm := hu.matchIfCrossing hb cmd.side cmd
  simp only [OrderBook.submitLimit, OrderBook.submitLimitSide, OrderBook.settleLimit]
  split_ifs with _ _ hrest
  · exact hu.endCommand _ _
  · exact hm.endCommand _ _
  · -- the residual rests at a price the opposite best does not reach
    have hexit := matchIfCrossing_exit hb cmd.side hstp (by omega)
    have hm' := (uncrossed_iff _ cmd.side).1 hm
    refine Uncrossed.endCommand ((uncrossed_iff _ cmd.side).2 ?_) _ _
    simp only [side_rest, if_pos, Side.opposite_ne, if_false, best_enqueueAt]
    split_ifs
    · rcases hexit with he | he
      · rw [he]; exact Side.better_empty _ hin
      · exact he
    · exact hm'
  · exact hm.endCommand _ _

theorem Uncrossed.submitMarket {b : OrderBook L} (hu : b.Uncrossed) (hb : b.BookSound)
    (cmd : OrderCommand) : (b.submitMarket cmd).book.Uncrossed :=
  Uncrossed.endCommand (hu.of_walk cmd.side.opposite (matchLoop_side_opposite _ _ _ _ _ _ _)
    (matchLoop_best_not_better _ _ hb _ _ _ _ _)) _ _

theorem Uncrossed.cancel {b : OrderBook L} (hu : b.Uncrossed) (hb : b.BookSound) (id : OrderId) :
    (b.cancel id).book.Uncrossed := by
  cases h : b.idIndex.find id with
  | none => simpa [cancel_of_find_none h] using hu
  | some e =>
    rw [cancel_of_find h]
    refine Uncrossed.endCommand (hu.of_walk e.side (by simp) ?_) _ _
    simpa using best_eraseAt_not_better (hb e.side) e.price e.node

/-- **A modify keeps the cached bests uncrossed** when it moves to a price strictly between
the sentinels and the node it replaces carries no STP flag. -/
theorem Uncrossed.modify {b : OrderBook L} (hu : b.Uncrossed) (hb : b.BookSound)
    (hn : NodesOk NoStp b) (id : OrderId) {newPrice : Int} (newQty : Int)
    (hin : Sentinel.emptyBid < newPrice ∧ newPrice < Sentinel.emptyAsk) :
    (b.modify id newPrice newQty).book.Uncrossed := by
  cases h : b.idIndex.find id with
  | none => simpa [OrderBook.modify, h] using hu
  | some e =>
    simp only [OrderBook.modify, h]
    have hc := Uncrossed.cancel (b := { b with clock := b.clock.now.2 }) hu hb id
    split_ifs with hin' hret
    · refine Uncrossed.endCommand (hu.of_not_better fun s => ?_) _ _
      by_cases hs : s = e.side
      · subst hs; simp [Side.better_irrefl]
      · simp [hs, Side.better_irrefl]
    · exact hc
    · exact hc.submitLimit (BookSound.cancel (b := { b with clock := b.clock.now.2 }) hb id)
        (hn.entryNode_flags (by decide) e) hin

end OrderBook

namespace MatchingEngine

open OrderBook

variable {L : Type} [PriceLevels L] [LawfulPriceLevels L]

/-- A command of the runs the crossing invariant covers: no STP flag, and a price strictly
between the sentinels wherever the order may rest. -/
def NoStpCommand (cmd : OrderCommand) : Prop :=
  stpOf cmd = false ∧ ((cmd.type = .newOrder ∧ cmd.orderType = .limit) ∨ cmd.type = .modifyOrder →
    Sentinel.emptyBid < cmd.priceTicks ∧ cmd.priceTicks < Sentinel.emptyAsk)

instance (cmd : OrderCommand) : Decidable (NoStpCommand cmd) :=
  inferInstanceAs (Decidable (_ ∧ _))

/-- The invariant of runs without STP: a sound cache, no STP flag on a resting node, and
uncrossed cached bests. -/
def NoStpInvariant (b : OrderBook L) : Prop :=
  b.BookSound ∧ NodesOk NoStp b ∧ b.Uncrossed

/-- **Every admissible command without STP keeps the invariant.** -/
theorem noStpInvariant_processCommand {b : OrderBook L} (hb : NoStpInvariant b)
    {ids : List OrderId} {cmd : OrderCommand} (hc : Admissible b ids cmd)
    (hcmd : NoStpCommand cmd) : NoStpInvariant (processCommand b cmd).1 := by
  obtain ⟨hs, hn, hu⟩ := hb
  refine ⟨bookSound_processCommand hs hc, (nodesOk_processCommand (by decide) hn hc.2.1
    fun _ => hcmd.1).1, ?_⟩
  unfold MatchingEngine.processCommand
  split
  · next ht =>
    split_ifs with hl
    · exact hu.submitLimit hs hcmd.1 (hcmd.2 (.inl ⟨ht, hl⟩))
    · exact hu.submitMarket hs cmd
  · exact hu.cancel hs _
  · next ht => exact hu.modify hs hn _ _ (hcmd.2 (.inr ht))

/-- The invariant along every valid run of commands without STP. -/
theorem noStpInvariant_run {b : OrderBook L} (hb : NoStpInvariant b) {ids : List OrderId}
    {cmds : List OrderCommand} (hr : ValidRun b ids cmds) (hcmds : ∀ cmd ∈ cmds, NoStpCommand cmd) :
    NoStpInvariant (run b cmds).1 :=
  run_induction_of NoStpCommand (fun b _ => NoStpInvariant b)
    (fun _ _ _ hb hc hq => noStpInvariant_processCommand hb hc hq) hb hr hcmds

end MatchingEngine

open MatchingEngine OrderBook

/-- An empty book on dense ladders starts with the invariant. -/
theorem noStpInvariant_new_array (sym : SymbolId) (bidBand askBand : PriceBand) (clock : Clock) :
    NoStpInvariant
      (OrderBook.new sym (PriceLevelsArray.new bidBand) (PriceLevelsArray.new askBand) clock) := by
  refine ⟨bookSound_new_array _ _ _ _, nodesOk_new _ _ _ _ _ (fun px => ?_) (fun px => ?_),
    show Sentinel.emptyBid < Sentinel.emptyAsk by decide⟩ <;>
  · show (PriceLevelsArray.level _ px).nodes = []
    unfold PriceLevelsArray.level
    split <;> rfl

/-- An empty book on sparse ladders starts with the invariant. -/
theorem noStpInvariant_new_avl (sym : SymbolId) (clock : Clock) :
    NoStpInvariant (OrderBook.new sym PriceLevelsAVL.new PriceLevelsAVL.new clock) :=
  ⟨bookSound_new_avl _ _, nodesOk_new _ _ _ _ _ (fun _ => rfl) (fun _ => rfl),
    show Sentinel.emptyBid < Sentinel.emptyAsk by decide⟩

/-- **The cached bests never cross on a run without STP**, on either ladder: in every state
that a valid run reaches from an empty book by commands without the STP flag, whose limit
and modify prices lie strictly between the sentinels, the cached best bid lies strictly
below the cached best ask. -/
theorem cachedBests_uncrossed :
    (∀ (sym : SymbolId) (bidBand askBand : PriceBand) (clock : Clock) (cmds : List OrderCommand),
      ValidRun (OrderBook.new sym (PriceLevelsArray.new bidBand) (PriceLevelsArray.new askBand)
        clock) [] cmds → (∀ cmd ∈ cmds, NoStpCommand cmd) →
      (run (OrderBook.new sym (PriceLevelsArray.new bidBand) (PriceLevelsArray.new askBand) clock)
        cmds).1.Uncrossed) ∧
    ∀ (sym : SymbolId) (clock : Clock) (cmds : List OrderCommand),
      ValidRun (OrderBook.new sym PriceLevelsAVL.new PriceLevelsAVL.new clock) [] cmds →
      (∀ cmd ∈ cmds, NoStpCommand cmd) →
      (run (OrderBook.new sym PriceLevelsAVL.new PriceLevelsAVL.new clock) cmds).1.Uncrossed :=
  ⟨fun _ _ _ _ _ hr hc => (noStpInvariant_run (noStpInvariant_new_array _ _ _ _) hr hc).2.2,
    fun _ _ _ hr hc => (noStpInvariant_run (noStpInvariant_new_avl _ _) hr hc).2.2⟩

/-- The engine's book over `[100, 200]`: bids at `150` and `140`, a cancel of the bid at
`140`, then an ask at `145`. A valid run without STP, after which the cached bests are
uncrossed. -/
example :
    ValidRun (book 1 ⟨100, 200⟩ Clock.ticks) []
        [.newOrder 1 1 .bid 150 10 .limit .gtc 0, .newOrder 2 1 .bid 140 10 .limit .gtc 0,
          .cancelOrder 2, .newOrder 3 2 .ask 145 10 .limit .gtc 0] ∧
      (∀ cmd ∈ [OrderCommand.newOrder 1 1 .bid 150 10 .limit .gtc 0,
          .newOrder 2 1 .bid 140 10 .limit .gtc 0, .cancelOrder 2,
          .newOrder 3 2 .ask 145 10 .limit .gtc 0], NoStpCommand cmd) ∧
      (run (book 1 ⟨100, 200⟩ Clock.ticks)
        [.newOrder 1 1 .bid 150 10 .limit .gtc 0, .newOrder 2 1 .bid 140 10 .limit .gtc 0,
          .cancelOrder 2, .newOrder 3 2 .ask 145 10 .limit .gtc 0]).1.Uncrossed :=
  ⟨by decide, by decide, cachedBests_uncrossed.1 1 ⟨100, 200⟩ ⟨100, 200⟩ Clock.ticks _ (by decide)
    (by decide)⟩

/-- The same run leaves the bid at `150` and the ask at `145` both resting: the cancel moved
the cached best bid to the sentinel, so the ask found nothing to trade with and rested below
a resting bid. -/
theorem restingCross_counterexample :
    ValidRun (book 1 ⟨100, 200⟩ Clock.ticks) []
        [.newOrder 1 1 .bid 150 10 .limit .gtc 0, .newOrder 2 1 .bid 140 10 .limit .gtc 0,
          .cancelOrder 2, .newOrder 3 2 .ask 145 10 .limit .gtc 0] ∧
      (∀ cmd ∈ [OrderCommand.newOrder 1 1 .bid 150 10 .limit .gtc 0,
          .newOrder 2 1 .bid 140 10 .limit .gtc 0, .cancelOrder 2,
          .newOrder 3 2 .ask 145 10 .limit .gtc 0], NoStpCommand cmd) ∧
      (level ((run (book 1 ⟨100, 200⟩ Clock.ticks)
        [.newOrder 1 1 .bid 150 10 .limit .gtc 0, .newOrder 2 1 .bid 140 10 .limit .gtc 0,
          .cancelOrder 2, .newOrder 3 2 .ask 145 10 .limit .gtc 0]).1.side .bid) 150).empty = false ∧
      (level ((run (book 1 ⟨100, 200⟩ Clock.ticks)
        [.newOrder 1 1 .bid 150 10 .limit .gtc 0, .newOrder 2 1 .bid 140 10 .limit .gtc 0,
          .cancelOrder 2, .newOrder 3 2 .ask 145 10 .limit .gtc 0]).1.side .ask) 145).empty = false := by
  decide

end HyperliquidEngine
