import HyperliquidEngine.Matching
import HyperliquidEngine.Engine
import HyperliquidEngine.PriceLevelsAVL

/-!
# The cached best price

Each ladder caches the best price of its side and a pointer to its level. The book keeps
that cache by hand: the rest path raises it, and `refresh_best_after_depletion` lowers it
whenever a level is emptied, searching at most `MAX_SEARCH` ticks further away.

What the book maintains on every run is the cache's *soundness* (`CacheSound`): the cached
best is the sentinel exactly when the pointer is null, and otherwise the pointer designates
the cached best, whose level holds orders. `bookSound_run` proves it for every reachable
state of either ladder, by one preservation lemma per operation.

Exactness, the best being the best non-empty level, is not maintained:
`refresh_best_after_depletion` searches from the cached best, not from the emptied level,
so a cancel that empties a level behind the best moves the best away from orders that
still rest (`bestBid_counterexample`).
-/

namespace HyperliquidEngine

open PriceLevels LawfulPriceLevels

namespace OrderBook

variable {L : Type} [PriceLevels L] [LawfulPriceLevels L]

/-! ### Soundness of one side's cache -/

/-- The cached best of side `s` is coherent with its pointer: it is never beyond the side's
sentinel, and the pointer is null exactly for the sentinel and designates the cached best
otherwise. -/
structure PtrSync (l : L) (s : Side) : Prop where
  not_beyond : s.better (Sentinel.empty s) (best l s) = false
  ptr_eq : bestLevelPtr l s = if best l s = Sentinel.empty s then none else some (best l s)

/-- The cache of side `s` is sound: coherent, and the level of a non-sentinel cached best
holds orders. -/
structure CacheSound (l : L) (s : Side) : Prop where
  not_beyond : s.better (Sentinel.empty s) (best l s) = false
  ptr_eq : bestLevelPtr l s = if best l s = Sentinel.empty s then none else some (best l s)
  nonempty : best l s ≠ Sentinel.empty s → (level l (best l s)).empty = false

omit [LawfulPriceLevels L] in
theorem CacheSound.toPtrSync {l : L} {s : Side} (h : CacheSound l s) : PtrSync l s := ⟨h.1, h.2⟩

theorem PtrSync.setLevel {l : L} {s : Side} (h : PtrSync l s) (px : Int) (v : LevelFIFO) :
    PtrSync (setLevel l px v) s :=
  ⟨by simpa using h.1, by simpa using h.2⟩

theorem CacheSound.getLevel {l : L} {s : Side} (h : CacheSound l s) (px : Int) :
    CacheSound (getLevel l px) s :=
  ⟨by simpa using h.1, by simpa using h.2, by simpa using h.3⟩

theorem CacheSound.touchBest {l : L} {s : Side} (h : CacheSound l s) (s' : Side) :
    CacheSound (touchBest l s').1 s :=
  ⟨by simpa using h.1, by simpa using h.2, by simpa using h.3⟩

/-- A write keeps the cache sound unless it empties the cached best's level. -/
theorem CacheSound.setLevel {l : L} {s : Side} (h : CacheSound l s) {px : Int} {v : LevelFIFO}
    (hv : px = best l s → best l s ≠ Sentinel.empty s → v.empty = false) :
    CacheSound (setLevel l px v) s := by
  refine ⟨(h.toPtrSync.setLevel px v).1, (h.toPtrSync.setLevel px v).2, fun hb => ?_⟩
  simp only [best_setLevel] at hb ⊢
  by_cases hp : best l s = px
  · subst hp
    rw [level_setLevel_self_of_nonempty l v (h.3 hb)]
    exact hv rfl hb
  · rw [level_setLevel_ne l v hp]
    exact h.3 hb

/-- Where `searchAway` stops with a price: beyond nothing, valid, holding orders, and at
least `i` ticks away from `cur`. -/
theorem searchAway_eq_some {l : L} {s : Side} {cur : Int} {n i : Nat} {px : Int}
    (h : searchAway l s cur n i = some px) :
    s.better px (Sentinel.empty s) ∧ isValidPrice l px ∧ (level l px).empty = false ∧
      ∃ j, i ≤ j ∧ px = s.away cur j := by
  induction n generalizing i with
  | zero => simp [searchAway] at h
  | succ n ih =>
    simp only [searchAway] at h
    split_ifs at h with h₁ h₂ h₃
    · cases h
      exact ⟨by simpa using h₁, by simpa using h₂, by simpa using h₃, i, le_rfl, rfl⟩
    · obtain ⟨a, b, c, j, hj, rfl⟩ := ih h
      exact ⟨a, b, c, j, by omega, rfl⟩

/-- The best-price search finds nothing where every level further away is empty. -/
theorem searchAway_eq_none_of_empty {l : L} {s : Side} {cur : Int} :
    ∀ (n : Nat) {i : Nat}, (∀ j, i ≤ j → (level l (s.away cur j)).empty = true) →
      searchAway l s cur n i = none
  | 0, _, _ => rfl
  | n + 1, i, h => by
    simp only [searchAway, hasLevel_eq, h i le_rfl, Bool.not_true, Bool.false_eq_true, ↓reduceIte]
    split_ifs
    · rfl
    · rfl
    · exact searchAway_eq_none_of_empty n fun j hj => h j (by omega)

/-- **The best-price repair makes a coherent cache sound**: it lands on a price that holds
orders, or on the sentinel. -/
theorem refreshBest_sound {l : L} {s : Side} (h : PtrSync l s) : CacheSound (refreshBest l s) s := by
  simp only [refreshBest]
  split_ifs with hcur
  · exact ⟨h.1, h.2, fun hb => absurd hcur hb⟩
  · cases hs : searchAway l s (best l s) maxSearch 1 with
    | none => exact ⟨by simp [Side.better_irrefl], by simp, fun hb => by simp at hb⟩
    | some px =>
      obtain ⟨hbet, -, hne, -⟩ := searchAway_eq_some hs
      have hpx : px ≠ Sentinel.empty s := by rintro rfl; simp [Side.better_irrefl] at hbet
      refine ⟨by simpa using Side.better_asymm hbet, ?_, fun _ => by simpa using hne⟩
      simp [hpx, hasSlot_of_nonempty l hne]

/-- The repair only moves the cached best away from the touch. -/
theorem refreshBest_not_better {l : L} {s : Side} (h : PtrSync l s) :
    s.better (best (refreshBest l s) s) (best l s) = false := by
  simp only [refreshBest]
  split_ifs with hcur
  · exact Side.better_irrefl _ _
  · cases hs : searchAway l s (best l s) maxSearch 1 with
    | none => simpa using h.1
    | some px =>
      obtain ⟨-, -, -, j, hj, rfl⟩ := searchAway_eq_some hs
      simpa using Side.better_asymm (Side.better_away _ (by omega))

/-- The rest path keeps the cache sound at a valid price: the level it writes holds the new
node, and a raised best points at it. -/
theorem CacheSound.enqueueAt {l : L} {t : Side} (h : CacheSound l t) {px : Int} (node : OrderNode)
    (hv : isValidPrice l px) : CacheSound (enqueueAt l t px node) t := by
  have h₁ : CacheSound (PriceLevels.setLevel (PriceLevels.getLevel l px) px
      ((level (PriceLevels.getLevel l px) px).enqueue node)) t :=
    (h.getLevel px).setLevel fun _ _ => LevelFIFO.empty_enqueue _ _
  have hlev : (level (PriceLevels.setLevel (PriceLevels.getLevel l px) px
      ((level (PriceLevels.getLevel l px) px).enqueue node)) px).empty = false := by
    rw [level_setLevel_self _ _ (by simpa using hv)]
    exact LevelFIFO.empty_enqueue _ _
  simp only [OrderBook.enqueueAt]
  split_ifs with hbet
  · have hpx : px ≠ Sentinel.empty t := by
      rintro rfl
      simp only [best_setLevel, best_getLevel] at hbet
      simp [h.1] at hbet
    have hnb : t.better (Sentinel.empty t) px = false := by
      cases hb : t.better (Sentinel.empty t) px
      · rfl
      · simp only [best_setLevel, best_getLevel] at hbet
        simpa [h.1] using Side.better_trans hb hbet
    refine ⟨by simpa using hnb, ?_, fun _ => by simpa using hlev⟩
    simp [hpx, hasSlot_setLevel _ _ (hasSlot_getLevel l px)]
  · exact h₁

/-- The cancel path keeps the cache sound: the level it writes either still holds orders or
is repaired away from. -/
theorem CacheSound.eraseAt {l : L} {s : Side} (h : CacheSound l s) (px : Int) (addr : Nat) :
    CacheSound (eraseAt l s px addr) s := by
  simp only [OrderBook.eraseAt]
  split_ifs with he
  · exact refreshBest_sound ((h.getLevel px).toPtrSync.setLevel px _)
  · exact (h.getLevel px).setLevel fun _ _ => by simpa using he

/-! ### Soundness of the book -/

/-- Both sides' caches are sound. -/
def BookSound (b : OrderBook L) : Prop := ∀ s, CacheSound (b.side s) s

omit [LawfulPriceLevels L] in
theorem BookSound.setSide {b : OrderBook L} (hb : b.BookSound) {s : Side} {l : L}
    (h : CacheSound l s) : (b.setSide s l).BookSound := by
  intro s'
  by_cases hs : s' = s
  · subst hs; simpa using h
  · simpa [hs] using hb s'

theorem BookSound.emitBookUpdate {b : OrderBook L} (hb : b.BookSound) :
    b.emitBookUpdate.1.BookSound :=
  fun s => by simpa using (hb s).touchBest s

theorem BookSound.endCommand {α : Type} {b : OrderBook L} (hb : b.BookSound) (ret : α)
    (es : List BookEvent) : (b.endCommand ret es).book.BookSound := by
  simpa using hb.emitBookUpdate

/-- A write to side `o` that keeps its cache coherent, followed by the best-price repair of
that side, leaves a sound book; the index and the pool play no part. -/
theorem BookSound.refreshAfter {b : OrderBook L} (hb : b.BookSound) {o : Side} {l : L}
    (h : PtrSync l o) (idx : FlatMap OrderEntry) (pool : SlabPool) :
    (({ b.setSide o l with idIndex := idx, orderPool := pool } : OrderBook L).refreshBestAfterDepletion
      o).BookSound := by
  intro s'
  by_cases hs : s' = o
  · subst hs; simpa using refreshBest_sound h
  · simpa [hs] using hb s'

/-- **The level walk keeps the book sound**: it reads the level the pointer designates, which
is the cached best, and repairs the best whenever it empties that level. -/
theorem BookSound.matchLoop {b : OrderBook L} (hb : b.BookSound) (o : Side) (limit : Int)
    (t : Taker) (n : Nat) (qty filled : Int) (trades : List TradeEvent) :
    (matchLoop o limit t n b qty filled trades).1.BookSound := by
  induction n generalizing b qty filled trades with
  | zero => exact hb
  | succ n ih =>
    by_cases hq₀ : qty ≤ 0
    · simpa [OrderBook.matchLoop, hq₀] using hb
    simp only [OrderBook.matchLoop, hq₀, if_false]
    split
    · exact hb
    next lp hlp =>
    have hlp' : lp = best (b.side o) o := by
      have := (hb o).ptr_eq
      split_ifs at this <;> simp_all
    split_ifs with hemp hcross hkept
    · exact hb
    · exact hb
    · exact ih (hb.refreshAfter ((hb o).toPtrSync.setLevel _ _) _ _) _ _ _
    · exact hb.setSide ((hb o).setLevel fun _ _ => by simpa [LevelFIFO.empty] using hkept)

theorem BookSound.matchIfCrossing {b : OrderBook L} (hb : b.BookSound) (t : Side)
    (cmd : OrderCommand) : (b.matchIfCrossing t cmd).1.BookSound := by
  simp only [OrderBook.matchIfCrossing]
  split
  · exact hb.matchLoop _ _ _ _ _ _ _
  · exact hb

theorem BookSound.rest {b : OrderBook L} (hb : b.BookSound) {t : Side} {cmd : OrderCommand}
    (hv : isValidPrice (b.side t) cmd.priceTicks) (rem : Int) : (b.rest t cmd rem).BookSound :=
  hb.setSide ((hb t).enqueueAt _ hv)

theorem BookSound.submitLimit {b : OrderBook L} (hb : b.BookSound) {cmd : OrderCommand}
    (hv : isValidPrice (b.side cmd.side) cmd.priceTicks) : (b.submitLimit cmd).book.BookSound := by
  simp only [OrderBook.submitLimit, OrderBook.submitLimitSide, OrderBook.settleLimit]
  have hm := hb.matchIfCrossing cmd.side cmd
  have hv' : isValidPrice ((b.matchIfCrossing cmd.side cmd).1.side cmd.side) cmd.priceTicks := by
    have := (matchIfCrossing_side b cmd.side cmd)
    rwa [this]
  split_ifs
  · exact hb.endCommand _ _
  · exact hm.endCommand _ _
  · exact (hm.rest hv' _).endCommand _ _
  · exact hm.endCommand _ _

theorem BookSound.submitMarket {b : OrderBook L} (hb : b.BookSound) (cmd : OrderCommand) :
    (b.submitMarket cmd).book.BookSound :=
  (hb.matchLoop _ _ _ _ _ _ _).endCommand _ _

theorem BookSound.cancel {b : OrderBook L} (hb : b.BookSound) (id : OrderId) :
    (b.cancel id).book.BookSound := by
  cases h : b.idIndex.find id with
  | none => simpa [cancel_of_find_none h] using hb
  | some e =>
    rw [cancel_of_find h]
    have : BookSound ({ b.setSide e.side (eraseAt (b.side e.side) e.side e.price e.node) with
        orderPool := b.orderPool.free e.node, idIndex := b.idIndex.erase id } : OrderBook L) :=
      hb.setSide ((hb e.side).eraseAt _ _)
    exact this.endCommand _ _

/-- Validity of prices is a property of the ladders that no operation changes. -/
@[simp] theorem isValidPrice_enqueueAt (l : L) (t : Side) (px : Int) (node : OrderNode) :
    isValidPrice (enqueueAt l t px node) = isValidPrice l := by
  simp only [OrderBook.enqueueAt]; split <;> simp

@[simp] theorem isValidPrice_eraseAt (l : L) (s : Side) (px : Int) (addr : Nat) :
    isValidPrice (eraseAt l s px addr) = isValidPrice l := by
  simp only [OrderBook.eraseAt]; split <;> simp

theorem isValidPrice_cancel (b : OrderBook L) (id : OrderId) (s : Side) :
    isValidPrice ((b.cancel id).book.side s) = isValidPrice (b.side s) := by
  cases h : b.idIndex.find id with
  | none => simp [cancel_of_find_none h]
  | some e =>
    rw [cancel_of_find h]
    simp only [book_endCommand, side_emitBookUpdate, isValidPrice_touchBest]
    show isValidPrice ((b.setSide e.side _).side s) = _
    rw [side_setSide]
    split_ifs with hs
    · subst hs; exact isValidPrice_eraseAt _ _ _ _
    · rfl

theorem BookSound.modify {b : OrderBook L} (hb : b.BookSound) (id : OrderId) {newPrice : Int}
    (newQty : Int) (hv : ∀ s, isValidPrice (b.side s) newPrice) :
    (b.modify id newPrice newQty).book.BookSound := by
  cases h : b.idIndex.find id with
  | none => simpa [OrderBook.modify, h] using hb
  | some e =>
    simp only [OrderBook.modify, h]
    split_ifs with hin hc
    · refine BookSound.endCommand (hb.setSide (((hb e.side).getLevel e.price).setLevel ?_)) _ _
      intro hp hne
      rw [best_getLevel] at hp hne
      rw [LevelFIFO.empty_reduceQty, level_getLevel, hp]
      exact (hb e.side).3 hne
    · exact BookSound.cancel (b := { b with clock := b.clock.now.2 }) hb id
    · exact BookSound.submitLimit (BookSound.cancel (b := { b with clock := b.clock.now.2 }) hb id)
        (by rw [isValidPrice_cancel]; exact hv _)

end OrderBook

namespace MatchingEngine

open OrderBook

variable {L : Type} [PriceLevels L] [LawfulPriceLevels L]

/-- **Every admissible command keeps the book sound.** -/
theorem bookSound_processCommand {b : OrderBook L} (hb : b.BookSound) {ids : List OrderId}
    {cmd : OrderCommand} (hc : Admissible b ids cmd) : (processCommand b cmd).1.BookSound := by
  unfold MatchingEngine.processCommand
  split
  · next ht =>
    split_ifs with hl
    · have hv := hc.2.2 (.inl ⟨ht, hl⟩)
      exact hb.submitLimit (by cases cmd.side; exacts [hv.1, hv.2])
    · exact hb.submitMarket cmd
  · exact hb.cancel _
  · next ht =>
    have := hc.2.2 (.inr ht)
    exact hb.modify _ _ (fun s => by cases s <;> simp_all [ValidPrice])

/-- The soundness of the book along every valid run. -/
theorem bookSound_run {b : OrderBook L} (hb : b.BookSound) {ids : List OrderId}
    {cmds : List OrderCommand} (hr : ValidRun b ids cmds) : (run b cmds).1.BookSound :=
  run_induction (fun b _ => b.BookSound) (fun _ _ _ hb hc => bookSound_processCommand hb hc) hb hr

end MatchingEngine

namespace OrderBook

/-- An empty book on dense ladders starts sound. -/
theorem bookSound_new_array (sym : SymbolId) (bidBand askBand : PriceBand) (clock : Clock) :
    (OrderBook.new sym (PriceLevelsArray.new bidBand) (PriceLevelsArray.new askBand) clock).BookSound := by
  intro s
  cases s <;> exact ⟨Side.better_irrefl _ _, rfl, fun h => absurd rfl h⟩

/-- An empty book on sparse ladders starts sound. -/
theorem bookSound_new_avl (sym : SymbolId) (clock : Clock) :
    (OrderBook.new sym PriceLevelsAVL.new PriceLevelsAVL.new clock).BookSound := by
  intro s
  cases s <;> exact ⟨Side.better_irrefl _ _, rfl, fun h => absurd rfl h⟩

end OrderBook

open MatchingEngine OrderBook

/-- **The cached best price is sound in every reachable state of either ladder**: in every
state a valid run reaches from an empty book, on each side the cached best is never beyond
the side's sentinel, `best_level_ptr` is null exactly when the cached best is the sentinel,
and otherwise it designates the level of the cached best, which holds at least one order. -/
theorem cachedBest_sound :
    (∀ (sym : SymbolId) (bidBand askBand : PriceBand) (clock : Clock) (cmds : List OrderCommand),
      ValidRun (OrderBook.new sym (PriceLevelsArray.new bidBand) (PriceLevelsArray.new askBand)
        clock) [] cmds →
      (run (OrderBook.new sym (PriceLevelsArray.new bidBand) (PriceLevelsArray.new askBand) clock)
        cmds).1.BookSound) ∧
    ∀ (sym : SymbolId) (clock : Clock) (cmds : List OrderCommand),
      ValidRun (OrderBook.new sym PriceLevelsAVL.new PriceLevelsAVL.new clock) [] cmds →
      (run (OrderBook.new sym PriceLevelsAVL.new PriceLevelsAVL.new clock) cmds).1.BookSound :=
  ⟨fun _ _ _ _ _ hr => bookSound_run (bookSound_new_array _ _ _ _) hr,
    fun _ _ _ hr => bookSound_run (bookSound_new_avl _ _) hr⟩

/-- The engine's book over `[100, 200]`, two bids at `150` and `140`, then a cancel of the
bid at `140`: a valid run, after which the cache is sound. -/
example :
    ValidRun (book 1 ⟨100, 200⟩ Clock.ticks) []
        [.newOrder 1 1 .bid 150 10 .limit .gtc 0, .newOrder 2 1 .bid 140 10 .limit .gtc 0,
          .cancelOrder 2] ∧
      (run (book 1 ⟨100, 200⟩ Clock.ticks)
        [.newOrder 1 1 .bid 150 10 .limit .gtc 0, .newOrder 2 1 .bid 140 10 .limit .gtc 0,
          .cancelOrder 2]).1.BookSound :=
  ⟨by decide, cachedBest_sound.1 1 ⟨100, 200⟩ ⟨100, 200⟩ Clock.ticks _ (by decide)⟩

/-- The same run leaves the bid at `150` resting while the cached best bid is the empty-bid
sentinel: cancelling the level at `140`, behind the best, runs the repair from the best
`150` downwards, which finds nothing. -/
theorem bestBid_counterexample :
    ValidRun (book 1 ⟨100, 200⟩ Clock.ticks) []
        [.newOrder 1 1 .bid 150 10 .limit .gtc 0, .newOrder 2 1 .bid 140 10 .limit .gtc 0,
          .cancelOrder 2] ∧
      best ((run (book 1 ⟨100, 200⟩ Clock.ticks)
        [.newOrder 1 1 .bid 150 10 .limit .gtc 0, .newOrder 2 1 .bid 140 10 .limit .gtc 0,
          .cancelOrder 2]).1.side .bid) .bid = Sentinel.emptyBid ∧
      (level ((run (book 1 ⟨100, 200⟩ Clock.ticks)
        [.newOrder 1 1 .bid 150 10 .limit .gtc 0, .newOrder 2 1 .bid 140 10 .limit .gtc 0,
          .cancelOrder 2]).1.side .bid) 150).empty = false := by
  decide

end HyperliquidEngine
