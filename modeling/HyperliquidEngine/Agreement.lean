import HyperliquidEngine.BestPrice

/-!
# The dense and the sparse ladder agree

`OrderBook<PriceLevelsArray>` and `OrderBook<PriceLevelsAVL>` run the same code against
different ladders. The ladders answer the book's queries alike except in one place:
`is_valid_price` is the band for the dense ladder and everything strictly between the
sentinels for the sparse one. The book asks it only in the two walks away from the touch
(`refresh_best_after_depletion` and the FOK precheck), which stop at the band's edge on the
dense ladder and walk on in the sparse map. Beyond the band the map holds no order, so the
walks find the same thing, as long as the band lies strictly between the sentinels.

`LadderSim` relates a dense and a sparse ladder that hold the same levels and the same
cached best and pointer; `BookSim` relates two books whose ladders are so related and whose
pool, index and clock are equal. One lemma per operation shows that the two books return
the same result, emit the same events and stay related; `ladders_agree` runs it along every
valid run of the engine. On a band that reaches a sentinel the walks differ:
`ladders_disagree_counterexample`.
-/

namespace HyperliquidEngine

open PriceLevels LawfulPriceLevels

/-- A band strictly between the two sentinels. -/
def PriceBand.Inside (band : PriceBand) : Prop :=
  Sentinel.emptyBid < band.minTick ∧ band.maxTick < Sentinel.emptyAsk

instance (band : PriceBand) : Decidable band.Inside := inferInstanceAs (Decidable (_ ∧ _))

namespace OrderBook

section Walks

variable {L : Type} [PriceLevels L] [LawfulPriceLevels L]

/-- The FOK walk adds nothing where every level further away is empty. -/
theorem fokLoop_eq_of_empty {l : L} {o : Side} {qty limit : Int} :
    ∀ (n : Nat) {cur : Int} (avail : Int), (∀ j, (level l (o.away cur j)).empty = true) →
      fokLoop l o qty limit n cur avail = avail
  | 0, _, _, _ => rfl
  | n + 1, cur, avail, h => by
    have h₀ : hasLevel l cur = false := by simpa using h 0
    simp only [fokLoop, h₀, Bool.false_eq_true, ↓reduceIte]
    split_ifs
    · rfl
    · rfl
    · rfl
    · exact fokLoop_eq_of_empty n avail fun j => by simpa [add_comm] using h (1 + j)

end Walks

end OrderBook

/-- Off its band the dense ladder holds only empty levels. -/
theorem PriceLevelsArray.level_of_not_valid {l : PriceLevelsArray} {px : Int}
    (h : PriceLevels.isValidPrice l px = false) : PriceLevels.level l px = default := by
  show PriceLevelsArray.level l px = default
  simp only [PriceLevelsArray.level]
  rw [if_neg (by simpa using h)]

@[simp] theorem PriceLevelsArray.hasSlot_eq (l : PriceLevelsArray) (px : Int) :
    PriceLevels.hasSlot l px = true := rfl

/-- A dense ladder `la` and a sparse ladder `lv` that answer the book's queries about side
`s` alike: the same levels, the same cached best and pointer. The best is valid for the
dense ladder, every price valid for it is valid for the sparse one, and its valid prices
form an interval, so a walk that leaves them never comes back. -/
structure LadderSim (la : PriceLevelsArray) (lv : PriceLevelsAVL) (s : Side) : Prop where
  level_eq : level la = level lv
  best_eq : best la s = best lv s
  ptr_eq : bestLevelPtr la s = bestLevelPtr lv s
  best_valid : best la s ≠ Sentinel.empty s → isValidPrice la (best la s)
  valid_avl : ∀ px, isValidPrice la px → isValidPrice lv px
  valid_convex : ∀ a b c, a ≤ b → b ≤ c → isValidPrice la a → isValidPrice la c → isValidPrice la b

namespace LadderSim

variable {la : PriceLevelsArray} {lv : PriceLevelsAVL} {s : Side}

/-- Walking away from a valid price, the levels from the first invalid price on are empty
in both ladders. -/
theorem empty_beyond (h : LadderSim la lv s) {cur : Int} (hcur : isValidPrice la cur) {i : Nat}
    (hi : isValidPrice la (s.away cur i) = false) :
    ∀ j, i ≤ j → (level lv (s.away cur j)).empty = true := by
  intro j hj
  have hj' : isValidPrice la (s.away cur j) = false := by
    by_contra hv
    rw [Bool.not_eq_false] at hv
    have hbetween : isValidPrice la (s.away cur i) := by
      cases s
      · exact h.valid_convex _ _ _ (by simp only [Side.away_bid]; omega)
          (by simp only [Side.away_bid]; omega) hv hcur
      · exact h.valid_convex _ _ _ (by simp only [Side.away_ask]; omega)
          (by simp only [Side.away_ask]; omega) hcur hv
    simp_all
  rw [← h.level_eq, PriceLevelsArray.level_of_not_valid hj']
  rfl

theorem getLevel (h : LadderSim la lv s) (px : Int) :
    LadderSim (PriceLevels.getLevel la px) (PriceLevels.getLevel lv px) s :=
  ⟨funext fun qx => by rw [level_getLevel, level_getLevel, h.level_eq], by simpa using h.2,
    by simpa using h.3, by simpa using h.4, by simpa using h.5, by simpa using h.6⟩

/-- A write keeps the ladders related when it lands in both, at a price valid for the dense
ladder, or when it writes back the level already there. -/
theorem setLevel (h : LadderSim la lv s) (px : Int) (v : LevelFIFO)
    (hv : isValidPrice la px ∨ v = level la px) :
    LadderSim (PriceLevels.setLevel la px v) (PriceLevels.setLevel lv px v) s := by
  refine ⟨funext fun qx => ?_, by simpa using h.2, by simpa using h.3, by simpa using h.4,
    by simpa using h.5, by simpa using h.6⟩
  · by_cases hq : qx = px
    · subst hq
      rcases hv with hv | rfl
      · rw [level_setLevel_self la v hv, level_setLevel_self lv v (h.valid_avl _ hv)]
      · have hlv := congrFun h.level_eq qx
        rcases level_setLevel_self_or la qx (level la qx) with h₁ | h₁ <;>
          rcases level_setLevel_self_or lv qx (level la qx) with h₂ | h₂ <;> simp_all
    · rw [level_setLevel_ne la v hq, level_setLevel_ne lv v hq, h.level_eq]

/-- Setting the cached best keeps the ladders related at a valid price that has a level
object in the map, or at the sentinel. -/
theorem setBest (h : LadderSim la lv s) (px : Int) (hpx : px = Sentinel.empty s ∨ hasSlot lv px)
    (hvalid : px ≠ Sentinel.empty s → isValidPrice la px) :
    LadderSim (PriceLevels.setBest la s px) (PriceLevels.setBest lv s px) s := by
  refine ⟨by simpa using h.1, by simp, ?_, by simpa using hvalid, by simpa using h.5,
    by simpa using h.6⟩
  rcases hpx with rfl | hpx
  · simp
  · simp [hpx]

theorem touchBest (h : LadderSim la lv s) :
    LadderSim (OrderBook.touchBest la s).1 (OrderBook.touchBest lv s).1 s ∧
      (OrderBook.touchBest la s).2 = (OrderBook.touchBest lv s).2 := by
  simp only [OrderBook.touchBest, ← h.best_eq]
  split_ifs
  · exact ⟨h.getLevel _, by rw [level_getLevel, level_getLevel, h.level_eq]⟩
  · exact ⟨h, rfl⟩

/-- **The best-price search agrees**: from a valid price, the dense ladder stops at the band's
edge where the sparse one walks on through empty levels. -/
theorem searchAway (h : LadderSim la lv s) {cur : Int} (hcur : isValidPrice la cur) :
    ∀ (n : Nat) (i : Nat), OrderBook.searchAway la s cur n i = OrderBook.searchAway lv s cur n i
  | 0, _ => rfl
  | n + 1, i => by
    simp only [OrderBook.searchAway]
    by_cases hv : isValidPrice la (s.away cur i)
    · have hlev : hasLevel lv (s.away cur i) = hasLevel la (s.away cur i) := by
        simp [hasLevel_eq, h.level_eq]
      simp only [hv, h.valid_avl _ hv, hlev, Bool.not_true, Bool.false_eq_true, ↓reduceIte]
      split_ifs
      · rfl
      · rfl
      · exact searchAway h hcur n (i + 1)
    · rw [Bool.not_eq_true] at hv
      have hemp := h.empty_beyond hcur hv
      simp only [hv, Bool.not_false, hasLevel_eq, hemp i le_rfl, Bool.not_true,
        Bool.false_eq_true, ↓reduceIte, ite_self]
      split_ifs
      · rfl
      · rfl
      · exact (OrderBook.searchAway_eq_none_of_empty n fun j hj => hemp j (by omega)).symm

theorem refreshBest (h : LadderSim la lv s) :
    LadderSim (OrderBook.refreshBest la s) (OrderBook.refreshBest lv s) s := by
  simp only [OrderBook.refreshBest, ← h.best_eq]
  split_ifs with hcur
  · exact h
  · rw [← h.searchAway (h.best_valid hcur)]
    refine h.setBest _ ?_ fun hne => ?_
    · cases hs : OrderBook.searchAway la s (best la s) maxSearch 1 with
      | none => exact .inl rfl
      | some px =>
        rw [h.searchAway (h.best_valid hcur)] at hs
        exact .inr (hasSlot_of_nonempty lv (OrderBook.searchAway_eq_some hs).2.2.1)
    · cases hs : OrderBook.searchAway la s (best la s) maxSearch 1 with
      | none => simp [hs] at hne
      | some px => simpa using (OrderBook.searchAway_eq_some hs).2.1

/-- The rest path keeps the ladders related at a valid price. -/
theorem enqueueAt (h : LadderSim la lv s) {px : Int} (hv : isValidPrice la px) (node : OrderNode) :
    LadderSim (OrderBook.enqueueAt la s px node) (OrderBook.enqueueAt lv s px node) s := by
  have hg := h.getLevel px
  have hl : level (PriceLevels.getLevel lv px) px = level (PriceLevels.getLevel la px) px := by
    rw [hg.level_eq]
  have hs := hg.setLevel px ((level (PriceLevels.getLevel la px) px).enqueue node)
    (.inl (by simpa using hv))
  simp only [OrderBook.enqueueAt, hl, ← hs.best_eq]
  split_ifs
  · exact hs.setBest _ (.inr (hasSlot_setLevel _ _ (hasSlot_getLevel lv px)))
      fun _ => by simpa using hv
  · exact hs

/-- The cancel path keeps the ladders related: off the band it writes back an empty level. -/
theorem eraseAt (h : LadderSim la lv s) (px : Int) (addr : Nat) :
    LadderSim (OrderBook.eraseAt la s px addr) (OrderBook.eraseAt lv s px addr) s := by
  have hg := h.getLevel px
  have hl : level (PriceLevels.getLevel lv px) px = level (PriceLevels.getLevel la px) px := by
    rw [hg.level_eq]
  have hs := hg.setLevel px ((level (PriceLevels.getLevel la px) px).erase addr) (by
    by_cases hv : isValidPrice la px
    · exact .inl (by simpa using hv)
    · right
      rw [level_getLevel, PriceLevelsArray.level_of_not_valid (by simpa using hv)]
      rfl)
  simp only [OrderBook.eraseAt, hl]
  split_ifs
  · exact hs.refreshBest
  · exact hs

theorem nonemptyCount (h : LadderSim la lv s) : PriceLevels.nonemptyCount la = PriceLevels.nonemptyCount lv := by
  refine List.Perm.length_eq ((List.perm_ext_iff_of_nodup (nodup_forEachNonempty' la)
    (nodup_forEachNonempty' lv)).2 fun ⟨px, v⟩ => ?_)
  rw [mem_forEachNonempty, mem_forEachNonempty, h.level_eq]

/-- **The FOK walk agrees**: from a valid price, or from beyond the band, where both walks
find nothing more. -/
theorem fokLoop (h : LadderSim la lv s) (qty limit : Int) :
    ∀ (n : Nat) {cur : Int} (avail : Int),
      (isValidPrice la cur ∨ ∀ j, (level la (s.away cur j)).empty = true) →
      OrderBook.fokLoop la s qty limit n cur avail = OrderBook.fokLoop lv s qty limit n cur avail
  | 0, _, _, _ => rfl
  | n + 1, cur, avail, hcur => by
    rcases hcur with hcur | hbeyond
    · have hlev : hasLevel lv cur = hasLevel la cur := by simp [hasLevel_eq, h.level_eq]
      simp only [OrderBook.fokLoop, hcur, h.valid_avl _ hcur, hlev, ← h.level_eq, Bool.not_true,
        Bool.false_eq_true, ↓reduceIte]
      split_ifs
      · rfl
      · rfl
      all_goals
        refine fokLoop h qty limit n _ ?_
        by_cases hv : isValidPrice la (s.away cur 1)
        · exact .inl hv
        · refine .inr fun j => ?_
          rw [h.level_eq, Side.away_away]
          exact h.empty_beyond hcur (by simpa using hv) _ (by omega)
    · rw [OrderBook.fokLoop_eq_of_empty _ _ hbeyond,
        OrderBook.fokLoop_eq_of_empty _ _ (by simpa [h.level_eq] using hbeyond)]

end LadderSim

/-- Two books, on the dense and on the sparse ladder, in the same state: related ladders
and equal pools, indices and clocks. -/
structure BookSim (b₁ : OrderBook PriceLevelsArray) (b₂ : OrderBook PriceLevelsAVL) : Prop where
  side : ∀ s, LadderSim (b₁.side s) (b₂.side s) s
  symbolId : b₁.symbolId = b₂.symbolId
  orderPool : b₁.orderPool = b₂.orderPool
  idIndex : b₁.idIndex = b₂.idIndex
  clock : b₁.clock = b₂.clock

/-- Two operations that returned the same result and events, from related books to related
books. -/
def ExecSim {α : Type} (r₁ : Exec PriceLevelsArray α) (r₂ : Exec PriceLevelsAVL α) : Prop :=
  r₁.ret = r₂.ret ∧ r₁.events = r₂.events ∧ BookSim r₁.book r₂.book

namespace BookSim

variable {b₁ : OrderBook PriceLevelsArray} {b₂ : OrderBook PriceLevelsAVL}

theorem setSide (h : BookSim b₁ b₂) {s : Side} {l₁ : PriceLevelsArray} {l₂ : PriceLevelsAVL}
    (hs : LadderSim l₁ l₂ s) : BookSim (b₁.setSide s l₁) (b₂.setSide s l₂) := by
  refine ⟨fun s' => ?_, h.2, h.3, h.4, h.5⟩
  by_cases hs' : s' = s
  · subst hs'; simpa using hs
  · simpa [hs'] using h.side s'

/-- A write to one side together with a new index and pool. -/
theorem update (h : BookSim b₁ b₂) {s : Side} {l₁ : PriceLevelsArray} {l₂ : PriceLevelsAVL}
    (hs : LadderSim l₁ l₂ s) (idx : FlatMap OrderEntry) (pool : SlabPool) :
    BookSim { b₁.setSide s l₁ with idIndex := idx, orderPool := pool }
      { b₂.setSide s l₂ with idIndex := idx, orderPool := pool } :=
  let h' := h.setSide hs
  ⟨h'.1, h'.2, rfl, rfl, h'.5⟩

theorem endCommand {α : Type} (h : BookSim b₁ b₂) (ret : α) (es : List BookEvent) :
    ExecSim (b₁.endCommand ret es) (b₂.endCommand ret es) := by
  have hb := (h.side .bid).touchBest
  have ha := (h.side .ask).touchBest
  refine ⟨rfl, ?_, ⟨fun s => ?_, h.2, h.3, h.4, by simp [OrderBook.emitBookUpdate, h.5]⟩⟩
  · simp [OrderBook.emitBookUpdate, h.2, h.5, (h.side .bid).best_eq, (h.side .ask).best_eq, hb.2,
      ha.2]
  · cases s
    exacts [hb.1, ha.1]

/-- **The level walk agrees**: the same fill and trades, and related books after. -/
theorem matchLoop (h : BookSim b₁ b₂) (o : Side) (limit : Int) (t : Taker) (n : Nat)
    (qty filled : Int) (trades : List TradeEvent) :
    BookSim (OrderBook.matchLoop o limit t n b₁ qty filled trades).1
        (OrderBook.matchLoop o limit t n b₂ qty filled trades).1 ∧
      (OrderBook.matchLoop o limit t n b₁ qty filled trades).2 =
        (OrderBook.matchLoop o limit t n b₂ qty filled trades).2 := by
  induction n generalizing b₁ b₂ qty filled trades with
  | zero => exact ⟨h, rfl⟩
  | succ n ih =>
    by_cases hq₀ : qty ≤ 0
    · simpa [OrderBook.matchLoop, hq₀] using h
    have ho := h.side o
    simp only [OrderBook.matchLoop, hq₀, if_false, ← ho.ptr_eq, ← ho.level_eq, ← ho.best_eq,
      ← h.symbolId, ← h.idIndex, ← h.orderPool]
    split
    · exact ⟨h, rfl⟩
    next lp _ =>
    split_ifs with hemp hcross hkept
    · exact ⟨h, rfl⟩
    · exact ⟨h, rfl⟩
    all_goals
      set r := OrderBook.matchLevel b₁.symbolId t (best (b₁.side o) o) (level (b₁.side o) lp).nodes
        ⟨qty, filled, (level (b₁.side o) lp).totalQty, b₁.idIndex, b₁.orderPool, trades⟩
      -- a level that holds orders lies in the band
      have hv : isValidPrice (b₁.side o) lp := by
        by_contra hv
        rw [PriceLevelsArray.level_of_not_valid (by simpa using hv)] at hemp
        exact absurd hemp (by simp)
      have hs := ho.setLevel lp ⟨r.1, r.2.totalQty⟩ (.inl hv)
    · exact ih ((h.update hs _ _).setSide (by simpa using hs.refreshBest)) _ _ _
    · exact ⟨h.update hs _ _, rfl⟩

theorem matchIfCrossing (h : BookSim b₁ b₂) (t : Side) (cmd : OrderCommand) :
    BookSim (b₁.matchIfCrossing t cmd).1 (b₂.matchIfCrossing t cmd).1 ∧
      (b₁.matchIfCrossing t cmd).2 = (b₂.matchIfCrossing t cmd).2 := by
  simp only [OrderBook.matchIfCrossing, OrderBook.matchAgainstSide, (h.side t.opposite).best_eq,
    (h.side t.opposite).nonemptyCount]
  split_ifs
  · exact h.matchLoop _ _ _ _ _ _ _
  · exact ⟨h, rfl⟩

theorem checkFokLiquidity (h : BookSim b₁ b₂) (t : Side) (qty limit : Int) :
    b₁.checkFokLiquidity t qty limit = b₂.checkFokLiquidity t qty limit := by
  have ho := h.side t.opposite
  simp only [OrderBook.checkFokLiquidity, ← ho.best_eq]
  split_ifs with he
  · rfl
  · rfl
  · rw [ho.fokLoop qty limit _ _ (.inl (ho.best_valid he))]

theorem rest (h : BookSim b₁ b₂) {t : Side} {cmd : OrderCommand}
    (hv : isValidPrice (b₁.side t) cmd.priceTicks) (rem : Int) :
    BookSim (b₁.rest t cmd rem) (b₂.rest t cmd rem) := by
  simp only [OrderBook.rest, ← h.orderPool, ← h.idIndex]
  exact h.update ((h.side t).enqueueAt hv _) _ _

/-- **A limit submission agrees**, at a price valid for the dense ladder. -/
theorem submitLimit (h : BookSim b₁ b₂) (cmd : OrderCommand)
    (hv : isValidPrice (b₁.side cmd.side) cmd.priceTicks) :
    ExecSim (b₁.submitLimit cmd) (b₂.submitLimit cmd) := by
  obtain ⟨hm, he⟩ := h.matchIfCrossing cmd.side cmd
  have hv' : isValidPrice ((b₁.matchIfCrossing cmd.side cmd).1.side cmd.side) cmd.priceTicks := by
    rwa [OrderBook.matchIfCrossing_side]
  simp only [OrderBook.submitLimit, OrderBook.submitLimitSide, OrderBook.settleLimit,
    h.checkFokLiquidity, ← he]
  split_ifs
  · exact h.endCommand _ _
  · exact hm.endCommand _ _
  · exact (hm.rest hv' _).endCommand _ _
  · exact hm.endCommand _ _

theorem submitMarket (h : BookSim b₁ b₂) (cmd : OrderCommand) :
    ExecSim (b₁.submitMarket cmd) (b₂.submitMarket cmd) := by
  obtain ⟨hm, he⟩ := h.matchLoop cmd.side.opposite (Sentinel.empty cmd.side.opposite)
    (OrderBook.takerOf cmd) (PriceLevels.nonemptyCount (b₁.side cmd.side.opposite) + 1) cmd.qty 0 []
  simp only [OrderBook.submitMarket, OrderBook.matchAgainstSide,
    ← (h.side cmd.side.opposite).nonemptyCount, ← he]
  exact hm.endCommand _ _

theorem cancel (h : BookSim b₁ b₂) (id : OrderId) : ExecSim (b₁.cancel id) (b₂.cancel id) := by
  cases hf : b₁.idIndex.find id with
  | none =>
    rw [OrderBook.cancel_of_find_none hf, OrderBook.cancel_of_find_none (h.idIndex ▸ hf)]
    exact ⟨rfl, rfl, h⟩
  | some e =>
    rw [OrderBook.cancel_of_find hf, OrderBook.cancel_of_find (h.idIndex ▸ hf), ← h.orderPool,
      ← h.idIndex]
    exact (h.update ((h.side e.side).eraseAt _ _) _ _).endCommand _ _

/-- Setting both clocks alike keeps two related books related. -/
theorem withClock (h : BookSim b₁ b₂) (c : Clock) :
    BookSim { b₁ with clock := c } { b₂ with clock := c } :=
  ⟨h.1, h.2, h.3, h.4, rfl⟩

/-- **A modify agrees**, to a non-negative quantity at a price valid for the dense ladder. -/
theorem modify (h : BookSim b₁ b₂) (id : OrderId) {newPrice newQty : Int}
    (hv : ∀ s, isValidPrice (b₁.side s) newPrice) (hq : 0 ≤ newQty) :
    ExecSim (b₁.modify id newPrice newQty) (b₂.modify id newPrice newQty) := by
  cases hf : b₁.idIndex.find id with
  | none =>
    simp only [OrderBook.modify, hf, ← h.idIndex]
    exact ⟨rfl, rfl, h⟩
  | some e =>
    have hf₂ : b₂.idIndex.find id = some e := h.idIndex ▸ hf
    have hs := h.side e.side
    have hnode : b₂.entryNode e = b₁.entryNode e := by simp [OrderBook.entryNode, hs.level_eq]
    have hc := (h.withClock b₁.clock.now.2).cancel id
    simp only [OrderBook.modify, hf, hf₂, hnode, ← h.clock]
    split_ifs with hin hret hret'
    · -- in place: the node exists, so its price lies in the band
      have hv' : isValidPrice (b₁.side e.side) e.price := by
        by_contra hne
        have : b₁.entryNode e = ⟨e.node, 0, 0, 0, 0, 0⟩ := by
          simp [OrderBook.entryNode, PriceLevelsArray.level_of_not_valid (by simpa using hne),
            LevelFIFO.node?]
        rw [this] at hin
        simp only at hin
        omega
      have hg := hs.getLevel e.price
      have hl : level (PriceLevels.getLevel (b₂.side e.side) e.price) e.price =
          level (PriceLevels.getLevel (b₁.side e.side) e.price) e.price := by rw [hg.level_eq]
      rw [hl]
      exact (h.setSide (hg.setLevel _ _ (.inl (by simpa using hv')))).endCommand _ _
    · exact ⟨rfl, hc.2.1, hc.2.2⟩
    · exact absurd hc.1 (by simp_all)
    · exact absurd hc.1.symm (by simp_all)
    · have hv' : isValidPrice ((OrderBook.cancel { b₁ with clock := b₁.clock.now.2 } id).book.side
          e.side) newPrice := by
        rw [OrderBook.isValidPrice_cancel]; exact hv _
      have hr := hc.2.2.submitLimit
        { type := .newOrder, recvTs := b₁.clock.now.1, orderId := id, symbolId := 0,
          userId := (b₁.entryNode e).user, priceTicks := newPrice, qty := newQty, side := e.side,
          orderType := .limit, tif := .gtc, flags := (b₁.entryNode e).flags } hv'
      exact ⟨hr.1, by rw [hc.2.1, hr.2.1], hr.2.2⟩

end BookSim

namespace MatchingEngine

variable {L : Type} [PriceLevels L]

/-- What the book returns to the caller of a command: an `ExecResult` for a new order or a
modify, a `bool` for a cancel. -/
def commandResult (b : OrderBook L) (cmd : OrderCommand) : ExecResult ⊕ Bool :=
  match cmd.type with
  | .newOrder => .inl (if cmd.orderType = .limit then b.submitLimit cmd else b.submitMarket cmd).ret
  | .cancelOrder => .inr (b.cancel cmd.orderId).ret
  | .modifyOrder => .inl (b.modify cmd.orderId cmd.priceTicks cmd.qty).ret

/-- The results of the commands of a run, in order. -/
def runResults (b : OrderBook L) : List OrderCommand → List (ExecResult ⊕ Bool)
  | [] => []
  | cmd :: cmds => commandResult b cmd :: runResults (processCommand b cmd).1 cmds

end MatchingEngine

open MatchingEngine

namespace BookSim

variable {b₁ : OrderBook PriceLevelsArray} {b₂ : OrderBook PriceLevelsAVL}

/-- **Every admissible command agrees**: the same result, the same events, related books. -/
theorem processCommand (h : BookSim b₁ b₂) {ids : List OrderId} {cmd : OrderCommand}
    (hc : Admissible b₁ ids cmd) :
    BookSim (processCommand b₁ cmd).1 (processCommand b₂ cmd).1 ∧
      (processCommand b₁ cmd).2 = (processCommand b₂ cmd).2 ∧
      commandResult b₁ cmd = commandResult b₂ cmd := by
  unfold MatchingEngine.processCommand commandResult
  cases ht : cmd.type
  case newOrder =>
    dsimp only
    split_ifs with hl
    · have hv := hc.2.2 (.inl ⟨ht, hl⟩)
      have hr := h.submitLimit cmd (by cases cmd.side; exacts [hv.1, hv.2])
      exact ⟨hr.2.2, hr.2.1, by rw [hr.1]⟩
    · have hr := h.submitMarket cmd
      exact ⟨hr.2.2, hr.2.1, by rw [hr.1]⟩
  case cancelOrder =>
    have hr := h.cancel cmd.orderId
    exact ⟨hr.2.2, hr.2.1, by rw [hr.1]⟩
  case modifyOrder =>
    have hv := hc.2.2 (.inr ht)
    have hr := h.modify cmd.orderId (fun s => by cases s; exacts [hv.1, hv.2]) (hc.2.1 ht).le
    exact ⟨hr.2.2, hr.2.1, by rw [hr.1]⟩

/-- The agreement along a valid run of the dense book. -/
theorem run (h : BookSim b₁ b₂) {ids : List OrderId} {cmds : List OrderCommand}
    (hr : ValidRun b₁ ids cmds) :
    BookSim (MatchingEngine.run b₁ cmds).1 (MatchingEngine.run b₂ cmds).1 ∧
      (MatchingEngine.run b₁ cmds).2 = (MatchingEngine.run b₂ cmds).2 ∧
      runResults b₁ cmds = runResults b₂ cmds := by
  induction cmds generalizing b₁ b₂ ids with
  | nil => exact ⟨h, rfl, rfl⟩
  | cons cmd cmds ih =>
    obtain ⟨h₁, h₂, h₃⟩ := h.processCommand hr.1
    obtain ⟨h₄, h₅, h₆⟩ := ih h₁ hr.2
    exact ⟨h₄, by simp only [run_cons, h₂, h₅], by simp only [runResults, h₃, h₆]⟩

end BookSim

/-- A fresh dense ladder over a band strictly between the sentinels and a fresh sparse
ladder: every level empty, both bests at the sentinel. -/
theorem LadderSim.new {band : PriceBand} (hband : band.Inside) (s : Side) :
    LadderSim (PriceLevelsArray.new band) PriceLevelsAVL.new s where
  level_eq := funext fun px => by
    show PriceLevelsArray.level _ px = PriceLevelsAVL.level _ px
    unfold PriceLevelsArray.level
    split <;> rfl
  best_eq := by cases s <;> rfl
  ptr_eq := by cases s <;> rfl
  best_valid := by cases s <;> exact fun h => absurd rfl h
  valid_avl px hpx := by
    have := hband
    simp only [PriceBand.Inside, PriceLevels.isValidPrice, PriceLevelsArray.isValidPrice,
      PriceLevelsAVL.isValidPrice, Bool.and_eq_true, decide_eq_true_eq] at hpx this ⊢
    simp only [PriceLevelsArray.new] at hpx
    omega
  valid_convex a b c hab hbc ha hc := by
    simp only [PriceLevels.isValidPrice, PriceLevelsArray.isValidPrice, Bool.and_eq_true,
      decide_eq_true_eq] at ha hc ⊢
    omega

/-- The engine's dense book on a band strictly between the sentinels starts related to the
empty sparse book. -/
theorem bookSim_new (sym : SymbolId) (band : PriceBand) (hband : band.Inside) (clock : Clock) :
    BookSim (book sym band clock) (OrderBook.new sym PriceLevelsAVL.new PriceLevelsAVL.new clock) :=
  ⟨fun s => by cases s <;> exact LadderSim.new hband _, rfl, rfl, rfl, rfl⟩

/-- **The dense and the sparse ladder agree** on every band strictly between the sentinels:
along every valid run of the engine's commands (non-zero fresh ids, positive quantities,
limit and modify prices in the band), the book on `PriceLevelsArray` over the band and the
book on `PriceLevelsAVL`, given the same clock, return the same result for every command,
emit the same trades and book updates, and end with the same best bid and best ask. -/
theorem ladders_agree (sym : SymbolId) (band : PriceBand) (hband : band.Inside) (clock : Clock)
    (cmds : List OrderCommand) (hr : ValidRun (book sym band clock) [] cmds) :
    runResults (book sym band clock) cmds =
        runResults (OrderBook.new sym PriceLevelsAVL.new PriceLevelsAVL.new clock) cmds ∧
      (run (book sym band clock) cmds).2 =
        (run (OrderBook.new sym PriceLevelsAVL.new PriceLevelsAVL.new clock) cmds).2 ∧
      ∀ s, best ((run (book sym band clock) cmds).1.side s) s =
        best ((run (OrderBook.new sym PriceLevelsAVL.new PriceLevelsAVL.new clock) cmds).1.side s) s :=
  let h := (bookSim_new sym band hband clock).run hr
  ⟨h.2.2, h.2.1, fun s => (h.1.side s).best_eq⟩

/-- The band `[100, 200]`, two bids and a cancel: a valid run, on which the two books
agree. -/
theorem ladders_agree_witness :
    PriceBand.Inside ⟨100, 200⟩ ∧
      ValidRun (book 1 ⟨100, 200⟩ Clock.ticks) []
        [.newOrder 1 1 .bid 150 10 .limit .gtc 0, .newOrder 2 1 .bid 140 10 .limit .gtc 0,
          .cancelOrder 2] ∧
      runResults (book 1 ⟨100, 200⟩ Clock.ticks)
          [.newOrder 1 1 .bid 150 10 .limit .gtc 0, .newOrder 2 1 .bid 140 10 .limit .gtc 0,
            .cancelOrder 2] =
        runResults (OrderBook.new 1 PriceLevelsAVL.new PriceLevelsAVL.new Clock.ticks)
          [.newOrder 1 1 .bid 150 10 .limit .gtc 0, .newOrder 2 1 .bid 140 10 .limit .gtc 0,
            .cancelOrder 2] :=
  ⟨by decide, by decide, (ladders_agree 1 ⟨100, 200⟩ (by decide) Clock.ticks _ (by decide)).1⟩

/-- On the band `[EMPTY_ASK - 1, EMPTY_ASK]`, which reaches the ask sentinel: a bid rests at
`EMPTY_ASK`, then an FOK sell of `5` at `EMPTY_ASK` arrives. The dense ladder's precheck
finds the bid, valid in its band, and the sell fills; the sparse ladder's precheck finds
`EMPTY_ASK` invalid, adds nothing, and kills the sell. -/
theorem ladders_disagree_counterexample :
    ValidRun (book 1 ⟨Sentinel.emptyAsk - 1, Sentinel.emptyAsk⟩ Clock.ticks) []
        [.newOrder 1 1 .bid Sentinel.emptyAsk 10 .limit .gtc 0,
          .newOrder 2 2 .ask Sentinel.emptyAsk 5 .limit .fok 0] ∧
      runResults (book 1 ⟨Sentinel.emptyAsk - 1, Sentinel.emptyAsk⟩ Clock.ticks)
          [.newOrder 1 1 .bid Sentinel.emptyAsk 10 .limit .gtc 0,
            .newOrder 2 2 .ask Sentinel.emptyAsk 5 .limit .fok 0] =
        [.inl ⟨0, 10⟩, .inl ⟨5, 0⟩] ∧
      runResults (OrderBook.new 1 PriceLevelsAVL.new PriceLevelsAVL.new Clock.ticks)
          [.newOrder 1 1 .bid Sentinel.emptyAsk 10 .limit .gtc 0,
            .newOrder 2 2 .ask Sentinel.emptyAsk 5 .limit .fok 0] =
        [.inl ⟨0, 10⟩, .inl ⟨0, 0⟩] := by
  decide

end HyperliquidEngine
