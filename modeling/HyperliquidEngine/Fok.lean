import HyperliquidEngine.Priority
import HyperliquidEngine.Totals
import HyperliquidEngine.Conservation
import Mathlib.Algebra.Order.BigOperators.Group.List

/-!
# The FOK precheck against the matcher

`check_fok_liquidity` decides a FOK order before any matching. It walks the opposite side
tick by tick from the cached best, for at most `MAX_STEPS` prices, up to the order's limit,
the sentinel or the first invalid price, and adds the `total_qty` of every level it meets,
in `int64_t`. The matcher walks the same side level by level and, after emptying a level,
searches at most `MAX_SEARCH` ticks further for the next one.

- `fokDepth` is what the precheck's window holds, summed exactly. The precheck's `int64_t`
  sum never exceeds it (`le_fokDepth_of_fokLoop`), and is it while it fits
  (`fokLoop_of_le_fokDepth`).
- `matchLoop_fills`: the matcher fills whatever the window holds. The levels of the window
  lie within `MAX_SEARCH` ticks of each other, so the best-price repair reaches each from
  the one before (`fokDepth_first` finds the next one).
- `submitLimit_fok`: a FOK order without STP is killed with no trade, or it fills
  completely, exactly as the IOC order of the same side, price and quantity.
- `fok_allOrNothing`: this holds in every state a live run reaches from the engine's book
  (`MatchingEngine.LiveRun`: no cancel or modify follows an index entry its order has left),
  and the FOK order fills exactly when the window holds its quantity, as long as that sum
  fits in `int64_t`.

The IOC order can fill where the FOK order is killed, because its walk is not bounded by
the precheck's window: each repair searches `MAX_SEARCH` ticks from the level it emptied,
while the precheck stops `MAX_STEPS` ticks from the best (`fokWindow_counterexample`, over
`main`'s default band, with the window's levels found through `fokDepth_gap`).
-/

namespace HyperliquidEngine

open PriceLevels LawfulPriceLevels

theorem wrapInt64_le {x : Int} (h : -9223372036854775808 ≤ x) : wrapInt64 x ≤ x := by
  unfold wrapInt64
  omega

theorem wrapInt64_add_wrapInt64 (x y : Int) :
    wrapInt64 (wrapInt64 x + wrapInt64 y) = wrapInt64 (x + y) := by
  unfold wrapInt64
  omega

theorem LevelFIFO.qtySum_nonneg {v : LevelFIFO} (h : ∀ n ∈ v.nodes, 0 < n.qty) : 0 ≤ v.qtySum :=
  List.sum_nonneg fun x hx => by
    obtain ⟨n, hn, rfl⟩ := List.mem_map.1 hx
    exact (h n hn).le

theorem LevelFIFO.qtySum_of_empty {v : LevelFIFO} (h : v.empty = true) : v.qtySum = 0 := by
  simp [LevelFIFO.qtySum, (LevelFIFO.empty_iff _).1 h]

/-- Stepping away from a price better than `s` stays better than `s` as long as it never
lands on `s`. -/
theorem Side.better_away_of_ne {o : Side} {p s : Int} (hp : o.better p s) :
    ∀ d, (∀ j ≤ d, o.away p j ≠ s) → o.better (o.away p d) s
  | 0, _ => by simpa using hp
  | d + 1, h => by
    have ih := Side.better_away_of_ne hp d fun j hj => h j (by omega)
    have hd := h (d + 1) le_rfl
    cases o <;> simp only [Side.better_bid, Side.better_ask, Side.away_bid, Side.away_ask,
      decide_eq_true_eq, ne_eq] at ih hd ⊢ <;> omega

/-- A price some ticks away is a different price. -/
theorem Side.away_ne {o : Side} (p : Int) {i : Nat} (h : 0 < i) : o.away p i ≠ p := fun he => by
  simpa [he, Side.better_irrefl] using Side.better_away p (s := o) h

namespace OrderBook

variable {L : Type} [PriceLevels L]

/-- The quantity the walk of `check_fok_liquidity` passes over from `cur`, for at most `n`
prices: the open quantities of the levels it reads, summed exactly. -/
def fokDepth (l : L) (o : Side) (limit : Int) : Nat → Int → Int
  | 0, _ => 0
  | n + 1, cur =>
    if o.better limit cur || cur = Sentinel.empty o then 0
    else if !isValidPrice l cur then 0
    else (if hasLevel l cur then (level l cur).qtySum else 0) + fokDepth l o limit n (o.away cur 1)

/-- A price the FOK walk passes: not beyond the limit, not the sentinel, valid. -/
def FokPasses (l : L) (o : Side) (limit px : Int) : Prop :=
  o.better limit px = false ∧ px ≠ Sentinel.empty o ∧ isValidPrice l px

instance (l : L) (o : Side) (limit px : Int) : Decidable (FokPasses l o limit px) :=
  inferInstanceAs (Decidable (_ ∧ _ ∧ _))

section Laws

variable [LawfulPriceLevels L] {l : L} {o : Side} {limit qty : Int}

theorem qtySum_of_not_hasLevel {cur : Int} (h : ¬hasLevel l cur = true) : (level l cur).qtySum = 0 :=
  LevelFIFO.qtySum_of_empty (by simpa using h)

theorem fokDepth_succ_of_passes {n : Nat} {cur : Int} (h : FokPasses l o limit cur) :
    fokDepth l o limit (n + 1) cur = (level l cur).qtySum + fokDepth l o limit n (o.away cur 1) := by
  obtain ⟨h₁, h₂, h₃⟩ := h
  cases he : (level l cur).empty
  · simp [fokDepth, h₁, h₂, h₃, he]
  · simp [fokDepth, h₁, h₂, h₃, he, LevelFIFO.qtySum, (LevelFIFO.empty_iff _).1 he]

omit [LawfulPriceLevels L] in
theorem fokDepth_succ_of_not_passes {n : Nat} {cur : Int} (h : ¬FokPasses l o limit cur) :
    fokDepth l o limit (n + 1) cur = 0 := by
  have hc : (o.better limit cur || decide (cur = Sentinel.empty o)) = true ∨
      (!isValidPrice l cur) = true := by
    by_contra hc
    simp at hc
    exact h ⟨hc.1.1, hc.1.2, hc.2⟩
  rcases hc with hc | hc <;> simp [fokDepth, hc]

theorem fokDepth_nonneg (hpos : ∀ px, 0 ≤ (level l px).qtySum) :
    ∀ n cur, 0 ≤ fokDepth l o limit n cur
  | 0, _ => le_rfl
  | n + 1, cur => by
    by_cases h : FokPasses l o limit cur
    · rw [fokDepth_succ_of_passes h]
      have := fokDepth_nonneg hpos n (o.away cur 1)
      have := hpos cur
      omega
    · rw [fokDepth_succ_of_not_passes h]

/-- One pass of the precheck's loop: it stops with `avail` once `qty` is reached or at a
price it does not pass, and otherwise adds the level's total. -/
theorem fokLoop_succ (n : Nat) (cur avail : Int) :
    fokLoop l o qty limit (n + 1) cur avail =
      if qty ≤ avail ∨ ¬FokPasses l o limit cur then avail
      else fokLoop l o qty limit n (o.away cur 1)
        (if hasLevel l cur then wrapInt64 (avail + (level l cur).totalQty) else avail) := by
  unfold FokPasses
  cases he : (level l cur).empty <;>
    by_cases h₁ : o.better limit cur <;> by_cases h₂ : cur = Sentinel.empty o <;>
    by_cases h₃ : isValidPrice l cur <;> simp [fokLoop, he, h₁, h₂, h₃]

/-- **The precheck never counts more than its window holds**: started from the image of
`a ≥ 0`, its `int64_t` sum reaches `qty` only if `a` and the window's exact sum do. -/
theorem le_fokDepth_of_fokLoop (hT : ∀ px, (level l px).TotalExact)
    (hpos : ∀ px, 0 ≤ (level l px).qtySum) :
    ∀ (n : Nat) (cur a : Int), 0 ≤ a → qty ≤ fokLoop l o qty limit n cur (wrapInt64 a) →
      qty ≤ a + fokDepth l o limit n cur
  | 0, _, a, ha, h => by
    simp only [fokLoop, fokDepth] at h ⊢
    have := wrapInt64_le (x := a) (by omega)
    omega
  | n + 1, cur, a, ha, h => by
    have hwa := wrapInt64_le (x := a) (by omega)
    have hd : 0 ≤ fokDepth l o limit (n + 1) cur := fokDepth_nonneg hpos (n + 1) cur
    rw [fokLoop_succ] at h
    split_ifs at h with hs hl
    · omega
    · push_neg at hs
      rw [hT cur, wrapInt64_add_wrapInt64] at h
      rw [fokDepth_succ_of_passes hs.2]
      have := hpos cur
      have := le_fokDepth_of_fokLoop hT hpos n _ _ (by omega) h
      omega
    · push_neg at hs
      rw [fokDepth_succ_of_passes hs.2, qtySum_of_not_hasLevel hl, zero_add]
      exact le_fokDepth_of_fokLoop hT hpos n _ _ ha h

/-- **While its window's sum fits in `int64_t`, the precheck counts all of it.** -/
theorem fokLoop_of_le_fokDepth (hT : ∀ px, (level l px).TotalExact)
    (hpos : ∀ px, 0 ≤ (level l px).qtySum) :
    ∀ (n : Nat) (cur a : Int), 0 ≤ a → InInt64 (a + fokDepth l o limit n cur) →
      qty ≤ a + fokDepth l o limit n cur → qty ≤ fokLoop l o qty limit n cur (wrapInt64 a)
  | 0, _, a, _, hfit, h => by
    simp only [fokDepth, add_zero] at hfit h
    simpa only [fokLoop, wrapInt64_of_mem hfit] using h
  | n + 1, cur, a, ha, hfit, h => by
    rw [fokLoop_succ]
    split_ifs with hs hl
    · rcases hs with hs | hs
      · exact hs
      · rw [fokDepth_succ_of_not_passes hs, add_zero] at hfit h
        rwa [wrapInt64_of_mem hfit]
    · push_neg at hs
      rw [fokDepth_succ_of_passes hs.2, ← add_assoc] at hfit h
      rw [hT cur, wrapInt64_add_wrapInt64]
      have := hpos cur
      exact fokLoop_of_le_fokDepth hT hpos n _ _ (by omega) hfit h
    · push_neg at hs
      rw [fokDepth_succ_of_passes hs.2, qtySum_of_not_hasLevel hl, zero_add] at hfit h
      exact fokLoop_of_le_fokDepth hT hpos n _ _ ha hfit h

/-- The walk's sum depends only on the levels and valid prices it passes. -/
theorem fokDepth_congr {l' : L} (hv : isValidPrice l' = isValidPrice l) :
    ∀ (n : Nat) (cur : Int), (∀ j, level l' (o.away cur j) = level l (o.away cur j)) →
      fokDepth l' o limit n cur = fokDepth l o limit n cur
  | 0, _, _ => rfl
  | n + 1, cur, h => by
    have h0 : level l' cur = level l cur := by simpa using h 0
    have ih := fokDepth_congr hv n (o.away cur 1) fun j => by rw [Side.away_away]; exact h (1 + j)
    simp only [fokDepth, hv, hasLevel_eq, h0, ih]

/-- **The first level the FOK walk meets that holds orders**: a window with a non-zero sum
passes prices that hold nothing up to a price `d` ticks on that holds orders, and its sum
is the sum of the window from there. -/
theorem fokDepth_first : ∀ (n : Nat) (cur : Int), fokDepth l o limit n cur ≠ 0 →
    ∃ d < n, (∀ j ≤ d, FokPasses l o limit (o.away cur j)) ∧
      (∀ j < d, (level l (o.away cur j)).empty = true) ∧ (level l (o.away cur d)).empty = false ∧
      fokDepth l o limit n cur = fokDepth l o limit (n - d) (o.away cur d)
  | 0, _, h => absurd rfl h
  | n + 1, cur, h => by
    by_cases hp : FokPasses l o limit cur
    · cases he : (level l cur).empty
      · exact ⟨0, Nat.succ_pos n, fun j hj => by rw [Nat.le_zero.1 hj, Side.away_zero]; exact hp,
          fun j hj => absurd hj (Nat.not_lt_zero j), by simpa using he, by simp⟩
      · rw [fokDepth_succ_of_passes hp, LevelFIFO.qtySum_of_empty he, zero_add] at h ⊢
        obtain ⟨d, hd, h₁, h₂, h₃, h₄⟩ := fokDepth_first n (o.away cur 1) h
        refine ⟨d + 1, by omega, fun j hj => ?_, fun j hj => ?_, by simpa [add_comm] using h₃,
          by simpa [add_comm] using h₄⟩
        · cases j with
          | zero => simpa using hp
          | succ j => simpa [add_comm] using h₁ j (by omega)
        · cases j with
          | zero => simpa using he
          | succ j => simpa [add_comm] using h₂ j (by omega)
    · exact absurd (fokDepth_succ_of_not_passes hp) h

/-- A stretch of `k` prices that the walk passes and that hold nothing adds nothing to it. -/
theorem fokDepth_gap : ∀ (k n : Nat) (cur : Int), (∀ j < k, FokPasses l o limit (o.away cur j) ∧
    (level l (o.away cur j)).empty = true) →
    fokDepth l o limit (n + k) cur = fokDepth l o limit n (o.away cur k)
  | 0, n, cur, _ => by simp
  | k + 1, n, cur, h => by
    have h0 := h 0 (Nat.succ_pos k)
    rw [Side.away_zero] at h0
    rw [← Nat.add_assoc, fokDepth_succ_of_passes h0.1, LevelFIFO.qtySum_of_empty h0.2, zero_add,
      fokDepth_gap k n (o.away cur 1) fun j hj => by
        rw [Side.away_away]; exact h (1 + j) (by omega), Side.away_away, Nat.add_comm]

end Laws

theorem matchLoop_filled_of_qty_nonpos {o : Side} {limit : Int} {t : Taker} (n : Nat)
    (b : OrderBook L) {qty : Int} (filled : Int) (trades : List TradeEvent) (h : qty ≤ 0) :
    (matchLoop o limit t n b qty filled trades).2.1 = filled := by
  cases n <;> simp [matchLoop, h]

section Walk

variable [LawfulPriceLevels L] {o : Side} {limit : Int} {t : Taker}

/-- Emptying the cached best `p` of a sound side and repairing the cache lands on the next
level of the window that starts one tick past `p`: `d` ticks on, when the walk passes every
price up to it and the prices before it hold nothing. -/
theorem best_refreshBest_of_first {l : L} {p : Int} (hs : CacheSound l o) (hp : best l o = p)
    (hpn : p ≠ Sentinel.empty o) {v : LevelFIFO} {d : Nat} (hd : d + 1 ≤ maxSearch)
    (h₁ : ∀ j ≤ d, FokPasses l o limit (o.away (o.away p 1) j))
    (h₂ : ∀ j < d, (level l (o.away (o.away p 1) j)).empty = true)
    (h₃ : (level l (o.away (o.away p 1) d)).empty = false) :
    best (refreshBest (setLevel l p v) o) o = o.away (o.away p 1) d := by
  -- the search reads the price `j` ticks past `p`, which is `j - 1` ticks into the window
  have hj : ∀ j, 0 < j → o.away p j = o.away (o.away p 1) (j - 1) := fun j hj => by
    rw [Side.away_away]; congr 1; omega
  have hsent : ∀ j ≤ d + 1, o.away p j ≠ Sentinel.empty o := fun j hjd => by
    rcases Nat.eq_zero_or_pos j with rfl | hj0
    · simpa using hpn
    · rw [hj j hj0]; exact (h₁ (j - 1) (by omega)).2.1
  have hbp : o.better p (Sentinel.empty o) := Side.better_of_atLeast (hp ▸ hs.not_beyond) hpn
  have hsearch : searchAway (setLevel l p v) o p maxSearch 1 = some (o.away p (d + 1)) :=
    searchAway_eq_first
      (fun j hj0 hjd => ⟨Side.better_away_of_ne hbp j fun i hi => hsent i (by omega),
        by rw [isValidPrice_setLevel, hj j hj0]; exact (h₁ (j - 1) (by omega)).2.2⟩)
      (fun j hj0 hjd => by
        rw [level_setLevel_ne _ _ (Side.away_ne p hj0), hj j hj0]; exact h₂ (j - 1) (by omega))
      (by rw [level_setLevel_ne _ _ (Side.away_ne p (Nat.succ_pos d)), hj _ (Nat.succ_pos d)]; exact h₃)
      maxSearch 1 Nat.one_pos (by omega) (by omega)
  simp only [refreshBest, best_setLevel, hp, hpn, ↓reduceIte, best_setBest, hsearch, Option.getD_some,
    Side.away_away, Nat.add_comm 1 d]

/-- **The matcher fills whatever the precheck's window holds.** Without STP, from a sound
cache whose best starts a window of at most `MAX_SEARCH` prices holding at least `qty`, the
level walk fills `qty`: it empties each level of the window or fills the taker there, and
the repair lands on the window's next level (`best_refreshBest_of_first`). -/
theorem matchLoop_fills (ht : t.stp = false) :
    ∀ (n : Nat) (b : OrderBook L) (qty filled : Int) (trades : List TradeEvent) (k : Nat),
      CacheSound (b.side o) o → nonemptyCount (b.side o) < n → k ≤ maxSearch → 0 < qty →
      qty ≤ fokDepth (b.side o) o limit k (best (b.side o) o) →
      (matchLoop o limit t n b qty filled trades).2.1 = filled + qty
  | 0, _, _, _, _, _, _, hn, _, _, _ => absurd hn (Nat.not_lt_zero _)
  | n + 1, _, _, _, _, 0, _, _, _, hq, hd => absurd hd (by simp only [fokDepth]; omega)
  | n + 1, b, qty, filled, trades, k + 1, hs, hn, hk, hq, hd => by
    obtain ⟨p, hp⟩ : ∃ p, best (b.side o) o = p := ⟨_, rfl⟩
    rw [hp] at hd
    have hpass : FokPasses (b.side o) o limit p := by
      by_contra h
      rw [fokDepth_succ_of_not_passes h] at hd
      omega
    have hpn : p ≠ Sentinel.empty o := hpass.2.1
    have hne : (level (b.side o) p).empty = false := hp ▸ hs.nonempty (hp ▸ hpn)
    have hptr : bestLevelPtr (b.side o) o = some p := by rw [hs.ptr_eq, hp, if_neg hpn]
    rw [fokDepth_succ_of_passes hpass] at hd
    have hacc := matchLevel_account b.symbolId t p (level (b.side o) p).nodes
      ⟨qty, filled, (level (b.side o) p).totalQty, b.idIndex, b.orderPool, trades⟩
    have hstop := matchLevel_nonstp b.symbolId t p ht (level (b.side o) p).nodes
      ⟨qty, filled, (level (b.side o) p).totalQty, b.idIndex, b.orderPool, trades⟩
    simp only [matchLoop, not_le.2 hq, hptr, hne, hp, hpass.1, if_false, Bool.false_eq_true,
      ↓reduceIte]
    generalize matchLevel b.symbolId t p (level (b.side o) p).nodes
      ⟨qty, filled, (level (b.side o) p).totalQty, b.idIndex, b.orderPool, trades⟩ = r at hacc hstop ⊢
    obtain ⟨h₁, h₂, -, h₄⟩ := hacc
    dsimp only at h₁ h₂ h₄
    have h₂ := h₂ hq.le
    cases hre : r.1.isEmpty
    · -- makers remain at the level, so the taker is filled there
      have := hstop.resolve_left (by simpa using hre)
      simp only [Bool.false_eq_true, ↓reduceIte]
      omega
    -- the level is emptied: the fill so far is its whole quantity
    simp only [↓reduceIte]
    rw [List.isEmpty_iff.1 hre, openQty_nil, ← LevelFIFO.qtySum_eq_openQty] at h₄
    by_cases hq' : r.2.qty ≤ 0
    · rw [matchLoop_filled_of_qty_nonpos _ _ _ _ hq']
      omega
    obtain ⟨d, hdk, hp₁, hp₂, hp₃, hp₄⟩ :=
      fokDepth_first k (o.away p 1) (by omega : fokDepth (b.side o) o limit k (o.away p 1) ≠ 0)
    have hv : (⟨r.1, r.2.totalQty⟩ : LevelFIFO).empty = true := by
      simp [LevelFIFO.empty, List.isEmpty_iff.1 hre]
    rw [matchLoop_fills ht n _ _ _ _ (k - d) ?hs ?hn (by omega) (by omega) ?hd]
    · omega
    case hs => simpa using refreshBest_sound (hs.toPtrSync.setLevel p _)
    case hn =>
      have := nonemptyCount_setLevel_deplete (b.side o) hv hne
      simp only [refreshBestAfterDepletion_eq, side_setSide, ↓reduceIte, nonemptyCount_refreshBest]
      omega
    case hd =>
      simp only [refreshBestAfterDepletion_eq, side_setSide, ↓reduceIte]
      rw [best_refreshBest_of_first hs hp hpn (by omega) hp₁ hp₂ hp₃,
        fokDepth_congr (l := b.side o) (by simp) _ _ fun j => ?_, ← hp₄]
      · omega
      · rw [level_refreshBest, level_setLevel_ne]
        simpa only [Side.away_away] using Side.away_ne (o := o) p (i := 1 + d + j) (by omega)

end Walk

/-! ## FOK orders -/

section Fok

variable [LawfulPriceLevels L] {b : OrderBook L} {t : Side} {qty limit : Int}

/-- What a passing precheck says: the opposite best crosses the limit, and its window holds
`qty`. -/
theorem checkFokLiquidity_true (hT : LadderTotals (b.side t.opposite))
    (hpos : ∀ px, 0 ≤ (level (b.side t.opposite) px).qtySum)
    (h : b.checkFokLiquidity t qty limit = true) :
    best (b.side t.opposite) t.opposite ≠ Sentinel.empty t.opposite ∧
      t.opposite.better limit (best (b.side t.opposite) t.opposite) = false ∧
      qty ≤ fokDepth (b.side t.opposite) t.opposite limit maxSteps (best (b.side t.opposite) t.opposite) := by
  simp only [checkFokLiquidity] at h
  split_ifs at h with h₁ h₂
  refine ⟨h₁, by simpa using h₂, ?_⟩
  simpa using le_fokDepth_of_fokLoop hT hpos maxSteps _ 0 le_rfl
    (by rw [show wrapInt64 0 = 0 by decide]; simpa using h)

/-- A window that holds `qty > 0`, summed without overflow, passes the precheck. -/
theorem checkFokLiquidity_of_le (hT : LadderTotals (b.side t.opposite))
    (hpos : ∀ px, 0 ≤ (level (b.side t.opposite) px).qtySum) (hq : 0 < qty)
    (hfit : InInt64 (fokDepth (b.side t.opposite) t.opposite limit maxSteps
      (best (b.side t.opposite) t.opposite)))
    (h : qty ≤ fokDepth (b.side t.opposite) t.opposite limit maxSteps
      (best (b.side t.opposite) t.opposite)) :
    b.checkFokLiquidity t qty limit = true := by
  -- a window that does not start at a crossing price holds nothing
  have hpass : FokPasses (b.side t.opposite) t.opposite limit (best (b.side t.opposite) t.opposite) := by
    by_contra hn
    rw [show maxSteps = 9999 + 1 from rfl, fokDepth_succ_of_not_passes hn] at h
    omega
  have h₀ := fokLoop_of_le_fokDepth hT hpos maxSteps _ 0 le_rfl (by simpa using hfit) (by simpa using h)
  rw [show wrapInt64 0 = 0 by decide] at h₀
  simp [checkFokLiquidity, hpass.1, hpass.2.1, h₀]

/-- **A FOK order is killed or fills completely** (order_book.h:309–370), on a book whose
opposite side has a sound cache, exact totals and non-negative levels. Without STP and with a
positive quantity, either the precheck fails and the order ends with result `{0, 0}` and no
event but the book update, or the precheck passes and the order fills completely, exactly as
the IOC order of the same side, price and quantity: same result, events and book. -/
theorem submitLimit_fok {cmd : OrderCommand}
    (hs : CacheSound (b.side cmd.side.opposite) cmd.side.opposite)
    (hT : LadderTotals (b.side cmd.side.opposite))
    (hpos : ∀ px, 0 ≤ (level (b.side cmd.side.opposite) px).qtySum)
    (hfok : cmd.tif = .fok) (hq : 0 < cmd.qty) (hstp : stpOf cmd = false) :
    (b.checkFokLiquidity cmd.side cmd.qty cmd.priceTicks = false ∧
        b.submitLimit cmd = b.endCommand ⟨0, 0⟩ []) ∨
      (b.checkFokLiquidity cmd.side cmd.qty cmd.priceTicks = true ∧
        (b.submitLimit cmd).ret = ⟨cmd.qty, 0⟩ ∧ b.submitLimit cmd = b.submitLimit { cmd with tif := .ioc }) := by
  cases hc : b.checkFokLiquidity cmd.side cmd.qty cmd.priceTicks
  · exact .inl ⟨rfl, by simp [submitLimit, submitLimitSide, hfok, hc]⟩
  obtain ⟨h₁, h₂, h₃⟩ := checkFokLiquidity_true hT hpos hc
  -- the walk the order makes fills it
  have hm : (b.matchIfCrossing cmd.side cmd).2.1 = cmd.qty := by
    simp only [matchIfCrossing, ne_eq, h₁, not_false_eq_true, h₂, and_self, ↓reduceIte]
    simpa using matchLoop_fills hstp _ b cmd.qty 0 [] maxSteps hs (Nat.lt_succ_self _) le_rfl hq h₃
  -- with nothing left, the time-in-force step ends the command the same way for any `tif`
  have hsettle : ∀ c : OrderCommand, c.qty = cmd.qty →
      settleLimit cmd.side c (b.matchIfCrossing cmd.side cmd) =
        (b.matchIfCrossing cmd.side cmd).1.endCommand ⟨cmd.qty, 0⟩
          ((b.matchIfCrossing cmd.side cmd).2.2.map .trade) := fun c hc => by
    simp [settleLimit, hc, hm]
  have hfill : b.submitLimit cmd = (b.matchIfCrossing cmd.side cmd).1.endCommand ⟨cmd.qty, 0⟩
      ((b.matchIfCrossing cmd.side cmd).2.2.map .trade) := by
    simp only [submitLimit, submitLimitSide, hc, Bool.true_eq_false, and_false, ↓reduceIte]
    exact hsettle cmd rfl
  refine .inr ⟨rfl, by rw [hfill]; rfl, ?_⟩
  rw [hfill]
  simp only [submitLimit, submitLimitSide, reduceCtorEq, false_and, ↓reduceIte]
  -- the IOC order walks as the FOK order does: the walk reads neither's time in force
  rw [show b.matchIfCrossing cmd.side { cmd with tif := .ioc } = b.matchIfCrossing cmd.side cmd from rfl]
  exact (hsettle { cmd with tif := .ioc } rfl).symm

end Fok

end OrderBook

open OrderBook MatchingEngine

/-- **FOK orders are all or nothing**, in every state a live run reaches from the engine's
book. A FOK order with a positive quantity and without STP is killed, with result `{0, 0}`,
no trade and the book only published, or fills completely, with result `{qty, 0}` and exactly
the result, events and book of the IOC order of the same side, price and quantity. While the
levels the precheck reads sum to an `int64_t` value, it fills completely exactly when they
hold its quantity. -/
theorem fok_allOrNothing (sym : SymbolId) (band : PriceBand) (clock : Clock)
    (cmds : List OrderCommand) (hr : LiveRun (book sym band clock) [] cmds) (cmd : OrderCommand)
    (hfok : cmd.tif = .fok) (hq : 0 < cmd.qty) (hstp : stpOf cmd = false) :
    let b := (run (book sym band clock) cmds).1
    let o := cmd.side.opposite
    (((b.submitLimit cmd).ret = ⟨0, 0⟩ ∧ tradesOf (b.submitLimit cmd).events = [] ∧
        (b.submitLimit cmd).book = b.emitBookUpdate.1) ∨
      ((b.submitLimit cmd).ret = ⟨cmd.qty, 0⟩ ∧
        b.submitLimit cmd = b.submitLimit { cmd with tif := .ioc })) ∧
    (InInt64 (fokDepth (b.side o) o cmd.priceTicks maxSteps (best (b.side o) o)) →
      ((b.submitLimit cmd).ret.filled = cmd.qty ↔
        cmd.qty ≤ fokDepth (b.side o) o cmd.priceTicks maxSteps (best (b.side o) o))) := by
  intro b o
  replace hr := hr.validRun
  -- what every reachable state carries: sound caches, positive nodes, exact totals
  have hs : CacheSound (b.side o) o := bookSound_run (bookSound_new_array sym band band clock) hr o
  have hn : NodesOk (fun _ => True) b := (nodesOk_run trivial
    (nodesOk_new _ _ _ _ _ (fun px => congrArg LevelFIFO.nodes (PriceLevelsArray.level_new band px))
      (fun px => congrArg LevelFIFO.nodes (PriceLevelsArray.level_new band px))) hr.positiveModify
    fun _ _ _ => trivial).1
  have hpos : ∀ px, 0 ≤ (level (b.side o) px).qtySum := fun px =>
    LevelFIFO.qtySum_nonneg fun n h => (hn o px n h).1
  have hT : LadderTotals (b.side o) := totalsExact_run (totalsExact_new_array sym band band clock) hr o
  rcases submitLimit_fok hs hT hpos hfok hq hstp with ⟨hc, hk⟩ | ⟨hc, hret, hioc⟩
  · refine ⟨.inl ⟨by rw [hk]; rfl, by rw [hk]; rfl, by rw [hk]; rfl⟩, fun hfit => ⟨fun h => ?_, fun h => ?_⟩⟩
    · rw [hk] at h
      exact absurd h (by simp only [ret_endCommand]; omega)
    · rw [checkFokLiquidity_of_le hT hpos hq hfit h] at hc
      exact absurd hc Bool.noConfusion
  · exact ⟨.inr ⟨hret, hioc⟩, fun _ => ⟨fun _ => (checkFokLiquidity_true hT hpos hc).2.2,
      fun _ => by rw [hret]⟩⟩

/-- A FOK bid of `5` at `150` against an ask of `10` at `150`, on the engine's book over
`[100, 200]`. -/
theorem fok_allOrNothing_witness :
    ((run (book 1 ⟨100, 200⟩ Clock.ticks) [.newOrder 1 1 .ask 150 10 .limit .gtc 0]).1.submitLimit
        (.newOrder 2 2 .bid 150 5 .limit .fok 0)).ret.filled = 5 ↔
      5 ≤ fokDepth ((run (book 1 ⟨100, 200⟩ Clock.ticks)
          [.newOrder 1 1 .ask 150 10 .limit .gtc 0]).1.side .ask) .ask 150 maxSteps
        (best ((run (book 1 ⟨100, 200⟩ Clock.ticks)
          [.newOrder 1 1 .ask 150 10 .limit .gtc 0]).1.side .ask) .ask) :=
  (fok_allOrNothing 1 ⟨100, 200⟩ Clock.ticks [.newOrder 1 1 .ask 150 10 .limit .gtc 0] (by decide)
    (.newOrder 2 2 .bid 150 5 .limit .fok 0) rfl (by decide) (by decide)).2 (by decide)

/-- Asks of `1` at `100`, `9000` and `10500` on the engine's book over `[1, 100000]`, the default
band of `main`: a FOK buy of `3` at `10500` is killed, since its precheck reads the `MAX_STEPS`
prices from `100` and finds `2`; the IOC buy of the same side, price and quantity fills
completely, since each depletion's repair finds the next ask within `MAX_SEARCH` ticks. -/
theorem fokWindow_counterexample :
    LiveRun (book 1 ⟨1, 100000⟩ Clock.ticks) []
        [.newOrder 1 1 .ask 100 1 .limit .gtc 0, .newOrder 2 1 .ask 9000 1 .limit .gtc 0,
          .newOrder 3 1 .ask 10500 1 .limit .gtc 0] ∧
      ((run (book 1 ⟨1, 100000⟩ Clock.ticks)
        [.newOrder 1 1 .ask 100 1 .limit .gtc 0, .newOrder 2 1 .ask 9000 1 .limit .gtc 0,
          .newOrder 3 1 .ask 10500 1 .limit .gtc 0]).1.submitLimit
        (.newOrder 4 2 .bid 10500 3 .limit .fok 0)).ret = ⟨0, 0⟩ ∧
      ((run (book 1 ⟨1, 100000⟩ Clock.ticks)
        [.newOrder 1 1 .ask 100 1 .limit .gtc 0, .newOrder 2 1 .ask 9000 1 .limit .gtc 0,
          .newOrder 3 1 .ask 10500 1 .limit .gtc 0]).1.submitLimit
        (.newOrder 4 2 .bid 10500 3 .limit .ioc 0)).ret.filled = 3 := by
  generalize hb : (run (book 1 ⟨1, 100000⟩ Clock.ticks)
    [.newOrder 1 1 .ask 100 1 .limit .gtc 0, .newOrder 2 1 .ask 9000 1 .limit .gtc 0,
      .newOrder 3 1 .ask 10500 1 .limit .gtc 0]).1 = b
  have hr : LiveRun (book 1 ⟨1, 100000⟩ Clock.ticks) []
      [.newOrder 1 1 .ask 100 1 .limit .gtc 0, .newOrder 2 1 .ask 9000 1 .limit .gtc 0,
        .newOrder 3 1 .ask 10500 1 .limit .gtc 0] := by decide
  -- the ask ladder the three rests leave: one node of `1` at each of the three prices
  have hA : b.side .ask = ⟨⟨1, 100000⟩, writeSlot (writeSlot (writeSlot (fun _ => default) 99
      ⟨[⟨21843, 1, 1, 1, 0, 0⟩], 1⟩) 8999 ⟨[⟨21842, 2, 1, 1, 0, 0⟩], 1⟩) 10499
      ⟨[⟨21841, 3, 1, 1, 0, 0⟩], 1⟩, Sentinel.emptyBid, 100, none, some 100⟩ := by
    rw [← hb]; rfl
  have hvalid : ∀ px, isValidPrice (b.side .ask) px = (decide (1 ≤ px) && decide (px ≤ 100000)) := by
    intro px; rw [hA]; rfl
  have hempty : ∀ px, (level (b.side .ask) px).empty = false ↔ px = 100 ∨ px = 9000 ∨ px = 10500 := by
    intro px
    rw [hA]
    simp only [PriceLevels.level, PriceLevelsArray.level, PriceLevelsArray.isValidPrice,
      PriceLevelsArray.idx, writeSlot, Bool.and_eq_true, decide_eq_true_eq]
    split_ifs <;> simp [LevelFIFO.empty] <;> omega
  refine ⟨hr, ?_, ?_⟩
  · -- the precheck reads `MAX_STEPS` prices from `100`, which hold `2`
    have hT : LadderTotals (b.side .ask) :=
      hb ▸ totalsExact_run (totalsExact_new_array 1 _ _ _) hr.validRun .ask
    have hpos : ∀ px, 0 ≤ (level (b.side .ask) px).qtySum := fun px =>
      LevelFIFO.qtySum_nonneg fun n h => (hb ▸ (nodesOk_run (F := fun _ => True) trivial
        (nodesOk_new _ _ _ _ _ (fun px => congrArg LevelFIFO.nodes (PriceLevelsArray.level_new _ px))
          (fun px => congrArg LevelFIFO.nodes (PriceLevelsArray.level_new _ px)))
        hr.validRun.positiveModify fun _ _ _ => trivial).1) .ask px n h |>.1
    have hpass : ∀ px, 1 ≤ px → px ≤ 10500 → FokPasses (b.side .ask) .ask 10500 px := fun px h₁ h₂ =>
      ⟨by simp; omega, by simp [Sentinel.emptyAsk]; omega, by rw [hvalid]; simp; omega⟩
    have hgap : ∀ (p : Int) (k : Nat), 1 ≤ p → p + k ≤ 10500 →
        (∀ j < k, p + j ≠ 100 ∧ p + j ≠ 9000 ∧ p + j ≠ 10500) →
        ∀ j < k, FokPasses (b.side .ask) .ask 10500 (Side.away .ask p j) ∧
          (level (b.side .ask) (Side.away .ask p j)).empty = true := fun p k h₁ h₂ h j hj =>
      ⟨hpass _ (by simp; omega) (by simp; omega), by
        have := (hempty (Side.away .ask p j)).not.2 (by simp; have := h j hj; omega)
        simpa using this⟩
    have hdepth : fokDepth (b.side .ask) .ask 10500 maxSteps 100 = 2 := calc
      _ = (level (b.side .ask) 100).qtySum +
          fokDepth (b.side .ask) .ask 10500 (1100 + 8899) (Side.away .ask 100 1) :=
        fokDepth_succ_of_passes (hpass 100 (by decide) (by decide))
      _ = (level (b.side .ask) 100).qtySum + fokDepth (b.side .ask) .ask 10500 (1099 + 1) 9000 := by
        rw [fokDepth_gap 8899 1100 _ (hgap _ _ (by decide) (by decide) fun j hj => by
          simp only [Side.away_ask]; omega)]
        rfl
      _ = (level (b.side .ask) 100).qtySum + ((level (b.side .ask) 9000).qtySum +
          fokDepth (b.side .ask) .ask 10500 (0 + 1099) (Side.away .ask 9000 1)) := by
        rw [fokDepth_succ_of_passes (hpass 9000 (by decide) (by decide))]
      _ = (level (b.side .ask) 100).qtySum + ((level (b.side .ask) 9000).qtySum +
          fokDepth (b.side .ask) .ask 10500 0 10100) := by
        rw [fokDepth_gap 1099 0 _ (hgap _ _ (by decide) (by decide) fun j hj => by
          simp only [Side.away_ask]; omega)]
        rfl
      _ = 2 := by rw [hA]; rfl
    have hc : b.checkFokLiquidity .bid 3 10500 = false := by
      by_contra h
      have h₃ : 3 ≤ fokDepth (b.side .ask) .ask 10500 maxSteps (best (b.side .ask) .ask) :=
        (checkFokLiquidity_true (t := .bid) hT hpos (Bool.not_eq_false _ ▸ h)).2.2
      rw [show best (b.side .ask) .ask = 100 by rw [hA]; rfl, hdepth] at h₃
      omega
    simp [submitLimit, submitLimitSide, OrderCommand.newOrder, hc]
  · -- each depletion's repair finds the next ask within `MAX_SEARCH` ticks
    have hs : CacheSound (b.side .ask) .ask :=
      hb ▸ bookSound_run (bookSound_new_array 1 _ _ _) hr.validRun .ask
    have hprices : restingPrices (b.side .ask) .ask = [100, 9000, 10500] :=
      restingPrices_eq (by decide) (by decide) fun px => by rw [hempty]; simp
    have hx : CacheExact (b.side .ask) .ask := by
      refine ⟨by rw [hprices, hA]; rfl, by rw [hprices]; decide, ?_⟩
      rw [hprices]
      intro pq hpq
      simp only [List.tail_cons, List.zip_cons_cons, List.zip_nil_right, List.mem_cons,
        List.mem_singleton, List.not_mem_nil, or_false] at hpq
      rcases hpq with rfl | rfl <;>
        exact ⟨by decide, by decide, fun j hj => by rw [hvalid]; simp; omega⟩
    have hacc := submitLimit_account b (.newOrder 4 2 .bid 10500 3 .limit .ioc 0) (by decide)
      (by rw [← hb]; decide)
    rw [← hacc.traded, (priceTime_priority b .ask hs hx).1 (.newOrder 4 2 .bid 10500 3 .limit .ioc 0) rfl
      (by simp [OrderCommand.newOrder])]
    rw [priorityTrades_eq_walk hprices, hA, show b.symbolId = 1 by rw [← hb]; rfl]
    decide

end HyperliquidEngine
