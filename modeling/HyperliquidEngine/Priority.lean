import HyperliquidEngine.BestPrice

/-!
# Price-time priority

An incoming order walks the makers of the opposite side `o`. Price-time priority says what
it should trade with, over the orders that actually rest there: `restingLevels l o` lists
the non-empty levels best price first, each with its FIFO queue, and `priorityWalk` walks
them. It visits only prices that cross the taker's limit, each level's makers in arrival
order, each trading `min(remaining, maker qty)` at the level's price. Under self-trade
prevention the taker's own makers are skipped, and a level where one remains ends the walk,
which is also over once the taker is filled. `fillLevel` is the walk within one level.

`match_against_side` does not walk that list. It starts from the cached best and, each time
it empties a level, finds the next one with `refresh_best_after_depletion`, which searches
at most `MAX_SEARCH` ticks away from the cached best, through valid prices only. So the code
follows price-time priority when the cache lets it (`CacheExact`): the cached best is the
best resting price, and each resting price is within the search's reach of the one before.
Under that condition:

- `matchLevel_eq_fillLevel`: the maker loop over one level is `fillLevel`;
- `matchLoop_eq_priorityWalk`: the level walk is `priorityWalk`, by induction over the
  resting prices, one level emptied and the cache repaired onto the next per pass
  (`WalkReady.deplete`);
- `priceTime_priority`: a limit order the FOK precheck lets through, a market order and the
  resubmission of a modify trade exactly as price-time priority says.

Without the condition the walk misses resting orders: once a cancel behind the best has
moved the cached best past them, a crossing order trades with nothing
(`priorityViolation_counterexample`).
-/

namespace HyperliquidEngine

open PriceLevels LawfulPriceLevels

namespace Side

/-- `o.AtLeast a b`: on side `o`, price `a` is at least as aggressive as `b`. -/
def AtLeast (o : Side) (a b : Int) : Prop := o.better b a = false

instance (o : Side) : DecidableRel o.AtLeast := fun _ _ => inferInstanceAs (Decidable (_ = _))

theorem atLeast_total (o : Side) (a b : Int) : o.AtLeast a b ∨ o.AtLeast b a := by
  cases o <;> simp only [AtLeast, better_bid, better_ask, decide_eq_false_iff_not] <;> omega

theorem atLeast_trans (o : Side) (a b c : Int) : o.AtLeast a b → o.AtLeast b c → o.AtLeast a c := by
  cases o <;> simp only [AtLeast, better_bid, better_ask, decide_eq_false_iff_not] <;> omega

theorem atLeast_antisymm (o : Side) (a b : Int) : o.AtLeast a b → o.AtLeast b a → a = b := by
  cases o <;> simp only [AtLeast, better_bid, better_ask, decide_eq_false_iff_not] <;> omega

instance (o : Side) : IsTotal Int o.AtLeast := ⟨atLeast_total o⟩

instance (o : Side) : IsTrans Int o.AtLeast := ⟨atLeast_trans o⟩

instance (o : Side) : IsAntisymm Int o.AtLeast := ⟨atLeast_antisymm o⟩

theorem better_of_atLeast {o : Side} {a b : Int} (h : o.AtLeast a b) (hne : a ≠ b) : o.better a b := by
  cases o <;> simp only [AtLeast, better_bid, better_ask, decide_eq_false_iff_not, decide_eq_true_eq] at h ⊢ <;>
    omega

/-- From a price to a worse one, `away` covers the distance. -/
theorem away_natAbs {o : Side} {p q : Int} (h : o.better p q) : o.away p (p - q).natAbs = q := by
  cases o <;> simp only [better_bid, better_ask, decide_eq_true_eq, away_bid, away_ask] at h ⊢ <;> omega

theorem better_away_of_lt {o : Side} (p : Int) {i j : Nat} (h : i < j) :
    o.better (o.away p i) (o.away p j) := by
  cases o <;> simp only [better_bid, better_ask, decide_eq_true_eq, away_bid, away_ask] <;> omega

end Side

/-! ## Price-time priority -/

/-- Price-time priority within the level at price `px`, whose makers are `ms` in arrival
order, for a taker `t` with `q` left to fill: each maker trades `min(q, maker qty)` at `px`
and leaves the level once filled, the taker's own makers are skipped under self-trade
prevention, and the walk ends when the taker is filled. The trades, the taker's remaining
quantity, and the makers left at the level. -/
def fillLevel (symbolId : SymbolId) (t : Taker) (px : Int) :
    List OrderNode → Int → List TradeEvent × Int × List OrderNode
  | [], q => ([], q, [])
  | m :: ms, q =>
    if q ≤ 0 then ([], q, m :: ms)
    else if t.stp && m.user == t.user then
      let r := fillLevel symbolId t px ms q
      (r.1, r.2.1, m :: r.2.2)
    else
      let x := min q m.qty
      let r := fillLevel symbolId t px ms (q - x)
      (⟨t.ts, t.id, m.id, symbolId, px, x⟩ :: r.1, r.2.1,
        if x < m.qty then { m with qty := m.qty - x } :: r.2.2 else r.2.2)

/-- Price-time priority against the levels `lv` of side `o`, best price first, for a taker
`t` with limit `limit` and `q` left to fill: the levels whose price crosses the limit are
walked in turn, until the taker is filled or a level keeps makers. The trades and the
taker's remaining quantity. -/
def priorityWalk (symbolId : SymbolId) (t : Taker) (o : Side) (limit : Int) :
    List (Int × List OrderNode) → Int → List TradeEvent × Int
  | [], q => ([], q)
  | (px, ms) :: lv, q =>
    if q ≤ 0 ∨ o.better limit px then ([], q)
    else
      let r := fillLevel symbolId t px ms q
      if r.2.2 = [] then
        let w := priorityWalk symbolId t o limit lv r.2.1
        (r.1 ++ w.1, w.2)
      else (r.1, r.2.1)

/-- A self-trade-preventing taker of user `7`, buying `8` up to `149`: at `148` it skips its
own maker, fills `5` against the next one, and stops there, its own maker left at the
level. -/
example :
    priorityWalk 1 ⟨9, 7, 0, true⟩ .ask 149
        [(148, [⟨0, 1, 7, 5, 0, 0⟩, ⟨1, 2, 8, 5, 0, 0⟩]), (149, [⟨2, 3, 8, 5, 0, 0⟩])] 8 =
      ([⟨0, 9, 2, 1, 148, 5⟩], 3) := by
  decide

variable {L : Type} [PriceLevels L]

/-- The prices at which orders rest on side `o`, best first. -/
def restingPrices (l : L) (o : Side) : List Int :=
  ((forEachNonempty l).map Prod.fst).insertionSort o.AtLeast

/-- The orders resting on side `o`: each non-empty level's price and its queue, best price
first. -/
def restingLevels (l : L) (o : Side) : List (Int × List OrderNode) :=
  (restingPrices l o).map fun px => (px, (level l px).nodes)

/-- The trades price-time priority gives a taker `t` with limit `limit` and quantity `qty`
against the orders resting on side `o` of `l`. -/
def priorityTrades (l : L) (symbolId : SymbolId) (t : Taker) (o : Side) (limit qty : Int) :
    List TradeEvent :=
  (priorityWalk symbolId t o limit (restingLevels l o) qty).1

/-- The depletion repair reaches the resting price `q` from the resting price `p` before
it: `q` is worse, at most `MAX_SEARCH` ticks away, and every price after `p` up to `q` is
valid for the ladder. -/
def Reach (l : L) (o : Side) (p q : Int) : Prop :=
  o.better p q ∧ (p - q).natAbs ≤ maxSearch ∧ ∀ j < (p - q).natAbs, isValidPrice l (o.away p (j + 1))

instance (l : L) (o : Side) (p q : Int) : Decidable (Reach l o p q) :=
  inferInstanceAs (Decidable (_ ∧ _ ∧ _))

/-- What the level walk needs of the cache of side `o` to follow price-time priority: the
cached best is the best resting price (the sentinel when nothing rests), every resting price
is strictly inside the sentinel, and the repair reaches each resting price from the one
before it. -/
structure CacheExact (l : L) (o : Side) : Prop where
  best_eq : best l o = (restingPrices l o).headD (Sentinel.empty o)
  inside : ∀ px ∈ restingPrices l o, o.better px (Sentinel.empty o)
  reach : ∀ pq ∈ (restingPrices l o).zip (restingPrices l o).tail, Reach l o pq.1 pq.2

instance (l : L) (o : Side) : Decidable (CacheExact l o) :=
  decidable_of_iff (_ ∧ _ ∧ _) ⟨fun ⟨a, b, c⟩ => ⟨a, b, c⟩, fun ⟨a, b, c⟩ => ⟨a, b, c⟩⟩

section Laws

variable [LawfulPriceLevels L]

theorem mem_restingPrices {l : L} {o : Side} {px : Int} :
    px ∈ restingPrices l o ↔ (level l px).empty = false := by
  rw [restingPrices, (List.perm_insertionSort _ _).mem_iff, List.mem_map]
  constructor
  · rintro ⟨⟨qx, w⟩, hm, rfl⟩
    obtain ⟨rfl, hw⟩ := (mem_forEachNonempty l qx w).1 hm
    exact hw
  · exact fun h => ⟨(px, level l px), (mem_forEachNonempty l px _).2 ⟨rfl, h⟩, rfl⟩

/-- The resting prices are strictly ordered, best first. -/
theorem sorted_restingPrices (l : L) (o : Side) :
    (restingPrices l o).Sorted (fun a b => o.better a b) := by
  have hn : (restingPrices l o).Nodup :=
    (List.perm_insertionSort _ _).nodup_iff.2 (nodup_forEachNonempty l)
  exact ((List.sorted_insertionSort _ _).and hn).imp fun h => Side.better_of_atLeast h.1 h.2

omit [LawfulPriceLevels L] in
theorem length_restingPrices (l : L) (o : Side) : (restingPrices l o).length = nonemptyCount l := by
  rw [restingPrices, (List.perm_insertionSort _ _).length_eq, List.length_map]
  rfl

/-- The resting prices of a ladder are any list of its non-empty levels' prices, best first. -/
theorem restingPrices_eq {l : L} {o : Side} {xs : List Int} (hs : xs.Sorted o.AtLeast) (hn : xs.Nodup)
    (hm : ∀ px, px ∈ xs ↔ (level l px).empty = false) : restingPrices l o = xs := by
  have hs' : (restingPrices l o).Sorted o.AtLeast := List.sorted_insertionSort _ _
  have hn' : (restingPrices l o).Nodup :=
    (List.perm_insertionSort _ _).nodup_iff.2 (LawfulPriceLevels.nodup_forEachNonempty l)
  exact List.eq_of_perm_of_sorted ((List.perm_ext_iff_of_nodup hn' hn).2 fun px => by
    rw [mem_restingPrices, hm]) hs' hs

/-- The resting prices depend on the levels only. -/
theorem restingPrices_congr {l l' : L} (h : level l' = level l) (o : Side) :
    restingPrices l' o = restingPrices l o :=
  restingPrices_eq (List.sorted_insertionSort _ _)
    ((List.perm_insertionSort _ _).nodup_iff.2 (nodup_forEachNonempty l)) fun px => by
      rw [mem_restingPrices, h]

omit [LawfulPriceLevels L] in
/-- Price-time priority over a ladder whose resting prices are known. -/
theorem priorityTrades_eq_walk {l : L} {o : Side} {ps : List Int} (h : restingPrices l o = ps)
    (symbolId : SymbolId) (t : Taker) (limit qty : Int) :
    priorityTrades l symbolId t o limit qty =
      (priorityWalk symbolId t o limit (ps.map fun px => (px, (level l px).nodes)) qty).1 := by
  rw [priorityTrades, restingLevels, h]

theorem restingLevels_congr {l l' : L} (h : level l' = level l) (o : Side) :
    restingLevels l' o = restingLevels l o := by
  rw [restingLevels, restingLevels, restingPrices_congr h, h]

/-- Exactness depends on the levels, the cached best and the valid prices only. -/
theorem CacheExact.congr {l l' : L} {o : Side} (hx : CacheExact l o) (h : level l' = level l)
    (hb : best l' o = best l o) (hv : isValidPrice l' = isValidPrice l) : CacheExact l' o := by
  obtain ⟨h₁, h₂, h₃⟩ := hx
  simp only [← restingPrices_congr h o, ← hb, Reach, ← hv] at h₁ h₂ h₃
  exact ⟨h₁, h₂, h₃⟩

end Laws

namespace OrderBook

/-! ## The maker loop over one level -/

/-- **The maker loop over one level is price-time priority within the level**: it leaves the
makers `fillLevel` leaves, the taker's remaining quantity, and adds its trades. -/
theorem matchLevel_eq_fillLevel (symbolId : SymbolId) (t : Taker) (px : Int) :
    ∀ (ns : List OrderNode) (f : Fill),
      (matchLevel symbolId t px ns f).1 = (fillLevel symbolId t px ns f.qty).2.2 ∧
      (matchLevel symbolId t px ns f).2.qty = (fillLevel symbolId t px ns f.qty).2.1 ∧
      (matchLevel symbolId t px ns f).2.trades = f.trades ++ (fillLevel symbolId t px ns f.qty).1
  | [], f => by simp [matchLevel, fillLevel]
  | m :: ms, f => by
    simp only [matchLevel, fillLevel]
    split_ifs with hq hs hfull hlt hlt
    · simp
    · obtain ⟨h₁, h₂, h₃⟩ := matchLevel_eq_fillLevel symbolId t px ms f
      exact ⟨by rw [h₁], h₂, h₃⟩
    · exact absurd hfull (by omega)
    · obtain ⟨h₁, h₂, h₃⟩ := matchLevel_eq_fillLevel symbolId t px ms _
      exact ⟨h₁, h₂, by simp [h₃]⟩
    · obtain ⟨h₁, h₂, h₃⟩ := matchLevel_eq_fillLevel symbolId t px ms _
      exact ⟨by rw [h₁], h₂, by simp [h₃]⟩
    · exact absurd hlt (by omega)

/-! ## The level walk -/

section Walk

variable [LawfulPriceLevels L] {o : Side}

/-- The level walk's view of side `o` of ladder `l`, with `ps` its resting prices: sorted
best first, the cached best at the first of them with a coherent pointer, each strictly
inside the sentinel and within the repair's reach of the one before. -/
structure WalkReady (l : L) (o : Side) (ps : List Int) : Prop where
  sorted : ps.Sorted (fun a b => o.better a b)
  mem_iff : ∀ px, px ∈ ps ↔ (level l px).empty = false
  best_eq : best l o = ps.headD (Sentinel.empty o)
  ptr : PtrSync l o
  inside : ∀ px ∈ ps, o.better px (Sentinel.empty o)
  reach : ∀ pq ∈ ps.zip ps.tail, Reach l o pq.1 pq.2

/-- A side whose cache is sound and exact is ready for the walk over its resting prices. -/
theorem walkReady_of_cacheExact {l : L} (hs : CacheSound l o) (hx : CacheExact l o) :
    WalkReady l o (restingPrices l o) :=
  ⟨sorted_restingPrices l o, fun _ => mem_restingPrices, hx.best_eq, hs.toPtrSync, hx.inside,
    hx.reach⟩

/-- The repair's search finds the first price `d` ticks away that holds orders, when every
price up to it is valid and strictly inside the sentinel and `d` is within the search's
range. -/
theorem searchAway_eq_first {l : L} {s : Side} {cur : Int} {d : Nat}
    (hv : ∀ j, 0 < j → j ≤ d → s.better (s.away cur j) (Sentinel.empty s) ∧
      isValidPrice l (s.away cur j))
    (he : ∀ j, 0 < j → j < d → (level l (s.away cur j)).empty = true)
    (hd : (level l (s.away cur d)).empty = false) :
    ∀ (n i : Nat), 0 < i → i ≤ d → d < i + n → searchAway l s cur n i = some (s.away cur d)
  | 0, _, _, hi, hn => absurd hn (by omega)
  | n + 1, i, h0, hi, hn => by
    obtain ⟨hb, hval⟩ := hv i h0 hi
    simp only [searchAway, hb, hval, hasLevel_eq, Bool.not_true, Bool.false_eq_true, ↓reduceIte]
    rcases Nat.lt_or_ge i d with hlt | hge
    · simp only [he i h0 hlt, Bool.not_true, Bool.false_eq_true, ↓reduceIte]
      exact searchAway_eq_first hv he hd n (i + 1) (by omega) hlt (by omega)
    · obtain rfl : i = d := by omega
      simp [hd]

omit [LawfulPriceLevels L] in
/-- The later resting prices differ from the best one. -/
theorem WalkReady.ne_head {l : L} {p : Int} {ps : List Int} (h : WalkReady l o (p :: ps)) :
    ∀ px ∈ ps, px ≠ p := fun px hpx hpp => by
  simpa [hpp, Side.better_irrefl] using List.rel_of_sorted_cons h.sorted px hpx

/-- Emptying the best level leaves the queues at the later resting prices as they were. -/
theorem WalkReady.levels_deplete {l : L} {p : Int} {ps : List Int} (h : WalkReady l o (p :: ps))
    (v : LevelFIFO) :
    ps.map (fun px => (px, (level (refreshBest (setLevel l p v) o) px).nodes)) =
      ps.map (fun px => (px, (level l px).nodes)) :=
  List.map_congr_left fun px hpx => by rw [level_refreshBest, level_setLevel_ne l v (h.ne_head px hpx)]

/-- The repair's search from `p` lands on `q` when `q` is within its reach, holds orders and
is inside the sentinel, and no price strictly between them holds orders. -/
theorem searchAway_of_reach {l : L} {p q : Int} (hpq : Reach l o p q)
    (hqin : o.better q (Sentinel.empty o)) (hq : (level l q).empty = false)
    (hgap : ∀ px, o.better p px → o.better px q → (level l px).empty = true) :
    searchAway l o p maxSearch 1 = some q := by
  obtain ⟨hb, hd, hval⟩ := hpq
  set d := (p - q).natAbs
  have hq' : o.away p d = q := Side.away_natAbs hb
  have hd0 : 0 < d := Nat.pos_of_ne_zero fun h0 => by
    rw [h0, Side.away_zero] at hq'
    simp [hq', Side.better_irrefl] at hb
  have hbq : ∀ j < d, o.better (o.away p j) q := fun j hj => hq' ▸ Side.better_away_of_lt p hj
  rw [← hq']
  refine searchAway_eq_first (fun j hj hjd => ⟨?_, ?_⟩) (fun j hj hjd => hgap _ ?_ (hbq j hjd))
    (by rwa [hq']) maxSearch 1 Nat.one_pos hd0 (by omega)
  · rcases Nat.lt_or_ge j d with hjd' | hjd'
    · exact Side.better_trans (hbq j hjd') hqin
    · rwa [show j = d by omega, hq']
  · simpa [Nat.sub_add_cancel hj] using hval (j - 1) (by omega)
  · exact Side.better_away p hj

/-- **Emptying the best level and repairing the cache keeps the walk ready** on the
remaining resting prices: the repair lands on the next one, or on the sentinel when none is
left. -/
theorem WalkReady.deplete {l : L} {p : Int} {ps : List Int} (h : WalkReady l o (p :: ps))
    {v : LevelFIFO} (hv : v.empty = true) : WalkReady (refreshBest (setLevel l p v) o) o ps := by
  have hlp : (level l p).empty = false := (h.mem_iff p).1 (List.mem_cons_self _ _)
  -- after the write, the later resting prices are exactly the prices that hold orders
  have hmem : ∀ px, px ∈ ps ↔ (level (setLevel l p v) px).empty = false := by
    intro px
    by_cases hpx : px = p
    · subst hpx
      simp only [level_setLevel_self_of_nonempty l v hlp, hv, Bool.true_eq_false, iff_false]
      exact fun hm => h.ne_head _ hm rfl
    · rw [level_setLevel_ne l v hpx, ← h.mem_iff, List.mem_cons, or_iff_right hpx]
  have hsearch : (searchAway (setLevel l p v) o p maxSearch 1).getD (Sentinel.empty o) =
      ps.headD (Sentinel.empty o) := by
    cases ps with
    | nil =>
      rw [searchAway_eq_none_of_empty _ fun j _ => ?_]
      · rfl
      by_contra hj
      simpa using (hmem _).2 (by simpa using hj)
    | cons q qs =>
      have hpq : Reach (setLevel l p v) o p q := by simpa [Reach] using h.reach (p, q) (by simp)
      rw [searchAway_of_reach hpq (h.inside q (by simp)) ((hmem q).1 (List.mem_cons_self _ _))
        fun px _ hxq => ?_]
      · rfl
      -- a price strictly between `p` and `q` rests nothing
      by_contra hx
      rcases List.mem_cons.1 ((hmem px).2 (by simpa using hx)) with rfl | hm
      · simp [Side.better_irrefl] at hxq
      · simpa [Side.better_asymm hxq] using List.rel_of_sorted_cons h.sorted.of_cons _ hm
  refine ⟨h.sorted.of_cons, fun px => by rw [level_refreshBest]; exact hmem px, ?_,
    (refreshBest_sound (h.ptr.setLevel p v)).toPtrSync,
    fun px hpx => h.inside px (List.mem_cons_of_mem _ hpx), fun pq hpq => ?_⟩
  · have hpn : p ≠ Sentinel.empty o := fun hp => by
      simpa [hp, Side.better_irrefl] using h.inside p (List.mem_cons_self _ _)
    simp only [refreshBest, best_setLevel, h.best_eq, List.headD_cons, hpn, ↓reduceIte,
      best_setBest, hsearch]
  · have : pq ∈ (p :: ps).zip (p :: ps).tail := by
      cases ps with
      | nil => simp at hpq
      | cons q qs => exact List.mem_cons_of_mem _ hpq
    simpa only [Reach, isValidPrice_refreshBest, isValidPrice_setLevel] using h.reach pq this

variable (limit : Int) (t : Taker)

/-- **The level walk is price-time priority**: on a side ready for the walk over its resting
prices `ps`, with a pass for each of them and one more, `match_against_side` fills and
trades exactly as `priorityWalk` over those levels. -/
theorem matchLoop_eq_priorityWalk :
    ∀ {n : Nat} {ps : List Int} {b : OrderBook L} {qty filled : Int} {trades : List TradeEvent},
      WalkReady (b.side o) o ps → ps.length < n →
      (matchLoop o limit t n b qty filled trades).2 =
        (filled + (qty - (priorityWalk b.symbolId t o limit
            (ps.map fun px => (px, (level (b.side o) px).nodes)) qty).2),
          trades ++ (priorityWalk b.symbolId t o limit
            (ps.map fun px => (px, (level (b.side o) px).nodes)) qty).1)
  | 0, _, _, _, _, _, _, hn => absurd hn (Nat.not_lt_zero _)
  | n + 1, [], b, qty, filled, trades, h, _ => by
    have hptr : bestLevelPtr (b.side o) o = none := by
      rw [h.ptr.2, h.best_eq]
      simp
    by_cases hq : qty ≤ 0 <;> simp [matchLoop, priorityWalk, hq, hptr]
  | n + 1, p :: ps, b, qty, filled, trades, h, hn => by
    have hp : best (b.side o) o = p := h.best_eq
    have hpn : p ≠ Sentinel.empty o := fun hp' => by
      simpa [hp', Side.better_irrefl] using h.inside p (List.mem_cons_self _ _)
    have hptr : bestLevelPtr (b.side o) o = some p := by rw [h.ptr.2, hp, if_neg hpn]
    have hlev : (level (b.side o) p).empty = false := (h.mem_iff p).1 (List.mem_cons_self _ _)
    by_cases hq : qty ≤ 0
    · simp [matchLoop, priorityWalk, hq]
    by_cases hx : o.better limit p
    · simp [matchLoop, priorityWalk, hq, hptr, hlev, hp, hx]
    obtain ⟨h₁, h₂, h₃⟩ := matchLevel_eq_fillLevel b.symbolId t p (level (b.side o) p).nodes
      ⟨qty, filled, (level (b.side o) p).totalQty, b.idIndex, b.orderPool, trades⟩
    have hacc := (matchLevel_account b.symbolId t p (level (b.side o) p).nodes
      ⟨qty, filled, (level (b.side o) p).totalQty, b.idIndex, b.orderPool, trades⟩).qty_add_filled
    simp only [matchLoop, hq, hptr, hlev, hp, hx, if_false, Bool.false_eq_true, ↓reduceIte,
      List.map_cons, priorityWalk, or_self]
    generalize matchLevel b.symbolId t p (level (b.side o) p).nodes
      ⟨qty, filled, (level (b.side o) p).totalQty, b.idIndex, b.orderPool, trades⟩ = r at h₁ h₂ h₃ hacc ⊢
    generalize fillLevel b.symbolId t p (level (b.side o) p).nodes qty = s at h₁ h₂ h₃ ⊢
    simp only at hacc h₃
    by_cases he : s.2.2 = []
    · have hre : r.1.isEmpty = true := by rw [h₁, he]; rfl
      simp only [hre, he, ↓reduceIte]
      rw [matchLoop_eq_priorityWalk ?hw (by simpa using hn)]
      case hw => simpa using h.deplete (v := ⟨r.1, r.2.totalQty⟩) (by simp [LevelFIFO.empty, h₁, he])
      simp only [refreshBestAfterDepletion_eq, side_setSide, symbolId_setSide, ↓reduceIte,
        h.levels_deplete, h₃, h₂]
      exact Prod.ext (by simp only; omega) (List.append_assoc _ _ _)
    · have hre : r.1.isEmpty = false := by rw [h₁]; simpa using he
      simp only [hre, he, ↓reduceIte, Bool.false_eq_true]
      exact Prod.ext (by simp only; omega) h₃

end Walk

/-! ## Incoming orders -/

section Commands

variable [LawfulPriceLevels L] {b : OrderBook L}

/-- **Matching against a side with an exact cache is price-time priority**: the fill and the
trades of `match_against_side` are those of `priorityWalk` over the side's resting orders. -/
theorem matchAgainstSide_eq_priorityWalk {o : Side} (hs : CacheSound (b.side o) o)
    (hx : CacheExact (b.side o) o) (qty limit : Int) (t : Taker) :
    (b.matchAgainstSide o qty limit t).2 =
      (qty - (priorityWalk b.symbolId t o limit (restingLevels (b.side o) o) qty).2,
        (priorityWalk b.symbolId t o limit (restingLevels (b.side o) o) qty).1) := by
  rw [matchAgainstSide, matchLoop_eq_priorityWalk limit t (walkReady_of_cacheExact hs hx)
    (by rw [length_restingPrices]; omega)]
  simp [restingLevels]

/-- The matching step of a limit order of side `t` trades as price-time priority says: when
the opposite best does not cross, no resting price does. -/
theorem matchIfCrossing_trades {t : Side} (hs : CacheSound (b.side t.opposite) t.opposite)
    (hx : CacheExact (b.side t.opposite) t.opposite) (cmd : OrderCommand) :
    (b.matchIfCrossing t cmd).2.2 =
      priorityTrades (b.side t.opposite) b.symbolId (takerOf cmd) t.opposite cmd.priceTicks cmd.qty := by
  simp only [matchIfCrossing]
  split_ifs with hc
  · rw [matchAgainstSide_eq_priorityWalk hs hx]
    rfl
  · unfold priorityTrades restingLevels
    cases hps : restingPrices (b.side t.opposite) t.opposite with
    | nil => rfl
    | cons p ps =>
      have hb : best (b.side t.opposite) t.opposite = p := by rw [hx.best_eq, hps]; rfl
      have hpn : p ≠ Sentinel.empty t.opposite := fun hp => by
        simpa [hp, Side.better_irrefl] using hx.inside p (by simp [hps])
      rw [hb] at hc
      have hx' : t.opposite.better cmd.priceTicks p = true := by simpa [hpn] using hc
      simp [priorityWalk, hx']

/-- A limit order that the FOK precheck lets through trades as price-time priority says. -/
theorem submitLimit_trades {cmd : OrderCommand}
    (hs : CacheSound (b.side cmd.side.opposite) cmd.side.opposite)
    (hx : CacheExact (b.side cmd.side.opposite) cmd.side.opposite)
    (hfok : cmd.tif = .fok → b.checkFokLiquidity cmd.side cmd.qty cmd.priceTicks = true) :
    tradesOf (b.submitLimit cmd).events =
      priorityTrades (b.side cmd.side.opposite) b.symbolId (takerOf cmd) cmd.side.opposite
        cmd.priceTicks cmd.qty := by
  have hk : ¬(cmd.tif = .fok ∧ b.checkFokLiquidity cmd.side cmd.qty cmd.priceTicks = false) :=
    fun h => by simp [hfok h.1] at h
  simp only [submitLimit, submitLimitSide, hk, ↓reduceIte, settleLimit]
  split_ifs <;> simp [matchIfCrossing_trades hs hx]

/-- A market order trades as price-time priority says, every price crossing. -/
theorem submitMarket_trades {cmd : OrderCommand}
    (hs : CacheSound (b.side cmd.side.opposite) cmd.side.opposite)
    (hx : CacheExact (b.side cmd.side.opposite) cmd.side.opposite) :
    tradesOf (b.submitMarket cmd).events =
      priorityTrades (b.side cmd.side.opposite) b.symbolId (takerOf cmd) cmd.side.opposite
        (Sentinel.empty cmd.side.opposite) cmd.qty := by
  simp [submitMarket, matchAgainstSide_eq_priorityWalk hs hx, priorityTrades]

/-- The taker of `modify`'s resubmission of the order `id` with index entry `e`: the order's
user and flags, stamped with the clock reading `modify` takes. -/
def resubmitTaker (b : OrderBook L) (id : OrderId) (e : OrderEntry) : Taker :=
  ⟨id, (b.entryNode e).user, b.clock.now.1, (b.entryNode e).flags &&& OrderFlags.stp != 0⟩

/-- The resubmission of a modify that moves or grows the order trades as price-time priority
says: its cancel leaves the opposite side as it was. -/
theorem modify_trades {id : OrderId} {e : OrderEntry} {newPrice newQty : Int}
    (hf : b.idIndex.find id = some e)
    (hs : CacheSound (b.side e.side.opposite) e.side.opposite)
    (hx : CacheExact (b.side e.side.opposite) e.side.opposite)
    (hmove : ¬(newPrice = e.price ∧ newQty < (b.entryNode e).qty)) :
    tradesOf (b.modify id newPrice newQty).events =
      priorityTrades (b.side e.side.opposite) b.symbolId (resubmitTaker b id e) e.side.opposite
        newPrice newQty := by
  have hc := cancel_of_find (b := { b with clock := b.clock.now.2 }) hf
  have hret : (OrderBook.cancel { b with clock := b.clock.now.2 } id).ret = true := by rw [hc]; rfl
  have hev : tradesOf (OrderBook.cancel { b with clock := b.clock.now.2 } id).events = [] := by
    rw [hc]; rfl
  have hsym : (OrderBook.cancel { b with clock := b.clock.now.2 } id).book.symbolId = b.symbolId := by
    rw [hc]; rfl
  -- the cancel touches only the order's own side, and reads each top through `get_level`
  have hside : (OrderBook.cancel { b with clock := b.clock.now.2 } id).book.side e.side.opposite =
      (touchBest (b.side e.side.opposite) e.side.opposite).1 := by
    rw [hc]
    simp [Ne.symm (Side.opposite_ne e.side)]
  simp only [modify, hf, hmove, ↓reduceIte]
  generalize OrderBook.cancel { b with clock := b.clock.now.2 } id = c at hret hev hsym hside ⊢
  simp only [hret, Bool.true_eq_false, ↓reduceIte, tradesOf_append, hev, List.nil_append]
  rw [submitLimit_trades (by rw [hside]; exact hs.touchBest _)
    (by rw [hside]; exact hx.congr (level_touchBest _ _) (best_touchBest _ _ _) (isValidPrice_touchBest _ _))
    (fun h => absurd h (by simp))]
  simp only [priorityTrades, hside, hsym, restingLevels_congr (level_touchBest _ _)]
  rfl

end Commands

end OrderBook

open OrderBook MatchingEngine

/-- **Price-time priority, where the cache allows it.** On a book whose side `o` has a sound
cache (as in every reachable state, `bookSound_run`) that is also exact (`CacheExact`: the
cached best is the best resting price, every resting price is strictly inside the sentinel
and within `MAX_SEARCH` valid ticks of the one before), every incoming order that walks `o`
trades exactly as price-time priority over the orders resting on `o` says: a limit order of
any time in force that the FOK precheck lets through, a market order, for which every price
crosses, and the resubmission of a modify that moves or grows its order. -/
theorem priceTime_priority {L : Type} [PriceLevels L] [LawfulPriceLevels L] (b : OrderBook L)
    (o : Side) (hs : CacheSound (b.side o) o) (hx : CacheExact (b.side o) o) :
    (∀ cmd : OrderCommand, cmd.side.opposite = o →
      (cmd.tif = .fok → b.checkFokLiquidity cmd.side cmd.qty cmd.priceTicks = true) →
      tradesOf (b.submitLimit cmd).events =
        priorityTrades (b.side o) b.symbolId (takerOf cmd) o cmd.priceTicks cmd.qty) ∧
    (∀ cmd : OrderCommand, cmd.side.opposite = o →
      tradesOf (b.submitMarket cmd).events =
        priorityTrades (b.side o) b.symbolId (takerOf cmd) o (Sentinel.empty o) cmd.qty) ∧
    (∀ (id : OrderId) (e : OrderEntry) (newPrice newQty : Int), b.idIndex.find id = some e →
      e.side.opposite = o → ¬(newPrice = e.price ∧ newQty < (b.entryNode e).qty) →
      tradesOf (b.modify id newPrice newQty).events =
        priorityTrades (b.side o) b.symbolId (resubmitTaker b id e) o newPrice newQty) := by
  refine ⟨fun cmd ho hfok => ?_, fun cmd ho => ?_, fun id e newPrice newQty hf ho hmove => ?_⟩ <;>
    subst ho
  · exact submitLimit_trades hs hx hfok
  · exact submitMarket_trades hs hx
  · exact modify_trades hf hs hx hmove

/-- The engine's book over `[100, 200]` after bids of `10` at `150` and at `140`: its bid
cache is sound and exact. -/
example :
    let b := (run (book 1 ⟨100, 200⟩ Clock.ticks)
      [.newOrder 1 1 .bid 150 10 .limit .gtc 0, .newOrder 2 1 .bid 140 10 .limit .gtc 0]).1
    CacheSound (b.side .bid) .bid ∧ CacheExact (b.side .bid) .bid ∧
    (∀ cmd : OrderCommand, cmd.side.opposite = .bid →
      (cmd.tif = .fok → b.checkFokLiquidity cmd.side cmd.qty cmd.priceTicks = true) →
      tradesOf (b.submitLimit cmd).events =
        priorityTrades (b.side .bid) b.symbolId (takerOf cmd) .bid cmd.priceTicks cmd.qty) ∧
    (∀ cmd : OrderCommand, cmd.side.opposite = .bid →
      tradesOf (b.submitMarket cmd).events =
        priorityTrades (b.side .bid) b.symbolId (takerOf cmd) .bid (Sentinel.empty .bid) cmd.qty) ∧
    (∀ (id : OrderId) (e : OrderEntry) (newPrice newQty : Int), b.idIndex.find id = some e →
      e.side.opposite = .bid → ¬(newPrice = e.price ∧ newQty < (b.entryNode e).qty) →
      tradesOf (b.modify id newPrice newQty).events =
        priorityTrades (b.side .bid) b.symbolId (resubmitTaker b id e) .bid newPrice newQty) :=
  have hs := bookSound_run (bookSound_new_array 1 ⟨100, 200⟩ ⟨100, 200⟩ Clock.ticks)
    (by decide : ValidRun (book 1 ⟨100, 200⟩ Clock.ticks) []
      [.newOrder 1 1 .bid 150 10 .limit .gtc 0, .newOrder 2 1 .bid 140 10 .limit .gtc 0]) .bid
  ⟨hs, by decide, priceTime_priority _ .bid hs (by decide)⟩

/-- After bids at `150` (order `1`) and `140` (order `2`) and the cancel of order `2`, the
cached best bid has moved to the sentinel while order `1` still rests at `150`. A sell of
`5` at `150` then trades with nothing, where price-time priority fills it against order
`1`. -/
theorem priorityViolation_counterexample :
    ValidRun (book 1 ⟨100, 200⟩ Clock.ticks) []
        [.newOrder 1 1 .bid 150 10 .limit .gtc 0, .newOrder 2 1 .bid 140 10 .limit .gtc 0,
          .cancelOrder 2] ∧
      tradesOf ((run (book 1 ⟨100, 200⟩ Clock.ticks)
        [.newOrder 1 1 .bid 150 10 .limit .gtc 0, .newOrder 2 1 .bid 140 10 .limit .gtc 0,
          .cancelOrder 2]).1.submitLimit (.newOrder 3 2 .ask 150 5 .limit .gtc 0)).events = [] ∧
      priorityTrades ((run (book 1 ⟨100, 200⟩ Clock.ticks)
          [.newOrder 1 1 .bid 150 10 .limit .gtc 0, .newOrder 2 1 .bid 140 10 .limit .gtc 0,
            .cancelOrder 2]).1.side .bid) 1
          (takerOf (.newOrder 3 2 .ask 150 5 .limit .gtc 0)) .bid 150 5 =
        [⟨0, 3, 1, 1, 150, 5⟩] := by
  decide

end HyperliquidEngine
