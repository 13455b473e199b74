import HyperliquidEngine.Priority

/-!
# The ladders' own walks and searches (price_levels_avl.h:56–99, price_levels_array.h:41–47)

`PriceLevelsAVL` offers `find_next_bid` and `find_next_ask`, which walk the map's entries from
`current` outwards and return the first non-empty level, and `cleanup_empty_levels`, which
erases the empty ones. The order book calls none of them: `refresh_best_after_depletion` walks
tick by tick, at most `MAX_SEARCH` ticks, asking `has_level`.

- `findNext_spec`: the search returns the nearest tick beyond `current` whose level is not
  empty, or the sentinel when there is none;
- `refreshBest_eq_findNext`: on the sparse ladder, the book's bounded walk lands where
  `find_next_*` does whenever that is a valid price within `MAX_SEARCH` ticks of the best, or the
  sentinel; past the window the walk gives up where the map's search goes on;
- `cleanupEmptyLevels_spec`: the cleanup keeps every level the book can see, and leaves
  `num_levels` counting the non-empty levels;
- `dense_forEachOrder_eq_restingLevels`, `sparse_forEachOrder_eq_restingLevels`:
  on both ladders `for_each_order` lists the resting orders in the order price-time priority
  fills a buy that sweeps the ladder; the dense ladder's loop does so on every band that ends
  below `INT64_MAX`, and does not end on a band that ends there.
-/

namespace HyperliquidEngine

namespace PriceLevelsAVL

open PriceLevels OrderBook

/-! ## The entries in order -/

theorem mem_ascending {l : PriceLevelsAVL} {e : Int × LevelFIFO} :
    e ∈ l.ascending ↔ l.levels.lookup e.1 = some e.2 := by
  rw [ascending, (List.perm_insertionSort _ _).mem_iff, List.mem_map]
  constructor
  · rintro ⟨⟨k, v⟩, hm, rfl⟩
    exact AList.mem_lookup_iff.2 hm
  · exact fun hm => ⟨⟨e.1, e.2⟩, AList.mem_lookup_iff.1 hm, rfl⟩

theorem level_eq_of_lookup {l : PriceLevelsAVL} {px : Int} {v : LevelFIFO}
    (h : l.levels.lookup px = some v) : l.level px = v := by
  simp [level, h]

theorem lookup_of_nonempty {l : PriceLevelsAVL} {px : Int} (h : (l.level px).empty = false) :
    l.levels.lookup px = some (l.level px) := by
  cases hl : l.levels.lookup px with
  | none => simp [level, hl] at h
  | some v => simp [level, hl]

/-- Ticks increase strictly along the map's entries. -/
theorem pairwise_ascending (l : PriceLevelsAVL) : l.ascending.Pairwise (fun a b => a.1 < b.1) := by
  haveI : IsTotal (Int × LevelFIFO) (fun a b => a.1 ≤ b.1) := ⟨fun _ _ => le_total _ _⟩
  haveI : IsTrans (Int × LevelFIFO) (fun a b => a.1 ≤ b.1) := ⟨fun _ _ _ => le_trans⟩
  have hsorted := List.sorted_insertionSort (fun a b : Int × LevelFIFO => a.1 ≤ b.1)
    (l.levels.entries.map fun e => (e.1, e.2))
  have hnodup : (l.ascending.map Prod.fst).Nodup := by
    refine ((List.perm_insertionSort _ _).map Prod.fst).nodup_iff.2 ?_
    rw [List.map_map]
    exact l.levels.nodupKeys
  exact (hsorted.and (List.pairwise_map.1 hnodup)).imp fun h => lt_of_le_of_ne h.1 h.2

theorem mem_beyond {l : PriceLevelsAVL} {s : Side} {current : Int} {e : Int × LevelFIFO} :
    e ∈ l.beyond s current ↔ s.better current e.1 = true ∧ l.levels.lookup e.1 = some e.2 := by
  cases s <;> simp [beyond, mem_ascending, and_comm]

/-- The entries beyond `current` come nearest first. -/
theorem pairwise_beyond (l : PriceLevelsAVL) (s : Side) (current : Int) :
    (l.beyond s current).Pairwise (fun a b => s.better a.1 b.1 = true) := by
  have h := (pairwise_ascending l).filter (fun e => s.better current e.1)
  cases s
  · exact List.pairwise_reverse.2 (h.imp fun hab => by simpa using hab)
  · exact h.imp fun hab => by simpa using hab

/-- What `find?` returns over a list ordered by `R` comes before every other element it
accepts. -/
theorem find?_first {α : Type} {R : α → α → Prop} {p : α → Bool} {xs : List α}
    (hxs : xs.Pairwise R) {e : α} (h : xs.find? p = some e) :
    ∀ x ∈ xs, p x = true → x = e ∨ R e x := by
  obtain ⟨-, as, bs, rfl, has⟩ := List.find?_eq_some.1 h
  intro x hx hpx
  rcases List.mem_append.1 hx with hx | hx
  · simpa [hpx] using has x hx
  · rcases List.mem_cons.1 hx with rfl | hx
    · exact .inl rfl
    · exact .inr ((List.pairwise_cons.1 (List.pairwise_append.1 hxs).2.1).1 x hx)

/-! ## `find_next_bid` and `find_next_ask` -/

/-- `find_next_bid(current)` and `find_next_ask(current)` away from the sentinel: either no
level beyond `current` holds an order and the search returns the sentinel, or it returns a
tick beyond `current` whose level holds one, and no tick between them holds one. -/
theorem findNext_spec (l : PriceLevelsAVL) (s : Side) {current : Int}
    (hc : current ≠ Sentinel.empty s) :
    (l.findNext s current = Sentinel.empty s ∧
        ∀ px, s.better current px = true → (l.level px).empty = true) ∨
      (s.better current (l.findNext s current) = true ∧
        (l.level (l.findNext s current)).empty = false ∧
        ∀ px, s.better current px = true → (l.level px).empty = false →
          s.better px (l.findNext s current) = false) := by
  unfold findNext
  rw [if_neg hc]
  split
  next e he =>
    have hmem := mem_beyond.1 (List.mem_of_find?_eq_some he)
    have hne : e.2.empty = false := by simpa using List.find?_some he
    refine .inr ⟨hmem.1, by rwa [level_eq_of_lookup hmem.2], fun px hpx hlev => ?_⟩
    have hpxm : (px, l.level px) ∈ l.beyond s current := mem_beyond.2 ⟨hpx, lookup_of_nonempty hlev⟩
    rcases find?_first (pairwise_beyond l s current) he _ hpxm (by simpa using hlev) with h | h
    · rw [← h]
      exact Side.better_irrefl s px
    · exact Side.better_asymm h
  next hn =>
    refine .inl ⟨rfl, fun px hpx => ?_⟩
    by_contra hlev
    have hpxm : (px, l.level px) ∈ l.beyond s current :=
      mem_beyond.2 ⟨hpx, lookup_of_nonempty (by simpa using hlev)⟩
    exact hlev (by simpa using List.find?_eq_none.1 hn _ hpxm)

/-- The ladder of the ladder tests: one order of quantity `10` at each of `100`, `105`
and `110`. -/
def threeLevels : PriceLevelsAVL :=
  ((new.setLevel 100 ((default : LevelFIFO).enqueue ⟨1, 1, 1, 10, 0, 0⟩)).setLevel 105
    ((default : LevelFIFO).enqueue ⟨2, 2, 1, 10, 0, 0⟩)).setLevel 110
    ((default : LevelFIFO).enqueue ⟨3, 3, 1, 10, 0, 0⟩)

example : threeLevels.findNextBid 110 = 105 ∧ threeLevels.findNextBid 105 = 100 ∧
    threeLevels.findNextBid 100 = Sentinel.emptyBid ∧ threeLevels.findNextAsk 100 = 105 ∧
    threeLevels.findNextAsk 105 = 110 ∧ threeLevels.findNextAsk 110 = Sentinel.emptyAsk := by
  decide

theorem findNext_spec_threeLevels :
    (110 : Int) ≠ Sentinel.empty .bid ∧
      ((threeLevels.findNext .bid 110 = Sentinel.empty .bid ∧
          ∀ px, Side.better .bid 110 px = true → (threeLevels.level px).empty = true) ∨
        (Side.better .bid 110 (threeLevels.findNext .bid 110) = true ∧
          (threeLevels.level (threeLevels.findNext .bid 110)).empty = false ∧
          ∀ px, Side.better .bid 110 px = true → (threeLevels.level px).empty = false →
            Side.better .bid px (threeLevels.findNext .bid 110) = false)) :=
  ⟨by decide, findNext_spec threeLevels .bid (by decide)⟩

/-! ## The book's bounded walk against the map's search -/

/-- Between two valid prices, within `MAX_SEARCH` ticks, the book's walk reaches the farther
one over valid prices. -/
theorem reach_of_valid {l : PriceLevelsAVL} {s : Side} {cur r : Int}
    (hcur : PriceLevelsAVL.isValidPrice cur = true) (hr : PriceLevelsAVL.isValidPrice r = true)
    (hb : s.better cur r = true) (hd : (cur - r).natAbs ≤ maxSearch) : Reach l s cur r := by
  refine ⟨hb, hd, fun j hj => ?_⟩
  show PriceLevelsAVL.isValidPrice _ = true
  simp only [PriceLevelsAVL.isValidPrice, Bool.and_eq_true, decide_eq_true_eq] at hcur hr ⊢
  cases s <;> simp only [Side.better_bid, Side.better_ask, decide_eq_true_eq, Side.away_bid,
    Side.away_ask] at hb ⊢ <;> omega

/-- On the sparse ladder, `refresh_best_after_depletion` (the book's walk, tick by tick, at
most `MAX_SEARCH` ticks) sets the cached best where `find_next_bid` / `find_next_ask` from the
old best lands, whenever that is the sentinel, or a valid price within `MAX_SEARCH` ticks of a
valid old best. -/
theorem refreshBest_eq_findNext (l : PriceLevelsAVL) (s : Side)
    (hcur : best l s = Sentinel.empty s ∨ PriceLevelsAVL.isValidPrice (best l s) = true)
    (hw : l.findNext s (best l s) = Sentinel.empty s ∨
      PriceLevelsAVL.isValidPrice (l.findNext s (best l s)) = true ∧
        (best l s - l.findNext s (best l s)).natAbs ≤ maxSearch) :
    best (refreshBest l s) s = l.findNext s (best l s) := by
  unfold refreshBest
  dsimp only
  split_ifs with hc
  · rw [hc, findNext, if_pos rfl]
  rw [best_setBest]
  rcases findNext_spec l s hc with ⟨hr, hempty⟩ | ⟨hb, hne, hnear⟩
  · -- nothing beyond the best holds orders: the walk finds nothing
    rw [searchAway_eq_none_of_empty maxSearch fun j hj => hempty _ (Side.better_away _ hj), hr]
    rfl
  rcases hw with hr | ⟨hr, hd⟩
  · -- the search stops at an order resting at the sentinel's tick: the walk stops before it
    cases hs : searchAway l s (best l s) maxSearch 1 with
    | none => exact hr.symm
    | some px =>
      obtain ⟨hpx, -, hlev, j, hj, rfl⟩ := searchAway_eq_some hs
      have := hnear _ (Side.better_away _ (by omega)) hlev
      rw [hr] at this
      simp [hpx] at this
  · -- the next level is within the window: the walk lands on it
    have hvalid := hcur.resolve_left hc
    rw [searchAway_of_reach (reach_of_valid hvalid hr hb hd) ?_ hne
      fun px h₁ h₂ => by_contra fun h => by simp [hnear px h₁ (by simpa using h)] at h₂]
    · rfl
    · simp only [PriceLevelsAVL.isValidPrice, Bool.and_eq_true, decide_eq_true_eq] at hr
      cases s <;> simp [Sentinel.emptyBid, Sentinel.emptyAsk] at hr ⊢ <;> omega

theorem refreshBest_eq_findNext_threeLevels :
    best (refreshBest (threeLevels.setBestBid 110) .bid) .bid =
      (threeLevels.setBestBid 110).findNext .bid (best (threeLevels.setBestBid 110) .bid) :=
  refreshBest_eq_findNext _ _ (by decide) (by decide)

/-! ## `find_next_*` depends on which levels are empty only -/

/-- Two sparse ladders whose levels are empty at the same ticks agree on `find_next_*`. -/
theorem findNext_congr {l₁ l₂ : PriceLevelsAVL} (h : ∀ px, (l₂.level px).empty = (l₁.level px).empty)
    (s : Side) (current : Int) : l₂.findNext s current = l₁.findNext s current := by
  by_cases hc : current = Sentinel.empty s
  · rw [findNext, findNext, if_pos hc, if_pos hc]
  rcases findNext_spec l₁ s hc with ⟨hr₁, he₁⟩ | ⟨hb₁, hne₁, hn₁⟩ <;>
    rcases findNext_spec l₂ s hc with ⟨hr₂, he₂⟩ | ⟨hb₂, hne₂, hn₂⟩
  · rw [hr₁, hr₂]
  · simp [h, he₁ _ hb₂] at hne₂
  · simp [← h, he₂ _ hb₁] at hne₁
  · have h₁ := hn₁ _ hb₂ (by rwa [← h])
    have h₂ := hn₂ _ hb₁ (by rwa [h])
    cases s <;> simp only [Side.better_bid, Side.better_ask, decide_eq_false_iff_not] at h₁ h₂ <;>
      omega

/-! ## `cleanup_empty_levels` -/

theorem lookup_cleanupEmptyLevels (l : PriceLevelsAVL) (px : Int) (v : LevelFIFO) :
    l.cleanupEmptyLevels.levels.lookup px = some v ↔
      l.levels.lookup px = some v ∧ v.empty = false := by
  have h₁ : v ∈ l.cleanupEmptyLevels.levels.lookup px ↔ _ := AList.mem_lookup_iff
  have h₂ : v ∈ l.levels.lookup px ↔ _ := AList.mem_lookup_iff
  rw [Option.mem_def] at h₁ h₂
  rw [h₁, h₂]
  simp [cleanupEmptyLevels, List.mem_filter]

theorem level_cleanupEmptyLevels (l : PriceLevelsAVL) (px : Int) :
    l.cleanupEmptyLevels.level px = if (l.level px).empty then default else l.level px := by
  cases hl : l.levels.lookup px with
  | none =>
    have : l.cleanupEmptyLevels.levels.lookup px = none :=
      Option.eq_none_iff_forall_not_mem.2 fun v hv =>
        by simpa [hl] using (lookup_cleanupEmptyLevels l px v).1 hv
    simp [level, hl, this]
  | some v =>
    cases hv : v.empty
    · simp [level, hl, hv, (lookup_cleanupEmptyLevels l px v).2 ⟨hl, hv⟩]
    · have : l.cleanupEmptyLevels.levels.lookup px = none :=
        Option.eq_none_iff_forall_not_mem.2 fun w hw => by
          obtain ⟨h₁, h₂⟩ := (lookup_cleanupEmptyLevels l px w).1 hw
          rw [hl] at h₁
          cases h₁
          simp [hv] at h₂
      simp [level, hl, hv, this]

/-- `cleanup_empty_levels` erases exactly the empty levels: every other level reads as before
and an erased one reads as a fresh level; the book's walk over the non-empty levels and both
searches are unchanged; and `num_levels` then counts the non-empty levels. -/
theorem cleanupEmptyLevels_spec (l : PriceLevelsAVL) :
    (∀ px, l.cleanupEmptyLevels.level px = if (l.level px).empty then default else l.level px) ∧
      l.cleanupEmptyLevels.forEachNonempty = l.forEachNonempty ∧
      (∀ s current, l.cleanupEmptyLevels.findNext s current = l.findNext s current) ∧
      l.cleanupEmptyLevels.numLevels = l.forEachNonempty.length := by
  refine ⟨level_cleanupEmptyLevels l, ?_, findNext_congr fun px => ?_, ?_⟩
  · simp [forEachNonempty, cleanupEmptyLevels, List.filter_filter]
  · rw [level_cleanupEmptyLevels]
    split_ifs with h <;> simp [h]
  · simp [numLevels, forEachNonempty, cleanupEmptyLevels, List.length_insertionSort]

end PriceLevelsAVL

/-! ## The order walks of both ladders

`for_each_order` visits the levels in increasing price order and the nodes of each level in
queue order. On either ladder that is the order in which price-time priority fills a buy
sweeping the ladder: `restingLevels l .ask`, the levels the matching walk of
`HyperliquidEngine.Priority` runs over. -/

section Walks

variable {L : Type} [PriceLevels L] [LawfulPriceLevels L]

/-- On a ladder whose walk over its non-empty levels goes up in price, the orders of those
levels, in walk order, are the resting orders in the order a sweeping buy meets them. -/
theorem flatMap_forEachNonempty {l : L}
    (hs : ((PriceLevels.forEachNonempty l).map Prod.fst).Sorted (· ≤ ·)) :
    (PriceLevels.forEachNonempty l).flatMap (fun e => e.2.nodes.map fun n => (e.1, n)) =
      (restingLevels l .ask).flatMap fun e => e.2.map fun n => (e.1, n) := by
  have hp : restingPrices l .ask = (PriceLevels.forEachNonempty l).map Prod.fst :=
    List.Sorted.insertionSort_eq (hs.imp fun h => by simpa [Side.AtLeast] using h)
  rw [restingLevels, hp, List.map_map, List.flatMap_map]
  refine List.flatMap_congr fun e he => ?_
  rw [Function.comp_apply, ((LawfulPriceLevels.mem_forEachNonempty l e.1 e.2).1 he).1]

end Walks

/-- A walk over all slots, where `f` skips some, is the walk over the kept ones. -/
theorem flatMap_filterMap_eq {α β γ : Type} (f : α → Option β) (g : β → List γ) (xs : List α) :
    (xs.filterMap f).flatMap g = xs.flatMap fun a => ((f a).map g).getD [] := by
  induction xs with
  | nil => rfl
  | cons a xs ih => cases h : f a <;> simp [List.filterMap_cons, h, ih]

/-- Dropping elements that contribute nothing leaves a walk unchanged. -/
theorem flatMap_filter_eq {α γ : Type} (p : α → Bool) (g : α → List γ) (xs : List α)
    (h : ∀ x ∈ xs, p x = false → g x = []) : (xs.filter p).flatMap g = xs.flatMap g := by
  induction xs with
  | nil => rfl
  | cons a xs ih =>
    have ih := ih fun x hx => h x (List.mem_cons_of_mem a hx)
    cases hp : p a <;> simp [List.filter_cons, hp, ih, h a (List.mem_cons_self a xs)]

namespace PriceLevelsArray

/-- The band's slots in increasing price order, keeping the non-empty ones, are
`for_each_nonempty`'s walk. -/
theorem sorted_forEachNonempty (l : PriceLevelsArray) :
    (l.forEachNonempty.map Prod.fst).Sorted (· ≤ ·) := by
  rw [forEachNonempty, List.map_filterMap]
  refine (List.pairwise_lt_range _).filterMap _ fun i j hij b hb b' hb' => ?_
  split at hb <;> split at hb' <;> simp only [Option.map_none', Option.map_some', Option.mem_def,
    Option.some.injEq, reduceCtorEq] at hb hb'
  omega

/-- `for_each_order` walks the non-empty levels only, empty ones having no nodes. -/
theorem forEachOrder_eq_flatMap (l : PriceLevelsArray) :
    l.forEachOrder = if l.band.maxTick < Sentinel.emptyAsk then
      some (l.forEachNonempty.flatMap fun e => e.2.nodes.map fun n => (e.1, n)) else none := by
  rw [forEachOrder, forEachNonempty, flatMap_filterMap_eq]
  congr 2
  refine List.flatMap_congr fun i _ => ?_
  split
  · next h => simp [(LevelFIFO.empty_iff _).1 h]
  · rfl

/-- **`for_each_order` on the dense ladder is priority order for a sweeping buy**: on a band
that ends below `INT64_MAX` it lists the resting orders level by level in increasing price,
each level in arrival order, exactly as `restingLevels` does for the ask side; on a band that
ends at `INT64_MAX` it does not end. -/
theorem dense_forEachOrder_eq_restingLevels (l : PriceLevelsArray) :
    l.forEachOrder = if l.band.maxTick < Sentinel.emptyAsk then
      some ((restingLevels l .ask).flatMap fun e => e.2.map fun n => (e.1, n)) else none := by
  rw [forEachOrder_eq_flatMap]
  congr 2
  exact flatMap_forEachNonempty (l := l) (sorted_forEachNonempty l)

end PriceLevelsArray

namespace PriceLevelsAVL

/-- The map's non-empty entries in tick order are `for_each_nonempty`'s walk. -/
theorem filter_ascending (l : PriceLevelsAVL) :
    l.ascending.filter (fun e => !e.2.empty) = l.forEachNonempty := by
  haveI : IsAntisymm (Int × LevelFIFO) (fun a b => a.1 < b.1) :=
    ⟨fun _ _ h h' => absurd (h.trans h') (lt_irrefl _)⟩
  haveI : IsTotal (Int × LevelFIFO) (fun a b => a.1 ≤ b.1) := ⟨fun _ _ => le_total _ _⟩
  haveI : IsTrans (Int × LevelFIFO) (fun a b => a.1 ≤ b.1) := ⟨fun _ _ _ => le_trans⟩
  have hperm : (l.ascending.filter fun e => !e.2.empty).Perm l.forEachNonempty := by
    rw [forEachNonempty, ascending]
    refine (((List.perm_insertionSort _ _).filter _).trans ?_).trans (List.perm_insertionSort _ _).symm
    rw [List.filter_map]
    rfl
  have hsorted : l.forEachNonempty.Sorted (fun a b => a.1 < b.1) :=
    ((List.sorted_insertionSort _ _).and (List.pairwise_map.1 (nodup_forEachNonempty l))).imp
      fun h => lt_of_le_of_ne h.1 h.2
  exact List.eq_of_perm_of_sorted hperm ((pairwise_ascending l).filter _) hsorted

/-- **`for_each_order` on the sparse ladder is priority order for a sweeping buy**: it lists the
resting orders level by level in increasing price, each level in arrival order, exactly as
`restingLevels` does for the ask side. -/
theorem sparse_forEachOrder_eq_restingLevels (l : PriceLevelsAVL) :
    l.forEachOrder = (restingLevels l .ask).flatMap fun e => e.2.map fun n => (e.1, n) := by
  have hs : (l.forEachNonempty.map Prod.fst).Sorted (· ≤ ·) := by
    rw [← filter_ascending]
    exact List.pairwise_map.2 (((pairwise_ascending l).filter _).imp le_of_lt)
  rw [forEachOrder, ← flatMap_filter_eq (fun e => !e.2.empty), filter_ascending]
  · exact flatMap_forEachNonempty (l := l) hs
  · intro e _ he
    simp [(LevelFIFO.empty_iff _).1 (by simpa using he)]

example : threeLevels.forEachOrder.map (fun e => (e.1, e.2.id)) = [(100, 1), (105, 2), (110, 3)] := by
  decide

end PriceLevelsAVL

end HyperliquidEngine
