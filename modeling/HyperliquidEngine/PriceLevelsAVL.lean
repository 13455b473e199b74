import HyperliquidEngine.PriceLevels
import Mathlib.Data.List.AList
import Mathlib.Data.List.Sort

/-!
# The sparse ladder (price_levels_avl.h)

`PriceLevelsAVL` keeps a `std::map<Tick, LevelFIFO>`, modelled by an association list with
distinct keys (`AList`). `get_level` is `levels_[px]`, which creates a default level at a new
tick; `set_best_*` points at the map's level for the tick, or is null when the map has no
entry there. Every tick strictly between the two sentinels is a valid price.

`PriceLevelsAVL.lawful` proves the interface laws. `for_each_order`, `find_next_bid`,
`find_next_ask`, `cleanup_empty_levels` and `num_levels` belong to the ladder alone: the order
book never calls them. They are modelled here and studied in `HyperliquidEngine.Sparse`.
-/

namespace HyperliquidEngine

/-- The sparse ladder `PriceLevelsAVL` (price_levels_avl.h:12–107). -/
structure PriceLevelsAVL where
  levels : AList (fun _ : Int => LevelFIFO)
  bestBid : Int
  bestAsk : Int
  bestBidPtr : Option Int
  bestAskPtr : Option Int

namespace PriceLevelsAVL

/-- The constructor `PriceLevelsAVL()`: no levels, both sides empty. -/
def new : PriceLevelsAVL := ⟨∅, Sentinel.emptyBid, Sentinel.emptyAsk, none, none⟩

/-- The level stored at `px` (a default level where the map has none). -/
def level (l : PriceLevelsAVL) (px : Int) : LevelFIFO := (l.levels.lookup px).getD default

/-- Level access, `get_level(px)`: `levels_[px]` inserts a default level at a new tick. -/
def getLevel (l : PriceLevelsAVL) (px : Int) : PriceLevelsAVL :=
  if px ∈ l.levels then l else { l with levels := l.levels.insert px default }

/-- A write through the reference `levels_[px]`. -/
def setLevel (l : PriceLevelsAVL) (px : Int) (v : LevelFIFO) : PriceLevelsAVL :=
  { l with levels := l.levels.insert px v }

/-- Price validity, `is_valid_price(px)`: strictly between the sentinels. -/
def isValidPrice (px : Int) : Bool := decide (Sentinel.emptyBid < px) && decide (px < Sentinel.emptyAsk)

/-- The bid cache update `set_best_bid(px)`: a pointer to the map's level at `px`, null for the sentinel or a
tick without a level. -/
def setBestBid (l : PriceLevelsAVL) (px : Int) : PriceLevelsAVL :=
  { l with bestBid := px,
           bestBidPtr := if px = Sentinel.emptyBid then none else if px ∈ l.levels then some px else none }

/-- The ask cache update `set_best_ask(px)`. -/
def setBestAsk (l : PriceLevelsAVL) (px : Int) : PriceLevelsAVL :=
  { l with bestAsk := px,
           bestAskPtr := if px = Sentinel.emptyAsk then none else if px ∈ l.levels then some px else none }

/-- The level walk `for_each_nonempty`: the map's non-empty levels in increasing price order. -/
def forEachNonempty (l : PriceLevelsAVL) : List (Int × LevelFIFO) :=
  ((l.levels.entries.filter (fun e => !e.2.empty)).map (fun e => (e.1, e.2))).insertionSort
    (fun a b => a.1 ≤ b.1)

/-- The cached best level, `best_level_ptr(s)`. -/
def ptr (l : PriceLevelsAVL) : Side → Option Int
  | .bid => l.bestBidPtr
  | .ask => l.bestAskPtr

instance : PriceLevels PriceLevelsAVL where
  getLevel := getLevel
  level := level
  setLevel := setLevel
  hasSlot l px := decide (px ∈ l.levels)
  hasLevel l px := match l.levels.lookup px with
    | some v => !v.empty
    | none => false
  isValidPrice _ := isValidPrice
  bestBid := bestBid
  bestAsk := bestAsk
  bestLevelPtr := ptr
  setBestBid := setBestBid
  setBestAsk := setBestAsk
  forEachNonempty := forEachNonempty

theorem level_getLevel (l : PriceLevelsAVL) (px qx : Int) : (l.getLevel px).level qx = l.level qx := by
  unfold getLevel
  split
  · rfl
  · next h =>
    by_cases hq : qx = px
    · subst hq
      simp [level, AList.lookup_insert, AList.lookup_eq_none.2 h]
    · simp [level, AList.lookup_insert_ne hq]

theorem level_setLevel (l : PriceLevelsAVL) (px qx : Int) (v : LevelFIFO) :
    (l.setLevel px v).level qx = if qx = px then v else l.level qx := by
  by_cases hq : qx = px
  · subst hq
    simp [level, setLevel, AList.lookup_insert]
  · simp [level, setLevel, AList.lookup_insert_ne hq, hq]

theorem mem_forEachNonempty (l : PriceLevelsAVL) (px : Int) (v : LevelFIFO) :
    (px, v) ∈ l.forEachNonempty ↔ l.level px = v ∧ v.empty = false := by
  rw [forEachNonempty, (List.perm_insertionSort _ _).mem_iff]
  simp only [List.mem_map, List.mem_filter, Bool.not_eq_true', Prod.mk.injEq]
  constructor
  · rintro ⟨⟨qx, w⟩, ⟨hmem, hw⟩, rfl, rfl⟩
    refine ⟨?_, hw⟩
    rw [level, show l.levels.lookup qx = some w from AList.mem_lookup_iff.2 hmem]
    rfl
  · rintro ⟨h, hv⟩
    cases hl : l.levels.lookup px with
    | none => simp [level, hl] at h; subst h; simp at hv
    | some w =>
      simp only [level, hl, Option.getD_some] at h
      subst h
      exact ⟨⟨px, w⟩, ⟨AList.mem_lookup_iff.1 hl, hv⟩, rfl, rfl⟩

theorem nodup_forEachNonempty (l : PriceLevelsAVL) :
    (l.forEachNonempty.map Prod.fst).Nodup := by
  refine ((List.perm_insertionSort _ _).map Prod.fst).nodup_iff.2 ?_
  rw [List.map_map]
  exact ((List.filter_sublist _).map Sigma.fst).nodup l.levels.nodupKeys

theorem lawful : LawfulPriceLevels PriceLevelsAVL where
  level_getLevel := level_getLevel
  level_setLevel_self l px v _ := by
    show (l.setLevel px v).level px = v
    simp [level_setLevel]
  level_setLevel_self_of_nonempty l px v _ := by
    show (l.setLevel px v).level px = v
    simp [level_setLevel]
  level_setLevel_self_or l px v := .inl (by
    show (l.setLevel px v).level px = v
    simp [level_setLevel])
  level_setLevel_ne l px qx v h := by
    show (l.setLevel px v).level qx = l.level qx
    simp [level_setLevel, h]
  level_setBestBid _ _ := rfl
  level_setBestAsk _ _ := rfl
  hasLevel_eq l px := by
    show (match l.levels.lookup px with | some v => !v.empty | none => false) = !(l.level px).empty
    unfold level
    cases l.levels.lookup px <;> rfl
  isValidPrice_getLevel _ _ := rfl
  isValidPrice_setLevel _ _ _ := rfl
  isValidPrice_setBestBid _ _ := rfl
  isValidPrice_setBestAsk _ _ := rfl
  bestBid_getLevel l px := by show (l.getLevel px).bestBid = _; unfold getLevel; split <;> rfl
  bestAsk_getLevel l px := by show (l.getLevel px).bestAsk = _; unfold getLevel; split <;> rfl
  bestLevelPtr_getLevel l px := by show (l.getLevel px).ptr = _; unfold getLevel; split <;> rfl
  bestBid_setLevel _ _ _ := rfl
  bestAsk_setLevel _ _ _ := rfl
  bestLevelPtr_setLevel _ _ _ := rfl
  bestBid_setBestBid _ _ := rfl
  bestAsk_setBestBid _ _ := rfl
  bestBid_setBestAsk _ _ := rfl
  bestAsk_setBestAsk _ _ := rfl
  bestLevelPtr_setBestBid l px := by
    show (if px = Sentinel.emptyBid then none else if px ∈ l.levels then some px else none) = _
    simp [PriceLevels.hasSlot]
  bestLevelPtr_setBestBid_ask _ _ := rfl
  bestLevelPtr_setBestAsk l px := by
    show (if px = Sentinel.emptyAsk then none else if px ∈ l.levels then some px else none) = _
    simp [PriceLevels.hasSlot]
  bestLevelPtr_setBestAsk_bid _ _ := rfl
  hasSlot_getLevel l px := by
    show decide (px ∈ (l.getLevel px).levels) = true
    unfold getLevel
    split <;> simp_all
  hasSlot_of_nonempty l px h := by
    show decide (px ∈ l.levels) = true
    by_contra hn
    simp only [decide_eq_true_eq] at hn
    have : l.level px = default := by simp [level, AList.lookup_eq_none.2 hn]
    simp [PriceLevels.level, this] at h
  hasSlot_setLevel l px qx v h := by
    show decide (qx ∈ (l.levels.insert px v)) = true
    simp only [decide_eq_true_eq, AList.mem_insert] at h ⊢
    exact Or.inr (by simpa [PriceLevels.hasSlot] using h)
  mem_forEachNonempty := mem_forEachNonempty
  nodup_forEachNonempty := nodup_forEachNonempty

attribute [instance] lawful

/-! ## The ladder's own searches and cleanup -/

/-- The map's entries in increasing tick order, as `std::map` iterates them. -/
def ascending (l : PriceLevelsAVL) : List (Int × LevelFIFO) :=
  (l.levels.entries.map fun e => (e.1, e.2)).insertionSort (fun a b => a.1 ≤ b.1)

/-- The order walk `for_each_order` (price_levels_avl.h:56–61): the map's levels in increasing
tick order, empty ones included, and the nodes of each from `head` along `next`. -/
def forEachOrder (l : PriceLevelsAVL) : List (Int × OrderNode) :=
  l.ascending.flatMap fun e => e.2.nodes.map fun n => (e.1, n)

/-- The entries strictly further from the touch on side `s` than `current`, nearest first, as
`find_next_bid` visits them from `lower_bound(current)` backwards and `find_next_ask` from
`upper_bound(current)` forwards. -/
def beyond (l : PriceLevelsAVL) (s : Side) (current : Int) : List (Int × LevelFIFO) :=
  let entries := l.ascending.filter fun e => s.better current e.1
  match s with
  | .bid => entries.reverse
  | .ask => entries

/-- The common body of `find_next_bid` and `find_next_ask` (price_levels_avl.h:70–92): at the
side's sentinel, the sentinel; else the tick of the first non-empty entry beyond `current`, or
the sentinel. -/
def findNext (l : PriceLevelsAVL) (s : Side) (current : Int) : Int :=
  if current = Sentinel.empty s then Sentinel.empty s
  else
    match (l.beyond s current).find? (fun e => !e.2.empty) with
    | some e => e.1
    | none => Sentinel.empty s

/-- `find_next_bid(current)`. -/
def findNextBid (l : PriceLevelsAVL) (current : Int) : Int := l.findNext .bid current

/-- `find_next_ask(current)`. -/
def findNextAsk (l : PriceLevelsAVL) (current : Int) : Int := l.findNext .ask current

/-- `cleanup_empty_levels()` (price_levels_avl.h:94–97): the map without its empty levels. -/
def cleanupEmptyLevels (l : PriceLevelsAVL) : PriceLevelsAVL :=
  { l with levels := ⟨l.levels.entries.filter (fun e => !e.2.empty),
                      List.NodupKeys.sublist (List.filter_sublist _) l.levels.nodupKeys⟩ }

/-- `num_levels()` (price_levels_avl.h:99): the map's size. -/
def numLevels (l : PriceLevelsAVL) : Nat := l.levels.entries.length

end PriceLevelsAVL

end HyperliquidEngine
