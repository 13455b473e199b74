import HyperliquidEngine.PriceLevels

/-!
# The dense ladder (price_levels_array.h)

`PriceLevelsArray` keeps one `LevelFIFO` per tick of a fixed `PriceBand`, in a vector
indexed by `px - min_tick`; a pointer to a level is always available, so `set_best_*`
points at the slot of any price it is given.

`idx` asserts that its price lies in the band. The book's rest path calls `get_level`
without checking, so an out-of-band price there has no defined behaviour in the source.
The model reads every out-of-band level as empty and drops a write to it, a choice made
only so that the functions are total.

`PriceLevelsArray.lawful` proves the interface laws. `for_each_order`, which the order book
never calls, is modelled here and studied in `HyperliquidEngine.Sparse`.
-/

namespace HyperliquidEngine

/-- The dense ladder `PriceLevelsArray` (price_levels_array.h:11–69): the band, the vector `levels_` as a
function from slot index to level, the cached bests and their pointers. -/
structure PriceLevelsArray where
  band : PriceBand
  levels : Nat → LevelFIFO
  bestBid : Int
  bestAsk : Int
  bestBidPtr : Option Int
  bestAskPtr : Option Int

namespace PriceLevelsArray

/-- The constructor `PriceLevelsArray(band)`: every level empty, both sides empty. -/
def new (band : PriceBand) : PriceLevelsArray :=
  ⟨band, fun _ => default, Sentinel.emptyBid, Sentinel.emptyAsk, none, none⟩

/-- Price validity, `is_valid_price(px)`: `min_tick ≤ px ≤ max_tick`. -/
def isValidPrice (l : PriceLevelsArray) (px : Int) : Bool :=
  decide (l.band.minTick ≤ px) && decide (px ≤ l.band.maxTick)

/-- The slot index `idx(px)`: the slot of an in-band price. -/
def idx (l : PriceLevelsArray) (px : Int) : Nat := (px - l.band.minTick).toNat

/-- The level at `px` (`levels_[idx(px)]`). -/
def level (l : PriceLevelsArray) (px : Int) : LevelFIFO :=
  if l.isValidPrice px then l.levels (l.idx px) else default

/-- A write through `levels_[idx(px)]`. -/
def setLevel (l : PriceLevelsArray) (px : Int) (v : LevelFIFO) : PriceLevelsArray :=
  if l.isValidPrice px then { l with levels := writeSlot l.levels (l.idx px) v } else l

/-- The bid cache update `set_best_bid(px)`: the pointer is null exactly for the sentinel. -/
def setBestBid (l : PriceLevelsArray) (px : Int) : PriceLevelsArray :=
  { l with bestBid := px, bestBidPtr := if px = Sentinel.emptyBid then none else some px }

/-- The ask cache update `set_best_ask(px)`. -/
def setBestAsk (l : PriceLevelsArray) (px : Int) : PriceLevelsArray :=
  { l with bestAsk := px, bestAskPtr := if px = Sentinel.emptyAsk then none else some px }

/-- The level walk `for_each_nonempty`: the slots in increasing price order, skipping empty levels. -/
def forEachNonempty (l : PriceLevelsArray) : List (Int × LevelFIFO) :=
  (List.range (l.band.maxTick - l.band.minTick + 1).toNat).filterMap fun i =>
    if (l.levels i).empty then none else some (l.band.minTick + i, l.levels i)

/-- The order walk `for_each_order` (price_levels_array.h:41–47): every slot of the band in
increasing price order, and the nodes of each level from `head` along `next`. The loop's
`int64_t` counter `px` runs while `px <= max_tick`; on a band that ends at `INT64_MAX` its
`++px` overflows after the last price and the loop does not end, which `none` stands for. -/
def forEachOrder (l : PriceLevelsArray) : Option (List (Int × OrderNode)) :=
  if l.band.maxTick < Sentinel.emptyAsk then
    some ((List.range (l.band.maxTick - l.band.minTick + 1).toNat).flatMap fun i =>
      (l.levels i).nodes.map fun n => (l.band.minTick + i, n))
  else none

/-- The cached best level, `best_level_ptr(s)`. -/
def ptr (l : PriceLevelsArray) : Side → Option Int
  | .bid => l.bestBidPtr
  | .ask => l.bestAskPtr

instance : PriceLevels PriceLevelsArray where
  getLevel l _ := l
  level := level
  setLevel := setLevel
  hasSlot _ _ := true
  hasLevel l px := !(level l px).empty
  isValidPrice := isValidPrice
  bestBid := bestBid
  bestAsk := bestAsk
  bestLevelPtr := ptr
  setBestBid := setBestBid
  setBestAsk := setBestAsk
  forEachNonempty := forEachNonempty

/-- A write leaves everything but the levels alone. -/
theorem setLevel_eq (l : PriceLevelsArray) (px : Int) (v : LevelFIFO) :
    ∃ f, l.setLevel px v = { l with levels := f } := by
  unfold setLevel
  split
  · exact ⟨_, rfl⟩
  · exact ⟨l.levels, rfl⟩

theorem level_setLevel (l : PriceLevelsArray) (px qx : Int) (v : LevelFIFO) (hp : l.isValidPrice px) :
    (l.setLevel px v).level qx = if qx = px then v else l.level qx := by
  simp only [isValidPrice, Bool.and_eq_true, decide_eq_true_eq] at hp
  simp only [setLevel, level, isValidPrice, idx, writeSlot_apply, hp, Bool.and_eq_true,
    decide_eq_true_eq, and_self, if_true]
  by_cases h : qx = px
  · subst h
    simp [hp]
  · rw [if_neg h]
    split <;> [rw [if_neg (by omega)]; rfl]

theorem mem_forEachNonempty (l : PriceLevelsArray) (px : Int) (v : LevelFIFO) :
    (px, v) ∈ l.forEachNonempty ↔ l.level px = v ∧ v.empty = false := by
  simp only [forEachNonempty, List.mem_filterMap, List.mem_range, level, isValidPrice, idx]
  constructor
  · rintro ⟨i, hi, h⟩
    split at h
    · simp at h
    · next hne =>
      simp only [Option.some.injEq, Prod.mk.injEq] at h
      obtain ⟨rfl, rfl⟩ := h
      refine ⟨?_, by simpa using hne⟩
      rw [if_pos (by simp; omega)]
      congr 1
      omega
  · rintro ⟨h, hv⟩
    split at h
    · next hp =>
      refine ⟨(px - l.band.minTick).toNat, by simp at hp; omega, ?_⟩
      rw [if_neg (by rw [h, hv]; simp)]
      simp only [Option.some.injEq, Prod.mk.injEq]
      exact ⟨by simp at hp; omega, h⟩
    · subst h
      simp at hv

theorem nodup_forEachNonempty (l : PriceLevelsArray) :
    (l.forEachNonempty.map Prod.fst).Nodup := by
  have key : ∀ (i : Nat) (p : Int × LevelFIFO),
      (if (l.levels i).empty then none else some (l.band.minTick + (i : Int), l.levels i)) = some p →
        p.1 = l.band.minTick + i := by
    intro i p h
    split at h
    · cases h
    · cases h; rfl
  rw [forEachNonempty, List.map_filterMap]
  refine (List.nodup_range _).filterMap fun a a' b ha ha' => ?_
  simp only [Option.mem_def, Option.map_eq_some'] at ha ha'
  obtain ⟨p, hp, rfl⟩ := ha
  obtain ⟨p', hp', hpp⟩ := ha'
  have := key a p hp
  have := key a' p' hp'
  omega

instance lawful : LawfulPriceLevels PriceLevelsArray where
  level_getLevel _ _ _ := rfl
  level_setLevel_self l px v h := by
    show (l.setLevel px v).level px = v
    simp [level_setLevel l px px v h]
  level_setLevel_self_of_nonempty l px v h := by
    show (l.setLevel px v).level px = v
    by_cases hp : l.isValidPrice px
    · simp [level_setLevel l px px v hp]
    · simp [PriceLevels.level, level, hp] at h
  level_setLevel_self_or l px v := by
    by_cases hp : l.isValidPrice px
    · exact .inl (by show (l.setLevel px v).level px = v; simp [level_setLevel l px px v hp])
    · exact .inr (by simp [PriceLevels.level, PriceLevels.setLevel, setLevel, hp])
  level_setLevel_ne l px qx v h := by
    show (l.setLevel px v).level qx = l.level qx
    by_cases hp : l.isValidPrice px
    · rw [level_setLevel l px qx v hp, if_neg h]
    · simp [setLevel, hp]
  level_setBestBid _ _ := rfl
  level_setBestAsk _ _ := rfl
  hasLevel_eq _ _ := rfl
  isValidPrice_getLevel _ _ := rfl
  isValidPrice_setLevel l px v := by
    obtain ⟨f, hf⟩ := setLevel_eq l px v
    show (l.setLevel px v).isValidPrice = _
    rw [hf]; rfl
  isValidPrice_setBestBid _ _ := rfl
  isValidPrice_setBestAsk _ _ := rfl
  bestBid_getLevel _ _ := rfl
  bestAsk_getLevel _ _ := rfl
  bestLevelPtr_getLevel _ _ := rfl
  bestBid_setLevel l px v := by
    obtain ⟨f, hf⟩ := setLevel_eq l px v
    show (l.setLevel px v).bestBid = _
    rw [hf]; rfl
  bestAsk_setLevel l px v := by
    obtain ⟨f, hf⟩ := setLevel_eq l px v
    show (l.setLevel px v).bestAsk = _
    rw [hf]; rfl
  bestLevelPtr_setLevel l px v := by
    obtain ⟨f, hf⟩ := setLevel_eq l px v
    show (l.setLevel px v).ptr = _
    rw [hf]; rfl
  bestBid_setBestBid _ _ := rfl
  bestAsk_setBestBid _ _ := rfl
  bestBid_setBestAsk _ _ := rfl
  bestAsk_setBestAsk _ _ := rfl
  bestLevelPtr_setBestBid _ _ := rfl
  bestLevelPtr_setBestBid_ask _ _ := rfl
  bestLevelPtr_setBestAsk _ _ := rfl
  bestLevelPtr_setBestAsk_bid _ _ := rfl
  hasSlot_getLevel _ _ := rfl
  hasSlot_of_nonempty _ _ _ := rfl
  hasSlot_setLevel _ _ _ _ _ := rfl
  mem_forEachNonempty := mem_forEachNonempty
  nodup_forEachNonempty := nodup_forEachNonempty

end PriceLevelsArray

end HyperliquidEngine
