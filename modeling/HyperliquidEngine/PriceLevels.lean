import HyperliquidEngine.Order
import Mathlib.Data.List.Nodup

/-!
# The price-level store interface (price_level.h)

`IPriceLevels` is the interface the order book is templated over. The source hands out
references and pointers to `LevelFIFO` objects; here a reference or pointer to a level is
the tick of the level it designates, `level l px` is the object it designates and
`setLevel l px v` a write through it. `getLevel` keeps the store-side effect of the
source's `get_level` (the map ladder creates a default level at a new tick).

`LawfulPriceLevels` states what the order book may rely on, as laws of these operations:
levels are independent cells, `has_level` tests non-emptiness, `set_best_*` sets the
cached best and its pointer, and `for_each_nonempty` lists each non-empty level once.
`PriceLevelsArray` and `PriceLevelsAVL` satisfy them.

From the laws alone:
- `best`/`setBest` are the side-indexed cached best and its setter;
- `sideQty` (all resting quantity on a side) and `nonemptyCount` move by exactly what one
  write changes: `sideQty_setLevel`, `nonemptyCount_setLevel_deplete`.
-/

namespace HyperliquidEngine

/-- The ladder interface `IPriceLevels` (price_level.h:7–24), with level references modelled by ticks. -/
class PriceLevels (L : Type) where
  /-- Level access, `get_level(px)`: the store after the access; the reference returned is `px`. -/
  getLevel : L → Int → L
  /-- The level a reference or pointer at `px` designates. -/
  level : L → Int → LevelFIFO
  /-- A write through the reference at `px`. -/
  setLevel : L → Int → LevelFIFO → L
  /-- Whether a level object exists at `px` for a pointer to designate. -/
  hasSlot : L → Int → Bool
  hasLevel : L → Int → Bool
  isValidPrice : L → Int → Bool
  bestBid : L → Int
  bestAsk : L → Int
  bestLevelPtr : L → Side → Option Int
  setBestBid : L → Int → L
  setBestAsk : L → Int → L
  /-- The `(px, level)` pairs `for_each_nonempty` visits, in its order. -/
  forEachNonempty : L → List (Int × LevelFIFO)

open PriceLevels

/-- The laws of the interface the order book relies on. -/
class LawfulPriceLevels (L : Type) [PriceLevels L] : Prop where
  level_getLevel (l : L) (px qx : Int) : level (getLevel l px) qx = level l qx
  level_setLevel_self (l : L) {px : Int} (v : LevelFIFO) :
    isValidPrice l px → level (setLevel l px v) px = v
  level_setLevel_self_of_nonempty (l : L) {px : Int} (v : LevelFIFO) :
    (level l px).empty = false → level (setLevel l px v) px = v
  level_setLevel_self_or (l : L) (px : Int) (v : LevelFIFO) :
    level (setLevel l px v) px = v ∨ level (setLevel l px v) px = level l px
  level_setLevel_ne (l : L) {px qx : Int} (v : LevelFIFO) :
    qx ≠ px → level (setLevel l px v) qx = level l qx
  level_setBestBid (l : L) (px : Int) : level (setBestBid l px) = level l
  level_setBestAsk (l : L) (px : Int) : level (setBestAsk l px) = level l
  hasLevel_eq (l : L) (px : Int) : hasLevel l px = !(level l px).empty
  isValidPrice_getLevel (l : L) (px : Int) : isValidPrice (getLevel l px) = isValidPrice l
  isValidPrice_setLevel (l : L) (px : Int) (v : LevelFIFO) :
    isValidPrice (setLevel l px v) = isValidPrice l
  isValidPrice_setBestBid (l : L) (px : Int) : isValidPrice (setBestBid l px) = isValidPrice l
  isValidPrice_setBestAsk (l : L) (px : Int) : isValidPrice (setBestAsk l px) = isValidPrice l
  bestBid_getLevel (l : L) (px : Int) : bestBid (getLevel l px) = bestBid l
  bestAsk_getLevel (l : L) (px : Int) : bestAsk (getLevel l px) = bestAsk l
  bestLevelPtr_getLevel (l : L) (px : Int) : bestLevelPtr (getLevel l px) = bestLevelPtr l
  bestBid_setLevel (l : L) (px : Int) (v : LevelFIFO) : bestBid (setLevel l px v) = bestBid l
  bestAsk_setLevel (l : L) (px : Int) (v : LevelFIFO) : bestAsk (setLevel l px v) = bestAsk l
  bestLevelPtr_setLevel (l : L) (px : Int) (v : LevelFIFO) :
    bestLevelPtr (setLevel l px v) = bestLevelPtr l
  bestBid_setBestBid (l : L) (px : Int) : bestBid (setBestBid l px) = px
  bestAsk_setBestBid (l : L) (px : Int) : bestAsk (setBestBid l px) = bestAsk l
  bestBid_setBestAsk (l : L) (px : Int) : bestBid (setBestAsk l px) = bestBid l
  bestAsk_setBestAsk (l : L) (px : Int) : bestAsk (setBestAsk l px) = px
  bestLevelPtr_setBestBid (l : L) (px : Int) :
    bestLevelPtr (setBestBid l px) .bid =
      if px = Sentinel.emptyBid then none else if hasSlot l px then some px else none
  bestLevelPtr_setBestBid_ask (l : L) (px : Int) :
    bestLevelPtr (setBestBid l px) .ask = bestLevelPtr l .ask
  bestLevelPtr_setBestAsk (l : L) (px : Int) :
    bestLevelPtr (setBestAsk l px) .ask =
      if px = Sentinel.emptyAsk then none else if hasSlot l px then some px else none
  bestLevelPtr_setBestAsk_bid (l : L) (px : Int) :
    bestLevelPtr (setBestAsk l px) .bid = bestLevelPtr l .bid
  hasSlot_getLevel (l : L) (px : Int) : hasSlot (getLevel l px) px
  hasSlot_of_nonempty (l : L) {px : Int} : (level l px).empty = false → hasSlot l px
  hasSlot_setLevel (l : L) {px qx : Int} (v : LevelFIFO) : hasSlot l qx → hasSlot (setLevel l px v) qx
  mem_forEachNonempty (l : L) (px : Int) (v : LevelFIFO) :
    (px, v) ∈ forEachNonempty l ↔ level l px = v ∧ v.empty = false
  nodup_forEachNonempty (l : L) : ((forEachNonempty l).map Prod.fst).Nodup

namespace PriceLevels

variable {L : Type} [PriceLevels L]

/-- The cached best price of side `s` (`best_bid()` on the bid ladder, `best_ask()` on the
ask ladder). -/
def best (l : L) : Side → Int
  | .bid => bestBid l
  | .ask => bestAsk l

/-- Setting the cached best of a side, `set_best_bid` / `set_best_ask`. -/
def setBest (l : L) : Side → Int → L
  | .bid, px => setBestBid l px
  | .ask, px => setBestAsk l px

/-- All resting quantity of a ladder: the open quantities summed over its levels. -/
def sideQty (l : L) : Int := ((forEachNonempty l).map (·.2.qtySum)).sum

/-- The number of non-empty levels. -/
def nonemptyCount (l : L) : Nat := (forEachNonempty l).length

/-! ## Consequences of the laws -/

variable [LawfulPriceLevels L]

open LawfulPriceLevels

@[simp] theorem best_setBest (l : L) (s : Side) (px : Int) : best (setBest l s px) s = px := by
  cases s <;> simp [best, setBest, bestBid_setBestBid, bestAsk_setBestAsk]

@[simp] theorem best_getLevel (l : L) (px : Int) (s : Side) : best (getLevel l px) s = best l s := by
  cases s <;> simp [best, bestBid_getLevel, bestAsk_getLevel]

@[simp] theorem best_setLevel (l : L) (px : Int) (v : LevelFIFO) (s : Side) :
    best (setLevel l px v) s = best l s := by
  cases s <;> simp [best, bestBid_setLevel, bestAsk_setLevel]

@[simp] theorem level_setBest (l : L) (s : Side) (px : Int) : level (setBest l s px) = level l := by
  cases s <;> simp [setBest, level_setBestBid, level_setBestAsk]

@[simp] theorem isValidPrice_setBest (l : L) (s : Side) (px : Int) :
    isValidPrice (setBest l s px) = isValidPrice l := by
  cases s <;> simp [setBest, isValidPrice_setBestBid, isValidPrice_setBestAsk]

@[simp] theorem bestLevelPtr_setBest (l : L) (s : Side) (px : Int) :
    bestLevelPtr (setBest l s px) s =
      if px = Sentinel.empty s then none else if hasSlot l px then some px else none := by
  cases s <;> simp [setBest, bestLevelPtr_setBestBid, bestLevelPtr_setBestAsk]

theorem best_setBest_of_ne (l : L) {s s' : Side} (px : Int) (h : s' ≠ s) :
    best (setBest l s px) s' = best l s' := by
  cases s <;> cases s' <;> simp_all [best, setBest, bestAsk_setBestBid, bestBid_setBestAsk]

theorem bestLevelPtr_setBest_of_ne (l : L) {s s' : Side} (px : Int) (h : s' ≠ s) :
    bestLevelPtr (setBest l s px) s' = bestLevelPtr l s' := by
  cases s <;> cases s' <;>
    simp_all [setBest, bestLevelPtr_setBestBid_ask, bestLevelPtr_setBestAsk_bid]

attribute [simp] level_getLevel level_setLevel_ne hasLevel_eq isValidPrice_getLevel
  isValidPrice_setLevel bestLevelPtr_getLevel bestLevelPtr_setLevel hasSlot_getLevel

theorem nodup_forEachNonempty' (l : L) : (forEachNonempty l).Nodup :=
  (nodup_forEachNonempty l).of_map _

/-- The level `v` at `px` as a listing of non-empty levels: itself, or nothing. -/
def entryAt (px : Int) (v : LevelFIFO) : List (Int × LevelFIFO) := if v.empty then [] else [(px, v)]

theorem mem_entryAt {px qx : Int} {v w : LevelFIFO} :
    (qx, w) ∈ entryAt px v ↔ qx = px ∧ v = w ∧ w.empty = false := by
  unfold entryAt
  split
  · simp only [List.not_mem_nil, false_iff]
    rintro ⟨-, rfl, h⟩
    simp_all
  · simp only [List.mem_singleton, Prod.mk.injEq]
    constructor
    · rintro ⟨rfl, rfl⟩
      simp_all
    · rintro ⟨rfl, rfl, -⟩
      simp

/-- Two ladders that agree off `px`: the second's non-empty levels are its level at `px` and
the first's other ones. -/
theorem forEachNonempty_perm_of_agree {l l' : L} (px : Int)
    (h : ∀ qx, qx ≠ px → level l' qx = level l qx) :
    List.Perm (forEachNonempty l')
      (entryAt px (level l' px) ++ (forEachNonempty l).filter (·.1 ≠ px)) := by
  refine (List.perm_ext_iff_of_nodup (nodup_forEachNonempty' l') ?_).2 ?_
  · refine List.nodup_append.2 ⟨?_, (nodup_forEachNonempty' l).filter _, ?_⟩
    · unfold entryAt; split <;> simp
    · rintro ⟨qx, w⟩ h₁ h₂
      rw [mem_entryAt] at h₁
      simp_all
  · rintro ⟨qx, w⟩
    by_cases hq : qx = px
    · subst hq
      simp [mem_forEachNonempty, mem_entryAt]
    · simp [mem_forEachNonempty, mem_entryAt, hq, h qx hq]

theorem sum_entryAt (px : Int) (v : LevelFIFO) : ((entryAt px v).map (·.2.qtySum)).sum = v.qtySum := by
  unfold entryAt
  split
  · simp_all [LevelFIFO.empty_iff, LevelFIFO.qtySum]
  · simp

/-- **All resting quantity moves by exactly what changes at one level.** -/
theorem sideQty_of_agree {l l' : L} (px : Int) (h : ∀ qx, qx ≠ px → level l' qx = level l qx) :
    sideQty l' = sideQty l - (level l px).qtySum + (level l' px).qtySum := by
  have h₁ := (forEachNonempty_perm_of_agree px h).map (·.2.qtySum) |>.sum_eq
  have h₂ : List.Perm (forEachNonempty l) _ := forEachNonempty_perm_of_agree px fun _ _ => rfl
  replace h₂ := (h₂.map (·.2.qtySum)).sum_eq
  simp only [sideQty, List.map_append, List.sum_append, sum_entryAt] at h₁ h₂ ⊢
  omega

theorem nonemptyCount_of_agree {l l' : L} (px : Int) (h : ∀ qx, qx ≠ px → level l' qx = level l qx) :
    nonemptyCount l' + (entryAt px (level l px)).length =
      nonemptyCount l + (entryAt px (level l' px)).length := by
  have h₁ := (forEachNonempty_perm_of_agree px h).length_eq
  have h₂ : List.Perm (forEachNonempty l) _ := forEachNonempty_perm_of_agree px fun _ _ => rfl
  replace h₂ := h₂.length_eq
  simp only [nonemptyCount, List.length_append] at h₁ h₂ ⊢
  omega

theorem sideQty_setLevel (l : L) {px : Int} (v : LevelFIFO) (h : isValidPrice l px) :
    sideQty (setLevel l px v) = sideQty l - (level l px).qtySum + v.qtySum := by
  rw [sideQty_of_agree px (fun qx hq => level_setLevel_ne l v hq), level_setLevel_self l v h]

theorem sideQty_setLevel_of_nonempty (l : L) {px : Int} (v : LevelFIFO)
    (h : (level l px).empty = false) :
    sideQty (setLevel l px v) = sideQty l - (level l px).qtySum + v.qtySum := by
  rw [sideQty_of_agree px (fun qx hq => level_setLevel_ne l v hq),
    level_setLevel_self_of_nonempty l v h]

/-- Writing a level back unchanged changes nothing. -/
theorem level_setLevel_level (l : L) (px : Int) : level (setLevel l px (level l px)) = level l := by
  funext qx
  by_cases h : qx = px
  · subst h
    rcases level_setLevel_self_or l qx (level l qx) with h | h <;> exact h
  · exact level_setLevel_ne l _ h

theorem sideQty_congr {l l' : L} (h : level l' = level l) : sideQty l' = sideQty l := by
  simpa using sideQty_of_agree 0 (fun qx _ => congrFun h qx) |>.trans (by rw [h]; ring)

theorem nonemptyCount_congr {l l' : L} (h : level l' = level l) :
    nonemptyCount l' = nonemptyCount l := by
  have := nonemptyCount_of_agree 0 (fun qx _ => congrFun h qx)
  rw [h] at this
  omega

/-- Emptying a non-empty level removes exactly one non-empty level. -/
theorem nonemptyCount_setLevel_deplete (l : L) {px : Int} {v : LevelFIFO}
    (hv : v.empty = true) (hne : (level l px).empty = false) :
    nonemptyCount (setLevel l px v) + 1 = nonemptyCount l := by
  have : nonemptyCount (setLevel l px v) + _ = _ :=
    nonemptyCount_of_agree px (fun qx hq => level_setLevel_ne l v hq)
  rw [level_setLevel_self_of_nonempty l v hne] at this
  simpa [entryAt, hv, hne] using this

end PriceLevels

end HyperliquidEngine
