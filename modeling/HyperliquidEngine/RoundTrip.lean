import HyperliquidEngine.Uncrossed
import HyperliquidEngine.FiniteMap

/-!
# Rest, then cancel

A GTC limit order that crosses nothing rests at the tail of its level (order_book.h:372–399),
and `cancel` (order_book.h:184–216) unlinks it again. This module says what the pair gives
back.

- `OneMoreAt l l₁ t px a`: the ladder `l₁` is `l` with one node more, at address `a` at the
  tail of the level at `px`, and the cached best of side `t` raised to `px` if `px` is
  better. The rest path establishes it (`oneMoreAt_enqueueAt`), an in-place shrink by
  `modify` keeps it (`OneMoreAt.reduce`), and so does reading the top for a book update.
- `OneMoreAt.restores`: cancelling from there gives back every level of `l`, orders, FIFO
  positions and totals; the cached best and its pointer come back under `RestoresBest`.
- `rest_cancel_restores`: the round trip on the book, directly and with an in-place
  `modify` in between.

The cached best does not come back in general. An order that opens a level behind the best
empties it on cancel, and `refresh_best_after_depletion` then searches from the untouched
best, not from the emptied level, so the best moves away from orders that still rest
(`restCancel_moves_best_counterexample`). The index gives back what it finds under every id
when it was placed and the insert left its last slot free (`Restored.index`); `FlatMap::insert`
may still have grown the table, which `erase` never shrinks. With the last slot taken, the
backward shift of `erase` can wrap to slot `0` and lose another order's entry
(`restCancel_loses_index_entry`).
-/

namespace HyperliquidEngine

open PriceLevels LawfulPriceLevels

namespace LevelFIFO

/-- Unlinking the tail node of a queue whose other nodes sit at other addresses. -/
theorem erase_append_fresh {ns : List OrderNode} {m : OrderNode}
    (h : m.addr ∉ ns.map OrderNode.addr) (tot : Int) :
    (⟨ns ++ [m], tot⟩ : LevelFIFO).erase m.addr = ⟨ns, wrapInt64 (tot - m.qty)⟩ := by
  have hns : ∀ n ∈ ns, ¬(decide (n.addr = m.addr)) = true := fun n hn => by
    simpa using fun he => h (List.mem_map.2 ⟨n, hn, he⟩)
  have hfind : (⟨ns ++ [m], tot⟩ : LevelFIFO).node? m.addr = some m := by
    simp [node?, List.find?_append, List.find?_eq_none.2 hns]
  simp [erase, hfind, List.eraseP_append_right _ hns]

theorem reduceAt_append_fresh {m : OrderNode} (d : Int) :
    ∀ {ns : List OrderNode}, m.addr ∉ ns.map OrderNode.addr →
      reduceAt m.addr d (ns ++ [m]) = ns ++ [{ m with qty := m.qty - d }]
  | [], _ => by simp [reduceAt]
  | n :: ns, h => by
    simp only [List.map_cons, List.mem_cons, not_or] at h
    simp [reduceAt, Ne.symm h.1, reduceAt_append_fresh d h.2]

/-- The node at a fresh address enqueued at the tail is the one a pointer to it designates. -/
theorem node?_enqueue_fresh {l : LevelFIFO} {m : OrderNode} (h : m.addr ∉ l.nodes.map OrderNode.addr) :
    (l.enqueue m).node? m.addr = some m := by
  have hns : ∀ n ∈ l.nodes, ¬(decide (n.addr = m.addr)) = true := fun n hn => by
    simpa using fun he => h (List.mem_map.2 ⟨n, hn, he⟩)
  simp [enqueue, node?, List.find?_append, List.find?_eq_none.2 hns]

/-- Shrinking the node just enqueued is enqueueing the shrunk node. -/
theorem reduceQty_enqueue {l : LevelFIFO} {m : OrderNode} (h : m.addr ∉ l.nodes.map OrderNode.addr)
    (d : Int) : (l.enqueue m).reduceQty m.addr d = l.enqueue { m with qty := m.qty - d } := by
  simp only [enqueue, reduceQty, reduceAt_append_fresh d h, wrapInt64_sub_wrap, mk.injEq, true_and]
  congr 1; ring

/-- **`erase` undoes `enqueue`** for a node at a fresh address, the total included, when the
total is an `int64_t` value. -/
theorem erase_enqueue {l : LevelFIFO} {m : OrderNode} (h : m.addr ∉ l.nodes.map OrderNode.addr)
    (htot : InInt64 l.totalQty) : (l.enqueue m).erase m.addr = l := by
  rw [enqueue, erase_append_fresh h, wrapInt64_sub_wrap, add_sub_cancel_right, wrapInt64_of_mem htot]

end LevelFIFO

namespace OrderBook

variable {L : Type} [PriceLevels L] [LawfulPriceLevels L]

/-- The repair search reads only the levels and the valid range of the ladder. -/
theorem searchAway_congr {l l' : L} (hl : level l' = level l) (hv : isValidPrice l' = isValidPrice l)
    (s : Side) (cur : Int) : ∀ n i, searchAway l' s cur n i = searchAway l s cur n i
  | 0, _ => rfl
  | n + 1, i => by
    simp only [searchAway, hasLevel_eq, hl, hv, searchAway_congr hl hv s cur n (i + 1)]

theorem bestLevelPtr_enqueueAt_of_not_better (l : L) {t : Side} {px : Int} (node : OrderNode)
    (h : t.better px (best l t) = false) :
    bestLevelPtr (enqueueAt l t px node) t = bestLevelPtr l t := by
  simp [enqueueAt, h]

/-- When a round trip at `px` gives side `t` its cached best back: the order joins a level
that holds orders and is no better than the best, or it opens a level better than the best,
from which the repair search after the cancel finds the best again. -/
def RestoresBest (l : L) (t : Side) (px : Int) : Prop :=
  ((level l px).empty = false ∧ t.better px (best l t) = false) ∨
    ((level l px).empty = true ∧ t.better px (best l t) = true ∧
      (searchAway l t px maxSearch 1).getD (Sentinel.empty t) = best l t)

instance (l : L) (t : Side) (px : Int) : Decidable (RestoresBest l t px) :=
  inferInstanceAs (Decidable (_ ∨ _))

/-! ### One ladder with one order more -/

/-- The ladder `l₁` is `l` with one node more, at the fresh address `a` at the tail of the
level at `px` (whose total is an `int64_t` value), and side `t`'s cached best raised to `px`
if `px` is better; the pointer is `l`'s when it is not. -/
structure OneMoreAt (l l₁ : L) (t : Side) (px : Int) (a : Nat) : Prop where
  fresh : a ∉ (level l px).nodes.map OrderNode.addr
  total : InInt64 (level l px).totalQty
  level_px : ∃ m : OrderNode, m.addr = a ∧ level l₁ px = (level l px).enqueue m
  level_ne : ∀ qx, qx ≠ px → level l₁ qx = level l qx
  valid : isValidPrice l₁ = isValidPrice l
  best_eq : best l₁ t = if t.better px (best l t) then px else best l t
  ptr_eq : t.better px (best l t) = false → bestLevelPtr l₁ t = bestLevelPtr l t

/-- The rest path gives a ladder with one order more. -/
theorem oneMoreAt_enqueueAt {l : L} (t : Side) {px : Int} (node : OrderNode) (hv : isValidPrice l px)
    (hfresh : node.addr ∉ (level l px).nodes.map OrderNode.addr)
    (htot : InInt64 (level l px).totalQty) :
    OneMoreAt l (enqueueAt l t px node) t px node.addr where
  fresh := hfresh
  total := htot
  level_px := ⟨node, rfl, by rw [level_enqueueAt l t node hv, if_pos rfl]⟩
  level_ne qx hq := by rw [level_enqueueAt l t node hv, if_neg hq]
  valid := isValidPrice_enqueueAt l t px node
  best_eq := best_enqueueAt l t px node
  ptr_eq := bestLevelPtr_enqueueAt_of_not_better l node

omit [LawfulPriceLevels L] in
/-- Only the levels, the valid range and side `t`'s cache matter. -/
theorem OneMoreAt.congr {l l₁ l₂ : L} {t : Side} {px : Int} {a : Nat} (h : OneMoreAt l l₁ t px a)
    (hl : level l₂ = level l₁) (hv : isValidPrice l₂ = isValidPrice l₁) (hb : best l₂ t = best l₁ t)
    (hp : bestLevelPtr l₂ t = bestLevelPtr l₁ t) : OneMoreAt l l₂ t px a where
  fresh := h.fresh
  total := h.total
  level_px := by rw [hl]; exact h.level_px
  level_ne := by rw [hl]; exact h.level_ne
  valid := hv.trans h.valid
  best_eq := hb.trans h.best_eq
  ptr_eq hn := hp.trans (h.ptr_eq hn)

theorem OneMoreAt.touchBest {l l₁ : L} {t : Side} {px : Int} {a : Nat} (h : OneMoreAt l l₁ t px a)
    (s : Side) : OneMoreAt l (touchBest l₁ s).1 t px a :=
  h.congr (by simp) (by simp) (by simp) (by simp)

omit [LawfulPriceLevels L] in
theorem OneMoreAt.nonempty {l l₁ : L} {t : Side} {px : Int} {a : Nat} (h : OneMoreAt l l₁ t px a) :
    (level l₁ px).empty = false := by
  obtain ⟨m, -, hm⟩ := h.level_px
  simp [hm]

/-- The in-place shrink of `modify` keeps the order where it is. -/
theorem OneMoreAt.reduce {l l₁ : L} {t : Side} {px : Int} {a : Nat} (h : OneMoreAt l l₁ t px a)
    (d : Int) :
    OneMoreAt l (setLevel (getLevel l₁ px) px ((level (getLevel l₁ px) px).reduceQty a d)) t px a := by
  obtain ⟨m, rfl, hm⟩ := h.level_px
  have hne : (level (getLevel l₁ px) px).empty = false := by simpa using h.nonempty
  refine { h with level_px := ?_, level_ne := ?_, valid := ?_, best_eq := ?_, ptr_eq := ?_ }
  · refine ⟨{ m with qty := m.qty - d }, rfl, ?_⟩
    rw [level_setLevel_self_of_nonempty _ _ hne, level_getLevel, hm, LevelFIFO.reduceQty_enqueue h.fresh]
  · intro qx hq
    rw [level_setLevel_ne _ _ hq, level_getLevel, h.level_ne qx hq]
  · simpa using h.valid
  · simpa using h.best_eq
  · simpa using h.ptr_eq

/-- **Cancelling the extra order gives the ladder back**: every level, and side `t`'s cached
best and pointer when the round trip restores the best from a sound cache. -/
theorem OneMoreAt.restores {l l₁ : L} {t : Side} {px : Int} {a : Nat} (h : OneMoreAt l l₁ t px a) :
    level (eraseAt l₁ t px a) = level l ∧
      (RestoresBest l t px → CacheSound l t →
        best (eraseAt l₁ t px a) t = best l t ∧ bestLevelPtr (eraseAt l₁ t px a) t = bestLevelPtr l t) := by
  obtain ⟨m, rfl, hm⟩ := h.level_px
  have hpx : (level l₁ px).erase m.addr = level l px := by
    rw [hm, LevelFIFO.erase_enqueue h.fresh h.total]
  have hlev : level (eraseAt l₁ t px m.addr) = level l := funext fun qx => by
    rw [level_eraseAt]
    split_ifs with hq
    · subst hq; exact hpx
    · exact h.level_ne qx hq
  refine ⟨hlev, fun hr hs => ?_⟩
  -- the ladder after the write of the level, before any repair
  set l₃ := setLevel (getLevel l₁ px) px (level l px)
  have he : eraseAt l₁ t px m.addr = if (level l px).empty then refreshBest l₃ t else l₃ := by
    simp [eraseAt, hpx, l₃]
  have hlev₃ : level l₃ = level l := by
    rw [← hlev, he]; split <;> simp
  rcases hr with ⟨hne, hnb⟩ | ⟨hemp, hbt, hsearch⟩
  · -- the level still holds orders: no repair, and the best never moved
    rw [he, if_neg (by simp [hne])]
    simp [l₃, h.best_eq, hnb, h.ptr_eq hnb]
  · -- the level empties: the repair searches from `px`, which the rest had made the best
    have hpx_ne : px ≠ Sentinel.empty t := by
      rintro rfl; simp [hs.not_beyond] at hbt
    have hb₃ : best l₃ t = px := by simp [l₃, h.best_eq, hbt]
    have hs₃ : searchAway l₃ t px maxSearch 1 = searchAway l t px maxSearch 1 :=
      searchAway_congr hlev₃ (by simp [l₃, h.valid]) t px maxSearch 1
    rw [he, if_pos hemp]
    simp only [refreshBest, hb₃, if_neg hpx_ne, hs₃, hsearch, best_setBest, bestLevelPtr_setBest,
      hs.ptr_eq, true_and]
    split_ifs with h0 hslot
    · rfl
    · rfl
    · exact absurd (hasSlot_of_nonempty l₃ (by rw [hlev₃]; exact hs.nonempty h0)) hslot

/-! ### The book with one order more -/

/-- The book `b₁` is `b` with one resting order more, the order `id` its index finds at `e`:
the index is `b`'s with `id` inserted, the ladder of `e.side` has one order more, and the
other ladder reads as `b`'s. -/
structure OneMore (b b₁ : OrderBook L) (id : OrderId) (e : OrderEntry) : Prop where
  find : b₁.idIndex.find id = some e
  index : b₁.idIndex = b.idIndex.insert id e
  at_side : OneMoreAt (b.side e.side) (b₁.side e.side) e.side e.price e.node
  other : ∀ s, s ≠ e.side → level (b₁.side s) = level (b.side s) ∧
    best (b₁.side s) s = best (b.side s) s ∧ bestLevelPtr (b₁.side s) s = bestLevelPtr (b.side s) s

/-- What a round trip of order `id`, indexed at `e`, gives back of `b` in `b'`: every level of
both ladders, the other side's cached best and pointer, and side `e.side`'s whenever
`RestoresBest` holds of a sound cache; and what the index finds under every id, whenever the
index was a placed table with room that did not hold `id` and kept its last slot free with it. -/
structure Restored (b b' : OrderBook L) (id : OrderId) (e : OrderEntry) : Prop where
  level_eq : ∀ s, level (b'.side s) = level (b.side s)
  other : ∀ s, s ≠ e.side →
    best (b'.side s) s = best (b.side s) s ∧ bestLevelPtr (b'.side s) s = bestLevelPtr (b.side s) s
  own : RestoresBest (b.side e.side) e.side e.price → CacheSound (b.side e.side) e.side →
    best (b'.side e.side) e.side = best (b.side e.side) e.side ∧
      bestLevelPtr (b'.side e.side) e.side = bestLevelPtr (b.side e.side) e.side
  index : b.idIndex.Room → b.idIndex.Placed → b.idIndex.find id = none →
    (b.idIndex.insert id e).LastFree → ∀ k, b'.idIndex.find k = b.idIndex.find k

omit [LawfulPriceLevels L] in
/-- A GTC limit order that crosses nothing rests whole, and nothing trades. -/
theorem submitLimit_of_noCross {b : OrderBook L} {cmd : OrderCommand} (htif : cmd.tif = .gtc)
    (hq : 0 < cmd.qty)
    (hnc : best (b.side cmd.side.opposite) cmd.side.opposite = Sentinel.empty cmd.side.opposite ∨
      cmd.side.opposite.better cmd.priceTicks (best (b.side cmd.side.opposite) cmd.side.opposite)) :
    b.submitLimit cmd = (b.rest cmd.side cmd cmd.qty).endCommand ⟨0, cmd.qty⟩ [] := by
  have hm : b.matchIfCrossing cmd.side cmd = (b, 0, []) := by
    simp only [matchIfCrossing]
    rw [if_neg]
    rintro ⟨h₁, h₂⟩
    rcases hnc with h | h <;> simp_all
  simp [submitLimit, submitLimitSide, htif, hm, settleLimit, hq]

/-- The rest path gives a book with one order more, when the index has room for the new id. -/
theorem oneMore_rest {b : OrderBook L} (hroom : b.idIndex.Room) {t : Side} {cmd : OrderCommand}
    (hid : cmd.orderId ≠ 0) (hv : isValidPrice (b.side t) cmd.priceTicks)
    (hfresh : (b.orderPool.alloc nodesPerSlab).1 ∉ (level (b.side t) cmd.priceTicks).nodes.map OrderNode.addr)
    (htot : InInt64 (level (b.side t) cmd.priceTicks).totalQty) (rem : Int) :
    OneMore b (b.rest t cmd rem) cmd.orderId ⟨t, cmd.priceTicks, (b.orderPool.alloc nodesPerSlab).1⟩ where
  find := (hroom.insert _ _).2 hid
  index := rfl
  at_side := by
    rw [side_rest, if_pos rfl]
    exact oneMoreAt_enqueueAt t _ hv hfresh htot
  other s hs := by simp [side_rest, hs]

theorem OneMore.emitBookUpdate {b b₁ : OrderBook L} {id : OrderId} {e : OrderEntry}
    (h : OneMore b b₁ id e) : OneMore b b₁.emitBookUpdate.1 id e where
  find := by simpa using h.find
  index := by simpa using h.index
  at_side := by simpa using h.at_side.touchBest e.side
  other s hs := by simpa using h.other s hs

/-- The order the index finds is the node it designates, with the quantity it rested with. -/
theorem entryNode_rest (b : OrderBook L) {t : Side} {cmd : OrderCommand} (hv : isValidPrice (b.side t) cmd.priceTicks)
    (hfresh : (b.orderPool.alloc nodesPerSlab).1 ∉ (level (b.side t) cmd.priceTicks).nodes.map OrderNode.addr)
    (rem : Int) :
    ((b.rest t cmd rem).emitBookUpdate.1.entryNode ⟨t, cmd.priceTicks, (b.orderPool.alloc nodesPerSlab).1⟩).qty = rem := by
  simp [entryNode, level_enqueueAt _ _ _ hv, LevelFIFO.node?_enqueue_fresh
    (m := ⟨_, cmd.orderId, cmd.userId, rem, cmd.recvTs, cmd.flags⟩) hfresh]

/-- **An in-place shrink keeps the extra order where it is**: a `modify` at the order's own
price to a smaller quantity returns `{0, new_qty}` and leaves a book with one order more. -/
theorem OneMore.modify {b b₁ : OrderBook L} {id : OrderId} {e : OrderEntry} (h : OneMore b b₁ id e)
    {newQty : Int} (hq : newQty < (b₁.entryNode e).qty) :
    (b₁.modify id e.price newQty).ret = ⟨0, newQty⟩ ∧ OneMore b (b₁.modify id e.price newQty).book id e := by
  simp only [OrderBook.modify, h.find, hq, and_self, if_true, ret_endCommand, book_endCommand, true_and]
  refine OneMore.emitBookUpdate ⟨h.find, h.index, ?_, fun s hs => ?_⟩
  · simpa using h.at_side.reduce _
  · simpa [hs] using h.other s hs

/-- **Cancelling the extra order gives the book back**: `cancel` returns `true`, and the
result is `Restored`. -/
theorem OneMore.cancel {b b₁ : OrderBook L} {id : OrderId} {e : OrderEntry} (h : OneMore b b₁ id e) :
    (b₁.cancel id).ret = true ∧ Restored b (b₁.cancel id).book id e := by
  obtain ⟨hlev, hbest⟩ := h.at_side.restores
  have hid : id ≠ 0 := fun h0 => by simpa [h0, FlatMap.find] using h.find
  rw [cancel_of_find h.find]
  refine ⟨rfl, fun s => ?_, fun s hs => ?_, fun hr hs => ?_, fun hr hp hfresh hlast k => ?_⟩
  · by_cases hs : s = e.side
    · subst hs; simpa using hlev
    · simpa [hs] using (h.other s hs).1
  · simpa [hs] using (h.other s hs).2
  · simpa using hbest hr hs
  · simpa [h.index] using hp.find_erase_insert hr hid hfresh e hlast k

end OrderBook

open OrderBook MatchingEngine

variable {L : Type} [PriceLevels L] [LawfulPriceLevels L]

/-- **Rest, then cancel, gives the book back.** A GTC limit order with a non-zero id that
crosses nothing rests whole and trades nothing. Cancelling it, directly or after an in-place
`modify` to a smaller quantity, returns `true` and gives back every level of both ladders
(orders, FIFO positions, totals) and the opposite side's cached best and pointer; the order's
own side gets its best and pointer back when `RestoresBest` holds of a sound cache. The index
finds under every id what it found before, when it was placed, did not hold the id, and still
has its last slot free after the insert (`FlatMap.Placed.find_erase_insert`). The index must
have room (every reachable state's has, `MatchingEngine.room_run`), the pool's next address
must not be linked at the price, and the level's total must be an `int64_t` value. -/
theorem rest_cancel_restores (b : OrderBook L) (cmd : OrderCommand) (htif : cmd.tif = .gtc)
    (hid : cmd.orderId ≠ 0) (hq : 0 < cmd.qty)
    (hnc : best (b.side cmd.side.opposite) cmd.side.opposite = Sentinel.empty cmd.side.opposite ∨
      cmd.side.opposite.better cmd.priceTicks (best (b.side cmd.side.opposite) cmd.side.opposite))
    (hroom : b.idIndex.Room) (hv : isValidPrice (b.side cmd.side) cmd.priceTicks)
    (hfresh : (b.orderPool.alloc nodesPerSlab).1 ∉
      (level (b.side cmd.side) cmd.priceTicks).nodes.map OrderNode.addr)
    (htot : InInt64 (level (b.side cmd.side) cmd.priceTicks).totalQty) :
    (b.submitLimit cmd).ret = ⟨0, cmd.qty⟩ ∧
      ((b.submitLimit cmd).book.cancel cmd.orderId).ret = true ∧
      Restored b ((b.submitLimit cmd).book.cancel cmd.orderId).book cmd.orderId
        ⟨cmd.side, cmd.priceTicks, (b.orderPool.alloc nodesPerSlab).1⟩ ∧
      ∀ q, q < cmd.qty →
        ((b.submitLimit cmd).book.modify cmd.orderId cmd.priceTicks q).ret = ⟨0, q⟩ ∧
        (((b.submitLimit cmd).book.modify cmd.orderId cmd.priceTicks q).book.cancel cmd.orderId).ret =
          true ∧
        Restored b
          (((b.submitLimit cmd).book.modify cmd.orderId cmd.priceTicks q).book.cancel cmd.orderId).book
          cmd.orderId ⟨cmd.side, cmd.priceTicks, (b.orderPool.alloc nodesPerSlab).1⟩ := by
  have h := (oneMore_rest hroom hid hv hfresh htot cmd.qty).emitBookUpdate
  rw [submitLimit_of_noCross htif hq hnc]
  refine ⟨rfl, h.cancel.1, h.cancel.2, fun q hlt => ?_⟩
  have hm := h.modify (lt_of_lt_of_eq hlt (entryNode_rest b hv hfresh cmd.qty).symm)
  exact ⟨hm.1, hm.2.cancel.1, hm.2.cancel.2⟩

/-- After a bid at `150` (order `1`), order `2` joins the level at `150` and is cancelled:
the round trip restores the cached best as well. -/
example :
    let b := (run (book 1 ⟨100, 200⟩ Clock.ticks) [.newOrder 1 1 .bid 150 10 .limit .gtc 0]).1
    RestoresBest (b.side .bid) .bid 150 ∧
      Restored b ((b.submitLimit (.newOrder 2 1 .bid 150 5 .limit .gtc 0)).book.cancel 2).book 2
        ⟨.bid, 150, (b.orderPool.alloc nodesPerSlab).1⟩ :=
  ⟨by decide, (rest_cancel_restores _ (.newOrder 2 1 .bid 150 5 .limit .gtc 0) rfl (by decide)
    (by decide) (.inl (by decide)) (room_run (b := book 1 ⟨100, 200⟩ Clock.ticks) FlatMap.room_new _)
    (by decide) (by decide) (by decide)).2.2.1⟩

/-- The index part needs the last slot free. On the engine's book over `[100, 200]`, bid `5501`
at `150` rests in slot `0` of the index's `8192`, its home. Bid `8798`, whose home is the last
slot `8191`, joins the level and is cancelled: the levels come back, but the backward shift of
`erase` wraps from slot `8191` to slot `0` and moves `5501` behind its home, so the index no
longer finds the order `5501` that still rests. -/
theorem restCancel_loses_index_entry :
    let b := (run (book 1 ⟨100, 200⟩ Clock.ticks) [.newOrder 5501 1 .bid 150 10 .limit .gtc 0]).1
    let b' := ((b.submitLimit (.newOrder 8798 1 .bid 150 5 .limit .gtc 0)).book.cancel 8798).book
    (FlatMap.new 8192 : FlatMap OrderEntry).home 5501 = 0 ∧
      (FlatMap.new 8192 : FlatMap OrderEntry).home 8798 = 8191 ∧
      level (b'.side .bid) 150 = level (b.side .bid) 150 ∧
      (b.idIndex.find 5501).isSome ∧ b'.idIndex.find 5501 = none := by
  decide

/-- After a bid at `150` (order `1`), a bid of order `2` at `140` rests without trading and
is cancelled. The level at `150` is as before, but the cached best bid has moved from `150`
to the sentinel: the order opened a level behind the best, so `RestoresBest` fails. -/
theorem restCancel_moves_best_counterexample :
    ((run (book 1 ⟨100, 200⟩ Clock.ticks) [.newOrder 1 1 .bid 150 10 .limit .gtc 0]).1.submitLimit
        (.newOrder 2 1 .bid 140 10 .limit .gtc 0)).ret = ⟨0, 10⟩ ∧
      (((run (book 1 ⟨100, 200⟩ Clock.ticks) [.newOrder 1 1 .bid 150 10 .limit .gtc 0]).1.submitLimit
        (.newOrder 2 1 .bid 140 10 .limit .gtc 0)).book.cancel 2).ret = true ∧
      level (((((run (book 1 ⟨100, 200⟩ Clock.ticks) [.newOrder 1 1 .bid 150 10 .limit .gtc 0]).1.submitLimit
        (.newOrder 2 1 .bid 140 10 .limit .gtc 0)).book.cancel 2).book).side .bid) 150 =
        level ((run (book 1 ⟨100, 200⟩ Clock.ticks) [.newOrder 1 1 .bid 150 10 .limit .gtc 0]).1.side .bid) 150 ∧
      best ((run (book 1 ⟨100, 200⟩ Clock.ticks) [.newOrder 1 1 .bid 150 10 .limit .gtc 0]).1.side .bid) .bid =
        150 ∧
      best (((((run (book 1 ⟨100, 200⟩ Clock.ticks) [.newOrder 1 1 .bid 150 10 .limit .gtc 0]).1.submitLimit
        (.newOrder 2 1 .bid 140 10 .limit .gtc 0)).book.cancel 2).book).side .bid) .bid =
        Sentinel.emptyBid ∧
      ¬RestoresBest ((run (book 1 ⟨100, 200⟩ Clock.ticks) [.newOrder 1 1 .bid 150 10 .limit .gtc 0]).1.side .bid)
        .bid 140 := by
  decide

end HyperliquidEngine
