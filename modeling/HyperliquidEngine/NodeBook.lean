import HyperliquidEngine.NodeMemory
import HyperliquidEngine.BestPrice
import HyperliquidEngine.Totals

/-!
# The book's commands on its node memory (order_book.h, mempool.h)

`NodeMemory` lays out the list model's levels and pool (`Lays`). This module runs each command
of the book on that memory as the code does, and shows that the memory keeps laying out the
list model's book along every run whose cancels and modifies meet resting orders (`LiveRun`):
on those runs the list model is the code's memory read through its pointers. The stale-entry
theorems of `HyperliquidEngine.NodeMemory` (`cancelNode_twice`, `shrink_freed`,
`cancelNode_foreign`) therefore apply at every state such a run reaches, which is where a
`cancel` or a `modify` through an entry that `FlatMap::erase` missed takes the code.

The node operations follow the code: `alloc_node()`, the node's fields and `enqueue` for a
resting order (`restNode`); the makers' loop over the slots (`matchLevelNodes`), which reads each
maker's `user`, `qty` and `id` from its slot, follows its `next`, and on a fill erases and frees
it, on a partial fill shrinks it; `cancelNode`; and for a modify `node->qty` read from the
entry's slot, then `reduce_qty` in place or the cancel and the resubmitted order. The rest of
the book's state, the index, the cached bests and the clock, is the list model's book passed
alongside, and so are the two walks that read a level only through `has_level` and
`total_qty`: the best-price repair and the FOK precheck. The matching loop's `empty()` tests
read the level's header.

- `represents_new`: the memory of a new book lays out its empty levels and two slabs;
- `matchLevelNodes_spec`: the makers' loop over the slots is the list model's `matchLevel`: the
  same trades, quantities and index, and a memory that lays out the level it leaves;
- `represents_processCommand`: an admissible command whose cancel or modify finds no entry or a
  resting order keeps the memory laying out the book, and the matching loop's trades are the
  list model's;
- `represents_run`: along every live run from a book its memory lays out, the memory the code's
  node operations leave lays out the book the run reaches.
-/

namespace HyperliquidEngine

open PriceLevels

namespace NodeMemory

/-! ## A new book -/

/-- The memory before the pool's constructor runs: no slab, every level's header null. -/
def blank : NodeMemory :=
  ⟨fun _ _ => ⟨none, none, 0⟩, fun _ => .ptr none, fun _ => 0, fun _ => 0, fun _ => 0,
    fun _ => 0, fun _ => none, fun _ => none, fun _ => 0, .ptr none, 0, 0⟩

/-- The node memory of a new book: `SlabPool(2)` (mempool.h:63–66) adds two slabs, and every
level is default-constructed. -/
def new : NodeMemory := blank.addSlab.addSlab

theorem lays_blank : blank.Lays (fun _ _ => default) ⟨[], 0, 0, 0⟩ :=
  ⟨fun _ _ => ⟨⟨List.nodup_nil, rfl, rfl, fun _ h => absurd h (List.not_mem_nil _),
      fun _ h => absurd h (List.not_mem_nil _)⟩, rfl, fun _ h => absurd h (List.not_mem_nil _)⟩,
    fun _ _ _ _ _ _ h => absurd h (List.not_mem_nil _),
    ⟨List.nodup_nil, rfl, fun _ h => absurd h (List.not_mem_nil _)⟩,
    fun _ _ _ h => absurd h (List.not_mem_nil _), rfl, rfl, fun _ h => absurd h (List.not_mem_nil _),
    fun _ _ _ h => absurd h (List.not_mem_nil _)⟩

/-- **The memory of a new book lays out the book**: its empty levels and the pool's two slabs. -/
theorem represents_new {L : Type} [PriceLevels L] (symbolId : SymbolId) (bids asks : L)
    (clock : Clock) (hbids : ∀ px, level bids px = default) (hasks : ∀ px, level asks px = default) :
    new.Represents (OrderBook.new symbolId bids asks clock) :=
  lays_blank.addSlab.addSlab.congr (fun s px => by cases s <;> simp [OrderBook.new, hbids, hasks])
    rfl

/-! ## The makers' loop over the slots -/

/-- The state of `match_against_side`'s inner loop that the node memory does not hold: the
taker's remaining `qty`, `total_filled`, the index and the trades so far. -/
structure Sweep where
  qty : Int
  filled : Int
  index : FlatMap OrderEntry
  trades : List TradeEvent

/-- The part of the list model's loop state that the memory does not hold. -/
def sweepOf (f : Fill) : Sweep := ⟨f.qty, f.filled, f.index, f.trades⟩

/-- The inner loop of `match_against_side` (order_book.h:432–469) on the level of side `o` at
`lp`, trading at `px`, from the slot `maker` on: each maker's `user`, `qty` and `id` are read
from its slot, and the loop goes on at the `next` it held before the maker was erased. The
list model's nodes of the level from `maker` on bound the passes, one per node. -/
def matchLevelNodes (symbolId : SymbolId) (t : Taker) (o : Side) (lp px : Int) :
    List OrderNode → Option Nat → NodeMemory → Sweep → NodeMemory × Sweep
  | [], _, m, w => (m, w)
  | _ :: _, none, m, w => (m, w)
  | _ :: ns, some a, m, w =>
    if w.qty ≤ 0 then (m, w)
    else if t.stp && m.user a == t.user then matchLevelNodes symbolId t o lp px ns (m.next a) m w
    else
      let q := min w.qty (m.qty a)
      let w := { w with
        trades := w.trades ++ [(⟨t.ts, t.id, (m.info a).id, symbolId, px, q⟩ : TradeEvent)]
        qty := w.qty - q
        filled := w.filled + q }
      if m.qty a ≤ q then
        let m' := m.erase o lp a
        matchLevelNodes symbolId t o lp px ns (m.next a) (m'.freeNode a)
          { w with index := w.index.erase (m'.info a).id }
      else matchLevelNodes symbolId t o lp px ns (m.next a) (m.reduceQty o lp a q) w

theorem erase_append_cons {ds ns : List OrderNode} {n : OrderNode} (hd : n.addr ∉ ds.map (·.addr))
    (T : Int) : (⟨ds ++ n :: ns, T⟩ : LevelFIFO).erase n.addr = ⟨ds ++ ns, wrapInt64 (T - n.qty)⟩ := by
  have hds : ∀ d ∈ ds, ¬(decide (d.addr = n.addr)) = true := fun d hd' => by
    simpa using fun he => hd (List.mem_map.2 ⟨d, hd', he⟩)
  have hfind : (⟨ds ++ n :: ns, T⟩ : LevelFIFO).node? n.addr = some n := by
    simp [LevelFIFO.node?, List.find?_append, List.find?_eq_none.2 hds]
  simp [LevelFIFO.erase, hfind, List.eraseP_append_right _ hds]

theorem reduceAt_append_cons {n : OrderNode} (d : Int) (ns : List OrderNode) :
    ∀ {ds : List OrderNode}, n.addr ∉ ds.map (·.addr) →
      reduceAt n.addr d (ds ++ n :: ns) = ds ++ { n with qty := n.qty - d } :: ns
  | [], _ => by simp [reduceAt]
  | x :: ds, h => by
    simp only [List.map_cons, List.mem_cons, not_or] at h
    simp [reduceAt, Ne.symm h.1, reduceAt_append_cons d ns h.2]

section Sweep

variable {symbolId : SymbolId} {t : Taker} {o : Side} {lp px : Int}

/-- **The makers' loop over the slots is the list model's `matchLevel`.** From a memory that lays
out levels whose level at `lp` is `ds ++ ns` with the loop's `total_qty`, the loop from the first
of `ns` ends in the list model's loop state, and its memory lays out the level the list model
leaves, with the pool after the frees. -/
theorem matchLevelNodes_spec : ∀ (ns ds : List OrderNode) {lv : Levels} (m : NodeMemory) (f : Fill),
    m.Lays lv f.pool → lv o lp = ⟨ds ++ ns, f.totalQty⟩ →
    (matchLevelNodes symbolId t o lp px ns (ns.head?.map (·.addr)) m (sweepOf f)).2 =
        sweepOf (OrderBook.matchLevel symbolId t px ns f).2 ∧
      (matchLevelNodes symbolId t o lp px ns (ns.head?.map (·.addr)) m (sweepOf f)).1.Lays
        (lv.set o lp ⟨ds ++ (OrderBook.matchLevel symbolId t px ns f).1,
          (OrderBook.matchLevel symbolId t px ns f).2.totalQty⟩) (OrderBook.matchLevel symbolId t px ns f).2.pool
  | [], ds, lv, m, f, h, hlv => ⟨rfl, by
    simp only [matchLevelNodes, OrderBook.matchLevel]
    rwa [← hlv, Levels.set_eq_self rfl]⟩
  | n :: ns, ds, lv, m, f, h, hlv => by
    have h₀ := h.spells o lp
    rw [hlv] at h₀
    have hn : n ∈ (⟨ds ++ n :: ns, f.totalQty⟩ : LevelFIFO).nodes := by simp
    have hmem : n.addr ∈ addrs (lv o lp) := by rw [hlv]; simp [addrs]
    have hnd : (ds.map (·.addr) ++ n.addr :: ns.map (·.addr)).Nodup := by
      simpa [hlv, addrs] using (h.spells o lp).linked.nodup
    have hds : n.addr ∉ ds.map (·.addr) := fun h' =>
      (List.nodup_append.1 hnd).2.2 h' (List.mem_cons_self _ _)
    -- the maker's fields are its slot's, and its `next` is the next node's address
    have hslot := h₀.eq_of_mem hn
    have huser : m.user n.addr = n.user := (congrArg OrderNode.user hslot).symm
    have hqty : m.qty n.addr = n.qty := (congrArg OrderNode.qty hslot).symm
    have hid : (m.info n.addr).id = n.id := (congrArg OrderNode.id hslot).symm
    have hnext : m.next n.addr = ns.head?.map (·.addr) := by
      have := (h.spells o lp).linked.next_eq n.addr hmem
      simp only [hlv, addrs, List.map_append, List.map_cons] at this
      rw [show m.next n.addr = (m.view o lp).next n.addr from rfl, this,
        nextIn_append_right _ hnd (List.mem_cons_self _ _), nextIn_cons_self, List.head?_map]
    simp only [matchLevelNodes, OrderBook.matchLevel, sweepOf, huser, hqty, hid, hnext]
    by_cases hq : f.qty ≤ 0
    · simp only [hq, if_true]
      exact ⟨trivial, by rwa [← hlv, Levels.set_eq_self rfl]⟩
    simp only [hq, if_false]
    by_cases hs : (t.stp && n.user == t.user) = true
    · -- a maker of the taker's own user is skipped
      simp only [hs, if_true]
      have := matchLevelNodes_spec ns (ds ++ [n]) m f h (by simpa using hlv)
      exact ⟨this.1, by simpa using this.2⟩
    simp only [hs, if_false, Bool.false_eq_true]
    by_cases hfull : n.qty ≤ min f.qty n.qty
    · -- a filled maker is erased and freed
      simp only [hfull, if_true]
      have h₁ := h.eraseFree hmem
      rw [hlv, erase_append_cons hds] at h₁
      have := matchLevelNodes_spec ns ds ((m.erase o lp n.addr).freeNode n.addr)
        { f with
          trades := f.trades ++ [⟨t.ts, t.id, n.id, symbolId, px, min f.qty n.qty⟩]
          qty := f.qty - min f.qty n.qty
          filled := f.filled + min f.qty n.qty
          totalQty := wrapInt64 (f.totalQty - n.qty)
          index := f.index.erase n.id
          pool := f.pool.free n.addr } h₁ (by simp)
      simpa [NodeMemory.erase, hid, sweepOf] using this
    · -- a partly filled maker is shrunk in place
      simp only [hfull, if_false]
      have h₁ := h.reduceQty hmem (min f.qty n.qty)
      rw [hlv, LevelFIFO.reduceQty, reduceAt_append_cons _ _ hds] at h₁
      have := matchLevelNodes_spec ns (ds ++ [{ n with qty := n.qty - min f.qty n.qty }])
        (m.reduceQty o lp n.addr (min f.qty n.qty))
        { f with
          trades := f.trades ++ [⟨t.ts, t.id, n.id, symbolId, px, min f.qty n.qty⟩]
          qty := f.qty - min f.qty n.qty
          filled := f.filled + min f.qty n.qty
          totalQty := wrapInt64 (f.totalQty - min f.qty n.qty) } h₁ (by simp)
      exact ⟨this.1, by simpa using this.2⟩

end Sweep

/-! ## The book's commands -/

section Book

variable {L : Type} [PriceLevels L]

/-- The node part of `match_against_side` (order_book.h:413–477) against side `o`, with `n`
passes left, alongside the list model's book `b`: at the level the cached best names,
`best_level->empty()` read from its header, then the makers' loop from its `head`; after a level
empties, the list model's best-price repair. -/
def matchLoopNodes (o : Side) (limit : Int) (t : Taker) :
    Nat → OrderBook L → NodeMemory → Int → Int → List TradeEvent → NodeMemory × Int × List TradeEvent
  | 0, _, m, _, filled, trades => (m, filled, trades)
  | n + 1, b, m, qty, filled, trades =>
    if qty ≤ 0 then (m, filled, trades)
    else
      let l := b.side o
      match bestLevelPtr l o with
      | none => (m, filled, trades)
      | some lp =>
        if (m.headers o lp).head.isNone then (m, filled, trades)
        else
          let bestPrice := best l o
          if o.better limit bestPrice then (m, filled, trades)
          else
            let lvl := level l lp
            let w := matchLevelNodes b.symbolId t o lp bestPrice lvl.nodes (m.headers o lp).head m
              ⟨qty, filled, b.idIndex, trades⟩
            if (w.1.headers o lp).head.isNone then
              let r := OrderBook.matchLevel b.symbolId t bestPrice lvl.nodes
                ⟨qty, filled, lvl.totalQty, b.idIndex, b.orderPool, trades⟩
              let b := { b.setSide o (setLevel l lp ⟨r.1, r.2.totalQty⟩) with
                idIndex := w.2.index, orderPool := r.2.pool }
              matchLoopNodes o limit t n (b.refreshBestAfterDepletion o) w.1 w.2.qty w.2.filled
                w.2.trades
            else (w.1, w.2.filled, w.2.trades)

/-- The node part of the matching step of `submit_limit_side` (order_book.h:319–336). -/
def matchIfCrossingNodes (b : OrderBook L) (t : Side) (cmd : OrderCommand) (m : NodeMemory) :
    NodeMemory × Int × List TradeEvent :=
  let o := t.opposite
  let bestOpp := best (b.side o) o
  if bestOpp ≠ Sentinel.empty o ∧ o.better cmd.priceTicks bestOpp = false then
    matchLoopNodes o cmd.priceTicks (OrderBook.takerOf cmd) (nonemptyCount (b.side o) + 1) b m
      cmd.qty 0 []
  else (m, 0, [])

/-- The node part of `submit_limit_side` (order_book.h:300–403): the FOK precheck, matching, and
for a GTC residual the rest path's node. -/
def submitLimitNodes (b : OrderBook L) (cmd : OrderCommand) (m : NodeMemory) : NodeMemory :=
  if cmd.tif = .fok ∧ b.checkFokLiquidity cmd.side cmd.qty cmd.priceTicks = false then m
  else
    let r := matchIfCrossingNodes b cmd.side cmd m
    let remaining := cmd.qty - r.2.1
    if 0 < remaining ∧ (cmd.tif = .ioc ∨ cmd.tif = .fok) then r.1
    else if 0 < remaining then (r.1.restNode cmd.side cmd remaining).getD r.1
    else r.1

/-- The node part of `submit_market` (order_book.h:159–182). -/
def submitMarketNodes (b : OrderBook L) (cmd : OrderCommand) (m : NodeMemory) : NodeMemory :=
  let o := cmd.side.opposite
  (matchLoopNodes o (Sentinel.empty o) (OrderBook.takerOf cmd) (nonemptyCount (b.side o) + 1) b m
    cmd.qty 0 []).1

/-- The node part of `cancel(id)` (order_book.h:184–216). -/
def cancelNodes (b : OrderBook L) (id : OrderId) (m : NodeMemory) : NodeMemory :=
  match b.idIndex.find id with
  | none => m
  | some e => m.cancelNode e

/-- The node part of `modify(id, new_price, new_qty)` (order_book.h:218–298): `entry.node->qty`
read from the entry's slot; `reduce_qty` in place, or the cancel and the nodes of the
resubmitted order, whose `user` and `flags` are read from the slot before the cancel. -/
def modifyNodes (b : OrderBook L) (id : OrderId) (newPrice newQty : Int) (m : NodeMemory) :
    NodeMemory :=
  match b.idIndex.find id with
  | none => m
  | some e =>
    if newPrice = e.price ∧ newQty < m.qty e.node then
      m.reduceQty e.side e.price e.node (m.qty e.node - newQty)
    else
      submitLimitNodes ({ b with clock := b.clock.now.2 }.cancel id).book
        { type := .newOrder, recvTs := b.clock.now.1, orderId := id, symbolId := 0,
          userId := m.user e.node, priceTicks := newPrice, qty := newQty, side := e.side,
          orderType := .limit, tif := .gtc, flags := m.flags e.node }
        (m.cancelNode e)

/-- The node part of one pass of `MatchingEngine::run` (matching_engine.cpp:29–53). -/
def processNodes (b : OrderBook L) (cmd : OrderCommand) (m : NodeMemory) : NodeMemory :=
  match cmd.type with
  | .newOrder =>
    if cmd.orderType = .limit then submitLimitNodes b cmd m else submitMarketNodes b cmd m
  | .cancelOrder => cancelNodes b cmd.orderId m
  | .modifyOrder => modifyNodes b cmd.orderId cmd.priceTicks cmd.qty m

/-- The node part of a run, alongside the list model's books. -/
def runNodes : OrderBook L → List OrderCommand → NodeMemory → NodeMemory
  | _, [], m => m
  | b, cmd :: cmds, m => runNodes (MatchingEngine.processCommand b cmd).1 cmds (processNodes b cmd m)

variable [LawfulPriceLevels L] {m : NodeMemory} {b : OrderBook L}

open LawfulPriceLevels

omit [LawfulPriceLevels L] in
theorem Represents.of_levels (h : m.Represents b) {b' : OrderBook L}
    (hl : ∀ s px, level (b'.side s) px = level (b.side s) px) (hp : b'.orderPool = b.orderPool) :
    m.Represents b' :=
  Lays.congr h hl hp

theorem Represents.endCommand {α : Type} (h : m.Represents b) (ret : α) (es : List BookEvent) :
    m.Represents (b.endCommand ret es).book :=
  h.of_levels (by simp) (by simp)

/-- **The matching loop over the slots is the list model's `matchLoop`**: the same `total_filled`
and trades, and a memory that lays out the book it leaves. -/
theorem matchLoopNodes_spec (o : Side) (limit : Int) (t : Taker) :
    ∀ (n : Nat) (b : OrderBook L) (m : NodeMemory) (qty filled : Int) (trades : List TradeEvent),
      m.Represents b →
      (matchLoopNodes o limit t n b m qty filled trades).2 =
          (OrderBook.matchLoop o limit t n b qty filled trades).2 ∧
        (matchLoopNodes o limit t n b m qty filled trades).1.Represents
          (OrderBook.matchLoop o limit t n b qty filled trades).1
  | 0, _, _, _, _, _, h => ⟨rfl, h⟩
  | n + 1, b, m, qty, filled, trades, h => by
    by_cases hq : qty ≤ 0
    · simp only [matchLoopNodes, OrderBook.matchLoop, hq, if_true]
      exact ⟨by simp, h⟩
    simp only [matchLoopNodes, OrderBook.matchLoop, hq, if_false]
    cases hp : bestLevelPtr (b.side o) o with
    | none => exact ⟨by simp, h⟩
    | some lp =>
    simp only
    have hE : (m.headers o lp).head.isNone = (level (b.side o) lp).empty := h.head_isNone o lp
    rw [hE]
    by_cases hemp : (level (b.side o) lp).empty = true
    · simp only [hemp, if_true]
      exact ⟨by simp, h⟩
    simp only [hemp, if_false, Bool.false_eq_true]
    by_cases hcross : o.better limit (best (b.side o) o) = true
    · simp only [hcross, if_true]
      exact ⟨by simp, h⟩
    simp only [hcross, if_false, Bool.false_eq_true]
    -- the makers' loop over the level at `lp`
    obtain ⟨hS, hL⟩ := @matchLevelNodes_spec b.symbolId t o lp (best (b.side o) o)
      (level (b.side o) lp).nodes [] _ m
      ⟨qty, filled, (level (b.side o) lp).totalQty, b.idIndex, b.orderPool, trades⟩ h (by simp)
    simp only [sweepOf] at hS hL
    rw [← h.head_eq o lp] at hS hL
    -- the book after the level: the level the list model leaves, the index and the pool
    have hB : (matchLevelNodes b.symbolId t o lp (best (b.side o) o) (level (b.side o) lp).nodes
        (m.headers o lp).head m ⟨qty, filled, b.idIndex, trades⟩).1.Represents
        { b.setSide o (setLevel (b.side o) lp ⟨(OrderBook.matchLevel b.symbolId t (best (b.side o) o)
            (level (b.side o) lp).nodes ⟨qty, filled, (level (b.side o) lp).totalQty, b.idIndex,
            b.orderPool, trades⟩).1, (OrderBook.matchLevel b.symbolId t (best (b.side o) o)
            (level (b.side o) lp).nodes ⟨qty, filled, (level (b.side o) lp).totalQty, b.idIndex,
            b.orderPool, trades⟩).2.totalQty⟩) with
          idIndex := (OrderBook.matchLevel b.symbolId t (best (b.side o) o)
            (level (b.side o) lp).nodes ⟨qty, filled, (level (b.side o) lp).totalQty, b.idIndex,
            b.orderPool, trades⟩).2.index
          orderPool := (OrderBook.matchLevel b.symbolId t (best (b.side o) o)
            (level (b.side o) lp).nodes ⟨qty, filled, (level (b.side o) lp).totalQty, b.idIndex,
            b.orderPool, trades⟩).2.pool } := by
      refine hL.congr (fun s px => ?_) rfl
      by_cases hs : s = o
      · rw [hs]
        by_cases hpx : px = lp
        · rw [hpx]
          simp [level_setLevel_self_of_nonempty _ _ (Bool.eq_false_iff.2 hemp)]
        · simp [level_setLevel_ne _ _ hpx, Levels.set, hpx]
      · simp [hs, Levels.set]
    have hE' := hB.head_isNone o lp
    simp only [OrderBook.side_setSide, if_true,
      level_setLevel_self_of_nonempty _ _ (Bool.eq_false_iff.2 hemp)] at hE'
    rw [hE', LevelFIFO.empty]
    rw [hS]
    split_ifs
    · exact matchLoopNodes_spec o limit t n _ _ _ _ _
        (hB.of_levels (fun s px => by by_cases hs : s = o <;> simp [hs]) rfl)
    · exact ⟨rfl, hB⟩

theorem matchIfCrossingNodes_spec (h : m.Represents b) (t : Side) (cmd : OrderCommand) :
    (matchIfCrossingNodes b t cmd m).2 = (b.matchIfCrossing t cmd).2 ∧
      (matchIfCrossingNodes b t cmd m).1.Represents (b.matchIfCrossing t cmd).1 := by
  simp only [matchIfCrossingNodes, OrderBook.matchIfCrossing, OrderBook.matchAgainstSide]
  split
  · exact matchLoopNodes_spec _ _ _ _ _ _ _ _ _ h
  · exact ⟨rfl, h⟩

/-- **The rest path's node** lays out the list model's rest, at a price the ladder accepts. -/
theorem Represents.rest (h : m.Represents b) (t : Side) (cmd : OrderCommand) (rem : Int)
    (hv : isValidPrice (b.side t) cmd.priceTicks) :
    ∃ m', m.restNode t cmd rem = some m' ∧ m'.Represents (b.rest t cmd rem) := by
  obtain ⟨m', hm', hL⟩ := Lays.restNode h t cmd rem
  refine ⟨m', hm', hL.congr (fun s px => ?_) rfl⟩
  by_cases hs : s = t
  · subst hs
    by_cases hpx : px = cmd.priceTicks <;> simp [OrderBook.level_enqueueAt _ _ _ hv, Levels.set, hpx]
  · simp [hs, Levels.set]

theorem represents_submitLimit (h : m.Represents b) (cmd : OrderCommand)
    (hv : isValidPrice (b.side cmd.side) cmd.priceTicks) :
    (submitLimitNodes b cmd m).Represents (b.submitLimit cmd).book := by
  obtain ⟨h₂, h₁⟩ := matchIfCrossingNodes_spec h cmd.side cmd
  simp only [submitLimitNodes, OrderBook.submitLimit, OrderBook.submitLimitSide,
    OrderBook.settleLimit, h₂]
  split_ifs
  · exact h.endCommand _ _
  · exact h₁.endCommand _ _
  · obtain ⟨m', hm', hr⟩ := h₁.rest cmd.side cmd (cmd.qty - (b.matchIfCrossing cmd.side cmd).2.1)
      (by rwa [OrderBook.matchIfCrossing_side])
    rw [hm', Option.getD_some]
    exact hr.endCommand _ _
  · exact h₁.endCommand _ _

theorem represents_submitMarket (h : m.Represents b) (cmd : OrderCommand) :
    (submitMarketNodes b cmd m).Represents (b.submitMarket cmd).book :=
  (matchLoopNodes_spec _ _ _ _ _ _ _ _ _ h).2.endCommand _ _

theorem represents_cancelNodes (h : m.Represents b) {id : OrderId} (hl : b.findsLinked id = true) :
    (cancelNodes b id m).Represents (b.cancel id).book := by
  cases hf : b.idIndex.find id with
  | none => simpa [cancelNodes, hf, OrderBook.cancel_of_find_none hf] using h
  | some e =>
    simp only [cancelNodes, hf]
    exact (represents_cancel h hf (by simpa [OrderBook.findsLinked, hf] using hl)).1

theorem represents_modifyNodes (h : m.Represents b) {id : OrderId} (hl : b.findsLinked id = true)
    {newPrice newQty : Int} (hv : ∀ s, isValidPrice (b.side s) newPrice) :
    (modifyNodes b id newPrice newQty m).Represents (b.modify id newPrice newQty).book := by
  cases hf : b.idIndex.find id with
  | none => simpa [modifyNodes, OrderBook.modify, hf] using h
  | some e =>
    have hle : b.entryLinked e = true := by simpa [OrderBook.findsLinked, hf] using hl
    have hn := node_mem_addrs hle
    have hne : (level (b.side e.side) e.price).empty = false := by
      rw [Bool.eq_false_iff, Ne, LevelFIFO.empty_iff]
      intro h'
      simp [addrs, h'] at hn
    simp only [modifyNodes, OrderBook.modify, hf, qty_entryNode h hle]
    split_ifs with hin hcr
    · -- in place: `reduce_qty` on the entry's node
      refine Represents.endCommand ?_ _ _
      refine (Lays.reduceQty h hn _).congr (fun s px => ?_) rfl
      by_cases hs : s = e.side
      · rw [hs]
        by_cases hpx : px = e.price
        · rw [hpx]
          simp [level_setLevel_self_of_nonempty (getLevel (b.side e.side) e.price) _
            (by simpa using hne)]
        · simp [level_setLevel_ne _ _ hpx, Levels.set, hpx]
      · simp [hs, Levels.set]
    · -- `cancel` finds the entry, so it returns true
      simp [OrderBook.cancel_of_find (b := { b with clock := b.clock.now.2 }) hf] at *
    · -- cancel, then the resubmitted order, whose fields the slot holds
      have hc := represents_cancel (b := { b with clock := b.clock.now.2 }) h hf hle
      rw [entryNode_eq h hle]
      exact represents_submitLimit hc.1 _ (by simpa [OrderBook.isValidPrice_cancel] using hv e.side)

/-- **One command keeps the memory laying out the book**: an admissible command whose cancel or
modify finds no entry or the entry of a resting order. -/
theorem represents_processCommand (h : m.Represents b) {ids : List OrderId} {cmd : OrderCommand}
    (hc : MatchingEngine.Admissible b ids cmd)
    (hl : cmd.type = .newOrder ∨ b.findsLinked cmd.orderId = true) :
    (processNodes b cmd m).Represents (MatchingEngine.processCommand b cmd).1 := by
  have hv : ∀ s, MatchingEngine.ValidPrice b cmd.priceTicks → isValidPrice (b.side s) cmd.priceTicks :=
    fun s hv => by cases s; exacts [hv.1, hv.2]
  cases ht : cmd.type with
  | newOrder =>
    simp only [processNodes, MatchingEngine.processCommand, ht]
    split_ifs with hlim
    · exact represents_submitLimit h cmd (hv _ (hc.2.2 (.inl ⟨ht, hlim⟩)))
    · exact represents_submitMarket h cmd
  | cancelOrder =>
    simp only [processNodes, MatchingEngine.processCommand, ht]
    exact represents_cancelNodes h (hl.resolve_left (by simp [ht]))
  | modifyOrder =>
    simp only [processNodes, MatchingEngine.processCommand, ht]
    exact represents_modifyNodes h (hl.resolve_left (by simp [ht]))
      fun s => hv s (hc.2.2 (.inr ht))

/-- **Along every live run the code's node memory lays out the list model's book.** From a book
its memory lays out, every run whose commands are admissible and whose cancels and modifies meet
no entry or the entry of a resting order leaves a memory, by the code's node operations, that
lays out the book the run reaches: its levels are the lists the slots' links spell, and its pool
the free list the slots' first words spell. -/
theorem represents_run (h : m.Represents b) {ids : List OrderId} {cmds : List OrderCommand}
    (hr : MatchingEngine.LiveRun b ids cmds) :
    (runNodes b cmds m).Represents (MatchingEngine.run b cmds).1 := by
  induction cmds generalizing b ids m with
  | nil => exact h
  | cons cmd cmds ih =>
    obtain ⟨hc, hl, hr⟩ := hr
    exact ih (represents_processCommand h hc hl) hr

end Book

/-! ## The stale entry on a reachable book -/

/-- The memory of the engine's book (matching_engine.cpp:8–24) lays it out. -/
theorem represents_book (symbolId : SymbolId) (band : PriceBand) (clock : Clock) :
    new.Represents (MatchingEngine.book symbolId band clock) :=
  represents_new _ _ _ _ (PriceLevelsArray.level_new band) (PriceLevelsArray.level_new band)

/-- **A second `cancel` through a resting order's entry frees its slot twice**, in every state a
live run of the engine's book reaches: `FlatMap::erase` can leave the entry behind the first
`cancel` (`cancel_misses_resting_order`), and the next two allocations, the nodes of the next
two orders that rest, both get the slot. -/
theorem doubleFree_run {symbolId : SymbolId} {band : PriceBand} {clock : Clock} {ids : List OrderId}
    {cmds : List OrderCommand}
    (hr : MatchingEngine.LiveRun (MatchingEngine.book symbolId band clock) ids cmds) {e : OrderEntry}
    (hl : (MatchingEngine.run (MatchingEngine.book symbolId band clock) cmds).1.entryLinked e = true) :
    ∃ m₃ m₄, (((runNodes (MatchingEngine.book symbolId band clock) cmds new).cancelNode e).cancelNode
      e).allocNode = some (e.node, m₃) ∧ m₃.allocNode = some (e.node, m₄) :=
  (cancelNode_twice (represents_run (represents_book symbolId band clock) hr) hl).2.2.2

/-- A bid at `150` rests on the engine's book over `[100, 200]` in the last slot of the second
slab, its entry linked. -/
example : MatchingEngine.LiveRun (MatchingEngine.book 1 ⟨100, 200⟩ Clock.ticks) []
      [.newOrder 1 1 .bid 150 10 .limit .gtc 0] ∧
    (MatchingEngine.run (MatchingEngine.book 1 ⟨100, 200⟩ Clock.ticks)
      [.newOrder 1 1 .bid 150 10 .limit .gtc 0]).1.entryLinked ⟨.bid, 150, 21843⟩ = true := by
  decide

end NodeMemory

end HyperliquidEngine
