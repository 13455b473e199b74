import HyperliquidEngine.PriceLevels
import HyperliquidEngine.FlatMap
import HyperliquidEngine.Mempool

/-!
# The order book (order_book.h)

`OrderBook<PriceLevelsImpl>` over any `PriceLevels` ladder: the two ladders, the node pool,
the order index and the wall clock. Each public operation returns an `Exec`: what it
returns, the book after it, and the events it hands to the two callbacks, in order (the
callbacks are taken to be set, as `MatchingEngine` sets them).

The `IsBid` templates are single definitions over a `Side`: `matchAgainstSide o` walks the
makers of side `o`, `submitLimitSide t` submits a taker of side `t`. Each `while` loop is a
function with an explicit bound on its passes: the constant bounds of the source
(`MAX_SEARCH`, `MAX_STEPS`), and for the matching loop one pass per non-empty level of the
maker side plus one, enough because each pass that does not stop empties a level
(`matchLoop_fuel`).

`TimestampUtil::now_ns()` reads the clock: the `k`-th reading of a book is
`clock.reading k`.
-/

namespace HyperliquidEngine

open PriceLevels

/-- An index entry, `OrderEntry` (order_book.h:91–95): the side, the price and the node of a resting order. -/
structure OrderEntry where
  side : Side
  price : Int
  node : Nat
  deriving DecidableEq, Repr

instance : Inhabited OrderEntry := ⟨⟨.bid, 0, 0⟩⟩

/-- What the two callbacks receive: `on_trade` and `on_book_update`. -/
inductive BookEvent where
  | trade (t : TradeEvent)
  | bookUpdate (u : BookUpdate)
  deriving DecidableEq, Repr

namespace BookEvent

/-- The trade an event carries, if it is one. -/
def trade? : BookEvent → Option TradeEvent
  | .trade t => some t
  | .bookUpdate _ => none

end BookEvent

/-- The trades among a list of events, in order. -/
def tradesOf (es : List BookEvent) : List TradeEvent := es.filterMap BookEvent.trade?

@[simp] theorem tradesOf_nil : tradesOf [] = [] := rfl

@[simp] theorem tradesOf_append (es fs : List BookEvent) :
    tradesOf (es ++ fs) = tradesOf es ++ tradesOf fs := List.filterMap_append _ _ _

@[simp] theorem tradesOf_bookUpdate (u : BookUpdate) : tradesOf [.bookUpdate u] = [] := rfl

@[simp] theorem tradesOf_map_trade (ts : List TradeEvent) : tradesOf (ts.map .trade) = ts := by
  induction ts with
  | nil => rfl
  | cons t ts ih => exact congrArg (t :: ·) ih

/-- The wall clock: its readings and how many have been taken. -/
structure Clock where
  reading : Nat → Timestamp
  reads : Nat

/-- A clock reading, `TimestampUtil::now_ns()`. -/
def Clock.now (c : Clock) : Timestamp × Clock := (c.reading c.reads, { c with reads := c.reads + 1 })

/-- A clock whose `k`-th reading is `k`. -/
def Clock.ticks : Clock := ⟨fun k => k.toUInt64, 0⟩

/-- The book `OrderBook<PriceLevelsImpl>` (order_book.h:39–140). The two ladders `bids_` and
`asks_` are one field indexed by the side, `side .bid` and `side .ask`. -/
structure OrderBook (L : Type) where
  symbolId : SymbolId
  side : Side → L
  orderPool : SlabPool
  idIndex : FlatMap OrderEntry
  clock : Clock

/-- Nodes per slab, `SLAB_SIZE / sizeof(OrderNode)`: 1 MiB slabs of 96-byte nodes on LP64. -/
def nodesPerSlab : Nat := 1048576 / 96

/-- The search bound `MAX_SEARCH` of `refresh_best_after_depletion`. -/
def maxSearch : Nat := 10000

/-- The walk bound `MAX_STEPS` of `check_fok_liquidity`. -/
def maxSteps : Nat := 10000

/-- What an operation returns, the book after it, and the events it emitted. -/
structure Exec (L α : Type) where
  ret : α
  book : OrderBook L
  events : List BookEvent

/-- The taker as `match_against_side` sees it. -/
structure Taker where
  id : OrderId
  user : UserId
  ts : Timestamp
  stp : Bool

/-- The state of `match_against_side`'s inner loop: the taker's remaining `qty`,
`total_filled`, the walked level's `total_qty`, the index, the pool and the trades so far. -/
structure Fill where
  qty : Int
  filled : Int
  totalQty : Int
  index : FlatMap OrderEntry
  pool : SlabPool
  trades : List TradeEvent

namespace OrderBook

variable {L : Type} [PriceLevels L]

/-- The constructor `OrderBook(symbol_id, bids, asks)`: two slabs, an index of 8192 slots. -/
def new (symbolId : SymbolId) (bids asks : L) (clock : Clock) : OrderBook L :=
  ⟨symbolId, fun | .bid => bids | .ask => asks, SlabPool.new nodesPerSlab 2, FlatMap.new 8192, clock⟩

/-- A write to the ladder of side `s` (`bids_` or `asks_`). -/
def setSide (b : OrderBook L) (s : Side) (l : L) : OrderBook L :=
  { b with side := fun s' => if s' = s then l else b.side s' }

/-- The read of one side's top in `emit_book_update()`: `get_level(best)` and its
`total_qty` when the side is not empty, else the ladder untouched and `0`. -/
def touchBest (l : L) (s : Side) : L × Int :=
  let px := best l s
  if px ≠ Sentinel.empty s then
    let l := getLevel l px
    (l, (level l px).totalQty)
  else (l, 0)

/-- Publication of the top of book, `emit_book_update()` (order_book.h:599–625): the top of
both sides, read through `get_level`, and a clock reading. -/
def emitBookUpdate (b : OrderBook L) : OrderBook L × BookUpdate :=
  ({ b with side := fun s => (touchBest (b.side s) s).1, clock := b.clock.now.2 },
    ⟨b.clock.now.1, b.symbolId, best (b.side .bid) .bid, best (b.side .ask) .ask,
      (touchBest (b.side .bid) .bid).2, (touchBest (b.side .ask) .ask).2⟩)

/-- The end of a command: `emit_book_update()`, then the return of `ret`, after the
command's earlier events `events`. -/
def endCommand {α : Type} (b : OrderBook L) (ret : α) (events : List BookEvent) : Exec L α :=
  ⟨ret, b.emitBookUpdate.1, events ++ [.bookUpdate b.emitBookUpdate.2]⟩

/-- The search loop of `refresh_best_after_depletion` (order_book.h:489–505, 513–529):
from `i` ticks beyond `cur` on, with `n` steps left, the first price that has a level;
`none` at a sentinel, out of range, or after `MAX_SEARCH` steps. -/
def searchAway (l : L) (s : Side) (cur : Int) : Nat → Nat → Option Int
  | 0, _ => none
  | n + 1, i =>
    let px := s.away cur i
    if !s.better px (Sentinel.empty s) then none
    else if !isValidPrice l px then none
    else if hasLevel l px then some px
    else searchAway l s cur n (i + 1)

/-- The body of `refresh_best_after_depletion(s)` on the ladder `l` of side `s`: from a
non-empty cached best, the first price further away that has a level, or the sentinel. -/
def refreshBest (l : L) (s : Side) : L :=
  let cur := best l s
  if cur = Sentinel.empty s then l
  else setBest l s ((searchAway l s cur maxSearch 1).getD (Sentinel.empty s))

/-- The best-price repair `refresh_best_after_depletion(s)` (order_book.h:482–533). -/
def refreshBestAfterDepletion (b : OrderBook L) (s : Side) : OrderBook L :=
  b.setSide s (refreshBest (b.side s) s)

/-- The inner loop of `match_against_side` (order_book.h:432–469) over the makers from
`maker` on, at trade price `px`: the level's nodes from there on after the loop, and the
loop state. -/
def matchLevel (symbolId : SymbolId) (t : Taker) (px : Int) :
    List OrderNode → Fill → List OrderNode × Fill
  | [], f => ([], f)
  | m :: ms, f =>
    if f.qty ≤ 0 then (m :: ms, f)
    else if t.stp && m.user == t.user then
      let r := matchLevel symbolId t px ms f
      (m :: r.1, r.2)
    else
      let q := min f.qty m.qty
      let f := { f with
        trades := f.trades ++ [(⟨t.ts, t.id, m.id, symbolId, px, q⟩ : TradeEvent)]
        qty := f.qty - q
        filled := f.filled + q }
      if m.qty ≤ q then
        matchLevel symbolId t px ms { f with
          totalQty := wrapInt64 (f.totalQty - m.qty)
          index := f.index.erase m.id
          pool := f.pool.free m.addr }
      else
        let r := matchLevel symbolId t px ms { f with totalQty := wrapInt64 (f.totalQty - q) }
        ({ m with qty := m.qty - q } :: r.1, r.2)

/-- The outer loop of `match_against_side` (order_book.h:413–477) against side `o`, with
`n` passes left: the book, `total_filled` and the trades. -/
def matchLoop (o : Side) (limit : Int) (t : Taker) :
    Nat → OrderBook L → Int → Int → List TradeEvent → OrderBook L × Int × List TradeEvent
  | 0, b, _, filled, trades => (b, filled, trades)
  | n + 1, b, qty, filled, trades =>
    if qty ≤ 0 then (b, filled, trades)
    else
      let l := b.side o
      match bestLevelPtr l o with
      | none => (b, filled, trades)
      | some lp =>
        let lvl := level l lp
        if lvl.empty then (b, filled, trades)
        else
          let bestPrice := best l o
          if o.better limit bestPrice then (b, filled, trades)
          else
            let r := matchLevel b.symbolId t bestPrice lvl.nodes
              ⟨qty, filled, lvl.totalQty, b.idIndex, b.orderPool, trades⟩
            let b := { b.setSide o (setLevel l lp ⟨r.1, r.2.totalQty⟩) with
              idIndex := r.2.index, orderPool := r.2.pool }
            if r.1.isEmpty then
              matchLoop o limit t n (b.refreshBestAfterDepletion o) r.2.qty r.2.filled r.2.trades
            else (b, r.2.filled, r.2.trades)

/-- Matching, `match_against_side<IsBid>(qty, px_limit, …)`, against the makers of side `o`. -/
def matchAgainstSide (b : OrderBook L) (o : Side) (qty limit : Int) (t : Taker) :
    OrderBook L × Int × List TradeEvent :=
  matchLoop o limit t (nonemptyCount (b.side o) + 1) b qty 0 []

/-- The walk of `check_fok_liquidity` (order_book.h:562–587) over side `o` from `cur`, with
`n` steps left: the quantity found (summed in `int64_t`). Reading `get_level(cur)` after
`has_level(cur)` has no effect on the store. -/
def fokLoop (l : L) (o : Side) (qty limit : Int) : Nat → Int → Int → Int
  | 0, _, avail => avail
  | n + 1, cur, avail =>
    if qty ≤ avail then avail
    else if o.better limit cur || cur = Sentinel.empty o then avail
    else if !isValidPrice l cur then avail
    else
      let avail := if hasLevel l cur then wrapInt64 (avail + (level l cur).totalQty) else avail
      fokLoop l o qty limit n (o.away cur 1) avail

/-- The FOK precheck `check_fok_liquidity<IsBid>(qty, px_limit)` (order_book.h:535–590) for a taker of
side `t`. -/
def checkFokLiquidity (b : OrderBook L) (t : Side) (qty limit : Int) : Bool :=
  let o := t.opposite
  let l := b.side o
  let bestPrice := best l o
  if bestPrice = Sentinel.empty o then false
  else if o.better limit bestPrice then false
  else decide (qty ≤ fokLoop l o qty limit maxSteps bestPrice 0)

/-- The ladder part of the rest path: `get_level(px).enqueue(node)`, then the cached best
raised to `px` if `px` is better. -/
def enqueueAt (l : L) (t : Side) (px : Int) (node : OrderNode) : L :=
  let l := getLevel l px
  let l := setLevel l px ((level l px).enqueue node)
  if t.better px (best l t) then setBest l t px else l

/-- The rest path of `submit_limit_side` (order_book.h:372–399): a node for the residual,
queued at the tail of its level, the cached best raised to it if better, and an index
entry. -/
def rest (b : OrderBook L) (t : Side) (cmd : OrderCommand) (remaining : Int) : OrderBook L :=
  let a := b.orderPool.alloc nodesPerSlab
  let node : OrderNode := ⟨a.1, cmd.orderId, cmd.userId, remaining, cmd.recvTs, cmd.flags⟩
  { b.setSide t (enqueueAt (b.side t) t cmd.priceTicks node) with
    orderPool := a.2
    idIndex := b.idIndex.insert cmd.orderId ⟨t, cmd.priceTicks, a.1⟩ }

/-- Whether the command carries the self-trade-prevention flag. -/
def stpOf (cmd : OrderCommand) : Bool := cmd.flags &&& OrderFlags.stp != 0

/-- The taker a command presents to `match_against_side`. -/
def takerOf (cmd : OrderCommand) : Taker := ⟨cmd.orderId, cmd.userId, cmd.recvTs, stpOf cmd⟩

/-- The matching step of `submit_limit_side` (order_book.h:319–336): the walk of the
opposite side when its best price crosses the order's limit, else nothing. -/
def matchIfCrossing (b : OrderBook L) (t : Side) (cmd : OrderCommand) :
    OrderBook L × Int × List TradeEvent :=
  let o := t.opposite
  let bestOpp := best (b.side o) o
  if bestOpp ≠ Sentinel.empty o ∧ o.better cmd.priceTicks bestOpp = false then
    b.matchAgainstSide o cmd.qty cmd.priceTicks (takerOf cmd)
  else (b, 0, [])

/-- The time-in-force step of `submit_limit_side` (order_book.h:338–402), from the matching
result `m` (the book, `filled`, the trades): an IOC or FOK residual is dropped, any other
residual rests. -/
def settleLimit (t : Side) (cmd : OrderCommand) (m : OrderBook L × Int × List TradeEvent) :
    Exec L ExecResult :=
  let remaining := cmd.qty - m.2.1
  if 0 < remaining ∧ (cmd.tif = .ioc ∨ cmd.tif = .fok) then
    m.1.endCommand ⟨m.2.1, 0⟩ (m.2.2.map .trade)
  else
    let b := if 0 < remaining then m.1.rest t cmd remaining else m.1
    b.endCommand ⟨m.2.1, remaining⟩ (m.2.2.map .trade)

/-- Limit submission, `submit_limit_side<IsBid>(cmd)` (order_book.h:300–403), for a taker
of side `t`: the FOK precheck, matching, then the time-in-force step. -/
def submitLimitSide (b : OrderBook L) (t : Side) (cmd : OrderCommand) : Exec L ExecResult :=
  if cmd.tif = .fok ∧ b.checkFokLiquidity t cmd.qty cmd.priceTicks = false then
    b.endCommand ⟨0, 0⟩ []
  else settleLimit t cmd (b.matchIfCrossing t cmd)

/-- The entry point `submit_limit(cmd)` (order_book.h:146–157). -/
def submitLimit (b : OrderBook L) (cmd : OrderCommand) : Exec L ExecResult :=
  b.submitLimitSide cmd.side cmd

/-- The entry point `submit_market(cmd)` (order_book.h:159–182): match at any price against the opposite
side, up to its sentinel. -/
def submitMarket (b : OrderBook L) (cmd : OrderCommand) : Exec L ExecResult :=
  let o := cmd.side.opposite
  let m := b.matchAgainstSide o cmd.qty (Sentinel.empty o) (takerOf cmd)
  m.1.endCommand ⟨m.2.1, cmd.qty - m.2.1⟩ (m.2.2.map .trade)

/-- The ladder part of `cancel`: `get_level(price).erase(node)`, then the best-price repair
of the side when the level is left empty. -/
def eraseAt (l : L) (s : Side) (px : Int) (addr : Nat) : L :=
  let l := getLevel l px
  let lvl := (level l px).erase addr
  let l := setLevel l px lvl
  if lvl.empty then refreshBest l s else l

/-- The entry point `cancel(id)` (order_book.h:184–216). The node goes back to the pool
before the index entry is erased; neither reads the other. On an entry that `entryLinked`
accepts this is the code read through its pointers (`NodeMemory.represents_cancel`); on a
stale one the level is left alone here, while the source relinks the slot and frees it a
second time (`NodeMemory.cancelNode_twice`, `NodeMemory.cancelNode_foreign`). -/
def cancel (b : OrderBook L) (id : OrderId) : Exec L Bool :=
  match b.idIndex.find id with
  | none => ⟨false, b, []⟩
  | some e =>
    let b := { b.setSide e.side (eraseAt (b.side e.side) e.side e.price e.node) with
      orderPool := b.orderPool.free e.node
      idIndex := b.idIndex.erase id }
    b.endCommand true []

/-- Whether the index entry `e` points at a node queued in the level it names, as the entry
of a resting order does. An entry can outlive its order: `FlatMap::erase` misses an entry
that a wrapped backward shift has put behind its home slot. `cancel` and `modify` then follow
the entry's pointer into a slab slot that is free or holds another order. The list model of a
level does not describe that memory: its `LevelFIFO.erase` and `entryNode` give that case a
value only so that they are total, and `HyperliquidEngine.NodeMemory` follows what the code
does there instead. -/
def entryLinked (b : OrderBook L) (e : OrderEntry) : Bool :=
  ((level (b.side e.side) e.price).node? e.node).isSome

/-- `id_index_` finds for `id` no entry, or the entry of an order queued where the entry says. -/
def findsLinked (b : OrderBook L) (id : OrderId) : Bool := (b.idIndex.find id).all b.entryLinked

/-- The resting node an index entry points at; a pointer to no node of the level the entry
names reads as a zero node (see `entryLinked`), where the code reads the slot itself, free
or not (`NodeMemory.shrink_freed`). -/
def entryNode (b : OrderBook L) (e : OrderEntry) : OrderNode :=
  ((level (b.side e.side) e.price).node? e.node).getD ⟨e.node, 0, 0, 0, 0, 0⟩

/-- The entry point `modify(id, new_price, new_qty)` (order_book.h:218–298): shrink in place at the same
price, otherwise cancel and resubmit as a GTC limit order stamped with a clock reading.
The resubmitted command's `symbol_id` is left uninitialised by the source and read by no
one; the model sets it to `0`. -/
def modify (b : OrderBook L) (id : OrderId) (newPrice newQty : Int) : Exec L ExecResult :=
  match b.idIndex.find id with
  | none => ⟨⟨0, 0⟩, b, []⟩
  | some e =>
    let node := b.entryNode e
    if newPrice = e.price ∧ newQty < node.qty then
      let l := getLevel (b.side e.side) e.price
      let l := setLevel l e.price ((level l e.price).reduceQty e.node (node.qty - newQty))
      (b.setSide e.side l).endCommand ⟨0, newQty⟩ []
    else
      let c := { b with clock := b.clock.now.2 }.cancel id
      if c.ret = false then ⟨⟨0, 0⟩, c.book, c.events⟩
      else
        let r := c.book.submitLimit
          { type := .newOrder, recvTs := b.clock.now.1, orderId := id, symbolId := 0,
            userId := node.user, priceTicks := newPrice, qty := newQty, side := e.side,
            orderType := .limit, tif := .gtc, flags := node.flags }
        ⟨r.ret, r.book, c.events ++ r.events⟩

/-! ## Frame lemmas

Each operation writes one ladder, the pool, the index or the clock; these say what the
others read after it. -/

omit [PriceLevels L] in
@[simp] theorem side_setSide (b : OrderBook L) (s s' : Side) (l : L) :
    (b.setSide s l).side s' = if s' = s then l else b.side s' := rfl

omit [PriceLevels L] in
@[simp] theorem symbolId_setSide (b : OrderBook L) (s : Side) (l : L) :
    (b.setSide s l).symbolId = b.symbolId := rfl

omit [PriceLevels L] in
@[simp] theorem orderPool_setSide (b : OrderBook L) (s : Side) (l : L) :
    (b.setSide s l).orderPool = b.orderPool := rfl

omit [PriceLevels L] in
@[simp] theorem idIndex_setSide (b : OrderBook L) (s : Side) (l : L) :
    (b.setSide s l).idIndex = b.idIndex := rfl

omit [PriceLevels L] in
@[simp] theorem clock_setSide (b : OrderBook L) (s : Side) (l : L) :
    (b.setSide s l).clock = b.clock := rfl

@[simp] theorem refreshBestAfterDepletion_eq (b : OrderBook L) (s : Side) :
    b.refreshBestAfterDepletion s = b.setSide s (refreshBest (b.side s) s) := rfl

@[simp] theorem side_emitBookUpdate (b : OrderBook L) (s : Side) :
    b.emitBookUpdate.1.side s = (touchBest (b.side s) s).1 := rfl

@[simp] theorem symbolId_emitBookUpdate (b : OrderBook L) :
    b.emitBookUpdate.1.symbolId = b.symbolId := rfl

@[simp] theorem orderPool_emitBookUpdate (b : OrderBook L) :
    b.emitBookUpdate.1.orderPool = b.orderPool := rfl

@[simp] theorem idIndex_emitBookUpdate (b : OrderBook L) :
    b.emitBookUpdate.1.idIndex = b.idIndex := rfl

@[simp] theorem ret_endCommand {α : Type} (b : OrderBook L) (ret : α) (es : List BookEvent) :
    (b.endCommand ret es).ret = ret := rfl

@[simp] theorem book_endCommand {α : Type} (b : OrderBook L) (ret : α) (es : List BookEvent) :
    (b.endCommand ret es).book = b.emitBookUpdate.1 := rfl

@[simp] theorem events_endCommand {α : Type} (b : OrderBook L) (ret : α) (es : List BookEvent) :
    (b.endCommand ret es).events = es ++ [.bookUpdate b.emitBookUpdate.2] := rfl

@[simp] theorem side_rest (b : OrderBook L) (t : Side) (cmd : OrderCommand) (rem : Int) (s : Side) :
    (b.rest t cmd rem).side s =
      if s = t then
        enqueueAt (b.side t) t cmd.priceTicks
          ⟨(b.orderPool.alloc nodesPerSlab).1, cmd.orderId, cmd.userId, rem, cmd.recvTs, cmd.flags⟩
      else b.side s := rfl

theorem cancel_of_find_none {b : OrderBook L} {id : OrderId} (h : b.idIndex.find id = none) :
    b.cancel id = ⟨false, b, []⟩ := by
  simp [cancel, h]

theorem cancel_of_find {b : OrderBook L} {id : OrderId} {e : OrderEntry}
    (h : b.idIndex.find id = some e) :
    b.cancel id =
      ({ b.setSide e.side (eraseAt (b.side e.side) e.side e.price e.node) with
        orderPool := b.orderPool.free e.node
        idIndex := b.idIndex.erase id } : OrderBook L).endCommand true [] := by
  simp [cancel, h]

section Lawful

variable [LawfulPriceLevels L]

open LawfulPriceLevels

/-- The best-price repair moves the cached best of its side only. -/
@[simp] theorem level_refreshBest (l : L) (s : Side) : level (refreshBest l s) = level l := by
  simp only [refreshBest]; split <;> simp

@[simp] theorem isValidPrice_refreshBest (l : L) (s : Side) :
    isValidPrice (refreshBest l s) = isValidPrice l := by
  simp only [refreshBest]; split <;> simp

theorem best_refreshBest_of_ne (l : L) {s s' : Side} (h : s' ≠ s) :
    best (refreshBest l s) s' = best l s' := by
  simp only [refreshBest]; split
  · rfl
  · exact best_setBest_of_ne l _ h

theorem bestLevelPtr_refreshBest_of_ne (l : L) {s s' : Side} (h : s' ≠ s) :
    bestLevelPtr (refreshBest l s) s' = bestLevelPtr l s' := by
  simp only [refreshBest]; split
  · rfl
  · exact bestLevelPtr_setBest_of_ne l _ h

@[simp] theorem sideQty_refreshBest (l : L) (s : Side) : sideQty (refreshBest l s) = sideQty l :=
  sideQty_congr (level_refreshBest l s)

@[simp] theorem nonemptyCount_refreshBest (l : L) (s : Side) :
    nonemptyCount (refreshBest l s) = nonemptyCount l :=
  nonemptyCount_congr (level_refreshBest l s)

/-- Reading the top of a side for a book update changes nothing the book reads. -/
@[simp] theorem level_touchBest (l : L) (s : Side) : level (touchBest l s).1 = level l := by
  simp only [touchBest]; split <;> simp [funext_iff]

@[simp] theorem best_touchBest (l : L) (s s' : Side) : best (touchBest l s).1 s' = best l s' := by
  simp only [touchBest]; split <;> simp

@[simp] theorem bestLevelPtr_touchBest (l : L) (s : Side) :
    bestLevelPtr (touchBest l s).1 = bestLevelPtr l := by
  simp only [touchBest]; split <;> simp

@[simp] theorem isValidPrice_touchBest (l : L) (s : Side) :
    isValidPrice (touchBest l s).1 = isValidPrice l := by
  simp only [touchBest]; split <;> simp

@[simp] theorem sideQty_touchBest (l : L) (s : Side) : sideQty (touchBest l s).1 = sideQty l :=
  sideQty_congr (level_touchBest l s)

@[simp] theorem nonemptyCount_touchBest (l : L) (s : Side) :
    nonemptyCount (touchBest l s).1 = nonemptyCount l :=
  nonemptyCount_congr (level_touchBest l s)

/-- The rest path writes one level: the new node at the tail of the level at `px`. -/
theorem level_enqueueAt (l : L) (t : Side) {px : Int} (node : OrderNode)
    (h : isValidPrice l px) (qx : Int) :
    level (enqueueAt l t px node) qx = if qx = px then (level l px).enqueue node else level l qx := by
  have hv : isValidPrice (getLevel l px) px := by simpa using h
  have : level (enqueueAt l t px node) qx =
      level (setLevel (getLevel l px) px ((level (getLevel l px) px).enqueue node)) qx := by
    simp only [enqueueAt]; split <;> simp
  rw [this]
  split_ifs with hq
  · subst hq; simp [level_setLevel_self _ _ hv]
  · simp [level_setLevel_ne _ _ hq]

theorem sideQty_enqueueAt (l : L) (t : Side) {px : Int} (node : OrderNode)
    (h : isValidPrice l px) : sideQty (enqueueAt l t px node) = sideQty l + node.qty := by
  rw [sideQty_of_agree (l := l) px (fun qx hq => by simp [level_enqueueAt l t node h, hq]),
    level_enqueueAt l t node h, if_pos rfl, LevelFIFO.qtySum_enqueue]
  ring

/-- The cancel path writes one level: the level at `px` without the node at `addr`. -/
theorem level_eraseAt (l : L) (s : Side) (px : Int) (addr : Nat) (qx : Int) :
    level (eraseAt l s px addr) qx = if qx = px then (level l px).erase addr else level l qx := by
  have : level (eraseAt l s px addr) qx =
      level (setLevel (getLevel l px) px ((level (getLevel l px) px).erase addr)) qx := by
    simp only [eraseAt]; split <;> simp
  rw [this]
  split_ifs with hq
  · subst hq
    cases hn : (level l qx).node? addr with
    | none =>
      have := congrFun (level_setLevel_level (getLevel l qx) qx) qx
      simpa [LevelFIFO.erase, hn] using this
    | some n =>
      have hne : (level (getLevel l qx) qx).empty = false := by
        simpa [LevelFIFO.empty] using List.ne_nil_of_mem (List.mem_of_find?_eq_some hn)
      simp [level_setLevel_self_of_nonempty _ _ hne]
  · simp [level_setLevel_ne _ _ hq]

/-- Cancelling the node at `addr` takes its open quantity off the side, or nothing when the
level holds no such node. -/
theorem sideQty_eraseAt (l : L) (s : Side) (px : Int) (addr : Nat) :
    sideQty (eraseAt l s px addr) = sideQty l - (((level l px).node? addr).map (·.qty)).getD 0 := by
  rw [sideQty_of_agree (l := l) px (fun qx hq => by simp [level_eraseAt, hq]), level_eraseAt,
    if_pos rfl]
  cases hn : (level l px).node? addr with
  | none => simp [LevelFIFO.erase, hn]
  | some n => simp [LevelFIFO.qtySum_erase hn]

end Lawful

end OrderBook

end HyperliquidEngine
