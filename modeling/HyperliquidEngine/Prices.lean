import HyperliquidEngine.BestPrice

/-!
# Prices at the entry points: limits, sentinels and the band

`MatchingEngine::run` sends a new `Limit` order to `submit_limit` and every other new order
to `submit_market` (matching_engine.cpp:39–46). This module says what the two entry points
do with the prices they are given.

- `matchLoop_trades_within`: the level walk trades only at best prices its limit reaches,
  so a limit order trades at its limit or better, in every state
  (`limitOrder_trades_within_limit`).
- A `StopLimit` order is not a `Limit` order for the dispatch: it goes to `submit_market`,
  which walks to the opposite sentinel whatever the command's price
  (`stopLimit_trades_through_limit`).
- `market_eq_ioc_at_sentinel`: `submit_market` is `submit_limit` of an IOC order priced at
  the opposite sentinel, in its trades and in the book it leaves, but not in its result: the
  IOC path reports `remaining = 0` for the residual it drops, where `submit_market` reports
  `qty - filled` (`marketResult_counterexample`).
- The rest path of `submit_limit_side` (order_book.h:372–399) calls `get_level` on the
  order's price without checking `is_valid_price`: a GTC residual at a price outside the
  dense ladder's band rests there, indexed at that price and raising the cached best to it
  (`outOfBand_order_rests`), while the ladder's own levels do not hold it
  (`outOfBand_rest_keeps_sideQty`).
-/

namespace HyperliquidEngine

open PriceLevels

namespace OrderBook

variable {L : Type} [PriceLevels L]

/-! ### The prices of trades -/

section Prices

variable (symbolId : SymbolId) (t : Taker) (px : Int)

/-- The maker loop at price `px` trades at `px` only, under the symbol it is given. -/
theorem matchLevel_trades_at (ns : List OrderNode) (f : Fill) :
    ∀ tr ∈ (matchLevel symbolId t px ns f).2.trades,
      tr ∈ f.trades ∨ tr.symbolId = symbolId ∧ tr.priceTicks = px := by
  induction ns generalizing f with
  | nil => exact fun _ h => .inl h
  | cons m ms ih =>
    simp only [matchLevel]
    split_ifs
    · exact fun tr h => .inl h
    · exact ih f
    all_goals
      intro tr htr
      rcases ih _ tr htr with h | h
      · simp only [List.mem_append, List.mem_singleton] at h
        rcases h with h | rfl
        exacts [.inl h, .inr ⟨rfl, rfl⟩]
      · exact .inr h

variable (o : Side) (limit : Int)

/-- **The level walk trades only at prices its limit reaches**: a best price beyond the
limit stops the walk before any trade there (order_book.h:420–429). Its trades carry the
book's symbol. -/
theorem matchLoop_trades_within : ∀ (n : Nat) (b : OrderBook L) (qty filled : Int)
    (trades : List TradeEvent), ∀ tr ∈ (matchLoop o limit t n b qty filled trades).2.2,
      tr ∈ trades ∨ tr.symbolId = b.symbolId ∧ o.better limit tr.priceTicks = false
  | 0, _, _, _, _ => fun _ h => .inl h
  | n + 1, b, qty, filled, trades => by
    by_cases hq₀ : qty ≤ 0
    · intro tr htr
      simp only [matchLoop, hq₀, if_true] at htr
      exact .inl htr
    simp only [matchLoop, hq₀, if_false]
    split
    · exact fun _ h => .inl h
    next lp _ =>
    have hl := matchLevel_trades_at b.symbolId t (best (b.side o) o) (level (b.side o) lp).nodes
      ⟨qty, filled, (level (b.side o) lp).totalQty, b.idIndex, b.orderPool, trades⟩
    split_ifs with hemp hcross
    · exact fun _ h => .inl h
    · exact fun _ h => .inl h
    all_goals
      -- every trade of the level is at its best price, which the limit reaches
      have hat : ∀ tr : TradeEvent, tr.symbolId = b.symbolId ∧ tr.priceTicks = best (b.side o) o →
          tr.symbolId = b.symbolId ∧ o.better limit tr.priceTicks = false :=
        fun tr h => ⟨h.1, by rw [h.2]; exact Bool.eq_false_iff.2 hcross⟩
    · intro tr htr
      rcases matchLoop_trades_within n _ _ _ _ tr htr with h | h
      · exact (hl tr h).imp id (hat tr)
      · exact .inr h
    · exact fun tr htr => (hl tr htr).imp id (hat tr)

end Prices

/-- A limit submission trades at its limit or better: `better` of the opposite side never
prefers the limit to a trade's price. -/
theorem submitLimit_trades_within (b : OrderBook L) (cmd : OrderCommand) :
    ∀ tr ∈ tradesOf (b.submitLimit cmd).events,
      cmd.side.opposite.better cmd.priceTicks tr.priceTicks = false := by
  have hm : ∀ tr ∈ (b.matchIfCrossing cmd.side cmd).2.2,
      cmd.side.opposite.better cmd.priceTicks tr.priceTicks = false := by
    simp only [matchIfCrossing]
    split
    · exact fun tr htr => ((matchLoop_trades_within (takerOf cmd) cmd.side.opposite cmd.priceTicks
        _ b cmd.qty 0 [] tr htr).resolve_left (List.not_mem_nil tr)).2
    · simp
  simp only [submitLimit, submitLimitSide, settleLimit]
  split_ifs
  · simp
  all_goals simpa using hm

end OrderBook

namespace MatchingEngine

variable {L : Type} [PriceLevels L]

open OrderBook

/-- **A limit order respects its limit**: in every state, every trade of a new `Limit`
order is at or below its price for a bid and at or above it for an ask. -/
theorem limitOrder_trades_within_limit (b : OrderBook L) (cmd : OrderCommand)
    (ht : cmd.type = .newOrder) (hl : cmd.orderType = .limit) :
    ∀ tr ∈ tradesOf (processCommand b cmd).2,
      (cmd.side = .bid → tr.priceTicks ≤ cmd.priceTicks) ∧
        (cmd.side = .ask → cmd.priceTicks ≤ tr.priceTicks) := by
  intro tr htr
  have h := submitLimit_trades_within b cmd tr (by simpa [processCommand, ht, hl] using htr)
  cases hs : cmd.side <;> simp_all

end MatchingEngine

open MatchingEngine

/-- After an ask of `10` at `150` (order `1`), a `StopLimit` bid of `5` at `100` (order `2`)
is dispatched to `submit_market` and buys at `150`, above its limit of `100`. -/
theorem stopLimit_trades_through_limit :
    tradesOf (processCommand (run (book 1 ⟨100, 200⟩ Clock.ticks)
        [.newOrder 1 1 .ask 150 10 .limit .gtc 0]).1 (.newOrder 2 2 .bid 100 5 .stopLimit .gtc 0)).2 =
      [⟨0, 2, 1, 1, 150, 5⟩] := by
  decide

/-! ### Market orders against IOC orders -/

namespace OrderBook

variable {L : Type} [PriceLevels L]

/-- The IOC limit order the spec compares a market order with: the same command with time in
force IOC and the opposite side's sentinel as its price. -/
def iocAtSentinel (cmd : OrderCommand) : OrderCommand :=
  { cmd with tif := .ioc, priceTicks := Sentinel.empty cmd.side.opposite }

/-- At the sentinel price the crossing test of `submit_limit_side` walks exactly when
`submit_market` would trade: on an empty opposite side both find nothing. -/
theorem matchIfCrossing_iocAtSentinel {b : OrderBook L} {cmd : OrderCommand}
    (hs : CacheSound (b.side cmd.side.opposite) cmd.side.opposite) :
    b.matchIfCrossing cmd.side (iocAtSentinel cmd) =
      b.matchAgainstSide cmd.side.opposite cmd.qty (Sentinel.empty cmd.side.opposite) (takerOf cmd) := by
  simp only [matchIfCrossing]
  split_ifs with hc
  · rfl
  · -- the opposite cached best is the sentinel, so its pointer is null
    have he : best (b.side cmd.side.opposite) cmd.side.opposite = Sentinel.empty cmd.side.opposite := by
      by_contra hne
      exact hc ⟨hne, hs.not_beyond⟩
    have hptr : bestLevelPtr (b.side cmd.side.opposite) cmd.side.opposite = none := by
      rw [hs.ptr_eq, if_pos he]
    simp [matchAgainstSide, matchLoop, hptr]

end OrderBook

open OrderBook

variable {L : Type} [PriceLevels L]

/-- **A market order trades as an IOC order at the opposite sentinel**, on every book whose
opposite cache is sound (every reachable book's is, `cachedBest_sound`): the same trades and
book updates, the same book after, the same `filled`. The results differ exactly when the
order is not filled: `submit_market` reports `qty - filled` as remaining, the IOC path `0`. -/
theorem market_eq_ioc_at_sentinel (b : OrderBook L) (cmd : OrderCommand)
    (hs : CacheSound (b.side cmd.side.opposite) cmd.side.opposite) :
    (b.submitLimit (iocAtSentinel cmd)).book = (b.submitMarket cmd).book ∧
      (b.submitLimit (iocAtSentinel cmd)).events = (b.submitMarket cmd).events ∧
      (b.submitLimit (iocAtSentinel cmd)).ret =
        if (b.submitMarket cmd).ret.filled < cmd.qty then ⟨(b.submitMarket cmd).ret.filled, 0⟩
        else (b.submitMarket cmd).ret := by
  have hm := matchIfCrossing_iocAtSentinel hs
  simp only [submitLimit, submitLimitSide, submitMarket, settleLimit]
  rw [if_neg (by simp [iocAtSentinel]), show (iocAtSentinel cmd).side = cmd.side from rfl, hm]
  generalize b.matchAgainstSide cmd.side.opposite cmd.qty (Sentinel.empty cmd.side.opposite)
    (takerOf cmd) = m
  by_cases hf : m.2.1 < cmd.qty
  · simp [iocAtSentinel, hf, sub_pos.2 hf]
  · have : ¬0 < cmd.qty - m.2.1 := by omega
    simp [iocAtSentinel, hf, this]

/-- After an ask of `10` at `150`, a market buy of `5` and the IOC buy of `5` at `EMPTY_ASK`
leave the same book. -/
example :
    ((run (book 1 ⟨100, 200⟩ Clock.ticks) [.newOrder 1 1 .ask 150 10 .limit .gtc 0]).1.submitLimit
        (iocAtSentinel (.newOrder 2 2 .bid 0 5 .market .gtc 0))).book =
      ((run (book 1 ⟨100, 200⟩ Clock.ticks) [.newOrder 1 1 .ask 150 10 .limit .gtc 0]).1.submitMarket
        (.newOrder 2 2 .bid 0 5 .market .gtc 0)).book :=
  (market_eq_ioc_at_sentinel _ _ (bookSound_run (bookSound_new_array 1 ⟨100, 200⟩ ⟨100, 200⟩ Clock.ticks)
    (by decide : ValidRun (book 1 ⟨100, 200⟩ Clock.ticks) [] [.newOrder 1 1 .ask 150 10 .limit .gtc 0])
    .ask)).1

/-- On the same empty book, the market buy of `5` returns `{0, 5}` and the IOC buy at
`EMPTY_ASK` returns `{0, 0}`. -/
theorem marketResult_counterexample :
    ((book 1 ⟨100, 200⟩ Clock.ticks).submitMarket (.newOrder 1 1 .bid 0 5 .market .gtc 0)).ret = ⟨0, 5⟩ ∧
      ((book 1 ⟨100, 200⟩ Clock.ticks).submitLimit
        (iocAtSentinel (.newOrder 1 1 .bid 0 5 .market .gtc 0))).ret = ⟨0, 0⟩ := by
  decide

/-- On the engine's empty book over `[100, 200]`, a GTC bid of `10` at `250`, outside the
band, crosses nothing and takes the rest path: `submit_limit` returns `{0, 10}`, the index
holds the order at price `250` and the cached best bid is `250`. -/
theorem outOfBand_order_rests :
    isValidPrice ((book 1 ⟨100, 200⟩ Clock.ticks).side .bid) 250 = false ∧
      ((book 1 ⟨100, 200⟩ Clock.ticks).submitLimit (.newOrder 1 1 .bid 250 10 .limit .gtc 0)).ret =
        ⟨0, 10⟩ ∧
      ((((book 1 ⟨100, 200⟩ Clock.ticks).submitLimit
        (.newOrder 1 1 .bid 250 10 .limit .gtc 0)).book.idIndex.find 1).map (·.price)) = some 250 ∧
      best (((book 1 ⟨100, 200⟩ Clock.ticks).submitLimit
        (.newOrder 1 1 .bid 250 10 .limit .gtc 0)).book.side .bid) .bid = 250 := by
  decide

/-- The same GTC bid reports a residual of `10` that rests, yet the bid side's open quantity
over its levels stays `0`: the node was queued at a level outside the ladder. -/
theorem outOfBand_rest_keeps_sideQty :
    ((book 1 ⟨100, 200⟩ Clock.ticks).submitLimit (.newOrder 1 1 .bid 250 10 .limit .gtc 0)).ret =
        ⟨0, 10⟩ ∧
      sideQty (((book 1 ⟨100, 200⟩ Clock.ticks).submitLimit
        (.newOrder 1 1 .bid 250 10 .limit .gtc 0)).book.side .bid) =
        sideQty ((book 1 ⟨100, 200⟩ Clock.ticks).side .bid) := by
  decide

end HyperliquidEngine
