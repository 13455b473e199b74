import HyperliquidEngine.Engine
import HyperliquidEngine.PriceLevelsArray

/-!
# The events of a command

What the two callbacks receive for each operation, in order. Every path that changes the
book ends in `endCommand`, which emits one book update after the command's trades, so:

- `submit_limit` (of any time in force, including an FOK the precheck kills) and
  `submit_market` emit their trades, then one book update;
- `cancel` and `modify` of an id the index does not find emit nothing;
- a found `cancel` and an in-place `modify` emit one book update;
- a cancel-and-replace `modify` emits the cancel's book update, then the resubmission's
  trades and book update: two updates, the first before the trades.

`events_shape` states this for every state and command; `updateCount_counterexample` runs
the two exceptions to "one update per command" on the engine's own ladder.
-/

namespace HyperliquidEngine

open PriceLevels

namespace BookEvent

/-- Whether an event is a book update. -/
def isBookUpdate : BookEvent → Bool
  | .trade _ => false
  | .bookUpdate _ => true

end BookEvent

/-- The number of book updates among a list of events. -/
def updateCount (es : List BookEvent) : Nat := (es.filter BookEvent.isBookUpdate).length

/-- The events of a command that ends normally: its trades, then one book update. -/
def TradesThenUpdate (es : List BookEvent) : Prop :=
  ∃ (ts : List TradeEvent) (u : BookUpdate), es = ts.map .trade ++ [.bookUpdate u]

theorem updateCount_tradesThenUpdate {es : List BookEvent} (h : TradesThenUpdate es) :
    updateCount es = 1 := by
  obtain ⟨ts, u, rfl⟩ := h
  simp [updateCount, List.filter_map, Function.comp_def, BookEvent.isBookUpdate]

namespace OrderBook

variable {L : Type} [PriceLevels L]

theorem tradesThenUpdate_endCommand {α : Type} (b : OrderBook L) (ret : α) (ts : List TradeEvent) :
    TradesThenUpdate (b.endCommand ret (ts.map .trade)).events :=
  ⟨ts, _, rfl⟩

theorem submitLimit_events (b : OrderBook L) (cmd : OrderCommand) :
    TradesThenUpdate (b.submitLimit cmd).events := by
  simp only [submitLimit, submitLimitSide, settleLimit]
  split_ifs
  · exact tradesThenUpdate_endCommand b _ []
  all_goals exact tradesThenUpdate_endCommand _ _ _

theorem submitMarket_events (b : OrderBook L) (cmd : OrderCommand) :
    TradesThenUpdate (b.submitMarket cmd).events :=
  tradesThenUpdate_endCommand _ _ _

theorem cancel_events (b : OrderBook L) (id : OrderId) :
    (b.idIndex.find id = none → (b.cancel id).events = []) ∧
      ∀ e, b.idIndex.find id = some e → ∃ u, (b.cancel id).events = [.bookUpdate u] :=
  ⟨fun h => by simp [cancel_of_find_none h], fun e h => by rw [cancel_of_find h]; exact ⟨_, rfl⟩⟩

theorem modify_events (b : OrderBook L) (id : OrderId) (newPrice newQty : Int) :
    (b.idIndex.find id = none → (b.modify id newPrice newQty).events = []) ∧
    ∀ e, b.idIndex.find id = some e →
      (newPrice = e.price ∧ newQty < (b.entryNode e).qty →
        ∃ u, (b.modify id newPrice newQty).events = [.bookUpdate u]) ∧
      (¬(newPrice = e.price ∧ newQty < (b.entryNode e).qty) →
        ∃ (u : BookUpdate) (ts : List TradeEvent) (u' : BookUpdate),
          (b.modify id newPrice newQty).events =
            .bookUpdate u :: (ts.map .trade ++ [.bookUpdate u'])) := by
  refine ⟨fun h => by simp [modify, h], fun e h => ⟨fun hin => ?_, fun hout => ?_⟩⟩
  · simp only [modify, h, hin, and_self, if_true]
    exact ⟨_, rfl⟩
  · -- the cancel inside finds the same entry, since the clock read leaves the index alone
    have hc : ({ b with clock := b.clock.now.2 } : OrderBook L).idIndex.find id = some e := h
    obtain ⟨ts, u', hr⟩ := submitLimit_events
      (({ b with clock := b.clock.now.2 } : OrderBook L).cancel id).book
      { type := .newOrder, recvTs := b.clock.now.1, orderId := id, symbolId := 0,
        userId := (b.entryNode e).user, priceTicks := newPrice, qty := newQty, side := e.side,
        orderType := .limit, tif := .gtc, flags := (b.entryNode e).flags }
    rw [cancel_of_find hc] at hr
    simp only [modify, h, hout, if_false, cancel_of_find hc, ret_endCommand, events_endCommand,
      List.nil_append, Bool.true_eq_false, hr]
    exact ⟨_, ts, u', rfl⟩

/-- **The book updates of a command**, for every state and command: `submit_limit` of any
time in force (an FOK killed by the precheck included) and `submit_market` emit their
trades, then exactly one book update. `cancel` and `modify` of an id the index does not
find emit nothing. A found `cancel` and an in-place `modify` emit exactly one book update.
A cancel-and-replace `modify` emits a book update, the resubmission's trades, and a second
book update. -/
theorem events_shape (b : OrderBook L) :
    (∀ cmd, TradesThenUpdate (b.submitLimit cmd).events) ∧
    (∀ cmd, TradesThenUpdate (b.submitMarket cmd).events) ∧
    (∀ id, (b.idIndex.find id = none → (b.cancel id).events = []) ∧
      ∀ e, b.idIndex.find id = some e → ∃ u, (b.cancel id).events = [.bookUpdate u]) ∧
    ∀ id newPrice newQty,
      (b.idIndex.find id = none → (b.modify id newPrice newQty).events = []) ∧
      ∀ e, b.idIndex.find id = some e →
        (newPrice = e.price ∧ newQty < (b.entryNode e).qty →
          ∃ u, (b.modify id newPrice newQty).events = [.bookUpdate u]) ∧
        (¬(newPrice = e.price ∧ newQty < (b.entryNode e).qty) →
          ∃ (u : BookUpdate) (ts : List TradeEvent) (u' : BookUpdate),
            (b.modify id newPrice newQty).events =
              .bookUpdate u :: (ts.map .trade ++ [.bookUpdate u'])) :=
  ⟨submitLimit_events b, submitMarket_events b, cancel_events b, modify_events b⟩

end OrderBook

/-- On the engine's book over the band `[100, 200]`: a cancel of an id never submitted, from
the empty book, emits no book update; a modify that moves a resting order to another price
emits two. -/
theorem updateCount_counterexample :
    updateCount ((MatchingEngine.book 1 ⟨100, 200⟩ Clock.ticks).cancel 7).events = 0 ∧
      updateCount
        (((MatchingEngine.book 1 ⟨100, 200⟩ Clock.ticks).submitLimit
          (.newOrder 1 1 .bid 150 10 .limit .gtc 0)).book.modify 1 151 10).events = 2 := by
  decide

end HyperliquidEngine
