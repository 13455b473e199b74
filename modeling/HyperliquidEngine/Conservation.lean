import HyperliquidEngine.Matching
import HyperliquidEngine.PriceLevelsArray
import HyperliquidEngine.PriceLevelsAVL

/-!
# Quantity conservation per command

From the loop invariants of `HyperliquidEngine.Matching`, every command moves resting
quantity by exactly what it trades, rests or removes:

- a submission's trades sum to its `filled`, which never exceeds its quantity; the maker
  side loses exactly `filled`; the taker's side gains the residual when a GTC or GTD limit
  order rests, and nothing otherwise (`SubmitAccount`);
- a cancel that succeeds takes exactly the open quantity of the node it removes off that
  node's side, and trades nothing;
- an in-place modify takes exactly `old qty - new qty` off its side.

`quantity_conserved` collects the three for both ladders. It holds in every state of the
book, reachable or not: the only assumption is a valid price for a limit order, where the
residual may rest.
-/

namespace HyperliquidEngine

open PriceLevels

namespace OrderBook

variable {L : Type} [PriceLevels L] [LawfulPriceLevels L]

/-- Quantity accounting of a submission `r` from `b` by a taker of side `t` for `qty`, whose
residual joins the taker's side when `rests`. -/
structure SubmitAccount (b : OrderBook L) (t : Side) (qty : Int) (rests : Bool)
    (r : Exec L ExecResult) : Prop where
  traded : tradedQty (tradesOf r.events) = r.ret.filled
  filled_le : r.ret.filled ≤ qty
  opposite : sideQty (r.book.side t.opposite) = sideQty (b.side t.opposite) - r.ret.filled
  own : sideQty (r.book.side t) = sideQty (b.side t) + if rests then qty - r.ret.filled else 0

theorem matchIfCrossing_account (b : OrderBook L) (t : Side) (cmd : OrderCommand)
    (hq : 0 ≤ cmd.qty) : LoopAccount t.opposite b cmd.qty 0 [] (b.matchIfCrossing t cmd) := by
  simp only [matchIfCrossing]
  split
  · exact matchLoop_account _ _ _ b cmd.qty 0 [] hq
  · exact .stop hq

/-- The time-in-force step turns the matching account into the submission's: a dropped
residual changes nothing, a resting one joins the taker's side at a valid price. -/
theorem settleLimit_account {b : OrderBook L} {t : Side} {cmd : OrderCommand}
    {m : OrderBook L × Int × List TradeEvent} (hm : LoopAccount t.opposite b cmd.qty 0 [] m)
    (hv : isValidPrice (b.side t) cmd.priceTicks) :
    SubmitAccount b t cmd.qty (cmd.tif = .gtc ∨ cmd.tif = .gtd) (settleLimit t cmd m) := by
  obtain ⟨h₁, ⟨ts, h₂, h₃⟩, h₄, h₅⟩ := hm
  obtain ⟨b₁, filled, trades⟩ := m
  simp only [Side.opposite_opposite, sub_zero, List.nil_append] at h₁ h₂ h₃ h₄ h₅
  subst h₂
  simp only [settleLimit]
  split_ifs with hioc hrest
  · refine ⟨by simpa using h₃, h₁, by simpa using h₄, ?_⟩
    rcases hioc.2 with h | h <;> simp [h, h₅]
  · refine ⟨by simpa using h₃, h₁, by simpa using h₄, ?_⟩
    have : cmd.tif = .gtc ∨ cmd.tif = .gtd := by
      cases h : cmd.tif <;> simp_all
    simp [h₅, sideQty_enqueueAt _ _ _ hv, this]
  · refine ⟨by simpa using h₃, h₁, by simpa using h₄, ?_⟩
    have : cmd.qty - filled = 0 := by omega
    simp [h₅, this]

/-- **A limit submission conserves quantity**, from every state, for every time in force. -/
theorem submitLimit_account (b : OrderBook L) (cmd : OrderCommand) (hq : 0 < cmd.qty)
    (hv : isValidPrice (b.side cmd.side) cmd.priceTicks) :
    SubmitAccount b cmd.side cmd.qty (cmd.tif = .gtc ∨ cmd.tif = .gtd) (b.submitLimit cmd) := by
  unfold submitLimit submitLimitSide
  split_ifs with hfok
  · refine ⟨by simp, by simp; omega, by simp, by simp [hfok.1]⟩
  · exact settleLimit_account (matchIfCrossing_account b _ cmd hq.le) hv

/-- **A market submission conserves quantity**: its residual never rests. -/
theorem submitMarket_account (b : OrderBook L) (cmd : OrderCommand) (hq : 0 < cmd.qty) :
    SubmitAccount b cmd.side cmd.qty false (b.submitMarket cmd) := by
  obtain ⟨h₁, ⟨ts, h₂, h₃⟩, h₄, h₅⟩ :=
    matchLoop_account (o := cmd.side.opposite) (Sentinel.empty cmd.side.opposite) (takerOf cmd)
      (nonemptyCount (b.side cmd.side.opposite) + 1) b cmd.qty 0 [] hq.le
  unfold submitMarket matchAgainstSide
  refine ⟨by simpa [h₂] using h₃, by simpa using h₁, by simpa using h₄, ?_⟩
  simpa using congrArg sideQty h₅

/-- **A successful cancel takes exactly the removed node's open quantity off its side**, the
other side keeps all its quantity, and no trade is emitted. -/
theorem cancel_account (b : OrderBook L) (id : OrderId) {e : OrderEntry}
    (h : b.idIndex.find id = some e) :
    sideQty ((b.cancel id).book.side e.side) = sideQty (b.side e.side) - (b.entryNode e).qty ∧
      sideQty ((b.cancel id).book.side e.side.opposite) = sideQty (b.side e.side.opposite) ∧
      tradesOf (b.cancel id).events = [] := by
  rw [cancel_of_find h]
  refine ⟨?_, by simp, by simp⟩
  simp only [book_endCommand, side_emitBookUpdate, sideQty_touchBest, side_setSide, if_pos,
    sideQty_eraseAt, entryNode]
  cases (level (b.side e.side) e.price).node? e.node <;> simp

/-- **An in-place modify takes exactly `old qty - new qty` off its side.** -/
theorem modify_account (b : OrderBook L) (id : OrderId) {e : OrderEntry}
    (h : b.idIndex.find id = some e) {newQty : Int} (h₀ : 0 ≤ newQty)
    (hlt : newQty < (b.entryNode e).qty) :
    sideQty ((b.modify id e.price newQty).book.side e.side) =
      sideQty (b.side e.side) - ((b.entryNode e).qty - newQty) := by
  obtain ⟨n, hn⟩ : ∃ n, (level (b.side e.side) e.price).node? e.node = some n := by
    cases hn : (level (b.side e.side) e.price).node? e.node with
    | none => simp [entryNode, hn] at hlt; omega
    | some n => exact ⟨n, rfl⟩
  have hne : (level (getLevel (b.side e.side) e.price) e.price).empty = false := by
    simpa [LevelFIFO.empty] using List.ne_nil_of_mem (List.mem_of_find?_eq_some hn)
  simp only [modify, h, hlt, and_true, if_true, book_endCommand, side_emitBookUpdate,
    sideQty_touchBest, side_setSide]
  rw [sideQty_setLevel_of_nonempty _ _ hne, sideQty_congr (l := b.side e.side) (by simp [funext_iff]),
    LevelFIFO.qtySum_reduceQty (by simpa using hn)]
  ring

/-- Quantity conservation from the state `b`: a new order of positive quantity (limit, of
any time in force, at a valid price, or market) emits trades summing to its `filled`, at
most its quantity; the opposite side loses exactly `filled`; the taker's side gains
`qty - filled` for a resting GTC or GTD limit order and nothing otherwise. A cancel that
returns `true` lowers its side by the cancelled order's open quantity and trades nothing;
an in-place modify lowers it by `old qty - new qty`. -/
def QuantityConserved {L : Type} [PriceLevels L] (b : OrderBook L) : Prop :=
  (∀ cmd : OrderCommand, 0 < cmd.qty →
    (cmd.orderType = .limit → isValidPrice (b.side cmd.side) cmd.priceTicks) →
    SubmitAccount b cmd.side cmd.qty
      (cmd.orderType = .limit ∧ (cmd.tif = .gtc ∨ cmd.tif = .gtd))
      (if cmd.orderType = .limit then b.submitLimit cmd else b.submitMarket cmd)) ∧
  (∀ id, (b.cancel id).ret = true → ∃ e, b.idIndex.find id = some e ∧
    sideQty ((b.cancel id).book.side e.side) = sideQty (b.side e.side) - (b.entryNode e).qty ∧
    tradesOf (b.cancel id).events = []) ∧
  (∀ id e newQty, b.idIndex.find id = some e → 0 ≤ newQty → newQty < (b.entryNode e).qty →
    sideQty ((b.modify id e.price newQty).book.side e.side) =
      sideQty (b.side e.side) - ((b.entryNode e).qty - newQty))

theorem quantityConserved_of_lawful (b : OrderBook L) : b.QuantityConserved := by
  refine ⟨fun cmd hq hv => ?_, fun id hc => ?_, fun id e _ h h₀ hlt => modify_account b id h h₀ hlt⟩
  · split_ifs with hl
    · simpa [hl] using submitLimit_account b cmd hq (hv hl)
    · simpa [hl] using submitMarket_account b cmd hq
  · cases h : b.idIndex.find id with
    | none => simp [cancel_of_find_none h] at hc
    | some e => exact ⟨e, rfl, (cancel_account b id h).1, (cancel_account b id h).2.2⟩

/-- **Quantity is conserved by every command**, from every state of a book on either ladder. -/
theorem quantity_conserved :
    (∀ b : OrderBook PriceLevelsArray, b.QuantityConserved) ∧
      ∀ b : OrderBook PriceLevelsAVL, b.QuantityConserved :=
  ⟨quantityConserved_of_lawful, quantityConserved_of_lawful⟩

end OrderBook

end HyperliquidEngine
