import Mathlib.Tactic.Ring

/-!
# Core types (types.h, command.h)

The engine's scalar types, its enumerations and the records that cross the order book's
interface: `OrderCommand` in, `TradeEvent`, `BookUpdate` and `ExecResult` out.

- Prices (`Tick`) and quantities (`Quantity`) are `int64_t` in the source and `Int` here
  (written `Int` in every signature, so that `omega` sees them).
  Where the source can overflow (a level's running total, the FOK precheck's running sum)
  the model wraps explicitly with `wrapInt64`; `wrapInt64_of_mem` says the wrap is the
  identity on the `int64_t` range.
- Order, user and symbol identifiers and timestamps keep their fixed-width types.
- `Side.better` is the one price comparison the templated code uses in both directions:
  a higher bid, a lower ask. `Sentinel.empty` and `Side.away` are the per-side sentinel and
  the step away from the touch, so that every `IsBid` template of order_book.h is one
  definition with a `Side` parameter.
-/

namespace HyperliquidEngine

/-- Order identifiers, `OrderId` (`uint64_t`). -/
abbrev OrderId := UInt64

/-- User identifiers, `UserId` (`uint32_t`). -/
abbrev UserId := UInt32

/-- Symbol identifiers, `SymbolId` (`uint32_t`). -/
abbrev SymbolId := UInt32

/-- Timestamps in nanoseconds, `Timestamp` (`uint64_t`). -/
abbrev Timestamp := UInt64

/-! ## Two's-complement wrap of `int64_t` arithmetic -/

/-- The `int64_t` value of a mathematical integer: reduction into `[-2^63, 2^63)`. -/
def wrapInt64 (x : Int) : Int :=
  (x + 9223372036854775808) % 18446744073709551616 - 9223372036854775808

/-- The integers an `int64_t` holds, `[-2^63, 2^63)`. -/
def InInt64 (x : Int) : Prop := -9223372036854775808 ≤ x ∧ x < 9223372036854775808

instance (x : Int) : Decidable (InInt64 x) := inferInstanceAs (Decidable (_ ∧ _))

theorem wrapInt64_of_mem {x : Int} (h : InInt64 x) : wrapInt64 x = x := by
  unfold wrapInt64 InInt64 at *
  omega

theorem wrapInt64_mem (x : Int) : InInt64 (wrapInt64 x) := by
  unfold wrapInt64 InInt64
  omega

@[simp] theorem wrapInt64_wrapInt64 (x : Int) : wrapInt64 (wrapInt64 x) = wrapInt64 x :=
  wrapInt64_of_mem (wrapInt64_mem x)

theorem wrapInt64_add_wrap (x y : Int) : wrapInt64 (wrapInt64 x + y) = wrapInt64 (x + y) := by
  unfold wrapInt64
  omega

theorem wrapInt64_sub_wrap (x y : Int) : wrapInt64 (wrapInt64 x - y) = wrapInt64 (x - y) := by
  unfold wrapInt64
  omega

/-! ## Vectors as functions of the slot index -/

/-- A write of `v` to slot `i` of a vector held as a function of the slot index. -/
def writeSlot {α : Type} (f : Nat → α) (i : Nat) (v : α) : Nat → α :=
  fun j => if j = i then v else f j

@[simp] theorem writeSlot_apply {α : Type} (f : Nat → α) (i j : Nat) (v : α) :
    writeSlot f i v j = if j = i then v else f j := rfl

/-! ## Enumerations -/

/-- The two sides of the book, `Side`. -/
inductive Side where
  | bid
  | ask
  deriving DecidableEq, Repr, Inhabited

/-- Order kinds, `OrderType`. -/
inductive OrderType where
  | limit
  | market
  | stopLimit
  | stopMarket
  deriving DecidableEq, Repr, Inhabited

/-- Lifetimes of an order, `TimeInForce`. -/
inductive TimeInForce where
  | gtc
  | ioc
  | fok
  | gtd
  deriving DecidableEq, Repr, Inhabited

/-- Command kinds, `CommandType`. -/
inductive CommandType where
  | newOrder
  | cancelOrder
  | modifyOrder
  deriving DecidableEq, Repr, Inhabited

/-- The self-trade-prevention bit, `OrderFlags::STP`. -/
def OrderFlags.stp : UInt32 := (1 : UInt32) <<< 2

/-- The empty-bid sentinel `Sentinel::EMPTY_BID`, the minimum `int64_t` (`-2^63`). -/
def Sentinel.emptyBid : Int := -9223372036854775808

/-- The empty-ask sentinel `Sentinel::EMPTY_ASK`, the maximum `int64_t` (`2^63 - 1`). -/
def Sentinel.emptyAsk : Int := 9223372036854775807

/-- The sentinel that marks side `s` as empty. -/
def Sentinel.empty : Side → Int
  | .bid => Sentinel.emptyBid
  | .ask => Sentinel.emptyAsk

/-- The price band `PriceBand` (types.h:41–48). `tick_size` is read by no modelled function. -/
structure PriceBand where
  minTick : Int
  maxTick : Int
  deriving DecidableEq, Repr

/-! ## Sides as directions -/

namespace Side

/-- The other side. -/
def opposite : Side → Side
  | .bid => .ask
  | .ask => .bid

@[simp] theorem opposite_opposite (s : Side) : s.opposite.opposite = s := by cases s <;> rfl

/-- Aggressiveness: `better s a b` holds when, on side `s`, price `a` is strictly more
aggressive than `b` (a higher bid, a lower ask). -/
def better : Side → Int → Int → Bool
  | .bid, a, b => b < a
  | .ask, a, b => a < b

/-- Stepping away from the touch: `away s px i` is `i` ticks from `px` in the direction of
worse prices on side `s` (`current_best - i` for bids, `current_best + i` for asks). -/
def away : Side → Int → Nat → Int
  | .bid, px, i => px - i
  | .ask, px, i => px + i

@[simp] theorem better_bid (a b : Int) : better .bid a b = decide (b < a) := rfl
@[simp] theorem better_ask (a b : Int) : better .ask a b = decide (a < b) := rfl
@[simp] theorem away_bid (px : Int) (i : Nat) : away .bid px i = px - i := rfl
@[simp] theorem away_ask (px : Int) (i : Nat) : away .ask px i = px + i := rfl
@[simp] theorem away_zero (s : Side) (px : Int) : away s px 0 = px := by cases s <;> simp

@[simp] theorem away_away (s : Side) (px : Int) (i j : Nat) :
    away s (away s px i) j = away s px (i + j) := by
  cases s <;> simp <;> omega

@[simp] theorem opposite_bid : opposite .bid = .ask := rfl
@[simp] theorem opposite_ask : opposite .ask = .bid := rfl

@[simp] theorem opposite_ne (s : Side) : s.opposite ≠ s := by cases s <;> decide

@[simp] theorem ne_opposite (s : Side) : s ≠ s.opposite := by cases s <;> decide

theorem eq_or_eq_opposite (s t : Side) : s = t ∨ s = t.opposite := by
  cases s <;> cases t <;> simp

theorem better_irrefl (s : Side) (a : Int) : better s a a = false := by
  cases s <;> simp

theorem better_trans {s : Side} {a b c : Int} (h₁ : better s a b) (h₂ : better s b c) :
    better s a c := by
  cases s <;> simp at * <;> omega

theorem better_asymm {s : Side} {a b : Int} (h : better s a b) : better s b a = false := by
  cases s <;> simp at * <;> omega

/-- A price better than `b` is better than any price no better than `b`. -/
theorem better_of_better_of_not_better {s : Side} {a b c : Int} (h₁ : better s a b)
    (h₂ : better s c b = false) : better s a c := by
  cases s <;> simp at * <;> omega

theorem not_better_trans {s : Side} {a b c : Int} (h₁ : better s a b = false)
    (h₂ : better s b c = false) : better s a c = false := by
  cases s <;> simp at * <;> omega

theorem better_away {s : Side} (px : Int) {i : Nat} (h : 0 < i) :
    better s px (away s px i) := by
  cases s <;> simp <;> omega

end Side

@[simp] theorem Sentinel.empty_bid : Sentinel.empty .bid = Sentinel.emptyBid := rfl
@[simp] theorem Sentinel.empty_ask : Sentinel.empty .ask = Sentinel.emptyAsk := rfl


/-! ## Records -/

/-- An incoming command, `OrderCommand` (command.h:13–31). The matching engine reads no stop,
iceberg or expiry field; the JSON codec carries them, with their default member
initializers `{0}`. -/
structure OrderCommand where
  type : CommandType
  recvTs : Timestamp
  orderId : OrderId
  symbolId : SymbolId
  userId : UserId
  priceTicks : Int
  qty : Int
  side : Side
  orderType : OrderType
  tif : TimeInForce
  flags : UInt32
  stopPrice : Int := 0
  displayQty : Int := 0
  expiryTs : Timestamp := 0
  deriving DecidableEq, Repr

namespace OrderCommand

/-- A new order command, as a client sends one (received at time `0`). -/
def newOrder (id : OrderId) (user : UserId) (side : Side) (px qty : Int) (orderType : OrderType)
    (tif : TimeInForce) (flags : UInt32) : OrderCommand :=
  ⟨.newOrder, 0, id, 0, user, px, qty, side, orderType, tif, flags, 0, 0, 0⟩

/-- A cancel command for the order `id`. -/
def cancelOrder (id : OrderId) : OrderCommand :=
  ⟨.cancelOrder, 0, id, 0, 0, 0, 0, .bid, .limit, .gtc, 0, 0, 0, 0⟩

/-- A modify command for the order `id`, to price `px` and quantity `qty`. -/
def modifyOrder (id : OrderId) (px qty : Int) : OrderCommand :=
  ⟨.modifyOrder, 0, id, 0, 0, px, qty, .bid, .limit, .gtc, 0, 0, 0, 0⟩

end OrderCommand

/-- A trade, `TradeEvent` (command.h:33–46). -/
structure TradeEvent where
  ts : Timestamp
  takerId : OrderId
  makerId : OrderId
  symbolId : SymbolId
  priceTicks : Int
  qty : Int
  deriving DecidableEq, Repr

/-- A top-of-book update, `BookUpdate` (command.h:48–57). -/
structure BookUpdate where
  ts : Timestamp
  symbolId : SymbolId
  bestBid : Int
  bestAsk : Int
  bidQty : Int
  askQty : Int
  deriving DecidableEq, Repr

/-- The result of a submission, `ExecResult` (command.h:59–66). `accepted` is never set to `false` by the source and is
left out. -/
structure ExecResult where
  filled : Int
  remaining : Int
  deriving DecidableEq, Repr

end HyperliquidEngine
