import HyperliquidEngine.OrderBook

/-!
# Matching: what `match_against_side` does to quantities

`match_against_side` walks the maker side level by level (`matchLoop`) and, within a level,
maker by maker (`matchLevel`). Every unit the taker fills is one unit of the trades it emits
and one unit the makers lose:

- `matchLevel_account`: over one level, the taker's `qty + total_filled` is constant, the
  new trades sum to the fill, and the level's open quantity drops by the fill;
- `matchLoop_account`: over the whole walk, the maker side's resting quantity (`sideQty`)
  drops by the fill, the trades sum to it, it never exceeds the taker's quantity, and the
  taker's own side is untouched;
- `matchLevel_nonstp`: without self-trade prevention a level is left non-empty only once
  the taker is filled.

These are the loop invariants of the walk; the per-command statements are assembled from
them in `HyperliquidEngine.Conservation`.
-/

namespace HyperliquidEngine

open PriceLevels

/-- The total quantity of a list of trades. -/
def tradedQty (ts : List TradeEvent) : Int := (ts.map (·.qty)).sum

/-- The open quantity of a list of resting nodes. -/
def openQty (ns : List OrderNode) : Int := (ns.map (·.qty)).sum

@[simp] theorem tradedQty_nil : tradedQty [] = 0 := rfl

@[simp] theorem tradedQty_cons (t : TradeEvent) (ts : List TradeEvent) :
    tradedQty (t :: ts) = t.qty + tradedQty ts := by simp [tradedQty]

@[simp] theorem tradedQty_append (ts us : List TradeEvent) :
    tradedQty (ts ++ us) = tradedQty ts + tradedQty us := by simp [tradedQty]

@[simp] theorem openQty_nil : openQty [] = 0 := rfl

@[simp] theorem openQty_cons (n : OrderNode) (ns : List OrderNode) :
    openQty (n :: ns) = n.qty + openQty ns := by simp [openQty]

theorem LevelFIFO.qtySum_eq_openQty (l : LevelFIFO) : l.qtySum = openQty l.nodes := rfl

namespace OrderBook

/-! ### One level -/

/-- The accounting of the maker loop over one level, from the loop state `f` on the makers
`ns` to the result `r` (the makers left, the loop state after). -/
structure LevelAccount (ns : List OrderNode) (f : Fill) (r : List OrderNode × Fill) : Prop where
  qty_add_filled : r.2.qty + r.2.filled = f.qty + f.filled
  qty_nonneg : 0 ≤ f.qty → 0 ≤ r.2.qty
  trades : ∃ ts, r.2.trades = f.trades ++ ts ∧ tradedQty ts = r.2.filled - f.filled
  openQty_eq : openQty r.1 = openQty ns - (r.2.filled - f.filled)

theorem LevelAccount.stop (ns : List OrderNode) (f : Fill) : LevelAccount ns f (ns, f) :=
  ⟨rfl, id, ⟨[], by simp, by simp⟩, by simp⟩

/-- A maker skipped by self-trade prevention stays, and the rest of the level accounts as
before. -/
theorem LevelAccount.skip {m : OrderNode} {ms : List OrderNode} {f : Fill}
    {r : List OrderNode × Fill} (h : LevelAccount ms f r) : LevelAccount (m :: ms) f (m :: r.1, r.2) :=
  ⟨h.1, h.2, h.3, by simp only [openQty_cons, h.4]; ring⟩

/-- One trade of `q` with maker `m`, after which the maker leaves the level (`m.qty = q`) or
stays with `m.qty - q`, followed by the rest of the level. -/
theorem LevelAccount.trade {m : OrderNode} {ms : List OrderNode} {f f' : Fill} {q : Int}
    {tr : TradeEvent} {r : List OrderNode × Fill} (h : LevelAccount ms f' r)
    (hq : f'.qty = f.qty - q) (hf : f'.filled = f.filled + q) (ht : f'.trades = f.trades ++ [tr])
    (htq : tr.qty = q) (hle : q ≤ f.qty) {kept : List OrderNode}
    (hkept : openQty kept = m.qty - q + openQty r.1) : LevelAccount (m :: ms) f (kept, r.2) := by
  obtain ⟨h₁, h₂, ⟨ts, h₃, h₄⟩, h₅⟩ := h
  refine ⟨?_, fun _ => h₂ (by omega), ⟨tr :: ts, by simp [h₃, ht], by simp; omega⟩, ?_⟩ <;>
    dsimp only
  · omega
  · simp only [openQty_cons, hkept, h₅]
    omega

section MatchLevel

variable (symbolId : SymbolId) (t : Taker) (px : Int)

/-- **The maker loop conserves quantity** (order_book.h:432–469): each maker trades
`min(qty, maker->qty)`, which leaves the taker and is taken off the maker, or off the level
with the maker when it is filled. -/
theorem matchLevel_account (ns : List OrderNode) (f : Fill) :
    LevelAccount ns f (matchLevel symbolId t px ns f) := by
  induction ns generalizing f with
  | nil => exact LevelAccount.stop [] f
  | cons m ms ih =>
    simp only [matchLevel]
    split_ifs with hq hs hfull
    · exact LevelAccount.stop _ f
    · exact (ih f).skip
    · -- the maker is filled and leaves the level: `m.qty = min qty m.qty`
      exact (ih _).trade rfl rfl rfl rfl (min_le_left _ _) (by simp; omega)
    · -- the taker is filled and the maker stays with `m.qty - min qty m.qty`
      exact (ih _).trade rfl rfl rfl rfl (min_le_left _ _) (by simp)

/-- A taker with nothing left to fill trades with no one. -/
theorem matchLevel_of_qty_nonpos (ns : List OrderNode) {f : Fill} (h : f.qty ≤ 0) :
    matchLevel symbolId t px ns f = (ns, f) := by
  cases ns with
  | nil => rfl
  | cons m ms => simp [matchLevel, h]

/-- Without self-trade prevention the maker loop stops early only when the taker is filled:
either no maker is left or the taker's quantity is used up. -/
theorem matchLevel_nonstp (ht : t.stp = false) (ns : List OrderNode) (f : Fill) :
    (matchLevel symbolId t px ns f).1 = [] ∨ (matchLevel symbolId t px ns f).2.qty ≤ 0 := by
  induction ns generalizing f with
  | nil => exact .inl rfl
  | cons m ms ih =>
    simp only [matchLevel]
    split_ifs with hq hs hfull
    · exact .inr hq
    · simp [ht] at hs
    · exact ih _
    · -- the maker outlives the trade, so the taker's quantity is used up
      rw [matchLevel_of_qty_nonpos _ _ _ _ (by simp only; omega)]
      exact .inr (by simp only; omega)

end MatchLevel

/-! ### The level walk -/

section MatchLoop

variable {L : Type} [PriceLevels L] [LawfulPriceLevels L] (o : Side)

/-- The accounting of the level walk against side `o`, from the loop state
`(b, qty, filled, trades)` to its result `r` (the book, `total_filled`, the trades). -/
structure LoopAccount (b : OrderBook L) (qty filled : Int) (trades : List TradeEvent)
    (r : OrderBook L × Int × List TradeEvent) : Prop where
  filled_le : r.2.1 - filled ≤ qty
  trades_eq : ∃ ts, r.2.2 = trades ++ ts ∧ tradedQty ts = r.2.1 - filled
  sideQty_eq : sideQty (r.1.side o) = sideQty (b.side o) - (r.2.1 - filled)
  opposite_eq : r.1.side o.opposite = b.side o.opposite

variable {o}

omit [LawfulPriceLevels L] in
theorem LoopAccount.stop {b : OrderBook L} {qty filled : Int} {trades : List TradeEvent}
    (hq : 0 ≤ qty) : LoopAccount o b qty filled trades (b, filled, trades) :=
  ⟨by simpa, ⟨[], by simp, by simp⟩, by simp, rfl⟩

omit [LawfulPriceLevels L] in
/-- One pass over a level from `(b, qty, filled, trades)` to `(b', qty', filled', trades')`,
followed by the rest of the walk. -/
theorem LoopAccount.pass {b b' : OrderBook L} {qty filled qty' filled' : Int}
    {trades trades' : List TradeEvent} {r : OrderBook L × Int × List TradeEvent}
    (h : LoopAccount o b' qty' filled' trades' r) (hq : qty' + filled' = qty + filled)
    (ht : ∃ ts, trades' = trades ++ ts ∧ tradedQty ts = filled' - filled)
    (hs : sideQty (b'.side o) = sideQty (b.side o) - (filled' - filled))
    (ho : b'.side o.opposite = b.side o.opposite) : LoopAccount o b qty filled trades r := by
  obtain ⟨h₁, ⟨ts', h₂, h₃⟩, h₄, h₅⟩ := h
  obtain ⟨ts, rfl, h₆⟩ := ht
  refine ⟨by omega, ⟨ts ++ ts', by simp [h₂], by simp; omega⟩, by rw [h₄, hs]; ring, h₅.trans ho⟩

/-- **The level walk conserves quantity** (order_book.h:413–477): the trades sum to the
fill, the fill never exceeds the taker's quantity, the maker side loses exactly the fill and
the taker's side is untouched. -/
theorem matchLoop_account (limit : Int) (t : Taker) (n : Nat) (b : OrderBook L)
    (qty filled : Int) (trades : List TradeEvent) (hq : 0 ≤ qty) :
    LoopAccount o b qty filled trades (matchLoop o limit t n b qty filled trades) := by
  induction n generalizing b qty filled trades with
  | zero => exact .stop hq
  | succ n ih =>
    by_cases hq₀ : qty ≤ 0
    · simpa [matchLoop, hq₀] using .stop hq
    simp only [matchLoop, hq₀, if_false]
    split
    · exact .stop hq
    next lp _ =>
    split_ifs with hemp hcross hkept
    · exact .stop hq
    · exact .stop hq
    all_goals
      set r := matchLevel b.symbolId t (best (b.side o) o) (level (b.side o) lp).nodes
        ⟨qty, filled, (level (b.side o) lp).totalQty, b.idIndex, b.orderPool, trades⟩
      have A : LevelAccount _ _ r := matchLevel_account _ _ _ _ _
      have hs : sideQty (setLevel (b.side o) lp ⟨r.1, r.2.totalQty⟩) =
          sideQty (b.side o) - (r.2.filled - filled) := by
        rw [sideQty_setLevel_of_nonempty _ _ (by simpa using hemp), LevelFIFO.qtySum_eq_openQty,
          LevelFIFO.qtySum_eq_openQty, A.openQty_eq]
        ring
    · -- the level is depleted: repair the best price and walk on
      refine (ih _ _ _ _ (A.qty_nonneg hq)).pass A.qty_add_filled A.trades ?_ ?_
      · simpa using hs
      · simp [bestLevelPtr_refreshBest_of_ne]
    · -- makers remain at the level: the walk stops
      exact (LoopAccount.stop (A.qty_nonneg hq)).pass A.qty_add_filled A.trades
        (by simpa using hs) (by simp)

omit [LawfulPriceLevels L] in
/-- The walk against side `o` leaves the taker's side alone. -/
theorem matchLoop_side_opposite (limit : Int) (t : Taker) (n : Nat) (b : OrderBook L)
    (qty filled : Int) (trades : List TradeEvent) :
    (matchLoop o limit t n b qty filled trades).1.side o.opposite = b.side o.opposite := by
  induction n generalizing b qty filled trades with
  | zero => rfl
  | succ n ih =>
    by_cases hq₀ : qty ≤ 0
    · simp [matchLoop, hq₀]
    simp only [matchLoop, hq₀, if_false]
    split
    · rfl
    split_ifs <;> simp [ih]

omit [LawfulPriceLevels L] in
theorem matchIfCrossing_side (b : OrderBook L) (t : Side) (cmd : OrderCommand) :
    (b.matchIfCrossing t cmd).1.side t = b.side t := by
  simp only [matchIfCrossing]
  split
  · simpa using matchLoop_side_opposite (o := t.opposite) _ _ _ b _ _ _
  · rfl

end MatchLoop

end OrderBook

end HyperliquidEngine
