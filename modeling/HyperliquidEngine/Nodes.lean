import HyperliquidEngine.Matching
import HyperliquidEngine.Engine

/-!
# What every resting node carries

The book never checks a node it holds; what a resting node carries is what the command that
rested it carried, less what trades took off it. `NodesOk F b` says that every node resting
in `b` has a positive open quantity and flags with the property `F`. Every admissible
command keeps it, as long as the new orders' flags have the property (`F` is the same for
every node, and a modify resubmits with the old node's flags):

- the maker loop keeps a maker only with quantity left (`matchLevel_nodeOk`) and trades
  `min(qty, maker->qty)`, positive against positive makers (`matchLevel_trades_pos`);
- a residual rests with positive quantity; a cancel only removes; an in-place modify to a
  positive quantity leaves the node positive.

`nodesOk_run` is the run lemma: with `F` trivial, every resting order and every trade of
every run whose modifies ask for positive quantities has positive quantity. A modify to
quantity `0` breaks both (`zeroQty_modify_trades_zero`): it takes the in-place branch, since
`0` is below the order's quantity, and leaves a node of quantity `0` queued.
-/

namespace HyperliquidEngine

open PriceLevels LawfulPriceLevels

/-- A node as the book should hold it: a positive open quantity and flags with property `F`. -/
def NodeOk (F : UInt32 → Prop) (n : OrderNode) : Prop := 0 < n.qty ∧ F n.flags

theorem LevelFIFO.mem_erase {l : LevelFIFO} {addr : Nat} {n : OrderNode}
    (h : n ∈ (l.erase addr).nodes) : n ∈ l.nodes := by
  unfold LevelFIFO.erase at h
  split at h
  · exact List.mem_of_mem_eraseP h
  · exact h

/-- A node after `reduceAt addr d` is a node from before, or the first node at `addr` with
`d` taken off. -/
theorem mem_reduceAt {addr : Nat} {d : Int} {ns : List OrderNode} {n : OrderNode}
    (h : n ∈ reduceAt addr d ns) :
    n ∈ ns ∨ ∃ m, ns.find? (·.addr = addr) = some m ∧ n = { m with qty := m.qty - d } := by
  induction ns with
  | nil => simp [reduceAt] at h
  | cons m ms ih =>
    by_cases hm : m.addr = addr
    · rw [reduceAt, if_pos hm, List.mem_cons] at h
      rcases h with rfl | h
      · exact .inr ⟨m, by simp [hm], rfl⟩
      · exact .inl (List.mem_cons_of_mem _ h)
    · simp only [reduceAt, hm, if_false, List.mem_cons] at h
      rcases h with rfl | h
      · exact .inl (List.mem_cons_self _ _)
      · rcases ih h with h | h
        · exact .inl (List.mem_cons_of_mem _ h)
        · exact .inr (by simpa [List.find?_cons, hm] using h)

namespace OrderBook

variable (F : UInt32 → Prop)

/-! ### One level -/

section MatchLevel

variable (symbolId : SymbolId) (t : Taker) (px : Int) {F}

/-- **The maker loop keeps only well-formed makers**: a maker it does not remove keeps its
flags and has quantity left. -/
theorem matchLevel_nodeOk {ns : List OrderNode} (hns : ∀ n ∈ ns, NodeOk F n) (f : Fill) :
    ∀ n ∈ (matchLevel symbolId t px ns f).1, NodeOk F n := by
  induction ns generalizing f with
  | nil => simp [matchLevel]
  | cons m ms ih =>
    have hms : ∀ n ∈ ms, NodeOk F n := fun n hn => hns n (List.mem_cons_of_mem _ hn)
    simp only [matchLevel]
    split_ifs with hq hs hfull
    · exact hns
    · simpa using ⟨hns m (List.mem_cons_self _ _), ih hms f⟩
    · exact ih hms _
    · -- the maker outlives the trade with `m.qty - min qty m.qty > 0`
      simp only [List.mem_cons, forall_eq_or_imp]
      exact ⟨⟨by simp only; omega, (hns m (List.mem_cons_self _ _)).2⟩, ih hms _⟩

/-- **Against positive makers every trade is positive**: a maker trades `min(qty, maker->qty)`
only while the taker has quantity left. -/
theorem matchLevel_trades_pos {ns : List OrderNode} (hns : ∀ n ∈ ns, 0 < n.qty) {f : Fill}
    (hf : ∀ tr ∈ f.trades, 0 < tr.qty) : ∀ tr ∈ (matchLevel symbolId t px ns f).2.trades, 0 < tr.qty := by
  induction ns generalizing f with
  | nil => exact hf
  | cons m ms ih =>
    have hms : ∀ n ∈ ms, 0 < n.qty := fun n hn => hns n (List.mem_cons_of_mem _ hn)
    have hm := hns m (List.mem_cons_self _ _)
    simp only [matchLevel]
    split_ifs with hq hs hfull
    · exact hf
    · exact ih hms hf
    all_goals
      refine ih hms ?_
      simp only [List.mem_append, List.mem_singleton]
      rintro tr (htr | rfl)
      · exact hf tr htr
      · simp only; omega

end MatchLevel

/-! ### Ladders and books -/

section Lawful

variable {L : Type} [PriceLevels L] [LawfulPriceLevels L]

/-- Every node resting in ladder `l` is well formed. -/
def LadderOk (l : L) : Prop := ∀ px, ∀ n ∈ (level l px).nodes, NodeOk F n

/-- Every node resting in the book is well formed. -/
def NodesOk (b : OrderBook L) : Prop := ∀ s, LadderOk F (b.side s)

variable {F}

omit [LawfulPriceLevels L] in
theorem LadderOk.congr {l l' : L} (h : LadderOk F l) (he : level l' = level l) : LadderOk F l' :=
  fun px => he ▸ h px

/-- A write of a well-formed level keeps a ladder well formed, whether or not it lands. -/
theorem LadderOk.setLevel {l : L} (h : LadderOk F l) (px : Int) {v : LevelFIFO}
    (hv : ∀ n ∈ v.nodes, NodeOk F n) : LadderOk F (setLevel l px v) := by
  intro qx
  by_cases hq : qx = px
  · subst hq
    rcases level_setLevel_self_or l qx v with h' | h' <;> rw [h']
    exacts [hv, h qx]
  · rw [level_setLevel_ne l v hq]
    exact h qx

theorem LadderOk.enqueueAt {l : L} (h : LadderOk F l) (t : Side) (px : Int) {node : OrderNode}
    (hn : NodeOk F node) : LadderOk F (enqueueAt l t px node) := by
  have h₁ : LadderOk F (PriceLevels.setLevel (getLevel l px) px
      ((level (getLevel l px) px).enqueue node)) := by
    refine (h.congr (by funext; simp)).setLevel px fun n hn' => ?_
    simp only [LevelFIFO.nodes_enqueue, List.mem_append, List.mem_singleton, level_getLevel] at hn'
    rcases hn' with hn' | rfl
    exacts [h px n hn', hn]
  simp only [OrderBook.enqueueAt]
  split
  · exact h₁.congr (by simp)
  · exact h₁

theorem LadderOk.eraseAt {l : L} (h : LadderOk F l) (s : Side) (px : Int) (addr : Nat) :
    LadderOk F (eraseAt l s px addr) := by
  intro qx n hn
  rw [level_eraseAt] at hn
  split_ifs at hn
  · exact h px n (LevelFIFO.mem_erase hn)
  · exact h qx n hn

omit [LawfulPriceLevels L] in
theorem NodesOk.setSide {b : OrderBook L} (hb : NodesOk F b) {s : Side} {l : L}
    (h : LadderOk F l) : NodesOk F (b.setSide s l) := by
  intro s'
  by_cases hs : s' = s
  · subst hs; simpa using h
  · simpa [hs] using hb s'

theorem NodesOk.rest {b : OrderBook L} (hb : NodesOk F b) {t : Side} {cmd : OrderCommand}
    {rem : Int} (hn : NodeOk F ⟨(b.orderPool.alloc nodesPerSlab).1, cmd.orderId, cmd.userId, rem,
      cmd.recvTs, cmd.flags⟩) : NodesOk F (b.rest t cmd rem) :=
  hb.setSide ((hb t).enqueueAt _ _ hn)

theorem NodesOk.endCommand {α : Type} {b : OrderBook L} (hb : NodesOk F b) (ret : α)
    (es : List BookEvent) : NodesOk F (b.endCommand ret es).book :=
  fun s => (hb s).congr (by simp)

/-- **The level walk keeps every node well formed and trades positive quantities.** -/
theorem NodesOk.matchLoop {b : OrderBook L} (hb : NodesOk F b) (o : Side) (limit : Int)
    (t : Taker) (n : Nat) (qty filled : Int) (trades : List TradeEvent)
    (htr : ∀ tr ∈ trades, 0 < tr.qty) :
    NodesOk F (matchLoop o limit t n b qty filled trades).1 ∧
      ∀ tr ∈ (matchLoop o limit t n b qty filled trades).2.2, 0 < tr.qty := by
  induction n generalizing b qty filled trades with
  | zero => exact ⟨hb, htr⟩
  | succ n ih =>
    by_cases hq₀ : qty ≤ 0
    · simpa [OrderBook.matchLoop, hq₀] using And.intro hb htr
    simp only [OrderBook.matchLoop, hq₀, if_false]
    split
    · exact ⟨hb, htr⟩
    next lp _ =>
    split_ifs with hemp hcross hkept
    · exact ⟨hb, htr⟩
    · exact ⟨hb, htr⟩
    all_goals
      set r := matchLevel b.symbolId t (best (b.side o) o) (level (b.side o) lp).nodes
        ⟨qty, filled, (level (b.side o) lp).totalQty, b.idIndex, b.orderPool, trades⟩
      have hl : LadderOk F (PriceLevels.setLevel (b.side o) lp ⟨r.1, r.2.totalQty⟩) :=
        (hb o).setLevel lp (matchLevel_nodeOk _ _ _ (hb o lp) _)
      have ht : ∀ tr ∈ r.2.trades, 0 < tr.qty :=
        matchLevel_trades_pos _ _ _ (fun n hn => (hb o lp n hn).1) htr
    · have hb' : NodesOk F ({ b.setSide o (PriceLevels.setLevel (b.side o) lp ⟨r.1, r.2.totalQty⟩) with
          idIndex := r.2.index, orderPool := r.2.pool } : OrderBook L) := hb.setSide hl
      exact ih (hb'.setSide ((hb' o).congr (level_refreshBest _ _))) _ _ _ ht
    · exact ⟨hb.setSide hl, ht⟩

theorem NodesOk.matchIfCrossing {b : OrderBook L} (hb : NodesOk F b) (t : Side)
    (cmd : OrderCommand) :
    NodesOk F (b.matchIfCrossing t cmd).1 ∧ ∀ tr ∈ (b.matchIfCrossing t cmd).2.2, 0 < tr.qty := by
  simp only [OrderBook.matchIfCrossing]
  split
  · exact hb.matchLoop _ _ _ _ _ _ _ (by simp)
  · exact ⟨hb, by simp⟩

theorem NodesOk.submitLimit {b : OrderBook L} (hb : NodesOk F b) (cmd : OrderCommand)
    (hF : F cmd.flags) :
    NodesOk F (b.submitLimit cmd).book ∧ ∀ tr ∈ tradesOf (b.submitLimit cmd).events, 0 < tr.qty := by
  simp only [OrderBook.submitLimit, OrderBook.submitLimitSide, OrderBook.settleLimit]
  obtain ⟨hm, ht⟩ := hb.matchIfCrossing cmd.side cmd
  split_ifs with _ _ hrest
  · exact ⟨hb.endCommand _ _, by simp⟩
  · exact ⟨hm.endCommand _ _, by simpa using ht⟩
  · exact ⟨(hm.rest ⟨hrest, hF⟩).endCommand _ _, by simpa using ht⟩
  · exact ⟨hm.endCommand _ _, by simpa using ht⟩

theorem NodesOk.submitMarket {b : OrderBook L} (hb : NodesOk F b) (cmd : OrderCommand) :
    NodesOk F (b.submitMarket cmd).book ∧ ∀ tr ∈ tradesOf (b.submitMarket cmd).events, 0 < tr.qty := by
  obtain ⟨hm, ht⟩ := hb.matchLoop cmd.side.opposite (Sentinel.empty cmd.side.opposite)
    (takerOf cmd) (nonemptyCount (b.side cmd.side.opposite) + 1) cmd.qty 0 [] (by simp)
  exact ⟨hm.endCommand _ _, by simpa [OrderBook.submitMarket, matchAgainstSide] using ht⟩

theorem NodesOk.cancel {b : OrderBook L} (hb : NodesOk F b) (id : OrderId) :
    NodesOk F (b.cancel id).book ∧ tradesOf (b.cancel id).events = [] := by
  cases h : b.idIndex.find id with
  | none => simpa [cancel_of_find_none h] using hb
  | some e =>
    rw [cancel_of_find h]
    have : NodesOk F ({ b.setSide e.side (eraseAt (b.side e.side) e.side e.price e.node) with
        orderPool := b.orderPool.free e.node, idIndex := b.idIndex.erase id } : OrderBook L) :=
      hb.setSide ((hb e.side).eraseAt _ _ _)
    exact ⟨this.endCommand _ _, by simp⟩

omit [LawfulPriceLevels L] in
/-- The node an index entry points at is well formed, or is the zero node of a dangling
entry. -/
theorem NodesOk.entryNode_flags {b : OrderBook L} (hb : NodesOk F b) (hF0 : F 0)
    (e : OrderEntry) : F (b.entryNode e).flags := by
  unfold OrderBook.entryNode
  cases hn : (level (b.side e.side) e.price).node? e.node with
  | none => exact hF0
  | some n => exact (hb e.side e.price n (List.mem_of_find?_eq_some hn)).2

/-- **A modify to a positive quantity keeps every node well formed and trades positive
quantities**: in place, the node's quantity becomes `new_qty`; otherwise the cancel only
removes and the resubmission rests with the old node's flags. -/
theorem NodesOk.modify {b : OrderBook L} (hb : NodesOk F b) (hF0 : F 0) (id : OrderId)
    (newPrice : Int) {newQty : Int} (hq : 0 < newQty) :
    NodesOk F (b.modify id newPrice newQty).book ∧
      ∀ tr ∈ tradesOf (b.modify id newPrice newQty).events, 0 < tr.qty := by
  cases h : b.idIndex.find id with
  | none => simpa [OrderBook.modify, h] using hb
  | some e =>
    simp only [OrderBook.modify, h]
    have hc := NodesOk.cancel (b := { b with clock := b.clock.now.2 }) hb id
    split_ifs with hin hret
    · refine ⟨NodesOk.endCommand (hb.setSide (((hb e.side).congr (by funext; simp)).setLevel _ ?_))
        _ _, by simp⟩
      intro n hn
      rcases mem_reduceAt (by simpa using hn) with hn | ⟨m, hm, rfl⟩
      · exact hb e.side e.price n (by simpa using hn)
      · have hm' : (level (b.side e.side) e.price).node? e.node = some m := by
          simpa [LevelFIFO.node?] using hm
        refine ⟨?_, (hb e.side e.price m (List.mem_of_find?_eq_some hm')).2⟩
        simp only [OrderBook.entryNode, hm', Option.getD_some]
        omega
    · exact ⟨hc.1, by simp [hc.2]⟩
    · obtain ⟨h₁, h₂⟩ := hc.1.submitLimit
        { type := .newOrder, recvTs := b.clock.now.1, orderId := id, symbolId := 0,
          userId := (b.entryNode e).user, priceTicks := newPrice, qty := newQty, side := e.side,
          orderType := .limit, tif := .gtc, flags := (b.entryNode e).flags }
        (hb.entryNode_flags hF0 e)
      exact ⟨h₁, by simpa [hc.2] using h₂⟩

end Lawful

end OrderBook

namespace MatchingEngine

open OrderBook

variable {L : Type} [PriceLevels L] [LawfulPriceLevels L] {F : UInt32 → Prop}

/-- **Every admissible command keeps the nodes well formed and trades positive quantities**,
when a new order's flags have the property `F` (which the zero flags of a dangling index
entry also have). -/
theorem nodesOk_processCommand (hF0 : F 0) {b : OrderBook L} (hb : NodesOk F b)
    {cmd : OrderCommand} (hm : PositiveModify cmd) (hF : cmd.type = .newOrder → F cmd.flags) :
    NodesOk F (processCommand b cmd).1 ∧ ∀ tr ∈ tradesOf (processCommand b cmd).2, 0 < tr.qty := by
  unfold MatchingEngine.processCommand
  split
  · next ht =>
    split_ifs
    · exact hb.submitLimit cmd (hF ht)
    · exact hb.submitMarket cmd
  · exact ⟨(hb.cancel cmd.orderId).1, by simp [(hb.cancel cmd.orderId).2]⟩
  · next ht => exact hb.modify hF0 _ _ (hm ht)

/-- **Along every run whose modifies ask for positive quantities the nodes stay well formed
and every trade is positive.** -/
theorem nodesOk_run (hF0 : F 0) {b : OrderBook L} (hb : NodesOk F b) :
    ∀ {cmds : List OrderCommand}, (∀ cmd ∈ cmds, PositiveModify cmd) →
      (∀ cmd ∈ cmds, cmd.type = .newOrder → F cmd.flags) →
      NodesOk F (run b cmds).1 ∧ ∀ tr ∈ tradesOf (run b cmds).2, 0 < tr.qty
  | [], _, _ => ⟨hb, by simp⟩
  | cmd :: cmds, hm, hF => by
    obtain ⟨h₁, h₂⟩ := nodesOk_processCommand hF0 hb (hm cmd (List.mem_cons_self _ _))
      (hF cmd (List.mem_cons_self _ _))
    obtain ⟨h₃, h₄⟩ := nodesOk_run hF0 h₁ (fun c hc => hm c (List.mem_cons_of_mem _ hc))
      (fun c hc => hF c (List.mem_cons_of_mem _ hc))
    refine ⟨h₃, ?_⟩
    simp only [run_cons, tradesOf_append, List.mem_append]
    rintro tr (htr | htr)
    exacts [h₂ tr htr, h₄ tr htr]

end MatchingEngine

/-- An empty book holds no node. -/
theorem OrderBook.nodesOk_new {L : Type} [PriceLevels L] [LawfulPriceLevels L]
    (F : UInt32 → Prop) (sym : SymbolId) (bids asks : L) (clock : Clock)
    (hbids : ∀ px, (level bids px).nodes = []) (hasks : ∀ px, (level asks px).nodes = []) :
    OrderBook.NodesOk F (OrderBook.new sym bids asks clock) := by
  rintro (_ | _) px n hn
  · simp [OrderBook.new, hbids] at hn
  · simp [OrderBook.new, hasks] at hn

/-- On the engine's book over `[100, 200]`: a bid of `10` at `150`, modified in place to
quantity `0`, rests as a node of quantity `0`, and a sell of `5` at `150` then trades `0`
with it. -/
theorem zeroQty_modify_trades_zero :
    (level ((MatchingEngine.run (MatchingEngine.book 1 ⟨100, 200⟩ Clock.ticks)
        [.newOrder 1 1 .bid 150 10 .limit .gtc 0, .modifyOrder 1 150 0]).1.side .bid) 150).nodes.map
        OrderNode.qty = [0] ∧
      (tradesOf (MatchingEngine.run (MatchingEngine.book 1 ⟨100, 200⟩ Clock.ticks)
        [.newOrder 1 1 .bid 150 10 .limit .gtc 0, .modifyOrder 1 150 0,
          .newOrder 2 2 .ask 150 5 .limit .gtc 0]).2).map TradeEvent.qty = [0] := by
  decide

end HyperliquidEngine
