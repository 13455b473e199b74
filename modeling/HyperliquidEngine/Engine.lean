import HyperliquidEngine.OrderBook
import HyperliquidEngine.PriceLevelsArray

/-!
# The engine's command loop (matching_engine.cpp) and the runs of a book

`MatchingEngine::run` pops one `OrderCommand` at a time and dispatches it on its type: a
new limit order to `submit_limit`, any other new order to `submit_market`, a cancel to
`cancel(order_id)` and a modify to `modify(order_id, price_ticks, qty)`. `processCommand`
is one pass of that loop over a book of any ladder, with the events the callbacks receive;
`run` processes a list of commands.

The book's contract ranges over runs whose commands are `Admissible`: a new order carries
a non-zero order id that no earlier new order used and a positive quantity, a modify a
positive quantity, and every price the book may rest at is valid for both ladders.
`ValidRun` checks that for every command of a list, each in the state it meets; a state is
reachable when some valid run from the empty book ends in it.
-/

namespace HyperliquidEngine

open PriceLevels

namespace MatchingEngine

variable {L : Type} [PriceLevels L]

/-- The book `MatchingEngine(config)` builds (matching_engine.cpp:8–24): both ladders dense
over the configured band. -/
def book (symbolId : SymbolId) (band : PriceBand) (clock : Clock) : OrderBook PriceLevelsArray :=
  OrderBook.new symbolId (PriceLevelsArray.new band) (PriceLevelsArray.new band) clock

/-- One pass of `MatchingEngine::run` (matching_engine.cpp:29–53): the command's dispatch to
the book, the book after it and the events it emits. -/
def processCommand (b : OrderBook L) (cmd : OrderCommand) : OrderBook L × List BookEvent :=
  match cmd.type with
  | .newOrder =>
    let r := if cmd.orderType = .limit then b.submitLimit cmd else b.submitMarket cmd
    (r.book, r.events)
  | .cancelOrder =>
    let r := b.cancel cmd.orderId
    (r.book, r.events)
  | .modifyOrder =>
    let r := b.modify cmd.orderId cmd.priceTicks cmd.qty
    (r.book, r.events)

/-- The commands `cmds` processed in order from `b`: the last book and all events. -/
def run (b : OrderBook L) : List OrderCommand → OrderBook L × List BookEvent
  | [] => (b, [])
  | cmd :: cmds =>
    let r := processCommand b cmd
    let r' := run r.1 cmds
    (r'.1, r.2 ++ r'.2)

/-- A price both ladders of the book accept. -/
def ValidPrice (b : OrderBook L) (px : Int) : Prop :=
  isValidPrice (b.side .bid) px ∧ isValidPrice (b.side .ask) px

instance (b : OrderBook L) (px : Int) : Decidable (ValidPrice b px) :=
  inferInstanceAs (Decidable (_ ∧ _))

/-- A command the book's contract covers, in a state where the order ids `ids` have been
submitted: fresh non-zero ids and positive quantities for new orders, positive quantities
for modifies, and valid prices wherever an order may come to rest. -/
def Admissible (b : OrderBook L) (ids : List OrderId) (cmd : OrderCommand) : Prop :=
  (cmd.type = .newOrder → cmd.orderId ≠ 0 ∧ cmd.orderId ∉ ids ∧ 0 < cmd.qty) ∧
  (cmd.type = .modifyOrder → 0 < cmd.qty) ∧
  ((cmd.type = .newOrder ∧ cmd.orderType = .limit) ∨ cmd.type = .modifyOrder →
    ValidPrice b cmd.priceTicks)

instance (b : OrderBook L) (ids : List OrderId) (cmd : OrderCommand) :
    Decidable (Admissible b ids cmd) :=
  inferInstanceAs (Decidable (_ ∧ _ ∧ _))

/-- A modify asks for a positive quantity: what an admissible command requires of a modify. -/
def PositiveModify (cmd : OrderCommand) : Prop := cmd.type = .modifyOrder → 0 < cmd.qty

instance (cmd : OrderCommand) : Decidable (PositiveModify cmd) :=
  inferInstanceAs (Decidable (_ → _))

/-- The order ids submitted once `cmd` has been processed. -/
def nextIds (ids : List OrderId) (cmd : OrderCommand) : List OrderId :=
  if cmd.type = .newOrder then cmd.orderId :: ids else ids

/-- Every command of `cmds` is admissible in the state it meets. -/
def ValidRun (b : OrderBook L) (ids : List OrderId) : List OrderCommand → Prop
  | [] => True
  | cmd :: cmds => Admissible b ids cmd ∧ ValidRun (processCommand b cmd).1 (nextIds ids cmd) cmds

instance decValidRun (b : OrderBook L) (ids : List OrderId) :
    (cmds : List OrderCommand) → Decidable (ValidRun b ids cmds)
  | [] => isTrue trivial
  | cmd :: cmds =>
    @instDecidableAnd _ _ _ (decValidRun (processCommand b cmd).1 (nextIds ids cmd) cmds)

/-- A valid run on which every cancel and every modify meets no entry or the entry of a
resting order: the runs on which every pointer `cancel` and `modify` follow lies in a level as
the list model keeps it. `FlatMap::erase` can leave behind the entry of an order that a fill
removed; a run that later cancels or modifies that id is valid but not live. -/
def LiveRun (b : OrderBook L) (ids : List OrderId) : List OrderCommand → Prop
  | [] => True
  | cmd :: cmds => Admissible b ids cmd ∧ (cmd.type = .newOrder ∨ b.findsLinked cmd.orderId = true) ∧
      LiveRun (processCommand b cmd).1 (nextIds ids cmd) cmds

instance decLiveRun (b : OrderBook L) (ids : List OrderId) :
    (cmds : List OrderCommand) → Decidable (LiveRun b ids cmds)
  | [] => isTrue trivial
  | cmd :: cmds =>
    @instDecidableAnd _ _ _ (@instDecidableAnd _ _ _
      (decLiveRun (processCommand b cmd).1 (nextIds ids cmd) cmds))

/-- A live run is valid. -/
theorem LiveRun.validRun {b : OrderBook L} {ids : List OrderId} :
    ∀ {cmds : List OrderCommand}, LiveRun b ids cmds → ValidRun b ids cmds
  | [], _ => trivial
  | _ :: _, ⟨hc, _, hr⟩ => ⟨hc, hr.validRun⟩

/-- A run whose modifies ask for positive quantities and whose cancels and modifies each meet no
entry or the entry of a resting order: a live run without its conditions on new orders. -/
def LinkedRun (b : OrderBook L) : List OrderCommand → Prop
  | [] => True
  | cmd :: cmds => PositiveModify cmd ∧ (cmd.type = .newOrder ∨ b.findsLinked cmd.orderId = true) ∧
      LinkedRun (processCommand b cmd).1 cmds

instance decLinkedRun (b : OrderBook L) : (cmds : List OrderCommand) → Decidable (LinkedRun b cmds)
  | [] => isTrue trivial
  | cmd :: cmds =>
    @instDecidableAnd _ _ _ (@instDecidableAnd _ _ _ (decLinkedRun (processCommand b cmd).1 cmds))

theorem LinkedRun.positiveModify {b : OrderBook L} :
    ∀ {cmds : List OrderCommand}, LinkedRun b cmds → ∀ cmd ∈ cmds, PositiveModify cmd
  | [], _ => fun _ h => absurd h (List.not_mem_nil _)
  | _ :: _, ⟨hc, _, hr⟩ => by
    rintro c (_ | ⟨_, h⟩)
    exacts [hc, hr.positiveModify c h]

/-- A live run is linked. -/
theorem LiveRun.linkedRun {b : OrderBook L} {ids : List OrderId} :
    ∀ {cmds : List OrderCommand}, LiveRun b ids cmds → LinkedRun b cmds
  | [], _ => trivial
  | _ :: _, ⟨hc, hl, hr⟩ => ⟨hc.2.1, hl, hr.linkedRun⟩

@[simp] theorem run_nil (b : OrderBook L) : run b [] = (b, []) := rfl

@[simp] theorem run_cons (b : OrderBook L) (cmd : OrderCommand) (cmds : List OrderCommand) :
    run b (cmd :: cmds) =
      ((run (processCommand b cmd).1 cmds).1,
        (processCommand b cmd).2 ++ (run (processCommand b cmd).1 cmds).2) := rfl

/-- Running two lists of commands is running the second from where the first ends. -/
theorem run_append (b : OrderBook L) (xs ys : List OrderCommand) :
    run b (xs ++ ys) = ((run (run b xs).1 ys).1, (run b xs).2 ++ (run (run b xs).1 ys).2) := by
  induction xs generalizing b with
  | nil => rfl
  | cons c xs ih => simp [ih]

@[simp] theorem validRun_nil (b : OrderBook L) (ids : List OrderId) : ValidRun b ids [] := trivial

@[simp] theorem validRun_cons (b : OrderBook L) (ids : List OrderId) (cmd : OrderCommand)
    (cmds : List OrderCommand) :
    ValidRun b ids (cmd :: cmds) ↔
      Admissible b ids cmd ∧ ValidRun (processCommand b cmd).1 (nextIds ids cmd) cmds := Iff.rfl

/-- **Invariants of runs.** A property of books and submitted ids that holds initially and
that every admissible command with property `Q` preserves holds at the end of every valid
run of such commands. -/
theorem run_induction_of (Q : OrderCommand → Prop) (P : OrderBook L → List OrderId → Prop)
    (step : ∀ b ids cmd, P b ids → Admissible b ids cmd → Q cmd →
      P (processCommand b cmd).1 (nextIds ids cmd))
    {b : OrderBook L} {ids : List OrderId} (hb : P b ids) :
    ∀ {cmds : List OrderCommand}, ValidRun b ids cmds → (∀ cmd ∈ cmds, Q cmd) →
      P (run b cmds).1 (cmds.foldl nextIds ids)
  | [], _, _ => hb
  | cmd :: _, ⟨hc, hr⟩, hQ =>
    run_induction_of Q P step (step b ids cmd hb hc (hQ cmd (List.mem_cons_self _ _))) hr
      fun c hc => hQ c (List.mem_cons_of_mem _ hc)

/-- Invariants of runs whose commands have property `Q`, admissible or not. -/
theorem run_induction_on (Q : OrderCommand → Prop) (P : OrderBook L → Prop)
    (step : ∀ b cmd, P b → Q cmd → P (processCommand b cmd).1) {b : OrderBook L} (hb : P b) :
    ∀ {cmds : List OrderCommand}, (∀ cmd ∈ cmds, Q cmd) → P (run b cmds).1
  | [], _ => hb
  | cmd :: _, hQ => run_induction_on Q P step (step b cmd hb (hQ cmd (List.mem_cons_self _ _)))
      fun c hc => hQ c (List.mem_cons_of_mem _ hc)

/-- Invariants of all valid runs: the case of `run_induction_of` with no condition on the
commands. -/
theorem run_induction (P : OrderBook L → List OrderId → Prop)
    (step : ∀ b ids cmd, P b ids → Admissible b ids cmd →
      P (processCommand b cmd).1 (nextIds ids cmd))
    {b : OrderBook L} {ids : List OrderId} (hb : P b ids) {cmds : List OrderCommand}
    (hr : ValidRun b ids cmds) : P (run b cmds).1 (cmds.foldl nextIds ids) :=
  run_induction_of (fun _ => True) P (fun b ids cmd h hc _ => step b ids cmd h hc) hb hr
    fun _ _ => trivial

/-- Every modify of a valid run asks for a positive quantity. -/
theorem ValidRun.positiveModify {b : OrderBook L} {ids : List OrderId} :
    ∀ {cmds : List OrderCommand}, ValidRun b ids cmds → ∀ cmd ∈ cmds, PositiveModify cmd
  | [], _ => fun _ h => absurd h (List.not_mem_nil _)
  | _ :: _, ⟨hc, hr⟩ => by
    rintro c (_ | ⟨_, h⟩)
    exacts [hc.2.1, hr.positiveModify c h]

end MatchingEngine

end HyperliquidEngine
