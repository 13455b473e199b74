import HyperliquidEngine.Prices
import HyperliquidEngine.Events
import HyperliquidEngine.SpscQueue

/-!
# The engine process (main.cpp): feed handler, engines and publisher

`main` wires one `FeedHandler`, one `MatchingEngine` per symbol and one `Publisher` through two
`SPSCQueue<…, 65536>` per symbol (main.cpp:92–127), and runs each component on a thread of its own:

- the feed handler (feed_handler.cpp:15–91) reads the input file's `OrderCommand` records in
  order, skips a record whose `symbol_id` has no queue, and pushes every other one to the input
  queue of its symbol, spinning while that queue is full;
- engine `i` (matching_engine.cpp:26–73) pops a command, runs it through its book
  (`MatchingEngine.processCommand`) and pushes each event its callbacks receive to its output
  queue, spinning while that queue is full;
- the publisher (publisher.cpp:28–62) polls the output queues in turn, drains each, and writes
  each trade to the `std::ofstream` of `trades.bin` and each book update to that of
  `book_updates.bin`. It never flushes or closes them, and its loop never ends: what reaches the
  files is a prefix of what was written to the streams, as much as their buffers passed on.

Here the queues are the bounded FIFO of capacity `65535` that `SPSCQueue.step_refines` proves
the ring implements, and a push or a pop takes effect in one step;
`HyperliquidEngine.PipelineRings` runs the process over the rings themselves and proves that
it refines this one. An engine's events are the ones its callbacks receive while the book runs
the command; no other thread reads the book, so the model runs the command in one step and
keeps the events it has not pushed yet (`pending`).

- `LaneOk`: for each symbol, the commands routed to it are those its engine has processed, then
  those queued; the events of the processed ones are those written, then those queued, then
  those not yet pushed; every one of them carries the symbol;
- `Inv.step`, `inv_run`: every step of every thread keeps the lanes, so they hold after every
  interleaving of the threads;
- `published_prefix`: after every interleaving, what has been written for a symbol is a prefix
  of what the engine's sequential run over the file's commands of that symbol emits;
- `published_of_drained`: once the feed is read and every queue drained, it is exactly that, in
  both streams: nothing lost, duplicated or reordered, whatever the interleaving;
- `drains`: whatever the interleaving so far, some schedule goes on to drain the process, so the
  waits on full queues never block it for good.
-/

namespace HyperliquidEngine

open PriceLevels

namespace BookEvent

/-- The `symbol_id` an event carries. -/
def symbolId : BookEvent → SymbolId
  | .trade t => t.symbolId
  | .bookUpdate u => u.symbolId

end BookEvent

/-- The book updates among a list of events, in order. -/
def bookUpdatesOf (es : List BookEvent) : List BookUpdate :=
  es.filterMap fun | .bookUpdate u => some u | .trade _ => none

/-- Keeping one symbol's events, then their trades, keeps that symbol's trades. -/
theorem tradesOf_filter_symbolId (s : SymbolId) (es : List BookEvent) :
    tradesOf (es.filter fun e => e.symbolId = s) = (tradesOf es).filter fun t => t.symbolId = s := by
  rw [tradesOf, tradesOf, List.filterMap_filter, List.filter_filterMap]
  congr 1; funext e
  cases e <;> simp [BookEvent.trade?, BookEvent.symbolId, Option.filter]

/-- Keeping one symbol's events, then their book updates, keeps that symbol's book updates. -/
theorem bookUpdatesOf_filter_symbolId (s : SymbolId) (es : List BookEvent) :
    bookUpdatesOf (es.filter fun e => e.symbolId = s) =
      (bookUpdatesOf es).filter fun u => u.symbolId = s := by
  rw [bookUpdatesOf, bookUpdatesOf, List.filterMap_filter, List.filter_filterMap]
  congr 1; funext e
  cases e <;> simp [BookEvent.symbolId, Option.filter]

/-! ## Every event carries the book's symbol -/

namespace OrderBook

variable {L : Type} [PriceLevels L]

/-- An operation leaves the book's `symbol_id` at `s`, and every event it emits carries `s`. -/
def SymbolKept {α : Type} (s : SymbolId) (x : Exec L α) : Prop :=
  x.book.symbolId = s ∧ ∀ e ∈ x.events, e.symbolId = s

theorem symbolKept_endCommand {α : Type} {s : SymbolId} {b : OrderBook L} (hb : b.symbolId = s)
    (ret : α) {ts : List TradeEvent} (hts : ∀ tr ∈ ts, tr.symbolId = s) :
    SymbolKept s (b.endCommand ret (ts.map .trade)) := by
  refine ⟨hb, fun e he => ?_⟩
  simp only [events_endCommand, List.mem_append, List.mem_map, List.mem_singleton] at he
  rcases he with ⟨tr, htr, rfl⟩ | rfl
  exacts [hts tr htr, hb]

theorem symbolId_matchLoop (o : Side) (limit : Int) (t : Taker) :
    ∀ (n : Nat) (b : OrderBook L) (qty filled : Int) (trades : List TradeEvent),
      (matchLoop o limit t n b qty filled trades).1.symbolId = b.symbolId
  | 0, _, _, _, _ => rfl
  | n + 1, b, qty, filled, trades => by
    -- every branch returns the book it was given, or recurses on a ladder write of it
    simp only [matchLoop]
    split_ifs <;> try split
    all_goals first
      | rfl
      | split_ifs <;> first | rfl | exact symbolId_matchLoop o limit t n _ _ _ _

/-- The level walk keeps the book's symbol, and its trades carry it. -/
theorem symbolKept_matchLoop (o : Side) (limit : Int) (t : Taker) (n : Nat) (b : OrderBook L)
    (qty : Int) : (matchLoop o limit t n b qty 0 []).1.symbolId = b.symbolId ∧
      ∀ tr ∈ (matchLoop o limit t n b qty 0 []).2.2, tr.symbolId = b.symbolId :=
  ⟨symbolId_matchLoop o limit t n b qty 0 [],
    fun tr htr => ((matchLoop_trades_within t o limit n b qty 0 [] tr htr).resolve_left
      (List.not_mem_nil tr)).1⟩

theorem symbolKept_submitLimit (b : OrderBook L) (cmd : OrderCommand) :
    SymbolKept b.symbolId (b.submitLimit cmd) := by
  have hm : (b.matchIfCrossing cmd.side cmd).1.symbolId = b.symbolId ∧
      ∀ tr ∈ (b.matchIfCrossing cmd.side cmd).2.2, tr.symbolId = b.symbolId := by
    simp only [matchIfCrossing]
    split
    · exact symbolKept_matchLoop _ _ _ _ b _
    · simp
  simp only [submitLimit, submitLimitSide, settleLimit]
  split_ifs
  · exact symbolKept_endCommand rfl _ (List.forall_mem_nil _)
  all_goals exact symbolKept_endCommand (by exact hm.1) _ hm.2

theorem symbolKept_submitMarket (b : OrderBook L) (cmd : OrderCommand) :
    SymbolKept b.symbolId (b.submitMarket cmd) :=
  have hm := symbolKept_matchLoop cmd.side.opposite (Sentinel.empty cmd.side.opposite) (takerOf cmd)
    (nonemptyCount (b.side cmd.side.opposite) + 1) b cmd.qty
  symbolKept_endCommand hm.1 _ hm.2

theorem symbolKept_cancel (b : OrderBook L) (id : OrderId) : SymbolKept b.symbolId (b.cancel id) := by
  unfold cancel
  split
  · exact ⟨rfl, nofun⟩
  · exact symbolKept_endCommand rfl true (List.forall_mem_nil _)

theorem symbolKept_modify (b : OrderBook L) (id : OrderId) (newPrice newQty : Int) :
    SymbolKept b.symbolId (b.modify id newPrice newQty) := by
  unfold modify
  split
  · exact ⟨rfl, nofun⟩
  dsimp only
  split_ifs with h₁ h₂
  · exact symbolKept_endCommand rfl _ (List.forall_mem_nil _)
  · exact symbolKept_cancel { b with clock := b.clock.now.2 } id
  · -- the cancel's update, then the resubmission's events, all under the book's symbol
    obtain ⟨hc₁, hc₂⟩ := symbolKept_cancel { b with clock := b.clock.now.2 } id
    obtain ⟨hr₁, hr₂⟩ := symbolKept_submitLimit ({ b with clock := b.clock.now.2 }.cancel id).book
      { type := .newOrder, recvTs := b.clock.now.1, orderId := id, symbolId := 0,
        userId := (b.entryNode _).user, priceTicks := newPrice, qty := newQty, side := _,
        orderType := .limit, tif := .gtc, flags := (b.entryNode _).flags }
    refine ⟨hr₁.trans hc₁, fun e he => ?_⟩
    rcases List.mem_append.1 he with he | he
    exacts [hc₂ e he, (hr₂ e he).trans hc₁]

end OrderBook

namespace MatchingEngine

variable {L : Type} [PriceLevels L]

open OrderBook

/-- **An engine's book keeps its `symbol_id`, and every event it emits carries it.** -/
theorem symbolKept_processCommand (b : OrderBook L) (cmd : OrderCommand) :
    (processCommand b cmd).1.symbolId = b.symbolId ∧
      ∀ e ∈ (processCommand b cmd).2, e.symbolId = b.symbolId := by
  unfold processCommand
  split
  · split_ifs
    · exact symbolKept_submitLimit b cmd
    · exact symbolKept_submitMarket b cmd
  · exact symbolKept_cancel b _
  · exact symbolKept_modify b _ _ _

theorem symbolKept_run (b : OrderBook L) :
    ∀ cmds : List OrderCommand, (run b cmds).1.symbolId = b.symbolId ∧
      ∀ e ∈ (run b cmds).2, e.symbolId = b.symbolId
  | [] => ⟨rfl, nofun⟩
  | cmd :: cmds => by
    obtain ⟨h₁, h₂⟩ := symbolKept_processCommand b cmd
    obtain ⟨h₃, h₄⟩ := symbolKept_run (processCommand b cmd).1 cmds
    refine ⟨h₃.trans h₁, fun e he => ?_⟩
    rcases List.mem_append.1 he with he | he
    exacts [h₂ e he, (h₄ e he).trans h₁]

end MatchingEngine

/-! ## The process -/

namespace Pipeline

/-- The queues' bound, `SPSCQueue<T, 65536>::capacity()`: `65535` items. -/
def queueCap : Nat := 2 ^ 16 - 1

/-- The process between two steps of its threads: the input file's records the feed handler
has not read yet, the contents of `input_queues[i]`, the book of `engines[i]`, the events
engine `i` has received from its book and not pushed yet, the contents of `output_queues[i]`,
the queue the publisher polls, and the events it has written, in order. -/
structure State where
  feed : List OrderCommand
  inputs : Nat → List OrderCommand
  books : Nat → OrderBook PriceLevelsArray
  pending : Nat → List BookEvent
  outputs : Nat → List BookEvent
  cursor : Nat
  written : List BookEvent

/-- What the publisher has written to `trades_log_`, the `std::ofstream` of `trades.bin`: its
trades, in order. The publisher never flushes or closes the stream and its loop never ends, so
the file holds a prefix of this, as much as the stream's buffer has passed on. -/
def State.tradesStream (p : State) : List TradeEvent := tradesOf p.written

/-- What the publisher has written to `book_updates_log_`, the stream of `book_updates.bin`: its
book updates, in order; the file, never flushed, holds a prefix of it. -/
def State.bookUpdatesStream (p : State) : List BookUpdate := bookUpdatesOf p.written

/-- The thread that takes the next step. -/
inductive Thread where
  | feedHandler
  | engine (i : Nat)
  | publisher
  deriving DecidableEq, Repr

/-- Engine `i`'s book as `main` builds it (main.cpp:106–115): symbol `i`, the configured band,
and the readings of the clock it sees. -/
def engineBook (band : PriceBand) (clocks : Nat → Clock) (i : Nat) : OrderBook PriceLevelsArray :=
  MatchingEngine.book (UInt32.ofNat i) band (clocks i)

/-- The process as `main` starts it, on the records of the input file. -/
def init (band : PriceBand) (clocks : Nat → Clock) (file : List OrderCommand) : State :=
  ⟨file, fun _ => [], engineBook band clocks, fun _ => [], fun _ => [], 0, []⟩

variable (n : Nat)

/-- One pass of `FeedHandler::run`'s loop (feed_handler.cpp:59–84) with `n` queues: a record
whose `symbol_id` has no queue is skipped, the others are pushed, and a push to a full queue
is tried again. -/
def feedStep (p : State) : State :=
  match p.feed with
  | [] => p
  | cmd :: rest =>
    let i := cmd.symbolId.toNat
    if n ≤ i then { p with feed := rest }
    else if (p.inputs i).length < queueCap then
      { p with feed := rest, inputs := writeSlot p.inputs i (p.inputs i ++ [cmd]) }
    else p

/-- One step of `MatchingEngine::run` for engine `i` (matching_engine.cpp:26–73): the push of
its next event by `process_trade` or `process_book_update`, tried again while the output queue
is full; with no event left, the pop of a command and its run through the book. -/
def engineStep (p : State) (i : Nat) : State :=
  match p.pending i with
  | e :: es =>
    if (p.outputs i).length < queueCap then
      { p with pending := writeSlot p.pending i es,
               outputs := writeSlot p.outputs i (p.outputs i ++ [e]) }
    else p
  | [] =>
    match p.inputs i with
    | [] => p
    | cmd :: rest =>
      let r := MatchingEngine.processCommand (p.books i) cmd
      { p with inputs := writeSlot p.inputs i rest, books := writeSlot p.books i r.1,
               pending := writeSlot p.pending i r.2 }

/-- One step of `Publisher::run` (publisher.cpp:28–62) over `n` queues: the pop of an event from
the polled queue and its write to its file, or, with that queue drained, a move to the next. -/
def publisherStep (p : State) : State :=
  match p.outputs p.cursor with
  | e :: es => { p with outputs := writeSlot p.outputs p.cursor es, written := p.written ++ [e] }
  | [] => { p with cursor := (p.cursor + 1) % n }

/-- One step of the chosen thread; there is no engine `i` for `i ≥ n`. -/
def step (p : State) : Thread → State
  | .feedHandler => feedStep n p
  | .engine i => if i < n then engineStep p i else p
  | .publisher => publisherStep n p

/-- An interleaving: the threads' steps in the order `ts` chooses them. -/
def run (p : State) (ts : List Thread) : State := ts.foldl (step n) p

/-- A bid and an ask of symbol `0` that cross at `5`. -/
def crossingOrders : List OrderCommand :=
  [.newOrder 1 7 .bid 5 10 .limit .gtc 0, .newOrder 2 8 .ask 5 4 .limit .gtc 0]

/-- The feed handler reads both, the engine runs them and pushes all they emit, and the
publisher writes it all. -/
def crossingSchedule : List Thread :=
  [.feedHandler, .feedHandler] ++ List.replicate 7 (.engine 0) ++ List.replicate 6 .publisher

/-! ## One symbol's lane -/

section Lane

variable (band : PriceBand) (clocks : Nat → Clock)

/-- Lane `i` of the process: the commands routed to it are those engine `i` has run, then those
in its input queue; its book is the engine's book after those it has run; and what the engine
emitted running them is what has been written for the symbol, then what its output queue
holds, then what the engine has not pushed yet, each event carrying the symbol. -/
def LaneOk (i : Nat) (routed input : List OrderCommand) (book : OrderBook PriceLevelsArray)
    (published output pend : List BookEvent) : Prop :=
  ∃ done, routed = done ++ input ∧
    book = (MatchingEngine.run (engineBook band clocks i) done).1 ∧
    published ++ output ++ pend = (MatchingEngine.run (engineBook band clocks i) done).2 ∧
    ∀ e ∈ output ++ pend, e.symbolId.toNat = i

variable {band clocks} {i : Nat} {routed input : List OrderCommand}
  {book : OrderBook PriceLevelsArray} {published output pend : List BookEvent}

theorem laneOk_init (i : Nat) : LaneOk band clocks i [] [] (engineBook band clocks i) [] [] [] :=
  ⟨[], rfl, rfl, rfl, by simp⟩

/-- The feed handler routes a command to the lane. -/
theorem LaneOk.route (h : LaneOk band clocks i routed input book published output pend)
    (cmd : OrderCommand) :
    LaneOk band clocks i (routed ++ [cmd]) (input ++ [cmd]) book published output pend := by
  obtain ⟨done, h₁, h₂, h₃, h₄⟩ := h
  exact ⟨done, by rw [h₁, List.append_assoc], h₂, h₃, h₄⟩

/-- A queued command was routed to the lane, so it carries the symbol. -/
theorem LaneOk.symbolId_cmd {cmd : OrderCommand} {rest : List OrderCommand}
    (h : LaneOk band clocks i routed (cmd :: rest) book published output pend)
    (hr : ∀ c ∈ routed, c.symbolId.toNat = i) : cmd.symbolId.toNat = i := by
  obtain ⟨done, h₁, -⟩ := h
  exact hr cmd (by simp [h₁])

/-- The engine, with every event of its last command pushed, runs the next one. -/
theorem LaneOk.process {cmd : OrderCommand} {rest : List OrderCommand}
    (h : LaneOk band clocks i routed (cmd :: rest) book published output []) (hi : i < 2 ^ 32) :
    LaneOk band clocks i routed rest (MatchingEngine.processCommand book cmd).1 published output
      (MatchingEngine.processCommand book cmd).2 := by
  obtain ⟨done, h₁, h₂, h₃, h₄⟩ := h
  have hsym : book.symbolId.toNat = i := by
    rw [h₂, (MatchingEngine.symbolKept_run _ done).1]
    exact UInt32.toNat_ofNat_of_lt hi
  refine ⟨done ++ [cmd], by simp [h₁], ?_, ?_, fun e he => ?_⟩
  · simp [MatchingEngine.run_append, ← h₂]
  · simp [MatchingEngine.run_append, ← h₂, ← h₃]
  · rcases List.mem_append.1 he with he | he
    · exact h₄ e (by simpa using he)
    · rw [(MatchingEngine.symbolKept_processCommand book cmd).2 e he, hsym]

/-- The engine pushes its next event to its output queue. -/
theorem LaneOk.push {e : BookEvent} {es : List BookEvent}
    (h : LaneOk band clocks i routed input book published output (e :: es)) :
    LaneOk band clocks i routed input book published (output ++ [e]) es := by
  obtain ⟨done, h₁, h₂, h₃, h₄⟩ := h
  exact ⟨done, h₁, h₂, by simpa using h₃, fun e' he' => h₄ e' (by simpa using he')⟩

/-- An event at the front of the output queue carries the symbol. -/
theorem LaneOk.symbolId_head {e : BookEvent}
    (h : LaneOk band clocks i routed input book published (e :: output) pend) :
    e.symbolId.toNat = i := by
  obtain ⟨done, -, -, -, h₄⟩ := h
  exact h₄ e (by simp)

/-- The publisher writes the event at the front of the output queue. -/
theorem LaneOk.publish {e : BookEvent}
    (h : LaneOk band clocks i routed input book published (e :: output) pend) :
    LaneOk band clocks i routed input book (published ++ [e]) output pend := by
  obtain ⟨done, h₁, h₂, h₃, h₄⟩ := h
  exact ⟨done, h₁, h₂, by simpa using h₃, fun e' he' => h₄ e' (by simp_all)⟩

end Lane

/-! ## The invariant of the process -/

section Invariant

variable (band : PriceBand) (clocks : Nat → Clock) (file : List OrderCommand)

/-- What holds of the process with `n` queues at every step of every interleaving: the feed
handler has read a prefix of the file, and every lane holds of what it has routed to that lane
and of what the publisher has written for that symbol; the queues beyond `n` stay empty, no
queue holds more than its capacity, and every event written carries a symbol with a queue. -/
structure Inv (p : State) : Prop where
  lanes : ∃ consumed, file = consumed ++ p.feed ∧ ∀ i < n, LaneOk band clocks i
    (consumed.filter fun c => c.symbolId.toNat = i) (p.inputs i) (p.books i)
    (p.written.filter fun e => e.symbolId.toNat = i) (p.outputs i) (p.pending i)
  idle : ∀ i, n ≤ i → p.outputs i = []
  bounded : ∀ i, (p.inputs i).length ≤ queueCap ∧ (p.outputs i).length ≤ queueCap
  written : ∀ e ∈ p.written, e.symbolId.toNat < n

theorem inv_init : Inv n band clocks file (init band clocks file) :=
  ⟨⟨[], rfl, fun i _ => laneOk_init i⟩, fun _ _ => rfl, fun _ => by simp [init], by simp [init]⟩

variable {n band clocks file} {p : State}

theorem inv_feedStep (h : Inv n band clocks file p) : Inv n band clocks file (feedStep n p) := by
  obtain ⟨⟨consumed, hfile, hl⟩, hidle, hcap, hw⟩ := h
  unfold feedStep
  split
  · exact ⟨⟨consumed, hfile, hl⟩, hidle, hcap, hw⟩
  next cmd rest hfeed =>
  have hfile' : file = (consumed ++ [cmd]) ++ rest := by simp [hfile, hfeed]
  dsimp only
  split_ifs with hn hroom
  · -- no queue for the symbol: the record is skipped
    refine ⟨⟨consumed ++ [cmd], hfile', fun i hi => ?_⟩, hidle, hcap, hw⟩
    simpa [List.filter_append, show cmd.symbolId.toNat ≠ i by omega] using hl i hi
  · -- pushed to the queue of its symbol
    refine ⟨⟨consumed ++ [cmd], hfile', fun i hi => ?_⟩, hidle, fun i => ?_, hw⟩
    · by_cases hij : i = cmd.symbolId.toNat
      · subst hij
        simpa [List.filter_append] using (hl _ hi).route cmd
      · simpa [List.filter_append, hij, Ne.symm hij] using hl i hi
    · by_cases hij : i = cmd.symbolId.toNat
      · subst hij; simpa using ⟨hroom, (hcap _).2⟩
      · simpa [hij] using hcap i
  · exact ⟨⟨consumed, hfile, hl⟩, hidle, hcap, hw⟩

theorem inv_engineStep (h : Inv n band clocks file p) {j : Nat} (hj : j < n) :
    Inv n band clocks file (engineStep p j) := by
  obtain ⟨⟨consumed, hfile, hl⟩, hidle, hcap, hw⟩ := h
  unfold engineStep
  split
  next e es hpend =>
    split_ifs with hroom
    · -- the push of the next event
      refine ⟨⟨consumed, hfile, fun i hi => ?_⟩, fun i hi => ?_, fun i => ?_, hw⟩
      · by_cases hij : i = j
        · subst hij
          simpa using (hpend ▸ hl i hi).push
        · simpa [hij] using hl i hi
      · simpa [show i ≠ j by omega] using hidle i hi
      · by_cases hij : i = j
        · subst hij; simpa using ⟨(hcap i).1, hroom⟩
        · simpa [hij] using hcap i
    · exact ⟨⟨consumed, hfile, hl⟩, hidle, hcap, hw⟩
  next hpend =>
    split
    · exact ⟨⟨consumed, hfile, hl⟩, hidle, hcap, hw⟩
    next cmd rest hin =>
      -- the command was routed to lane `j`, so it carries `j`, and `j` is a `symbol_id`
      have hlj := hl j hj
      rw [hin, hpend] at hlj
      have hcmd : cmd.symbolId.toNat = j :=
        hlj.symbolId_cmd fun c hc => by simpa using (List.mem_filter.1 hc).2
      have hnew := hlj.process (hcmd ▸ cmd.symbolId.toNat_lt_size)
      refine ⟨⟨consumed, hfile, fun i hi => ?_⟩, hidle, fun i => ?_, hw⟩
      · by_cases hij : i = j
        · subst hij; simpa using hnew
        · simpa [hij] using hl i hi
      · by_cases hij : i = j
        · subst hij
          have := (hcap i).1
          simp only [hin, List.length_cons] at this
          simpa using ⟨by omega, (hcap i).2⟩
        · simpa [hij] using hcap i

theorem inv_publisherStep (h : Inv n band clocks file p) :
    Inv n band clocks file (publisherStep n p) := by
  obtain ⟨⟨consumed, hfile, hl⟩, hidle, hcap, hw⟩ := h
  unfold publisherStep
  split
  next e es hout =>
    -- the polled queue is one of the `n`, and its front event carries its symbol
    have hc : p.cursor < n := by
      by_contra hc
      rw [hidle _ (by omega)] at hout
      cases hout
    have hlc := hl _ hc
    rw [hout] at hlc
    have he := hlc.symbolId_head
    refine ⟨⟨consumed, hfile, fun i hi => ?_⟩, fun i hi => ?_, fun i => ?_, fun e' he' => ?_⟩
    · by_cases hic : i = p.cursor
      · subst hic
        simpa [List.filter_append, he] using hlc.publish
      · simpa [List.filter_append, hic, he, Ne.symm hic] using hl i hi
    · simpa [show i ≠ p.cursor by omega] using hidle i hi
    · by_cases hic : i = p.cursor
      · subst hic
        have := (hcap p.cursor).2
        simp only [hout, List.length_cons] at this
        simpa using ⟨(hcap p.cursor).1, by omega⟩
      · simpa [hic] using hcap i
    · rcases List.mem_append.1 he' with he' | he'
      · exact hw e' he'
      · rw [List.mem_singleton.1 he', he]
        exact hc
  · exact ⟨⟨consumed, hfile, hl⟩, hidle, hcap, hw⟩

/-- Every step of every thread keeps the invariant. -/
theorem inv_step (h : Inv n band clocks file p) : ∀ th, Inv n band clocks file (step n p th)
  | .feedHandler => inv_feedStep h
  | .engine j => by
    dsimp only [step]
    split_ifs with hj
    · exact inv_engineStep h hj
    · exact h
  | .publisher => inv_publisherStep h

theorem inv_run (ts : List Thread) (h : Inv n band clocks file p) :
    Inv n band clocks file (run n p ts) := by
  induction ts generalizing p with
  | nil => exact h
  | cons th ts ih => exact ih (inv_step h th)

end Invariant

/-! ## Nothing deadlocks -/

section Drain

/-- The items in the first `k` queues of a family. -/
def queued {α : Type} (q : Nat → List α) : Nat → Nat
  | 0 => 0
  | k + 1 => queued q k + (q k).length

theorem queued_writeSlot_of_le {α : Type} (q : Nat → List α) {j : Nat} (v : List α) :
    ∀ {k}, k ≤ j → queued (writeSlot q j v) k = queued q k
  | 0, _ => rfl
  | k + 1, hk => by
    simp [queued, queued_writeSlot_of_le q v (Nat.le_of_succ_le hk), show k ≠ j by omega]

theorem queued_writeSlot {α : Type} (q : Nat → List α) {j : Nat} (v : List α) :
    ∀ {k}, j < k → queued (writeSlot q j v) k + (q j).length = queued q k + v.length
  | k + 1, hk => by
    rcases Nat.lt_succ_iff_lt_or_eq.1 hk with hk | rfl
    · have := queued_writeSlot q v hk
      simp only [queued, writeSlot_apply, if_neg (show k ≠ j by omega)]
      omega
    · simp only [queued, queued_writeSlot_of_le q v le_rfl, writeSlot_apply, if_pos, ite_true]
      omega

theorem queued_eq_zero {α : Type} (q : Nat → List α) : ∀ {k}, queued q k = 0 ↔ ∀ i < k, q i = []
  | 0 => by simp [queued]
  | k + 1 => by
    simp [queued, queued_eq_zero q, Nat.lt_succ_iff_lt_or_eq, or_imp, forall_and]

/-- The process has read the whole file, and every queue and engine is drained. -/
def Drained (p : State) : Prop :=
  p.feed = [] ∧ ∀ i < n, p.inputs i = [] ∧ p.pending i = [] ∧ p.outputs i = []

instance : DecidablePred (Drained n) := fun _ => inferInstanceAs (Decidable (_ ∧ _))

/-- The work left before the engines: each record in the feed counts twice (its push, its run),
each queued command once. -/
def inputWork (p : State) : Nat := 2 * p.feed.length + queued p.inputs n

/-- The work left after the engines: each event not pushed counts twice (its push, its write),
each queued event once. -/
def outputWork (p : State) : Nat := 2 * queued p.pending n + queued p.outputs n

variable {n} {band : PriceBand} {clocks : Nat → Clock} {file : List OrderCommand} {p : State}

theorem feedStep_cursor : (feedStep n p).cursor = p.cursor := by
  unfold feedStep
  split
  · rfl
  · dsimp only
    split_ifs <;> rfl

theorem engineStep_cursor (j : Nat) : (engineStep p j).cursor = p.cursor := by
  unfold engineStep
  split
  · split_ifs <;> rfl
  · split <;> rfl

theorem cursor_lt_step (hn : 0 < n) (hc : p.cursor < n) : ∀ th, (step n p th).cursor < n
  | .feedHandler => by rw [step, feedStep_cursor]; exact hc
  | .engine j => by
    dsimp only [step]
    split_ifs
    · rw [engineStep_cursor]; exact hc
    · exact hc
  | .publisher => by
    dsimp only [step]
    unfold publisherStep
    split
    · exact hc
    · exact Nat.mod_lt _ hn

theorem cursor_lt_run (hn : 0 < n) (ts : List Thread) (hc : p.cursor < n) :
    (run n p ts).cursor < n := by
  induction ts generalizing p with
  | nil => exact hc
  | cons th ts ih => exact ih (cursor_lt_step hn hc th)

theorem run_append (ts ts' : List Thread) : run n p (ts ++ ts') = run n (run n p ts) ts' :=
  List.foldl_append _ _ _ _

/-- Polling drained queues only moves the publisher on. -/
theorem run_publisher_moves (hc : p.cursor < n) :
    ∀ d, (∀ e < d, p.outputs ((p.cursor + e) % n) = []) →
      run n p (List.replicate d .publisher) = { p with cursor := (p.cursor + d) % n }
  | 0, _ => by simp [run, Nat.mod_eq_of_lt hc]
  | d + 1, hd => by
    rw [List.replicate_succ', run_append, run_publisher_moves hc d fun e he => hd e (by omega)]
    simp [run, step, publisherStep, hd d (by omega), Nat.mod_add_mod, Nat.add_assoc]

/-- The publisher writes an event: the work after the engines goes down by one. -/
theorem work_publisherStep (hc : p.cursor < n) {e : BookEvent} {es : List BookEvent}
    (hout : p.outputs p.cursor = e :: es) :
    inputWork n (publisherStep n p) = inputWork n p ∧
      outputWork n (publisherStep n p) + 1 = outputWork n p := by
  have := queued_writeSlot p.outputs es hc
  simp only [publisherStep, hout, inputWork, outputWork, List.length_cons] at this ⊢
  exact ⟨trivial, by omega⟩

/-- An engine pushes an event to its empty output queue: the work after the engines goes down
by one. -/
theorem work_engineStep_push {j : Nat} (hj : j < n) {e : BookEvent} {es : List BookEvent}
    (hpend : p.pending j = e :: es) (hout : p.outputs j = []) :
    inputWork n (engineStep p j) = inputWork n p ∧
      outputWork n (engineStep p j) + 1 = outputWork n p := by
  have h₁ := queued_writeSlot p.pending es hj
  have h₂ := queued_writeSlot p.outputs [e] hj
  simp only [engineStep, hpend, hout, List.length_nil, List.nil_append, inputWork, outputWork,
    List.length_cons, List.length_singleton, queueCap] at h₁ h₂ ⊢
  simp only [show (0 : Nat) < 2 ^ 16 - 1 by decide, if_true]
  exact ⟨trivial, by omega⟩

/-- An engine with no event left runs a queued command: the work before the engines goes down
by one. -/
theorem work_engineStep_process {j : Nat} (hj : j < n) {cmd : OrderCommand}
    {rest : List OrderCommand} (hpend : p.pending j = []) (hin : p.inputs j = cmd :: rest) :
    inputWork n (engineStep p j) + 1 = inputWork n p := by
  have := queued_writeSlot p.inputs rest hj
  simp only [engineStep, hpend, hin, inputWork, List.length_cons] at this ⊢
  omega

/-- The feed handler, with every input queue empty, reads a record: the work before the engines
goes down. -/
theorem work_feedStep {cmd : OrderCommand} {rest : List OrderCommand} (hfeed : p.feed = cmd :: rest)
    (hin : ∀ i < n, p.inputs i = []) : inputWork n (feedStep n p) < inputWork n p := by
  unfold feedStep
  rw [hfeed]
  dsimp only
  split_ifs with hn hroom
  · simp [inputWork, hfeed]
  · have := queued_writeSlot p.inputs (p.inputs cmd.symbolId.toNat ++ [cmd]) (not_le.1 hn)
    simp only [inputWork, hfeed, List.length_cons, List.length_append, List.length_singleton,
      List.length_nil] at this ⊢
    omega
  · rw [hin _ (not_le.1 hn)] at hroom
    exact absurd (by decide) hroom

/-- From a state that is not drained, a few steps lower the work: the publisher's polls up to
the first queue with an event and the write of that event, an engine's push, an engine's run of
a command, or the feed handler's read of a record. No push waits: the engines push only to an
empty output queue, and the feed handler reads only with every input queue empty. -/
theorem exists_progress (hn : 0 < n) (hc : p.cursor < n) (hd : ¬ Drained n p) :
    ∃ ts, Prod.Lex (· < ·) (· < ·) (inputWork n (run n p ts), outputWork n (run n p ts))
      (inputWork n p, outputWork n p) := by
  classical
  by_cases ho : ∃ i < n, p.outputs i ≠ []
  · -- the publisher polls its way to the first queue with an event, then writes it
    obtain ⟨i, hi, hne⟩ := ho
    have hex : ∃ d, p.outputs ((p.cursor + d) % n) ≠ [] :=
      ⟨i + n - p.cursor, by
        rwa [show p.cursor + (i + n - p.cursor) = i + n by omega, Nat.add_mod_right,
          Nat.mod_eq_of_lt hi]⟩
    obtain ⟨e, es, hout⟩ := List.exists_cons_of_ne_nil (Nat.find_spec hex)
    have hw := work_publisherStep (p := { p with cursor := (p.cursor + Nat.find hex) % n })
      (Nat.mod_lt _ hn) hout
    have hmoved : outputWork n { p with cursor := (p.cursor + Nat.find hex) % n } =
      outputWork n p := rfl
    refine ⟨List.replicate (Nat.find hex) .publisher ++ [.publisher], ?_⟩
    rw [run_append, run_publisher_moves hc _ fun d hd => not_not.1 (Nat.find_min hex hd)]
    exact Prod.lex_def.2 (Or.inr ⟨hw.1, by simp only [run, List.foldl, step]; omega⟩)
  push_neg at ho
  by_cases hpend : ∃ i < n, p.pending i ≠ []
  · -- an engine pushes an event to its empty output queue
    obtain ⟨j, hj, hne⟩ := hpend
    obtain ⟨e, es, hpe⟩ := List.exists_cons_of_ne_nil hne
    have hw := work_engineStep_push hj hpe (ho j hj)
    refine ⟨[.engine j], Prod.lex_def.2 (Or.inr ⟨?_, ?_⟩)⟩ <;>
      simp only [run, List.foldl, step, if_pos hj] <;> omega
  push_neg at hpend
  by_cases hin : ∃ i < n, p.inputs i ≠ []
  · -- an engine with no event left runs a command
    obtain ⟨j, hj, hne⟩ := hin
    obtain ⟨cmd, rest, hcmd⟩ := List.exists_cons_of_ne_nil hne
    have hw := work_engineStep_process hj (hpend j hj) hcmd
    refine ⟨[.engine j], Prod.lex_def.2 (Or.inl ?_)⟩
    simp only [run, List.foldl, step, if_pos hj]
    omega
  push_neg at hin
  -- only the feed is left
  obtain ⟨cmd, rest, hfeed⟩ : ∃ cmd rest, p.feed = cmd :: rest := by
    cases hf : p.feed with
    | nil => exact absurd ⟨hf, fun i hi => ⟨hin i hi, hpend i hi, ho i hi⟩⟩ hd
    | cons cmd rest => exact ⟨cmd, rest, rfl⟩
  exact ⟨[.feedHandler], Prod.lex_def.2 (Or.inl (work_feedStep hfeed hin))⟩

/-- From every state with the publisher on one of the `n` queues, some schedule drains the
process. -/
theorem exists_drained (hn : 0 < n) (p : State) (hc : p.cursor < n) :
    ∃ ts, Drained n (run n p ts) := by
  by_cases hd : Drained n p
  · exact ⟨[], hd⟩
  · obtain ⟨ts, hlt⟩ := exists_progress hn hc hd
    obtain ⟨ts', h'⟩ := exists_drained hn (run n p ts) (cursor_lt_run hn ts hc)
    exact ⟨ts ++ ts', by rwa [run_append]⟩
termination_by (inputWork n p, outputWork n p)
decreasing_by exact hlt

/-- Whatever the interleaving so far, the threads can go on to read the whole file and drain
every queue and every engine: the feed handler's and the engines' waits on a full queue never
block the process for good. -/
theorem drains (hn : 0 < n) (ts : List Thread) :
    ∃ ts', Drained n (run n (init band clocks file) (ts ++ ts')) := by
  obtain ⟨ts', h⟩ := exists_drained hn (run n (init band clocks file) ts) (cursor_lt_run hn ts hn)
  exact ⟨ts', by rwa [run_append]⟩

theorem drains_crossing :
    ∃ ts', Drained 1 (run 1 (init ⟨0, 10⟩ (fun _ => Clock.ticks) crossingOrders) ([] ++ ts')) :=
  drains (by decide) []

end Drain

/-! ## What the publisher writes -/

section Published

variable {n : Nat} {band : PriceBand} {clocks : Nat → Clock} {file : List OrderCommand}

/-- Selecting by a `symbol_id`'s index is selecting by the `symbol_id`. -/
theorem filter_toNat_eq {α : Type} (f : α → SymbolId) (s : SymbolId) (l : List α) :
    l.filter (fun x => (f x).toNat = s.toNat) = l.filter (fun x => f x = s) :=
  List.filter_congr fun _ _ => decide_eq_decide.2 ⟨UInt32.toNat.inj, congrArg _⟩

/-- The lane of a symbol with a queue, read off the invariant. -/
theorem Inv.lane {p : State} (h : Inv n band clocks file p) {s : SymbolId} (hs : s.toNat < n) :
    ∃ consumed, file = consumed ++ p.feed ∧ ∃ done,
      consumed.filter (fun c => c.symbolId = s) = done ++ p.inputs s.toNat ∧
      p.books s.toNat = (MatchingEngine.run (engineBook band clocks s.toNat) done).1 ∧
      p.written.filter (fun e => e.symbolId = s) ++ p.outputs s.toNat ++ p.pending s.toNat =
        (MatchingEngine.run (engineBook band clocks s.toNat) done).2 := by
  obtain ⟨consumed, hfile, hl⟩ := h.lanes
  obtain ⟨done, h₁, h₂, h₃, -⟩ := hl _ hs
  rw [filter_toNat_eq OrderCommand.symbolId] at h₁
  rw [filter_toNat_eq BookEvent.symbolId] at h₃
  exact ⟨consumed, hfile, done, h₁, h₂, h₃⟩

/-- In a state with the invariant, engine `s` has run a prefix of the file's commands for `s`,
its book is the one a lone engine reaches over that prefix, and the events written for `s` are a
prefix of what the lone engine emits over it. -/
theorem Inv.written_upTo {p : State} (h : Inv n band clocks file p) {s : SymbolId}
    (hs : s.toNat < n) :
    ∃ done, done <+: file.filter (fun c => c.symbolId = s) ∧
      p.books s.toNat = (MatchingEngine.run (engineBook band clocks s.toNat) done).1 ∧
      p.written.filter (fun e => e.symbolId = s) <+:
        (MatchingEngine.run (engineBook band clocks s.toNat) done).2 := by
  obtain ⟨consumed, hfile, done, h₁, h₂, h₃⟩ := h.lane hs
  refine ⟨done, ?_, h₂, ?_⟩
  · rw [hfile, List.filter_append, h₁, List.append_assoc]
    exact List.prefix_append _ _
  · rw [← h₃, List.append_assoc]
    exact List.prefix_append _ _

/-- After every interleaving of the threads, engine `s` has run a prefix of the file's
commands for `s`, its book is the one a lone engine reaches over that prefix, and the events
written for `s`, in order, are a prefix of what the lone engine emits over it. -/
theorem published_prefix (ts : List Thread) {s : SymbolId} (hs : s.toNat < n) :
    ∃ done, done <+: file.filter (fun c => c.symbolId = s) ∧
      (run n (init band clocks file) ts).books s.toNat =
        (MatchingEngine.run (engineBook band clocks s.toNat) done).1 ∧
      (run n (init band clocks file) ts).written.filter (fun e => e.symbolId = s) <+:
        (MatchingEngine.run (engineBook band clocks s.toNat) done).2 :=
  (inv_run ts (inv_init n band clocks file)).written_upTo hs

theorem published_prefix_crossing :
    ∃ done, done <+: crossingOrders.filter (fun c => c.symbolId = 0) ∧
      (run 1 (init ⟨0, 10⟩ (fun _ => Clock.ticks) crossingOrders)
        (crossingSchedule.take 5)).books (0 : SymbolId).toNat =
        (MatchingEngine.run (engineBook ⟨0, 10⟩ (fun _ => Clock.ticks) (0 : SymbolId).toNat) done).1 ∧
      (run 1 (init ⟨0, 10⟩ (fun _ => Clock.ticks) crossingOrders)
        (crossingSchedule.take 5)).written.filter (fun e => e.symbolId = 0) <+:
        (MatchingEngine.run (engineBook ⟨0, 10⟩ (fun _ => Clock.ticks) (0 : SymbolId).toNat) done).2 :=
  published_prefix _ (by decide)

/-- A drained lane: its engine has run all of the file's commands for its symbol, and all it
emitted has been written. -/
theorem Inv.lane_drained {p : State} (h : Inv n band clocks file p) (hfeed : p.feed = [])
    {s : SymbolId} (hs : s.toNat < n)
    (hdrained : p.inputs s.toNat = [] ∧ p.pending s.toNat = [] ∧ p.outputs s.toNat = []) :
    p.books s.toNat =
        (MatchingEngine.run (engineBook band clocks s.toNat) (file.filter fun c => c.symbolId = s)).1 ∧
      p.written.filter (fun e => e.symbolId = s) =
        (MatchingEngine.run (engineBook band clocks s.toNat) (file.filter fun c => c.symbolId = s)).2 := by
  obtain ⟨consumed, hfile, done, h₁, h₂, h₃⟩ := h.lane hs
  obtain ⟨hin, hpend, hout⟩ := hdrained
  rw [hfeed, List.append_nil] at hfile
  rw [hin, List.append_nil, ← hfile] at h₁
  rw [hpend, hout, List.append_nil, List.append_nil] at h₃
  exact ⟨h₁ ▸ h₂, h₁ ▸ h₃⟩

/-- Once the feed handler has read the whole file and every queue and engine is drained, each
engine's book, the events written for its symbol, and that symbol's records in the streams of
`trades.bin` and `book_updates.bin`, in order, are exactly those of a lone engine run over the
file's commands for the symbol: nothing lost, duplicated or reordered, whatever the
interleaving. -/
theorem published_of_drained (ts : List Thread)
    (hfeed : (run n (init band clocks file) ts).feed = [])
    (hdrained : ∀ i < n, (run n (init band clocks file) ts).inputs i = [] ∧
      (run n (init band clocks file) ts).pending i = [] ∧
      (run n (init band clocks file) ts).outputs i = [])
    {s : SymbolId} (hs : s.toNat < n) :
    (run n (init band clocks file) ts).books s.toNat =
        (MatchingEngine.run (engineBook band clocks s.toNat)
          (file.filter fun c => c.symbolId = s)).1 ∧
      (run n (init band clocks file) ts).written.filter (fun e => e.symbolId = s) =
        (MatchingEngine.run (engineBook band clocks s.toNat)
          (file.filter fun c => c.symbolId = s)).2 ∧
      (run n (init band clocks file) ts).tradesStream.filter (fun t => t.symbolId = s) =
        tradesOf (MatchingEngine.run (engineBook band clocks s.toNat)
          (file.filter fun c => c.symbolId = s)).2 ∧
      (run n (init band clocks file) ts).bookUpdatesStream.filter (fun u => u.symbolId = s) =
        bookUpdatesOf (MatchingEngine.run (engineBook band clocks s.toNat)
          (file.filter fun c => c.symbolId = s)).2 := by
  obtain ⟨hb, hw⟩ :=
    (inv_run ts (inv_init n band clocks file)).lane_drained hfeed hs (hdrained _ hs)
  exact ⟨hb, hw, by rw [State.tradesStream, ← tradesOf_filter_symbolId, hw],
    by rw [State.bookUpdatesStream, ← bookUpdatesOf_filter_symbolId, hw]⟩

theorem published_of_drained_crossing :
    (run 1 (init ⟨0, 10⟩ (fun _ => Clock.ticks) crossingOrders) crossingSchedule).books
        (0 : SymbolId).toNat =
      (MatchingEngine.run (engineBook ⟨0, 10⟩ (fun _ => Clock.ticks) (0 : SymbolId).toNat)
        (crossingOrders.filter fun c => c.symbolId = 0)).1 ∧
    (run 1 (init ⟨0, 10⟩ (fun _ => Clock.ticks) crossingOrders) crossingSchedule).written.filter
        (fun e => e.symbolId = 0) =
      (MatchingEngine.run (engineBook ⟨0, 10⟩ (fun _ => Clock.ticks) (0 : SymbolId).toNat)
        (crossingOrders.filter fun c => c.symbolId = 0)).2 ∧
    (run 1 (init ⟨0, 10⟩ (fun _ => Clock.ticks) crossingOrders) crossingSchedule).tradesStream.filter
        (fun t => t.symbolId = 0) =
      tradesOf (MatchingEngine.run (engineBook ⟨0, 10⟩ (fun _ => Clock.ticks) (0 : SymbolId).toNat)
        (crossingOrders.filter fun c => c.symbolId = 0)).2 ∧
    (run 1 (init ⟨0, 10⟩ (fun _ => Clock.ticks) crossingOrders)
        crossingSchedule).bookUpdatesStream.filter (fun u => u.symbolId = 0) =
      bookUpdatesOf (MatchingEngine.run (engineBook ⟨0, 10⟩ (fun _ => Clock.ticks)
        (0 : SymbolId).toNat) (crossingOrders.filter fun c => c.symbolId = 0)).2 :=
  published_of_drained crossingSchedule (by decide) (by decide) (by decide)

end Published

end Pipeline

end HyperliquidEngine
