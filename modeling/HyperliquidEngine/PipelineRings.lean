import HyperliquidEngine.Pipeline

/-!
# The engine process over the rings themselves

`HyperliquidEngine.Pipeline` runs the process with each queue a bounded FIFO whose `push` and
`pop` take effect in one step. Here each queue is the `SPSCQueue` ring of
`HyperliquidEngine.SpscQueue`, with `2^16` slots, and a step of a thread is one statement of
the call it is inside: the feed handler's `push` of its record into the input ring of the
record's symbol; an engine's `push` of its next event into its output ring, or its `pop` from
its input ring; the publisher's `pop` from the output ring it polls. A thread acts on the
result of a call at the statement that completes it: the feed handler moves to the next record
after a `push` that returned `true`, an engine drops the event it pushed or runs the command it
popped, the publisher writes the event it popped or, after a `pop` that returned `false`, moves
to the next ring.

- `RingState.queues`: the FIFO process read off the ring process, each ring by its contents;
- `ringStep_sim`: from every state with `RingInv`, each statement of each thread keeps the
  invariant and either leaves that reading alone or moves it by one FIFO-level step of the same
  thread: `SPSCQueue.step_refines` on the ring the statement touches;
- `ringRun_refines_run`: every interleaving of the threads' statements is therefore read as an
  interleaving of the FIFO process over a sublist of the same threads;
- `ring_published_prefix`: so what the FIFO process guarantees holds of the rings: after every
  interleaving, what has been written for a symbol is a prefix of what a lone engine emits.
-/

namespace HyperliquidEngine

namespace Pipeline

open SPSCQueue (contents)

/-- The rings have `N = 2^16` slots: `SPSCQueue<OrderCommand, 65536>` and
`SPSCQueue<AnyEvent, 65536>` (main.cpp:92–101). -/
def queueBits : Nat := 16

/-- The process between two statements of its threads: as `State`, with `input_queues[i]` and
`output_queues[i]` the rings themselves, each with its threads' positions inside their calls. -/
structure RingState where
  feed : List OrderCommand
  inputs : Nat → SPSCQueue.State OrderCommand
  books : Nat → OrderBook PriceLevelsArray
  pending : Nat → List BookEvent
  outputs : Nat → SPSCQueue.State BookEvent
  cursor : Nat
  written : List BookEvent

/-- The process as `main` starts it: every ring empty, its uninitialised slots holding whatever
`fillIn` and `fillOut` say. -/
def ringInit (band : PriceBand) (clocks : Nat → Clock) (file : List OrderCommand)
    (fillIn : Nat → Nat → OrderCommand) (fillOut : Nat → Nat → BookEvent) : RingState :=
  ⟨file, fun i => SPSCQueue.init (fillIn i), engineBook band clocks, fun _ => [],
    fun i => SPSCQueue.init (fillOut i), 0, []⟩

variable (n : Nat)

/-- One statement of `FeedHandler::run` (feed_handler.cpp:59–84) with `n` queues: a record
whose `symbol_id` has no queue is skipped; for any other, the next statement of `push(cmd)` on
the ring of its symbol, and the move to the next record once a `push` returns `true`. -/
def ringFeedStep (p : RingState) : RingState :=
  match p.feed with
  | [] => p
  | cmd :: rest =>
    let i := cmd.symbolId.toNat
    if n ≤ i then { p with feed := rest }
    else
      let r := SPSCQueue.producerStep queueBits (p.inputs i) cmd
      match r.2 with
      | some (.push _ true) => { p with feed := rest, inputs := writeSlot p.inputs i r.1 }
      | _ => { p with inputs := writeSlot p.inputs i r.1 }

/-- One statement of `MatchingEngine::run` for engine `i` (matching_engine.cpp:26–73): with an
event left to push, the next statement of `push(evt)` on its output ring, and the event dropped
once the `push` returns `true`; with none, the next statement of `pop(cmd)` on its input ring,
and the command run through the book once the `pop` returns it. -/
def ringEngineStep (p : RingState) (i : Nat) : RingState :=
  match p.pending i with
  | e :: es =>
    let r := SPSCQueue.producerStep queueBits (p.outputs i) e
    match r.2 with
    | some (.push _ true) =>
      { p with pending := writeSlot p.pending i es, outputs := writeSlot p.outputs i r.1 }
    | _ => { p with outputs := writeSlot p.outputs i r.1 }
  | [] =>
    let r := SPSCQueue.consumerStep queueBits (p.inputs i)
    match r.2 with
    | some (.pop (some cmd)) =>
      let x := MatchingEngine.processCommand (p.books i) cmd
      { p with inputs := writeSlot p.inputs i r.1, books := writeSlot p.books i x.1,
               pending := writeSlot p.pending i x.2 }
    | _ => { p with inputs := writeSlot p.inputs i r.1 }

/-- One statement of `Publisher::run` (publisher.cpp:28–62) over `n` queues: the next statement
of `pop(evt)` on the polled ring, the write of the event it returns, or, once it returns
`false`, the move to the next ring. -/
def ringPublisherStep (p : RingState) : RingState :=
  let r := SPSCQueue.consumerStep queueBits (p.outputs p.cursor)
  match r.2 with
  | some (.pop (some e)) =>
    { p with outputs := writeSlot p.outputs p.cursor r.1, written := p.written ++ [e] }
  | some (.pop none) =>
    { p with outputs := writeSlot p.outputs p.cursor r.1, cursor := (p.cursor + 1) % n }
  | _ => { p with outputs := writeSlot p.outputs p.cursor r.1 }

/-- One statement of the chosen thread; there is no engine `i` for `i ≥ n`. -/
def ringStep (p : RingState) : Thread → RingState
  | .feedHandler => ringFeedStep n p
  | .engine i => if i < n then ringEngineStep p i else p
  | .publisher => ringPublisherStep n p

/-- An interleaving: the threads' statements in the order `ts` chooses them. -/
def ringRun (p : RingState) (ts : List Thread) : RingState := ts.foldl (ringStep n) p

/-- The FIFO process the rings implement: each ring read as its contents. -/
def RingState.queues (p : RingState) : State :=
  ⟨p.feed, fun i => contents (p.inputs i), p.books, p.pending, fun i => contents (p.outputs i),
    p.cursor, p.written⟩

/-! ## The invariant of the ring process -/

section Invariant

/-- What holds of the ring process at every step: every ring has the ring's invariant; an input
ring's producer is inside a `push` only of the record at the front of the feed, on the ring of
its symbol, which has a queue; an output ring's producer is inside a `push` only of its engine's
next event. -/
structure RingInv (p : RingState) : Prop where
  inputs : ∀ i, SPSCQueue.Inv queueBits (p.inputs i)
  outputs : ∀ i, SPSCQueue.Inv queueBits (p.outputs i)
  feeding : ∀ i v, (p.inputs i).producer.item? = some v →
    p.feed.head? = some v ∧ v.symbolId.toNat = i ∧ i < n
  pushing : ∀ i v, (p.outputs i).producer.item? = some v → (p.pending i).head? = some v

variable (band : PriceBand) (clocks : Nat → Clock) (file : List OrderCommand)
  (fillIn : Nat → Nat → OrderCommand) (fillOut : Nat → Nat → BookEvent)

theorem ringInv_init : RingInv n (ringInit band clocks file fillIn fillOut) :=
  ⟨fun _ => SPSCQueue.inv_init _ _, fun _ => SPSCQueue.inv_init _ _,
    fun _ _ h => Option.noConfusion h, fun _ _ h => Option.noConfusion h⟩

theorem queues_ringInit :
    (ringInit band clocks file fillIn fillOut).queues = init band clocks file := rfl

variable {n} {p : RingState}

/-- Replacing one ring of a family that has the invariant by one that has it. -/
theorem inv_writeSlot {α : Type} {f : Nat → SPSCQueue.State α}
    (hf : ∀ i, SPSCQueue.Inv queueBits (f i)) {j : Nat} {q : SPSCQueue.State α}
    (hq : SPSCQueue.Inv queueBits q) (i : Nat) : SPSCQueue.Inv queueBits (writeSlot f j q i) := by
  simp only [writeSlot_apply]
  split
  exacts [hq, hf i]

/-- Reading a family with one ring replaced through the rings' contents. -/
theorem contents_writeSlot {α : Type} (f : Nat → SPSCQueue.State α) (j : Nat)
    (q : SPSCQueue.State α) :
    (fun i => contents (writeSlot f j q i)) = writeSlot (fun i => contents (f i)) j (contents q) := by
  funext i
  simp only [writeSlot_apply]
  split <;> rfl

theorem writeSlot_eq_self {α : Type} {f : Nat → α} {j : Nat} {v : α} (h : f j = v) :
    writeSlot f j v = f := by
  funext i
  simp only [writeSlot_apply]
  split <;> simp_all

/-- A producer about to push `item` on a ring where the invariant names `item` as the call's
item pushes `item`. -/
theorem item_getD {α : Type} {q : SPSCQueue.State α} {item : α}
    (h : ∀ v, q.producer.item? = some v → v = item) : q.producer.item?.getD item = item := by
  cases hq : q.producer.item? with
  | none => rfl
  | some v => exact h v hq

/-- A consumer statement on ring `j` leaves the producer of every ring where it was. -/
theorem item_writeSlot_consumerStep {α : Type} (f : Nat → SPSCQueue.State α) (j i : Nat) :
    (writeSlot f j (SPSCQueue.consumerStep queueBits (f j)).1 i).producer.item? =
      (f i).producer.item? := by
  simp only [writeSlot_apply]
  split_ifs with hi
  · rw [hi, (SPSCQueue.consumerStep_cases queueBits (f j)).1]
  · rfl

/-- A ring whose producer is idle is inside no push: an item after writing it into slot `j` is
another ring's. -/
theorem item_writeSlot_idle {α : Type} {f : Nat → SPSCQueue.State α} {j : Nat}
    {q : SPSCQueue.State α} (hq : q.producer = .idle) {i : Nat} {v : α}
    (hv : (writeSlot f j q i).producer.item? = some v) : i ≠ j ∧ (f i).producer.item? = some v := by
  simp only [writeSlot_apply] at hv
  split_ifs at hv with hi
  · simp [hq, SPSCQueue.Producer.item?] at hv
  · exact ⟨hi, hv⟩

theorem ringFeedStep_sim (h : RingInv n p) :
    RingInv n (ringFeedStep n p) ∧
      ((ringFeedStep n p).queues = p.queues ∨ (ringFeedStep n p).queues = feedStep n p.queues) := by
  unfold ringFeedStep
  split
  · exact ⟨h, .inl rfl⟩
  next cmd rest hfeed =>
  dsimp only
  split_ifs with hn
  · -- no queue for the symbol: no input ring's producer is inside a push
    refine ⟨⟨h.inputs, h.outputs, fun i v hv => ?_, h.pushing⟩, .inr ?_⟩
    · obtain ⟨hv', rfl, hi⟩ := h.feeding i v hv
      simp only [hfeed, List.head?_cons, Option.some.injEq] at hv'
      subst hv'
      omega
    · simp [RingState.queues, feedStep, hfeed, hn]
  set i := cmd.symbolId.toNat
  set r := SPSCQueue.producerStep queueBits (p.inputs i) cmd with hr
  have hs : SPSCQueue.FifoStep queueCap (contents (p.inputs i)) r.2 (contents r.1) :=
    SPSCQueue.step_refines (h.inputs i) (.producer cmd)
  have hI : ∀ j, SPSCQueue.Inv queueBits (writeSlot p.inputs i r.1 j) :=
    inv_writeSlot h.inputs (SPSCQueue.inv_step (h.inputs i) (.producer cmd))
  -- the push the ring is inside, if any, is of this record
  have hitem := item_getD fun v hv => by
    simpa [hfeed] using ((h.feeding i v hv).1).symm
  have hother : ∀ j v, (p.inputs j).producer.item? = some v → j = i := fun j v hv => by
    obtain ⟨hv', hj, -⟩ := h.feeding j v hv
    simp only [hfeed, List.head?_cons, Option.some.injEq] at hv'
    rw [← hj, ← hv']
  rcases SPSCQueue.producerStep_cases queueBits (p.inputs i) cmd with ⟨hnone, hcall⟩ | ⟨ok, hout, hidle⟩
  · -- a statement inside the push
    rw [← hr] at hnone hcall
    rw [hnone] at hs ⊢
    refine ⟨⟨hI, h.outputs, fun j v hv => ?_, h.pushing⟩, .inl ?_⟩
    · simp only [writeSlot_apply] at hv
      split_ifs at hv with hj
      · rw [hitem, hv] at hcall
        cases hcall
        exact ⟨by simp [hfeed], hj ▸ rfl, hj ▸ by omega⟩
      · exact h.feeding j v hv
    · simp only [RingState.queues, contents_writeSlot, hs.eq_of_none, writeSlot_eq_self]
  · rw [← hr, hitem] at hout
    rw [← hr] at hidle
    rw [hout] at hs ⊢
    have hfree : ∀ j v, (writeSlot p.inputs i r.1 j).producer.item? = some v → False :=
      fun j v hv => (item_writeSlot_idle hidle hv).1 (hother j v (item_writeSlot_idle hidle hv).2)
    cases ok
    · -- refused: the ring is full and the record is pushed again
      obtain ⟨-, hc⟩ := hs.of_full
      refine ⟨⟨hI, h.outputs, fun j v hv => (hfree j v hv).elim, h.pushing⟩, .inl ?_⟩
      simp only [RingState.queues, contents_writeSlot, hc, writeSlot_eq_self]
    · -- pushed: the feed handler moves to the next record
      obtain ⟨hroom, hc⟩ := hs.of_pushed
      refine ⟨⟨hI, h.outputs, fun j v hv => (hfree j v hv).elim, h.pushing⟩, .inr ?_⟩
      simp only [RingState.queues, feedStep, hfeed, hn, hroom, contents_writeSlot, hc, if_false,
        if_true]

theorem ringEngineStep_sim (h : RingInv n p) (j : Nat) :
    RingInv n (ringEngineStep p j) ∧
      ((ringEngineStep p j).queues = p.queues ∨ (ringEngineStep p j).queues = engineStep p.queues j) := by
  unfold ringEngineStep
  split
  next e es hpend =>
    dsimp only
    set r := SPSCQueue.producerStep queueBits (p.outputs j) e with hr
    have hs : SPSCQueue.FifoStep queueCap (contents (p.outputs j)) r.2 (contents r.1) :=
      SPSCQueue.step_refines (h.outputs j) (.producer e)
    have hI : ∀ i, SPSCQueue.Inv queueBits (writeSlot p.outputs j r.1 i) :=
      inv_writeSlot h.outputs (SPSCQueue.inv_step (h.outputs j) (.producer e))
    -- the push the ring is inside, if any, is of this event
    have hitem := item_getD fun v hv => by simpa [hpend] using (h.pushing j v hv).symm
    rcases SPSCQueue.producerStep_cases queueBits (p.outputs j) e with ⟨hnone, hcall⟩ | ⟨ok, hout, hidle⟩
    · -- a statement inside the push
      rw [← hr] at hnone hcall
      rw [hnone] at hs ⊢
      refine ⟨⟨h.inputs, hI, h.feeding, fun i v hv => ?_⟩, .inl ?_⟩
      · simp only [writeSlot_apply] at hv
        split_ifs at hv with hi
        · rw [hitem, hv] at hcall
          cases hcall
          simp [hi, hpend]
        · exact h.pushing i v hv
      · simp only [RingState.queues, contents_writeSlot, hs.eq_of_none, writeSlot_eq_self]
    · rw [← hr, hitem] at hout
      rw [← hr] at hidle
      rw [hout] at hs ⊢
      cases ok
      · -- refused: the output ring is full and the event is pushed again
        obtain ⟨-, hc⟩ := hs.of_full
        refine ⟨⟨h.inputs, hI, h.feeding, fun i v hv => h.pushing i v (item_writeSlot_idle hidle hv).2⟩,
          .inl ?_⟩
        simp only [RingState.queues, contents_writeSlot, hc, writeSlot_eq_self]
      · -- pushed: the engine drops the event
        obtain ⟨hroom, hc⟩ := hs.of_pushed
        refine ⟨⟨h.inputs, hI, h.feeding, fun i v hv => ?_⟩, .inr ?_⟩
        · obtain ⟨hi, hv⟩ := item_writeSlot_idle hidle hv
          simpa [writeSlot_apply, hi] using h.pushing i v hv
        · simp only [RingState.queues, engineStep, hpend, hroom, contents_writeSlot, hc, if_true]
  next hpend =>
    dsimp only
    set r := SPSCQueue.consumerStep queueBits (p.inputs j) with hr
    have hs : SPSCQueue.FifoStep queueCap (contents (p.inputs j)) r.2 (contents r.1) :=
      SPSCQueue.step_refines (h.inputs j) .consumer
    obtain ⟨-, hout⟩ := SPSCQueue.consumerStep_cases queueBits (p.inputs j)
    rw [← hr] at hout
    -- a consumer statement leaves every input ring's producer where it was
    have hI : RingInv n { p with inputs := writeSlot p.inputs j r.1 } :=
      ⟨inv_writeSlot h.inputs (SPSCQueue.inv_step (h.inputs j) .consumer), h.outputs,
        fun i v hv => h.feeding i v ((item_writeSlot_consumerStep p.inputs j i).symm.trans hv),
        h.pushing⟩
    rcases hout with hnone | ⟨c, hc⟩
    · -- a statement inside the pop
      rw [hnone] at hs ⊢
      exact ⟨hI, .inl (by simp only [RingState.queues, contents_writeSlot, hs.eq_of_none,
        writeSlot_eq_self])⟩
    rw [hc] at hs ⊢
    cases c with
    | none =>
      -- the input ring is empty
      obtain ⟨h₁, h₂⟩ := hs.of_empty
      exact ⟨hI, .inl (by simp only [RingState.queues, contents_writeSlot, h₁, h₂,
        writeSlot_eq_self])⟩
    | some cmd =>
      -- popped: the engine runs the command; its output ring's producer is idle
      have hidle : ∀ v, (p.outputs j).producer.item? = some v → False := fun v hv => by
        simpa [hpend] using h.pushing j v hv
      refine ⟨⟨hI.inputs, h.outputs, hI.feeding, fun i v hv => ?_⟩, .inr ?_⟩
      · simp only [writeSlot_apply]
        split_ifs with hi
        · exact (hidle v (hi ▸ hv)).elim
        · exact h.pushing i v hv
      · simp only [RingState.queues, engineStep, hpend, hs.of_popped, contents_writeSlot]

theorem ringPublisherStep_sim (h : RingInv n p) :
    RingInv n (ringPublisherStep n p) ∧
      ((ringPublisherStep n p).queues = p.queues ∨
        (ringPublisherStep n p).queues = publisherStep n p.queues) := by
  unfold ringPublisherStep
  dsimp only
  set r := SPSCQueue.consumerStep queueBits (p.outputs p.cursor) with hr
  have hs : SPSCQueue.FifoStep queueCap (contents (p.outputs p.cursor)) r.2 (contents r.1) :=
    SPSCQueue.step_refines (h.outputs p.cursor) .consumer
  obtain ⟨-, hout⟩ := SPSCQueue.consumerStep_cases queueBits (p.outputs p.cursor)
  rw [← hr] at hout
  -- a consumer statement leaves every output ring's producer where it was
  have hI : RingInv n { p with outputs := writeSlot p.outputs p.cursor r.1 } :=
    ⟨h.inputs, inv_writeSlot h.outputs (SPSCQueue.inv_step (h.outputs p.cursor) .consumer),
      h.feeding, fun i v hv => h.pushing i v ((item_writeSlot_consumerStep p.outputs p.cursor i).symm.trans hv)⟩
  rcases hout with hnone | ⟨c, hc⟩
  · -- a statement inside the pop
    rw [hnone] at hs ⊢
    exact ⟨hI, .inl (by simp only [RingState.queues, contents_writeSlot, hs.eq_of_none,
      writeSlot_eq_self])⟩
  rw [hc] at hs ⊢
  cases c with
  | none =>
    -- the polled ring is empty: the publisher moves to the next one
    obtain ⟨h₁, h₂⟩ := hs.of_empty
    exact ⟨⟨hI.1, hI.2, hI.3, hI.4⟩, .inr (by
      simp only [RingState.queues, publisherStep, contents_writeSlot, h₁, h₂,
        writeSlot_eq_self])⟩
  | some e =>
    -- popped: the publisher writes the event
    exact ⟨⟨hI.1, hI.2, hI.3, hI.4⟩, .inr (by
      simp only [RingState.queues, publisherStep, hs.of_popped, contents_writeSlot])⟩

/-- **Each statement of the ring process is a step of the FIFO process or none.** From every
state with the invariant, a statement of any thread keeps the invariant, and the rings read as
their contents either stay as they were or take the step of the same thread of the FIFO
process: the statement that completes a call is the FIFO step of that call. -/
theorem ringStep_sim (h : RingInv n p) : ∀ th : Thread,
    RingInv n (ringStep n p th) ∧
      ((ringStep n p th).queues = p.queues ∨ (ringStep n p th).queues = step n p.queues th)
  | .feedHandler => ringFeedStep_sim h
  | .engine j => by
    by_cases hj : j < n
    · simpa [ringStep, step, hj] using ringEngineStep_sim h j
    · simpa [ringStep, step, hj] using h
  | .publisher => ringPublisherStep_sim h

/-- Every interleaving of statements from a state with the invariant keeps it, and is read as the
FIFO process's run over a sublist of the same threads. -/
theorem ringRun_sim (ts : List Thread) (h : RingInv n p) :
    RingInv n (ringRun n p ts) ∧ ∃ ts', ts'.Sublist ts ∧ (ringRun n p ts).queues = run n p.queues ts' := by
  induction ts generalizing p with
  | nil => exact ⟨h, [], .slnil, rfl⟩
  | cons th ts ih =>
    obtain ⟨hstep, hsim⟩ := ringStep_sim h th
    obtain ⟨hrun, ts', hsub, heq⟩ := ih hstep
    refine ⟨hrun, ?_⟩
    rcases hsim with hst | hst
    · -- the statement completes no call the FIFO process sees
      exact ⟨ts', hsub.cons th, by rw [← hst]; exact heq⟩
    · exact ⟨th :: ts', hsub.cons₂ th, by rw [run, List.foldl_cons, ← hst]; exact heq⟩

end Invariant

/-! ## The rings refine the FIFO process -/

section Refinement

variable {n : Nat} {band : PriceBand} {clocks : Nat → Clock} {file : List OrderCommand}
  {fillIn : Nat → Nat → OrderCommand} {fillOut : Nat → Nat → BookEvent}

/-- **The process over the SPSC rings refines the process over FIFO queues.** After every
interleaving `ts` of the threads' statements from the start, whatever the rings' slots held,
the feed, the books, the pending events, the polled queue, what was written and the contents
of every input and output ring are those of the FIFO process after the steps of a sublist of
`ts`: each thread's calls take effect, in order, at the statements that complete them. -/
theorem ringRun_refines_run (ts : List Thread) :
    ∃ ts', ts'.Sublist ts ∧
      (ringRun n (ringInit band clocks file fillIn fillOut) ts).queues = run n (init band clocks file) ts' :=
  (ringRun_sim ts (ringInv_init n band clocks file fillIn fillOut)).2

/-- After every interleaving of the ring process, what has been written for a symbol with a
queue is a prefix of what a lone engine emits over a prefix of the file's commands for that
symbol, and the symbol's book is the one it reaches: the FIFO process's lanes, read through the
refinement. -/
theorem ring_published_prefix (ts : List Thread) {s : SymbolId} (hs : s.toNat < n) :
    ∃ done, done <+: file.filter (fun c => c.symbolId = s) ∧
      (ringRun n (ringInit band clocks file fillIn fillOut) ts).books s.toNat =
        (MatchingEngine.run (engineBook band clocks s.toNat) done).1 ∧
      (ringRun n (ringInit band clocks file fillIn fillOut) ts).written.filter
          (fun e => e.symbolId = s) <+:
        (MatchingEngine.run (engineBook band clocks s.toNat) done).2 := by
  obtain ⟨-, ts', -, heq⟩ := ringRun_sim ts (ringInv_init n band clocks file fillIn fillOut)
  have h := (inv_run ts' (inv_init n band clocks file)).written_upTo hs
  rw [queues_ringInit] at heq
  rwa [← heq] at h

end Refinement

end Pipeline

end HyperliquidEngine
