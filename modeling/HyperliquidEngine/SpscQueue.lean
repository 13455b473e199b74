import HyperliquidEngine.Types
import Mathlib.Data.Nat.ModEq

/-!
# The SPSC ring (spsc_queue.h)

`SPSCQueue<T, N>` is a ring of `N = 2^k` slots shared by one producer and one consumer
through two indices, `head_` (written by the consumer) and `tail_` (written by the
producer). Under sequential consistency each call is a sequence of atomic steps:

- `push(item)`: load `tail_`, load `head_` (and return `false` if the ring is full), write
  `buffer_[tail]`, store `tail_`;
- `pop(item)`: load `head_`, load `tail_` (and return `false` if the ring is empty), read
  `buffer_[head]`, store `head_`.

`State` holds the shared words, each thread's position inside its current call, and two
ghost histories: the items of the pushes whose `tail_` store has happened and of the pops
whose `head_` store has happened. `step` runs one statement of either thread, so `run`
over a list of thread choices is an arbitrary interleaving.

The abstract model is a bounded FIFO of capacity `N - 1` (`FifoStep`): each ring step is a
stutter, an enqueue at the `tail_` store, a dequeue of the front item at the `head_` store,
or a failed call on a full or an empty queue. `step_refines` proves the ring refines it
from every state with the invariant `Inv`, which `inv_step` keeps; `lossless_fifo` collects
what follows for every interleaving. `size_empty_run` checks the ring's own queries `size()`
and `empty()` against the queue's contents.
-/

namespace HyperliquidEngine

namespace SPSCQueue

/-- Where the producer is inside `push(item)`: before its first statement, after loading
`tail_` (`current_tail`), after finding room, after writing the slot. -/
inductive Producer (α : Type) where
  | idle
  | loadedTail (item : α) (currentTail : Nat)
  | checked (item : α) (currentTail : Nat)
  | wrote (item : α) (currentTail : Nat)
  deriving DecidableEq, Repr

/-- Where the consumer is inside `pop(item)`: before its first statement, after loading
`head_` (`current_head`), after finding an item, after reading the slot. -/
inductive Consumer (α : Type) where
  | idle
  | loadedHead (currentHead : Nat)
  | checked (currentHead : Nat)
  | read (currentHead : Nat) (item : α)
  deriving DecidableEq, Repr

/-- The ring `SPSCQueue<T, N>` (spsc_queue.h:13–76) with its two threads: `head_`, `tail_`,
`buffer_` as a function of the slot, the threads' positions, and the ghost histories of
completed pushes and pops. -/
structure State (α : Type) where
  head : Nat
  tail : Nat
  buffer : Nat → α
  producer : Producer α
  consumer : Consumer α
  pushed : List α
  popped : List α

/-- The result of a completed call. -/
inductive Outcome (α : Type) where
  | push (item : α) (ok : Bool)
  | pop (item : Option α)
  deriving DecidableEq, Repr

/-- The thread that takes the next step; an idle producer starts `push(item)`. -/
inductive Thread (α : Type) where
  | producer (item : α)
  | consumer
  deriving DecidableEq, Repr

variable {α : Type} (k : Nat)

/-- `MASK = N - 1` for `N = 2^k`. -/
def mask : Nat := 2 ^ k - 1

/-- The next statement of the producer (spsc_queue.h:35–43). -/
def producerStep (q : State α) (item : α) : State α × Option (Outcome α) :=
  match q.producer with
  | .idle => ({ q with producer := .loadedTail item q.tail }, none)
  | .loadedTail v ct =>
    if (ct + 1) &&& mask k = q.head then ({ q with producer := .idle }, some (.push v false))
    else ({ q with producer := .checked v ct }, none)
  | .checked v ct => ({ q with buffer := writeSlot q.buffer ct v, producer := .wrote v ct }, none)
  | .wrote v ct =>
    ({ q with tail := (ct + 1) &&& mask k, producer := .idle, pushed := q.pushed ++ [v] },
      some (.push v true))

/-- The next statement of the consumer (spsc_queue.h:45–52). -/
def consumerStep (q : State α) : State α × Option (Outcome α) :=
  match q.consumer with
  | .idle => ({ q with consumer := .loadedHead q.head }, none)
  | .loadedHead ch =>
    if ch = q.tail then ({ q with consumer := .idle }, some (.pop none))
    else ({ q with consumer := .checked ch }, none)
  | .checked ch => ({ q with consumer := .read ch (q.buffer ch) }, none)
  | .read ch v =>
    ({ q with head := (ch + 1) &&& mask k, consumer := .idle, popped := q.popped ++ [v] },
      some (.pop (some v)))

/-- One step of the interleaving: a statement of the chosen thread, and the result of the
call it completes, if any. -/
def step (q : State α) : Thread α → State α × Option (Outcome α)
  | .producer item => producerStep k q item
  | .consumer => consumerStep k q

/-- An interleaving: the steps of the threads in the order `ts` chooses them, and the
results of the calls they complete. -/
def run (q : State α) : List (Thread α) → State α × List (Outcome α)
  | [] => (q, [])
  | th :: ts =>
    let r := step k q th
    let r' := run r.1 ts
    (r'.1, r.2.toList ++ r'.2)

/-- The constructor `SPSCQueue()`: both indices `0`; the slots hold whatever `fill` says. -/
def init (fill : Nat → α) : State α := ⟨0, 0, fill, .idle, .idle, [], []⟩

/-- The item of the `push` the producer is inside, if any. -/
def Producer.item? : Producer α → Option α
  | .idle => none
  | .loadedTail v _ => some v
  | .checked v _ => some v
  | .wrote v _ => some v

/-- A producer statement goes on with the `push` it is inside, on the item that call started
with (`item` for a call it starts), or completes that call and leaves the producer idle. -/
theorem producerStep_cases (q : State α) (item : α) :
    (producerStep k q item).2 = none ∧
        (producerStep k q item).1.producer.item? = some (q.producer.item?.getD item) ∨
      ∃ ok, (producerStep k q item).2 = some (.push (q.producer.item?.getD item) ok) ∧
        (producerStep k q item).1.producer = .idle := by
  unfold producerStep
  split <;> (try split_ifs) <;> simp_all [Producer.item?]

/-- A consumer statement leaves the producer where it is and completes nothing but a `pop`. -/
theorem consumerStep_cases (q : State α) :
    (consumerStep k q).1.producer = q.producer ∧
      ((consumerStep k q).2 = none ∨ ∃ r, (consumerStep k q).2 = some (.pop r)) := by
  unfold consumerStep
  split <;> (try split_ifs) <;> simp

/-! ## The abstract queue -/

/-- The items in the queue: pushed (their `tail_` store done) and not yet popped. -/
def contents (q : State α) : List α := q.pushed.drop q.popped.length

/-- One step of a FIFO queue of capacity `cap`, from contents `c` to `c'`, with the result
`o` of the call it completes: nothing, a successful push at the back of a queue with room, a
successful pop from the front, a push refused when full, or a pop refused when empty. -/
inductive FifoStep (cap : Nat) : List α → Option (Outcome α) → List α → Prop where
  | stutter (c : List α) : FifoStep cap c none c
  | push (c : List α) (v : α) : c.length < cap → FifoStep cap c (some (.push v true)) (c ++ [v])
  | pop (v : α) (c : List α) : FifoStep cap (v :: c) (some (.pop (some v))) c
  | full (c : List α) (v : α) : c.length = cap → FifoStep cap c (some (.push v false)) c
  | empty : FifoStep cap [] (some (.pop none)) []

/-- The items of the successful pushes among a list of results. -/
def pushedItems (os : List (Outcome α)) : List α :=
  os.filterMap fun | .push v true => some v | _ => none

/-- The items of the successful pops among a list of results. -/
def poppedItems (os : List (Outcome α)) : List α :=
  os.filterMap fun | .pop r => r | _ => none

/-- A FIFO step moves exactly the items its result reports: what leaves at the front, then
what is left, is what was there, then what joined at the back. -/
theorem FifoStep.balance {cap : Nat} {c c' : List α} {o : Option (Outcome α)}
    (h : FifoStep cap c o c') : poppedItems o.toList ++ c' = c ++ pushedItems o.toList := by
  cases h <;> simp [pushedItems, poppedItems]

/-! ## The invariant -/

/-- The number of items in the queue. -/
def count (q : State α) : Nat := q.pushed.length - q.popped.length

/-- What the producer's position says about the shared state. -/
def ProducerOk (q : State α) : Prop :=
  match q.producer with
  | .idle => True
  | .loadedTail _ ct => ct = q.tail
  | .checked _ ct => ct = q.tail ∧ count q + 1 < 2 ^ k
  | .wrote v ct => ct = q.tail ∧ count q + 1 < 2 ^ k ∧ q.buffer ct = v

/-- What the consumer's position says about the shared state. -/
def ConsumerOk (q : State α) : Prop :=
  match q.consumer with
  | .idle => True
  | .loadedHead ch => ch = q.head
  | .checked ch => ch = q.head ∧ 0 < count q
  | .read ch v => ch = q.head ∧ 0 < count q ∧ q.pushed[q.popped.length]? = some v

/-- The ring's invariant: the pops are a prefix of the pushes, at most `N - 1` items are in
the queue, `tail_` is `head_` plus their number, and the slots from `head_` on hold them in
order. -/
structure Inv (q : State α) : Prop where
  head_lt : q.head < 2 ^ k
  prefix_pushed : q.popped <+: q.pushed
  count_lt : count q < 2 ^ k
  tail_eq : q.tail = (q.head + count q) % 2 ^ k
  buffer_eq : ∀ i < count q, q.pushed[q.popped.length + i]? = some (q.buffer ((q.head + i) % 2 ^ k))
  producer_ok : ProducerOk k q
  consumer_ok : ConsumerOk q

theorem inv_init (fill : Nat → α) : Inv k (init fill) :=
  ⟨Nat.two_pow_pos k, List.nil_prefix, by simp [count, init], by simp [count, init],
    by simp [count, init], trivial, trivial⟩

/-- Two offsets below `N` from the same slot reach the same slot only if they are equal. -/
theorem mod_add_inj {n h a b : Nat} (ha : a < n) (hb : b < n) (he : (h + a) % n = (h + b) % n) :
    a = b :=
  Nat.ModEq.eq_of_lt_of_lt (Nat.ModEq.add_left_cancel' h he) ha hb

@[simp] theorem and_mask (x : Nat) : x &&& mask k = x % 2 ^ k := Nat.and_pow_two_sub_one_eq_mod x k

section Steps

variable {k} {q : State α}

/-- The producer's step keeps the invariant. -/
theorem inv_producerStep (hq : Inv k q) (item : α) : Inv k (producerStep k q item).1 := by
  have hlen := hq.prefix_pushed.length_le
  have hpo := hq.producer_ok
  unfold producerStep
  split
  · exact { hq with producer_ok := show q.tail = q.tail from rfl }
  · next v ct hst =>
    have hct : ct = q.tail := by simpa [ProducerOk, hst] using hpo
    split_ifs with hfull
    · exact { hq with producer_ok := trivial }
    · refine { hq with producer_ok := show ct = q.tail ∧ count q + 1 < 2 ^ k from ⟨hct, ?_⟩ }
      -- `tail_ + 1` is not `head_`, so the queue is not full
      by_contra hroom
      have hcnt : count q + 1 = 2 ^ k := by have := hq.count_lt; omega
      rw [and_mask, hct, hq.tail_eq, Nat.mod_add_mod, add_assoc, hcnt, Nat.add_mod_right,
        Nat.mod_eq_of_lt hq.head_lt] at hfull
      exact hfull rfl
  · next v ct hst =>
    obtain ⟨rfl, hroom⟩ : ct = q.tail ∧ count q + 1 < 2 ^ k := by simpa [ProducerOk, hst] using hpo
    refine { hq with
      buffer_eq := fun i hi => ?_
      producer_ok := show q.tail = q.tail ∧ count q + 1 < 2 ^ k ∧ writeSlot q.buffer q.tail v q.tail = v
        from ⟨rfl, hroom, by simp⟩ }
    -- the written slot, `tail_ = head_ + count`, holds no item of the queue
    change i < count q at hi
    have hne : (q.head + i) % 2 ^ k ≠ q.tail := by
      rw [hq.tail_eq]
      exact fun he => absurd (mod_add_inj (by omega) (by omega) he) (by omega)
    simpa [hne] using hq.buffer_eq i hi
  · next v ct hst =>
    obtain ⟨rfl, hroom, hv⟩ : ct = q.tail ∧ count q + 1 < 2 ^ k ∧ q.buffer ct = v := by
      simpa [ProducerOk, hst] using hpo
    have hco := hq.consumer_ok
    refine ⟨hq.head_lt, hq.prefix_pushed.trans (List.prefix_append _ _), ?_, ?_, ?_, trivial, ?_⟩ <;>
      simp only [count, List.length_append, List.length_singleton] at hroom ⊢
    · omega
    · rw [and_mask, hq.tail_eq, Nat.mod_add_mod, add_assoc]
      congr 2; unfold count; omega
    · -- the slots keep the old items, and the written slot holds the new one
      intro i hi
      rcases Nat.lt_or_ge i (count q) with hi' | hi'
      · rw [List.getElem?_append_left (by unfold count at hi'; omega)]
        exact hq.buffer_eq i hi'
      · obtain rfl : i = count q := by unfold count at hi' ⊢; omega
        rw [List.getElem?_append_right (by unfold count; omega), ← hq.tail_eq, hv]
        simp [count, Nat.add_sub_cancel' hlen]
    · -- the consumer's view only gains an item
      cases hc : q.consumer <;> simp only [ConsumerOk, hc, count, List.length_append,
        List.length_singleton] at hco ⊢
      · exact hco
      · exact ⟨hco.1, by omega⟩
      · refine ⟨hco.1, by omega, ?_⟩
        rw [List.getElem?_append_left (by omega)]
        exact hco.2.2

/-- The consumer's step keeps the invariant. -/
theorem inv_consumerStep (hq : Inv k q) : Inv k (consumerStep k q).1 := by
  have hlen := hq.prefix_pushed.length_le
  have hco := hq.consumer_ok
  unfold consumerStep
  split
  · exact { hq with consumer_ok := show q.head = q.head from rfl }
  · next ch hst =>
    have hch : ch = q.head := by simpa [ConsumerOk, hst] using hco
    split_ifs with hempty
    · exact { hq with consumer_ok := trivial }
    · -- `tail_` is not `head_`, so the queue is not empty
      refine { hq with consumer_ok := show ch = q.head ∧ 0 < count q from ⟨hch, ?_⟩ }
      refine Nat.pos_of_ne_zero fun h0 => hempty ?_
      rw [hch, hq.tail_eq, h0, add_zero, Nat.mod_eq_of_lt hq.head_lt]
  · next ch hst =>
    obtain ⟨rfl, hpos⟩ : ch = q.head ∧ 0 < count q := by simpa [ConsumerOk, hst] using hco
    refine { hq with consumer_ok := show q.head = q.head ∧ 0 < count q ∧
      q.pushed[q.popped.length]? = some (q.buffer q.head) from ⟨rfl, hpos, ?_⟩ }
    simpa [Nat.mod_eq_of_lt hq.head_lt] using hq.buffer_eq 0 hpos
  · next ch v hst =>
    obtain ⟨rfl, hpos, hv⟩ : ch = q.head ∧ 0 < count q ∧ q.pushed[q.popped.length]? = some v := by
      simpa [ConsumerOk, hst] using hco
    have hlt : q.popped.length < q.pushed.length := by unfold count at hpos; omega
    -- the popped item is the next pushed one
    have hp : q.popped ++ [v] <+: q.pushed := by
      obtain ⟨rest, hrest⟩ := hq.prefix_pushed
      rw [← hrest] at hv hlt ⊢
      cases rest with
      | nil => simp at hlt
      | cons w rest =>
        simp only [List.getElem?_append_right le_rfl, Nat.sub_self, List.getElem?_cons_zero,
          Option.some.injEq] at hv
        exact ⟨rest, by simp [hv]⟩
    have hpo := hq.producer_ok
    refine ⟨by dsimp only; rw [and_mask]; exact Nat.mod_lt _ (Nat.two_pow_pos k), hp, ?_, ?_, ?_, ?_,
      trivial⟩ <;>
      simp only [count, List.length_append, List.length_singleton] at hpos ⊢
    · have := hq.count_lt; unfold count at this; omega
    · rw [and_mask, Nat.mod_add_mod, hq.tail_eq, count]
      congr 1; omega
    · intro i hi
      have := hq.buffer_eq (i + 1) (by unfold count; omega)
      rw [and_mask, Nat.mod_add_mod]
      rwa [show q.head + 1 + i = q.head + (i + 1) by omega,
        show q.popped.length + 1 + i = q.popped.length + (i + 1) by omega]
    · -- the producer's view only loses an item
      cases hpr : q.producer <;> simp only [ProducerOk, hpr, count, List.length_append,
        List.length_singleton] at hpo ⊢
      · exact hpo
      · exact ⟨hpo.1, by omega⟩
      · exact ⟨hpo.1, by omega, hpo.2.2⟩

/-- **Every step keeps the invariant.** -/
theorem inv_step (hq : Inv k q) : ∀ th : Thread α, Inv k (step k q th).1
  | .producer item => inv_producerStep hq item
  | .consumer => inv_consumerStep hq

/-- The queue holds `count` items. -/
theorem length_contents (q : State α) : (contents q).length = count q := by
  simp [contents, count]

/-- A full ring: the producer's check `(tail_ + 1) & MASK == head_` holds only when the queue
holds `N - 1` items. -/
theorem count_of_full (hq : Inv k q) (hfull : (q.tail + 1) &&& mask k = q.head) :
    count q = 2 ^ k - 1 := by
  have hc := hq.count_lt
  by_contra hne
  have h0 := mod_add_inj (n := 2 ^ k) (h := q.head) (a := count q + 1) (b := 0) (by omega)
    (Nat.two_pow_pos k) (by rwa [add_zero, Nat.mod_eq_of_lt hq.head_lt, ← add_assoc,
      ← Nat.mod_add_mod, ← hq.tail_eq, ← and_mask])
  omega

/-- An empty ring: the consumer's check `head_ == tail_` holds only when the queue is empty. -/
theorem count_of_empty (hq : Inv k q) (hempty : q.head = q.tail) : count q = 0 :=
  mod_add_inj (h := q.head) hq.count_lt (Nat.two_pow_pos k)
    (by rw [← hq.tail_eq, add_zero, Nat.mod_eq_of_lt hq.head_lt]; exact hempty.symm)

/-- **The ring refines a FIFO queue of capacity `N - 1`**: from every state with the
invariant, each step is a step of the abstract queue on the ring's contents, with the same
result: the `tail_` store enqueues, the `head_` store dequeues the front item, a full or
empty check fails, and every other statement leaves the contents alone. -/
theorem step_refines (hq : Inv k q) :
    ∀ th : Thread α, FifoStep (2 ^ k - 1) (contents q) (step k q th).2 (contents (step k q th).1)
  | .producer item => by
    have hpo := hq.producer_ok
    simp only [step, producerStep]
    split
    · exact .stutter _
    · next v ct hst =>
      have hct : ct = q.tail := by simpa [ProducerOk, hst] using hpo
      split_ifs with hfull
      · subst hct
        exact .full _ v (by rw [length_contents, count_of_full hq hfull])
      · exact .stutter _
    · exact .stutter _
    · next v ct hst =>
      have hroom : count q + 1 < 2 ^ k := by simp only [ProducerOk, hst] at hpo; exact hpo.2.1
      have hlen := hq.prefix_pushed.length_le
      simpa [contents, List.drop_append_of_le_length hlen] using
        (FifoStep.push (contents q) v (by rw [length_contents]; omega) : FifoStep (2 ^ k - 1) _ _ _)
  | .consumer => by
    have hco := hq.consumer_ok
    simp only [step, consumerStep]
    split
    · exact .stutter _
    · next ch hst =>
      have hch : ch = q.head := by simpa [ConsumerOk, hst] using hco
      split_ifs with hempty
      · have he : contents q = [] := by
          rw [← List.length_eq_zero, length_contents, count_of_empty hq (hch ▸ hempty)]
        exact he ▸ FifoStep.empty
      · exact .stutter _
    · exact .stutter _
    · next ch v hst =>
      obtain ⟨-, hpos, hv⟩ : ch = q.head ∧ 0 < count q ∧ q.pushed[q.popped.length]? = some v := by
        simpa [ConsumerOk, hst] using hco
      have hlt : q.popped.length < q.pushed.length := by unfold count at hpos; omega
      have hfront : contents q = v :: q.pushed.drop (q.popped.length + 1) := by
        rw [contents, List.drop_eq_getElem_cons hlt, List.cons.injEq]
        exact ⟨by simpa [List.getElem?_eq_getElem hlt] using hv, rfl⟩
      rw [hfront]
      simpa [contents] using FifoStep.pop v (q.pushed.drop (q.popped.length + 1))

/-! Each result of a FIFO step determines what the step did to the contents. -/

theorem FifoStep.eq_of_none {cap : Nat} {c c' : List α} (h : FifoStep cap c none c') : c' = c := by
  cases h; rfl

theorem FifoStep.of_pushed {cap : Nat} {c c' : List α} {v : α}
    (h : FifoStep cap c (some (.push v true)) c') : c.length < cap ∧ c' = c ++ [v] := by
  cases h; exact ⟨‹_›, rfl⟩

theorem FifoStep.of_full {cap : Nat} {c c' : List α} {v : α}
    (h : FifoStep cap c (some (.push v false)) c') : c.length = cap ∧ c' = c := by
  cases h; exact ⟨‹_›, rfl⟩

theorem FifoStep.of_popped {cap : Nat} {c c' : List α} {v : α}
    (h : FifoStep cap c (some (.pop (some v))) c') : c = v :: c' := by
  cases h; rfl

theorem FifoStep.of_empty {cap : Nat} {c c' : List α}
    (h : FifoStep cap c (some (.pop none)) c') : c = [] ∧ c' = [] := by
  cases h; exact ⟨rfl, rfl⟩

/-- A run of the abstract queue: its contents move from `c` to `c'` through the results
`os`. -/
inductive FifoRun (cap : Nat) : List α → List (Outcome α) → List α → Prop where
  | nil (c : List α) : FifoRun cap c [] c
  | cons {c c' c'' : List α} {o : Option (Outcome α)} {os : List (Outcome α)} :
      FifoStep cap c o c' → FifoRun cap c' os c'' → FifoRun cap c (o.toList ++ os) c''

/-- **A FIFO run loses, duplicates and reorders nothing**: the items popped, then what is left,
are the items that were there, then the items pushed. -/
theorem FifoRun.balance {cap : Nat} {c c' : List α} {os : List (Outcome α)}
    (h : FifoRun cap c os c') : poppedItems os ++ c' = c ++ pushedItems os := by
  induction h with
  | nil => simp [pushedItems, poppedItems]
  | cons hs _ ih =>
    have := hs.balance
    simp only [pushedItems, poppedItems, List.filterMap_append] at this ih ⊢
    rw [List.append_assoc, ih, ← List.append_assoc, this, List.append_assoc]

@[simp] theorem run_nil (q : State α) : run k q [] = (q, []) := rfl

@[simp] theorem run_cons (q : State α) (th : Thread α) (ts : List (Thread α)) :
    run k q (th :: ts) = ((run k (step k q th).1 ts).1, (step k q th).2.toList ++ (run k (step k q th).1 ts).2) :=
  rfl

/-- **Every interleaving keeps the invariant and runs the abstract queue.** -/
theorem run_refines (ts : List (Thread α)) :
    ∀ {q : State α}, Inv k q → Inv k (run k q ts).1 ∧
      FifoRun (2 ^ k - 1) (contents q) (run k q ts).2 (contents (run k q ts).1) := by
  induction ts with
  | nil => exact fun hq => ⟨hq, .nil _⟩
  | cons th ts ih =>
    exact fun hq => ⟨(ih (inv_step hq th)).1, .cons (step_refines hq th) (ih (inv_step hq th)).2⟩

end Steps

/-- **The SPSC ring is a lossless FIFO under every interleaving** of one producer's `push`
calls with one consumer's `pop` calls, for every `N = 2^k` and every initial content of the
slots. After any interleaving `ts`, with `q` the state reached and `os` the results of the
completed calls:

- the results are those of a FIFO queue of capacity `N - 1` started empty;
- the items of the successful pops, then the items still queued, are exactly the items of
  the successful pushes, in order;
- a `push` about to fail at its load of `head_` finds `N - 1` items queued, and a `pop`
  about to fail at its load of `tail_` finds none;
- the slot a consumer about to read will read holds the front item, one whose push has
  stored `tail_`;
- the slot a producer about to write will write holds no queued item. -/
theorem lossless_fifo (fill : Nat → α) (ts : List (Thread α)) :
    FifoRun (2 ^ k - 1) [] (run k (init fill) ts).2 (contents (run k (init fill) ts).1) ∧
    poppedItems (run k (init fill) ts).2 ++ contents (run k (init fill) ts).1 =
      pushedItems (run k (init fill) ts).2 ∧
    (∀ (th : Thread α) (v : α), (step k (run k (init fill) ts).1 th).2 = some (.push v false) →
      (contents (run k (init fill) ts).1).length = 2 ^ k - 1) ∧
    (∀ th : Thread α, (step k (run k (init fill) ts).1 th).2 = some (.pop none) →
      contents (run k (init fill) ts).1 = []) ∧
    (∀ ch, (run k (init fill) ts).1.consumer = .checked ch →
      ∃ rest, contents (run k (init fill) ts).1 = (run k (init fill) ts).1.buffer ch :: rest) ∧
    (∀ v ct, (run k (init fill) ts).1.producer = .checked v ct →
      ∀ i < (contents (run k (init fill) ts).1).length,
        ((run k (init fill) ts).1.head + i) % 2 ^ k ≠ ct) := by
  obtain ⟨hq, hr⟩ := run_refines ts (inv_init k fill)
  set q := (run k (init fill) ts).1
  refine ⟨hr, by simpa using hr.balance, fun th v hth => ?_, fun th hth => ?_, fun ch hch => ?_,
    fun v ct hpr i hi => ?_⟩
  · have h := step_refines hq th
    rw [hth] at h
    exact h.of_full.1
  · have h := step_refines hq th
    rw [hth] at h
    exact h.of_empty.1
  · have hco := hq.consumer_ok
    obtain ⟨rfl, hpos⟩ : ch = q.head ∧ 0 < count q := by simpa [ConsumerOk, hch] using hco
    have hlt : q.popped.length < q.pushed.length := by unfold count at hpos; omega
    refine ⟨q.pushed.drop (q.popped.length + 1), ?_⟩
    rw [contents, List.drop_eq_getElem_cons hlt, List.cons.injEq]
    exact ⟨by simpa [Nat.mod_eq_of_lt hq.head_lt, List.getElem?_eq_getElem hlt] using
      hq.buffer_eq 0 hpos, rfl⟩
  · have hpo := hq.producer_ok
    obtain ⟨rfl, hroom⟩ : ct = q.tail ∧ count q + 1 < 2 ^ k := by simpa [ProducerOk, hpr] using hpo
    rw [length_contents] at hi
    rw [hq.tail_eq]
    exact fun he => absurd (mod_add_inj (by omega) (by omega) he) (by omega)

/-! ## The ring's own queries

`size()` and `empty()` are called by no thread of the engine process; they are read here at
a single state between two steps. -/

/-- `size()` (spsc_queue.h:58–62): `(tail_ - head_) & MASK`, whose `size_t` subtraction wraps
modulo `2^64` once `tail_` has come round the ring past `head_`. -/
def size (q : State α) : Nat := ((q.tail + 2 ^ 64 - q.head) % 2 ^ 64) &&& mask k

/-- `empty()` (spsc_queue.h:53–56): `head_ == tail_`. -/
def empty (q : State α) : Bool := q.head == q.tail

section Queries

variable {k} {q : State α}

/-- On a ring of at most `2^64` slots the wrapped distance from `head_` to `tail_`, taken
modulo `N`, is the number of items queued. -/
theorem distance_mod (hq : Inv k q) (hk : k ≤ 64) :
    (q.tail + 2 ^ 64 - q.head) % 2 ^ k = count q := by
  have h64 : (2 : Nat) ^ 64 = 2 ^ k * 2 ^ (64 - k) := by rw [← pow_add, Nat.add_sub_cancel' hk]
  have hle : q.head ≤ q.tail + 2 ^ 64 := by
    have := hq.head_lt; have := Nat.pow_le_pow_right (n := 2) (by decide) hk; omega
  have hmod : (q.tail + 2 ^ 64 - q.head + q.head) % 2 ^ k = (count q + q.head) % 2 ^ k :=
    calc (q.tail + 2 ^ 64 - q.head + q.head) % 2 ^ k
        = (q.tail + 2 ^ k * 2 ^ (64 - k)) % 2 ^ k := by rw [Nat.sub_add_cancel hle, h64]
      _ = q.tail % 2 ^ k := Nat.add_mul_mod_self_left _ _ _
      _ = (count q + q.head) % 2 ^ k := by rw [hq.tail_eq, Nat.mod_mod, add_comm]
  rw [Nat.ModEq.add_right_cancel' q.head hmod, Nat.mod_eq_of_lt hq.count_lt]

theorem size_eq_count (hq : Inv k q) (hk : k ≤ 64) : size k q = count q := by
  rw [size, and_mask, Nat.mod_mod_of_dvd _ (Nat.pow_dvd_pow 2 hk), distance_mod hq hk]

theorem empty_iff_count (hq : Inv k q) : empty q = true ↔ count q = 0 := by
  refine ⟨fun h => count_of_empty hq (by simpa [empty] using h), fun h => ?_⟩
  simp [empty, hq.tail_eq, h, Nat.mod_eq_of_lt hq.head_lt]

end Queries

/-- **`size()` and `empty()` are exact between any two steps** of any interleaving from the
constructor, on every ring of at most `2^64` slots: `size()` is the number of items queued
although its subtraction wraps, and `empty()` holds exactly when none is. -/
theorem size_empty_run (hk : k ≤ 64) (fill : Nat → α) (ts : List (Thread α)) :
    size k (run k (init fill) ts).1 = (contents (run k (init fill) ts).1).length ∧
      (empty (run k (init fill) ts).1 = true ↔ contents (run k (init fill) ts).1 = []) := by
  have hq := (run_refines ts (inv_init k fill)).1
  rw [size_eq_count hq hk, empty_iff_count hq, ← List.length_eq_zero, length_contents]
  exact ⟨rfl, Iff.rfl⟩

/-- Three pushes and one pop on the engine's `65536`-slot ring. -/
def threePushesOnePop : List (Thread Nat) :=
  List.replicate 4 (.producer 7) ++ List.replicate 4 (.producer 8) ++
    List.replicate 4 (.producer 9) ++ List.replicate 4 .consumer

theorem size_empty_run_threePushesOnePop :
    16 ≤ 64 ∧
      (size 16 (run 16 (init fun _ => 0) threePushesOnePop).1 =
          (contents (run 16 (init fun _ => 0) threePushesOnePop).1).length ∧
        (empty (run 16 (init fun _ => 0) threePushesOnePop).1 = true ↔
          contents (run 16 (init fun _ => 0) threePushesOnePop).1 = [])) :=
  ⟨by decide, size_empty_run 16 (by decide) (fun _ => 0) threePushesOnePop⟩

example : size 16 (run 16 (init fun _ => 0) threePushesOnePop).1 = 2 := by decide

end SPSCQueue

end HyperliquidEngine
