import HyperliquidEngine.Types
import Mathlib.Algebra.BigOperators.Group.List

/-!
# Order nodes and the per-level FIFO (order.h)

`OrderNode` is a resting order and `LevelFIFO` the queue of resting orders at one price.
The source threads the nodes of a level through their `prev`/`next` links between `head`
and `tail` and keeps a running `total_qty`. The model keeps the queue as the list of nodes
met from `head` along `next`, and `total_qty` as the source updates it, in `int64_t`.

A node is addressed by the arena slot that holds it (`addr`, the source's `OrderNode *`):
`erase` and `reduceQty` act on the first node of the queue at that address, which is the
node itself whenever addresses are distinct, as the slab pool keeps them.

- `qtySum` is the mathematical sum of the open quantities in the queue;
  `qtySum_enqueue`, `qtySum_erase` and `qtySum_reduceQty` say how each operation moves it.
- `TotalExact` (`total_qty` is the `int64_t` image of that sum) is kept by every operation.
- `IcebergQty.replenishes_drip`: repeated `replenish` calls show the hidden quantity in slices
  of `display_qty`, releasing `min hidden_qty (k * display_qty)` after `k` calls.
-/

namespace HyperliquidEngine

/-- A resting order, `OrderNode` (order.h:9–43). The iceberg fields are read only by `replenish`, modelled
on `IcebergQty`; the expiry and stop fields are read by no function and are left out; `prev`/`next` are the
list order of `LevelFIFO`. -/
structure OrderNode where
  addr : Nat
  id : OrderId
  user : UserId
  qty : Int
  ts : Timestamp
  flags : UInt32
  deriving DecidableEq, Repr

/-- The queue of one price, `LevelFIFO` (order.h:46–82): the queue from `head` to `tail`, and `total_qty`. -/
structure LevelFIFO where
  nodes : List OrderNode
  totalQty : Int
  deriving DecidableEq, Repr

/-- A default-constructed `LevelFIFO`: null `head` and `tail`, `total_qty` zero. -/
instance : Inhabited LevelFIFO := ⟨⟨[], 0⟩⟩

/-- Reduce the open quantity of the first node at `addr` by `d`. -/
def reduceAt (addr : Nat) (d : Int) : List OrderNode → List OrderNode
  | [] => []
  | n :: ns => if n.addr = addr then { n with qty := n.qty - d } :: ns else n :: reduceAt addr d ns

namespace LevelFIFO

/-- Emptiness, `empty()`: `head == nullptr`. -/
def empty (l : LevelFIFO) : Bool := l.nodes.isEmpty

/-- Arrival, `enqueue(node)`: link at the tail, `total_qty += node->qty`. -/
def enqueue (l : LevelFIFO) (n : OrderNode) : LevelFIFO :=
  ⟨l.nodes ++ [n], wrapInt64 (l.totalQty + n.qty)⟩

/-- The node a pointer at `addr` designates. -/
def node? (l : LevelFIFO) (addr : Nat) : Option OrderNode := l.nodes.find? (·.addr = addr)

/-- Removal, `erase(node)`: unlink the node, `total_qty -= node->qty`. A node that is not
queued here is left alone; the source instead relinks through whatever `prev` and `next` the
node holds, which `HyperliquidEngine.NodeMemory.cancelNode_foreign` follows at the pointer
level. -/
def erase (l : LevelFIFO) (addr : Nat) : LevelFIFO :=
  match l.node? addr with
  | some n => ⟨l.nodes.eraseP (·.addr = addr), wrapInt64 (l.totalQty - n.qty)⟩
  | none => l

/-- Shrinking, `reduce_qty(node, reduction)`: `node->qty -= reduction`, `total_qty -= reduction`. -/
def reduceQty (l : LevelFIFO) (addr : Nat) (reduction : Int) : LevelFIFO :=
  ⟨reduceAt addr reduction l.nodes, wrapInt64 (l.totalQty - reduction)⟩

/-- The sum of the open quantities in the queue. -/
def qtySum (l : LevelFIFO) : Int := (l.nodes.map (·.qty)).sum

/-- The cached `total_qty` is the `int64_t` image of the queue's sum. -/
def TotalExact (l : LevelFIFO) : Prop := l.totalQty = wrapInt64 l.qtySum

@[simp] theorem empty_default : (default : LevelFIFO).empty = true := rfl
@[simp] theorem nodes_default : (default : LevelFIFO).nodes = [] := rfl
@[simp] theorem totalQty_default : (default : LevelFIFO).totalQty = 0 := rfl
@[simp] theorem qtySum_default : (default : LevelFIFO).qtySum = 0 := rfl

theorem empty_iff (l : LevelFIFO) : l.empty = true ↔ l.nodes = [] := List.isEmpty_iff

@[simp] theorem nodes_enqueue (l : LevelFIFO) (n : OrderNode) :
    (l.enqueue n).nodes = l.nodes ++ [n] := rfl

@[simp] theorem empty_enqueue (l : LevelFIFO) (n : OrderNode) : (l.enqueue n).empty = false := by
  simp [enqueue, empty]

@[simp] theorem qtySum_enqueue (l : LevelFIFO) (n : OrderNode) :
    (l.enqueue n).qtySum = l.qtySum + n.qty := by
  simp [enqueue, qtySum]

theorem erase_of_node? {l : LevelFIFO} {addr : Nat} {n : OrderNode} (h : l.node? addr = some n) :
    l.erase addr = ⟨l.nodes.eraseP (·.addr = addr), wrapInt64 (l.totalQty - n.qty)⟩ := by
  simp [erase, h]

theorem qtySum_erase {l : LevelFIFO} {addr : Nat} {n : OrderNode} (h : l.node? addr = some n) :
    (l.erase addr).qtySum = l.qtySum - n.qty := by
  rw [erase_of_node? h]
  unfold node? at h
  unfold qtySum
  generalize l.nodes = ns at h ⊢
  induction ns with
  | nil => simp at h
  | cons m ns ih =>
    by_cases hm : m.addr = addr
    · simp_all [List.find?_cons]
    · simp_all [List.find?_cons, List.eraseP_cons]
      ring

theorem qtySum_reduceQty {l : LevelFIFO} {addr : Nat} {n : OrderNode} (h : l.node? addr = some n)
    (d : Int) : (l.reduceQty addr d).qtySum = l.qtySum - d := by
  unfold node? at h
  unfold qtySum reduceQty
  generalize l.nodes = ns at h ⊢
  induction ns with
  | nil => simp at h
  | cons m ns ih =>
    by_cases hm : m.addr = addr
    · simp [reduceAt, hm]
      ring
    · simp_all [List.find?_cons, reduceAt]
      ring

@[simp] theorem nodes_reduceQty (l : LevelFIFO) (addr : Nat) (d : Int) :
    (l.reduceQty addr d).nodes = reduceAt addr d l.nodes := rfl

theorem reduceAt_isEmpty (addr : Nat) (d : Int) (ns : List OrderNode) :
    (reduceAt addr d ns).isEmpty = ns.isEmpty := by
  cases ns with
  | nil => rfl
  | cons m ns => by_cases hm : m.addr = addr <;> simp [reduceAt, hm]

@[simp] theorem empty_reduceQty (l : LevelFIFO) (addr : Nat) (d : Int) :
    (l.reduceQty addr d).empty = l.empty := reduceAt_isEmpty addr d l.nodes

theorem totalExact_enqueue {l : LevelFIFO} (h : l.TotalExact) (n : OrderNode) :
    (l.enqueue n).TotalExact := by
  unfold TotalExact at *
  rw [qtySum_enqueue, enqueue, h, wrapInt64_add_wrap]

theorem totalExact_erase {l : LevelFIFO} (h : l.TotalExact) (addr : Nat) :
    (l.erase addr).TotalExact := by
  cases hn : l.node? addr with
  | none => simpa [erase, hn] using h
  | some n =>
    unfold TotalExact at *
    rw [qtySum_erase hn, erase_of_node? hn, h, wrapInt64_sub_wrap]

theorem totalExact_reduceQty {l : LevelFIFO} (h : l.TotalExact) {addr : Nat} {n : OrderNode}
    (hn : l.node? addr = some n) (d : Int) : (l.reduceQty addr d).TotalExact := by
  unfold TotalExact at *
  rw [qtySum_reduceQty hn, reduceQty, h, wrapInt64_sub_wrap]

end LevelFIFO

/-! ## Iceberg replenishment -/

/-- The quantities of an iceberg `OrderNode` (order.h:12, 17–18): the open `qty`, and the
`display_qty` and `hidden_qty` that only `replenish` reads. -/
structure IcebergQty where
  qty : Int
  displayQty : Int
  hiddenQty : Int
  deriving DecidableEq, Repr

namespace IcebergQty

/-- `replenish()` (order.h:35–43): with hidden and display quantity both positive, the smaller of
the two becomes the open quantity and leaves the hidden one, and is returned; otherwise nothing
changes and `0` is returned. No `int64_t` operation here overflows: `r` lies in `(0, hidden_qty]`. -/
def replenish (n : IcebergQty) : IcebergQty × Int :=
  if 0 < n.hiddenQty ∧ 0 < n.displayQty then
    let r := min n.hiddenQty n.displayQty
    ({ n with qty := r, hiddenQty := n.hiddenQty - r }, r)
  else (n, 0)

/-- `k` calls of `replenish`: the node after the last and what each call returned. `replenish`
does not read `qty`, so whatever fills the open quantity between calls leaves this unchanged. -/
def replenishes : Nat → IcebergQty → IcebergQty × List Int
  | 0, n => (n, [])
  | k + 1, n => (replenishes k n.replenish.1).map id (n.replenish.2 :: ·)

@[simp] theorem displayQty_replenish (n : IcebergQty) : n.replenish.1.displayQty = n.displayQty := by
  unfold replenish; split <;> rfl

/-- One call with a positive display size shows `min hidden display` and takes it off the hidden
quantity (nothing, once the hidden quantity is gone). -/
theorem replenish_of_pos {n : IcebergQty} (hd : 0 < n.displayQty) (hh : 0 ≤ n.hiddenQty) :
    n.replenish.2 = min n.hiddenQty n.displayQty ∧
      n.replenish.1.hiddenQty = n.hiddenQty - min n.hiddenQty n.displayQty := by
  unfold replenish
  split
  · exact ⟨rfl, rfl⟩
  · have : n.hiddenQty = 0 := by omega
    simp [this, hd.le]

/-- **The iceberg drips in slices of `display_qty`**: from a node with a positive display size
and a hidden quantity `h`, `k` calls of `replenish` return slices between `0` and `display_qty`
that add up to `min h (k * display_qty)`, and leave the rest hidden. With a display size of `0`
(the `OrderCommand` default) `replenish` never shows anything. -/
theorem replenishes_drip (n : IcebergQty) (hd : 0 < n.displayQty) (hh : 0 ≤ n.hiddenQty) (k : Nat) :
    (n.replenishes k).2.sum = min n.hiddenQty (k * n.displayQty) ∧
      (n.replenishes k).1.hiddenQty = n.hiddenQty - min n.hiddenQty (k * n.displayQty) ∧
      ∀ r ∈ (n.replenishes k).2, 0 ≤ r ∧ r ≤ n.displayQty := by
  induction k generalizing n with
  | zero => simp [replenishes, min_eq_right hh]
  | succ k ih =>
    obtain ⟨hr, hh'⟩ := replenish_of_pos hd hh
    obtain ⟨ihs, ihh, ihr⟩ := ih n.replenish.1 (by simpa using hd) (by omega)
    simp only [displayQty_replenish, hh'] at ihs ihh ihr
    have hkd : 0 ≤ (k : Int) * n.displayQty := Int.mul_nonneg (Int.natCast_nonneg k) hd.le
    simp only [replenishes, Prod.map_fst, Prod.map_snd, id_eq, List.sum_cons, List.mem_cons,
      forall_eq_or_imp, hr, ihs, ihh, Nat.cast_succ, add_one_mul]
    exact ⟨by omega, by omega, ⟨by omega, by omega⟩, ihr⟩

/-- The node of the source's replenish test: nothing open, display size `10`, `25` hidden. -/
def testNode : IcebergQty := ⟨0, 10, 25⟩

theorem replenishes_drip_testNode :
    0 < testNode.displayQty ∧ 0 ≤ testNode.hiddenQty ∧
      (testNode.replenishes 4).2.sum = min 25 (4 * 10) ∧
      (testNode.replenishes 4).1.hiddenQty = 25 - min 25 (4 * 10) ∧
      ∀ r ∈ (testNode.replenishes 4).2, 0 ≤ r ∧ r ≤ 10 :=
  ⟨by decide, by decide, replenishes_drip testNode (by decide) (by decide) 4⟩

example : (testNode.replenishes 4).2 = [10, 10, 5, 0] := by decide

end IcebergQty

end HyperliquidEngine
