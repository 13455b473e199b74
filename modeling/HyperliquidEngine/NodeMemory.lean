import HyperliquidEngine.LinkedLevel
import HyperliquidEngine.OrderBook

/-!
# The book's node memory (order.h, mempool.h, order_book.h)

The list model keeps a level as the list of its nodes and the pool's free list as a list of
slots: what the code's pointers spell while every pointer the book follows lies in the list it
is read from. An index entry holds a pointer to its order's node, and `FlatMap::erase` can
leave behind the entry of an order that a fill or a cancel has removed: the backward shift
can move an entry behind its home slot (`cancel_misses_resting_order`), where `erase` no longer
finds it, and a resize rehashes it back within reach. `cancel` and `modify` then follow its
pointer into a slab slot that the pool has taken back or handed to another order, and the code
acts on that memory as it lies.

`NodeMemory` is that memory as the code lays it out: the header (`head`, `tail`, `total_qty`)
of the level of each side and price, the fields of the slab slots by address, and the pool's
`free_list_`, threaded through the slots' first words, which `SlabPool::free` writes over an
`OrderNode`'s `id`. A level's methods are `LinkedFIFO`'s on its header and the shared fields
(`view`, `setView`); `poolFree`, `freeNode` and `allocNode` are the pool's.

- `Lays m lv p`: the memory lays out the list model's levels `lv` and pool `p`: every level is
  well linked and reads as its list, no slot is in two levels or in a level and the free list,
  and the free list's links spell the pool's list; `Represents m b` is that for a book's levels
  and pool;
- one lemma per node operation on a member or a fresh slot: `Lays.eraseFree`, `Lays.reduceQty`,
  `Lays.addSlab`, `Lays.allocNode` (the slot the list model's pool hands out) and
  `Lays.restNode`; `HyperliquidEngine.NodeBook` runs whole commands from them;
- `represents_cancel`: from a memory that represents the book, `cancel` of an id whose entry
  points at a node of its level leaves a memory that represents the list model's `cancel`, and
  the code's `level.empty()` is the list model's test;
- `cancelNode_twice`: `cancel` through an entry whose node it has already removed nulls the
  level's `head` and `tail`, cutting off every other order of the level, takes the node's
  quantity off `total_qty` a second time, and frees the slot again: the free list becomes a
  loop on the slot, and the next two allocations both return it;
- `shrink_freed`: `modify` through such an entry, at its price and below the freed node's
  quantity, takes the difference off the level's `total_qty` while its orders keep theirs;
- `cancelNode_foreign`: `cancel` through an entry whose slot now heads another order's level
  points the entry's level into that level's chain, leaves the other level holding the slot
  alone, and puts the slot of a resting order back on the free list.
-/

namespace HyperliquidEngine

/-- A pointer-sized word as the pool reads it: a pointer (`none` is `nullptr`), or the bits of
an order id that an `OrderNode` stored there. -/
inductive Word where
  | ptr (p : Option Nat)
  | orderId (v : OrderId)
  deriving DecidableEq, Repr

/-- A level's header, the fields of `LevelFIFO` (order.h:46–49). -/
structure Header where
  head : Option Nat
  tail : Option Nat
  totalQty : Int
  deriving DecidableEq, Repr

/-- The memory of a book's nodes: the header of the level of each side and price, the fields of
`OrderNode` (order.h:9–25) that the book reads, by slot (the first word is `id`, or the free
list's link once the pool holds the slot), the pool's `free_list_`, `in_use_` and the number of
slabs. The iceberg, expiry and stop fields are read by no modelled code and are left out. -/
structure NodeMemory where
  headers : Side → Int → Header
  word : Nat → Word
  user : Nat → UserId
  qty : Nat → Int
  ts : Nat → Timestamp
  flags : Nat → UInt32
  prev : Nat → Option Nat
  next : Nat → Option Nat
  allocKind : Nat → Nat
  freeList : Word
  inUse : Nat
  numSlabs : Nat

namespace NodeMemory

variable (m : NodeMemory)

/-! ## The code's methods on the memory -/

/-- The level of side `s` at `px` as `LinkedFIFO` reads one level: its header, and the shared
`prev`, `next` and `qty` fields of the slots. -/
def view (s : Side) (px : Int) : LinkedFIFO :=
  ⟨(m.headers s px).head, (m.headers s px).tail, (m.headers s px).totalQty, m.prev, m.next, m.qty⟩

/-- The memory after a method of the level of side `s` at `px` left that level as `q`: its
header, and the fields it wrote. -/
def setView (s : Side) (px : Int) (q : LinkedFIFO) : NodeMemory :=
  { m with
    headers := fun s' px' => if s' = s ∧ px' = px then ⟨q.head, q.tail, q.totalQty⟩ else m.headers s' px'
    prev := q.prev, next := q.next, qty := q.qty }

/-- `get_level(px).erase(node)` on side `s` (order.h:65–76): the node's own `prev` and `next`,
whatever they hold, are relinked around it. -/
def erase (s : Side) (px : Int) (n : Nat) : NodeMemory := m.setView s px ((m.view s px).erase n)

/-- `get_level(px).enqueue(node)` on side `s` (order.h:54–63). -/
def enqueue (s : Side) (px : Int) (n : Nat) : NodeMemory := m.setView s px ((m.view s px).enqueue n)

/-- `get_level(px).reduce_qty(node, reduction)` on side `s` (order.h:78–81). -/
def reduceQty (s : Side) (px : Int) (n : Nat) (d : Int) : NodeMemory :=
  m.setView s px ((m.view s px).reduceQty n d)

/-- `SlabPool::free(ptr)` (mempool.h:88–95): the slot's first word takes the head of the free
list, and the slot becomes the head. -/
def poolFree (a : Nat) : NodeMemory :=
  { m with word := writeSlot m.word a m.freeList, freeList := .ptr (some a), inUse := m.inUse - 1 }

/-- `free_node(node)` (order_book.h:119–125): a node with `alloc_kind == 1` back to the pool.
Any other node goes to `delete`, which hands it to the heap; every node the book links comes
from `alloc_node`, and the model keeps the memory as it is there. -/
def freeNode (a : Nat) : NodeMemory := if m.allocKind a = 1 then m.poolFree a else m

/-- `add_slab()` (mempool.h:27–61): the slots of slab `num_slabs` come zeroed from `mmap`, each
linked to the one before it and the first to the old head; the last becomes the head. -/
def addSlab : NodeMemory :=
  let base := m.numSlabs * nodesPerSlab
  let fresh (a : Nat) : Bool := decide (base ≤ a ∧ a < base + nodesPerSlab)
  { m with
    word := fun a => if fresh a then (if a = base then m.freeList else .ptr (some (a - 1))) else m.word a
    user := fun a => if fresh a then 0 else m.user a
    qty := fun a => if fresh a then 0 else m.qty a
    ts := fun a => if fresh a then 0 else m.ts a
    flags := fun a => if fresh a then 0 else m.flags a
    prev := fun a => if fresh a then none else m.prev a
    next := fun a => if fresh a then none else m.next a
    allocKind := fun a => if fresh a then 0 else m.allocKind a
    freeList := .ptr (some (base + nodesPerSlab - 1))
    numSlabs := m.numSlabs + 1 }

/-- `SlabPool::alloc()`'s pop of the head slot `a` (mempool.h:79–86) and the mark `alloc_node()`
sets on it (order_book.h:113–117): the slot's first word becomes the head, `alloc_kind = 1`. -/
def allocSlot (a : Nat) : NodeMemory :=
  { m with allocKind := writeSlot m.allocKind a 1, freeList := m.word a, inUse := m.inUse + 1 }

/-- `alloc_node()` (order_book.h:113–117) over `SlabPool::alloc()` (mempool.h:79–86): a slab when
the free list is null, then the head of the list. A head that is not a pointer (an order id that
a slot handed out twice left in the list) is dereferenced by the code with undefined behaviour:
`none`. -/
def allocNode : Option (Nat × NodeMemory) :=
  let m := if m.freeList = .ptr none then m.addSlab else m
  match m.freeList with
  | .ptr (some a) => some (a, m.allocSlot a)
  | _ => none

/-- The rest path's writes to a new node (order_book.h:377–381): `id`, `user`, `qty`, `ts` and
`flags` from the command. -/
def fill (a : Nat) (cmd : OrderCommand) (remaining : Int) : NodeMemory :=
  { m with
    word := writeSlot m.word a (.orderId cmd.orderId)
    user := writeSlot m.user a cmd.userId
    qty := writeSlot m.qty a remaining
    ts := writeSlot m.ts a cmd.recvTs
    flags := writeSlot m.flags a cmd.flags }

/-- The node part of the rest path of `submit_limit_side` (order_book.h:374–383): `alloc_node()`,
the node's fields, and `enqueue` at the tail of the level of side `t` at the command's price. -/
def restNode (t : Side) (cmd : OrderCommand) (remaining : Int) : Option NodeMemory :=
  m.allocNode.map fun r => (r.2.fill r.1 cmd remaining).enqueue t cmd.priceTicks r.1

/-- The node part of `cancel(id)` for the entry it found (order_book.h:196–204): the node erased
from the level the entry names, then freed. The code then tests that level's `empty()`. -/
def cancelNode (e : OrderEntry) : NodeMemory := (m.erase e.side e.price e.node).freeNode e.node

/-! ## The list model the memory spells -/

/-- The fields of the node at slot `a` but its quantity, which the list model reads off the
level (`LinkedFIFO.toFIFO`). -/
def info (a : Nat) : OrderNode :=
  ⟨a, match m.word a with | .orderId v => v | .ptr _ => 0, m.user a, 0, m.ts a, m.flags a⟩

/-- The addresses of a level's nodes, in order. -/
def addrs (v : LevelFIFO) : List Nat := v.nodes.map (·.addr)

/-- The level of side `s` at `px` spells the list model's level `v`: its links spell the
addresses of `v`'s nodes, which read back as `v` with its `total_qty`, and each of those slots
holds an order's id and was allocated by `alloc_node`. -/
structure Spells (s : Side) (px : Int) (v : LevelFIFO) : Prop where
  linked : (m.view s px).WellLinked (addrs v)
  reads : (m.view s px).toFIFO m.info (addrs v) = v
  pooled : ∀ a ∈ addrs v, (∃ id, m.word a = .orderId id) ∧ m.allocKind a = 1

/-- The free list's links spell the list `xs` of slots: `free_list_` points at its first, each
slot's first word at the next, and no slot comes twice. -/
structure FreeSpells (xs : List Nat) : Prop where
  nodup : xs.Nodup
  head_eq : m.freeList = .ptr xs.head?
  link_eq : ∀ a ∈ xs, m.word a = .ptr (nextIn xs a)

/-- The slot `a` holds in `m'` what it holds in `m`: its links, quantity and first word, the
other fields the book reads, and the pool's mark. -/
structure SameSlot (m' : NodeMemory) (a : Nat) : Prop where
  prev : m'.prev a = m.prev a
  next : m'.next a = m.next a
  qty : m'.qty a = m.qty a
  word : m'.word a = m.word a
  user : m'.user a = m.user a
  ts : m'.ts a = m.ts a
  flags : m'.flags a = m.flags a
  allocKind : m'.allocKind a = m.allocKind a

/-- The list model's levels of both ladders, by side and price. -/
abbrev Levels := Side → Int → LevelFIFO

/-- The levels `lv` with the level of side `s` at `px` replaced by `v`. -/
def Levels.set (lv : Levels) (s : Side) (px : Int) (v : LevelFIFO) : Levels :=
  fun s' px' => if s' = s ∧ px' = px then v else lv s' px'

@[simp] theorem Levels.set_self (lv : Levels) (s : Side) (px : Int) (v : LevelFIFO) :
    lv.set s px v s px = v := if_pos ⟨rfl, rfl⟩

theorem Levels.set_of_ne (lv : Levels) {s s' : Side} {px px' : Int} (v : LevelFIFO)
    (h : ¬(s' = s ∧ px' = px)) : lv.set s px v s' px' = lv s' px' := if_neg h

@[simp] theorem Levels.set_set (lv : Levels) (s : Side) (px : Int) (v w : LevelFIFO) :
    (lv.set s px v).set s px w = lv.set s px w := by
  funext s' px'
  by_cases h : s' = s ∧ px' = px <;> simp [Levels.set, h]

theorem Levels.set_eq_self {lv : Levels} {s : Side} {px : Int} {v : LevelFIFO} (h : lv s px = v) :
    lv.set s px v = lv := by
  funext s' px'
  by_cases h' : s' = s ∧ px' = px
  · obtain ⟨rfl, rfl⟩ := h'
    simp [h]
  · exact Levels.set_of_ne _ _ h'

/-- The memory lays out the list model's levels `lv` and pool `p`: every level is well linked
and reads as its list, no slot is in two levels or in a level and the free list, the free list's
links spell the pool's list, `in_use_` and the slab count are the pool's, and every slot of a
level or of the free list lies in a slab. -/
structure Lays (lv : Levels) (p : SlabPool) : Prop where
  spells : ∀ s px, m.Spells s px (lv s px)
  apart : ∀ s px s' px', (s, px) ≠ (s', px') → ∀ a ∈ addrs (lv s px), a ∉ addrs (lv s' px')
  free : m.FreeSpells p.freeList
  free_apart : ∀ s px, ∀ a ∈ addrs (lv s px), a ∉ p.freeList
  inUse : m.inUse = p.inUse
  numSlabs : m.numSlabs = p.numSlabs
  free_lt : ∀ a ∈ p.freeList, a < m.numSlabs * nodesPerSlab
  level_lt : ∀ s px, ∀ a ∈ addrs (lv s px), a < m.numSlabs * nodesPerSlab

section Represents

variable {L : Type} [PriceLevels L]

open PriceLevels

/-- **The memory spells the list model's book** `b`: its levels and its pool. -/
def Represents (b : OrderBook L) : Prop := m.Lays (fun s px => level (b.side s) px) b.orderPool

end Represents

/-! ## What each method writes -/

section Fields

variable (s : Side) (px : Int) (q : LinkedFIFO)

@[simp] theorem view_setView_self : (m.setView s px q).view s px = q := by
  cases q; simp [view, setView]

theorem view_setView_of_ne {s' : Side} {px' : Int} (h : ¬(s' = s ∧ px' = px)) :
    (m.setView s px q).view s' px' =
      ⟨(m.headers s' px').head, (m.headers s' px').tail, (m.headers s' px').totalQty,
        q.prev, q.next, q.qty⟩ := by
  simp [view, setView, h]

@[simp] theorem headers_setView_self : (m.setView s px q).headers s px = ⟨q.head, q.tail, q.totalQty⟩ := by
  simp [setView]

@[simp] theorem prev_setView : (m.setView s px q).prev = q.prev := rfl
@[simp] theorem next_setView : (m.setView s px q).next = q.next := rfl
@[simp] theorem qty_setView : (m.setView s px q).qty = q.qty := rfl
@[simp] theorem word_setView : (m.setView s px q).word = m.word := rfl
@[simp] theorem allocKind_setView : (m.setView s px q).allocKind = m.allocKind := rfl
@[simp] theorem freeList_setView : (m.setView s px q).freeList = m.freeList := rfl
@[simp] theorem inUse_setView : (m.setView s px q).inUse = m.inUse := rfl
@[simp] theorem numSlabs_setView : (m.setView s px q).numSlabs = m.numSlabs := rfl
@[simp] theorem info_setView : (m.setView s px q).info = m.info := rfl

variable (a : Nat)

@[simp] theorem view_poolFree : (m.poolFree a).view = m.view := rfl
@[simp] theorem headers_poolFree : (m.poolFree a).headers = m.headers := rfl
@[simp] theorem prev_poolFree : (m.poolFree a).prev = m.prev := rfl
@[simp] theorem next_poolFree : (m.poolFree a).next = m.next := rfl
@[simp] theorem qty_poolFree : (m.poolFree a).qty = m.qty := rfl
@[simp] theorem allocKind_poolFree : (m.poolFree a).allocKind = m.allocKind := rfl
@[simp] theorem freeList_poolFree : (m.poolFree a).freeList = .ptr (some a) := rfl
@[simp] theorem inUse_poolFree : (m.poolFree a).inUse = m.inUse - 1 := rfl
@[simp] theorem numSlabs_poolFree : (m.poolFree a).numSlabs = m.numSlabs := rfl

theorem word_poolFree (a' : Nat) : (m.poolFree a).word a' = if a' = a then m.freeList else m.word a' :=
  rfl

/-- Freeing a slot rewrites its first word only. -/
theorem info_poolFree {a' : Nat} (h : a' ≠ a) : (m.poolFree a).info a' = m.info a' := by
  simp only [info, word_poolFree, if_neg h]
  rfl

theorem freeNode_of_pooled (h : m.allocKind a = 1) : m.freeNode a = m.poolFree a := if_pos h

/-- `alloc_node()` from a free list whose head is the slot `a`: that slot. -/
theorem allocNode_of_head (h : m.freeList = .ptr (some a)) : m.allocNode = some (a, m.allocSlot a) := by
  simp [allocNode, h]

@[simp] theorem headers_allocSlot : (m.allocSlot a).headers = m.headers := rfl
@[simp] theorem freeList_allocSlot : (m.allocSlot a).freeList = m.word a := rfl
@[simp] theorem inUse_allocSlot : (m.allocSlot a).inUse = m.inUse + 1 := rfl
@[simp] theorem numSlabs_allocSlot : (m.allocSlot a).numSlabs = m.numSlabs := rfl

@[simp] theorem headers_addSlab : m.addSlab.headers = m.headers := rfl
@[simp] theorem inUse_addSlab : m.addSlab.inUse = m.inUse := rfl
@[simp] theorem numSlabs_addSlab : m.addSlab.numSlabs = m.numSlabs + 1 := rfl
@[simp] theorem freeList_addSlab :
    m.addSlab.freeList = .ptr (some (m.numSlabs * nodesPerSlab + nodesPerSlab - 1)) := rfl

/-- `alloc_node()` on a null free list: the last slot of a new slab. -/
theorem allocNode_of_null (h : m.freeList = .ptr none) :
    m.allocNode = some (m.numSlabs * nodesPerSlab + nodesPerSlab - 1,
      m.addSlab.allocSlot (m.numSlabs * nodesPerSlab + nodesPerSlab - 1)) := by
  simp [allocNode, h]

@[simp] theorem headers_fill (cmd : OrderCommand) (r : Int) : (m.fill a cmd r).headers = m.headers := rfl
@[simp] theorem freeList_fill (cmd : OrderCommand) (r : Int) : (m.fill a cmd r).freeList = m.freeList := rfl
@[simp] theorem inUse_fill (cmd : OrderCommand) (r : Int) : (m.fill a cmd r).inUse = m.inUse := rfl
@[simp] theorem numSlabs_fill (cmd : OrderCommand) (r : Int) : (m.fill a cmd r).numSlabs = m.numSlabs := rfl

end Fields

/-! ## What a method leaves alone -/

section Frame

variable {m} {m' : NodeMemory}

theorem SameSlot.info {a : Nat} (h : m.SameSlot m' a) : m'.info a = m.info a := by
  simp only [NodeMemory.info, h.word, h.user, h.ts, h.flags]

/-- **Frame.** A level spells what it spelled while its header and its slots are as they were. -/
theorem Spells.frame {s : Side} {px : Int} {v : LevelFIFO} (h : m.Spells s px v)
    (hh : m'.headers s px = m.headers s px) (hs : ∀ a ∈ addrs v, m.SameSlot m' a) :
    m'.Spells s px v := by
  refine ⟨h.linked.congr (by simp [view, hh]) (by simp [view, hh]) (fun a ha => (hs a ha).next)
    (fun a ha => (hs a ha).prev), ?_, fun a ha => ?_⟩
  · exact (LinkedFIFO.toFIFO_congr _ _ (by simp [view, hh]) (fun a ha => (hs a ha).qty)
      fun a ha => (hs a ha).info).trans h.reads
  · rw [(hs a ha).word, (hs a ha).allocKind]
    exact h.pooled a ha

theorem Lays.congr {lv lv' : Levels} {p p' : SlabPool} (h : m.Lays lv p)
    (hl : ∀ s px, lv' s px = lv s px) (hp : p' = p) : m.Lays lv' p' := by
  obtain rfl : lv' = lv := funext fun s => funext (hl s)
  exact hp ▸ h

/-- A level's `head` is the address of its first node. -/
theorem Lays.head_eq {lv : Levels} {p : SlabPool} (h : m.Lays lv p) (s : Side) (px : Int) :
    (m.headers s px).head = (lv s px).nodes.head?.map (·.addr) := by
  rw [← List.head?_map]
  exact (h.spells s px).linked.head_eq

/-- The code's `empty()` on a level is the list model's. -/
theorem Lays.head_isNone {lv : Levels} {p : SlabPool} (h : m.Lays lv p) (s : Side) (px : Int) :
    (m.headers s px).head.isNone = (lv s px).empty := by
  rw [h.head_eq, LevelFIFO.empty]
  cases (lv s px).nodes <;> rfl

/-- Each node of a level reads its fields from its slot. -/
theorem Spells.eq_of_mem {s : Side} {px : Int} {v : LevelFIFO} (h : m.Spells s px v) {n : OrderNode}
    (hn : n ∈ v.nodes) : n = { m.info n.addr with addr := n.addr, qty := m.qty n.addr } := by
  rw [← h.reads] at hn
  obtain ⟨a, -, rfl⟩ := List.mem_map.1 hn
  rfl

end Frame

/-! ## Erasing a member -/

section Erase

variable {m} {s₀ : Side} {p₀ : Int} {n : Nat} {xs : List Nat}

/-- Erasing a member of one level leaves the links of every level apart from it. -/
theorem wellLinked_erase_of_ne (hx : (m.view s₀ p₀).WellLinked xs) (hn : n ∈ xs) {s : Side}
    {px : Int} (hne : ¬(s = s₀ ∧ px = p₀)) {ys : List Nat} (hy : (m.view s px).WellLinked ys)
    (hapart : ∀ a ∈ ys, a ∉ xs) : ((m.erase s₀ p₀ n).view s px).WellLinked ys := by
  rw [erase, view_setView_of_ne _ _ _ _ hne]
  refine hy.congr rfl rfl (fun a ha => ?_) (fun a ha => ?_)
  · -- `a` is neither the node nor its `prev`, which are members of the other level
    have han : a ≠ n := fun e => hapart a ha (e ▸ hn)
    have hp : (m.view s₀ p₀).prev n ≠ some a := fun e => hapart a ha (hx.prev_mem hn e)
    simp only [LinkedFIFO.next_erase, if_neg han, if_neg hp]
    rfl
  · have han : a ≠ n := fun e => hapart a ha (e ▸ hn)
    have hx' : (m.view s₀ p₀).next n ≠ some a := fun e => hapart a ha (hx.next_mem hn e)
    simp only [LinkedFIFO.prev_erase, if_neg han, if_neg hx']
    rfl

theorem Spells.erase_eq {v : LevelFIFO} (h : m.Spells s₀ p₀ v) (hn : n ∈ addrs v) :
    v.erase n = ((m.view s₀ p₀).erase n).toFIFO m.info ((addrs v).erase n) := by
  rw [LinkedFIFO.toFIFO_erase _ _ _ hn, h.reads]

/-- The list model's erase of a member drops its address from the level's. -/
theorem Spells.addrs_erase {v : LevelFIFO} (h : m.Spells s₀ p₀ v) (hn : n ∈ addrs v) :
    addrs (v.erase n) = (addrs v).erase n := by
  rw [h.erase_eq hn, addrs, LinkedFIFO.map_addr_toFIFO]

/-- Erasing a member of a level spells the list model's erase. -/
theorem Spells.erase {v : LevelFIFO} (h : m.Spells s₀ p₀ v) (hn : n ∈ addrs v) :
    (m.erase s₀ p₀ n).Spells s₀ p₀ (v.erase n) := by
  refine ⟨?_, ?_, fun a h' => ?_⟩
  · rw [NodeMemory.erase, view_setView_self, h.addrs_erase hn]
    exact h.linked.erase hn
  · rw [NodeMemory.erase, view_setView_self, info_setView, h.addrs_erase hn, ← h.erase_eq hn]
  · rw [h.addrs_erase hn] at h'
    simpa [NodeMemory.erase] using h.pooled a (List.mem_of_mem_erase h')

/-- Erasing a member of one level leaves every level apart from it as it spelled it. -/
theorem Spells.erase_of_ne {v₀ v : LevelFIFO} (h₀ : m.Spells s₀ p₀ v₀) (hn : n ∈ addrs v₀)
    {s : Side} {px : Int} (h : m.Spells s px v) (hne : ¬(s = s₀ ∧ px = p₀))
    (hapart : ∀ a ∈ addrs v, a ∉ addrs v₀) : (m.erase s₀ p₀ n).Spells s px v := by
  refine ⟨wellLinked_erase_of_ne h₀.linked hn hne h.linked hapart, ?_, fun a ha => ?_⟩
  · refine Eq.trans ?_ h.reads
    rw [NodeMemory.erase, view_setView_of_ne _ _ _ _ hne]
    exact LinkedFIFO.toFIFO_congr _ _ rfl (fun a _ => by simp [view]) fun a _ => rfl
  · simpa [NodeMemory.erase] using h.pooled a ha

/-- Freeing a slot that is not in a level leaves that level as it spelled it. -/
theorem Spells.poolFree {s : Side} {px : Int} {v : LevelFIFO} (h : m.Spells s px v) {a : Nat}
    (ha : a ∉ addrs v) : (m.poolFree a).Spells s px v := by
  have hne : ∀ b ∈ addrs v, b ≠ a := fun b hb e => ha (e ▸ hb)
  refine ⟨h.linked, ?_, fun b hb => ?_⟩
  · refine Eq.trans ?_ h.reads
    rw [view_poolFree]
    exact LinkedFIFO.toFIFO_congr _ _ rfl (fun _ _ => rfl) fun b hb => info_poolFree m a (hne b hb)
  · simpa [word_poolFree, hne b hb] using h.pooled b hb

/-- A level's methods leave the free list alone. -/
theorem FreeSpells.setView {xs : List Nat} (h : m.FreeSpells xs) (s : Side) (px : Int)
    (q : LinkedFIFO) : (m.setView s px q).FreeSpells xs :=
  ⟨h.nodup, h.head_eq, h.link_eq⟩

/-- Freeing a slot that is not on the free list pushes it. -/
theorem FreeSpells.poolFree {xs : List Nat} (h : m.FreeSpells xs) {a : Nat} (ha : a ∉ xs) :
    (m.poolFree a).FreeSpells (a :: xs) := by
  refine ⟨List.nodup_cons.2 ⟨ha, h.nodup⟩, rfl, fun b hb => ?_⟩
  rw [word_poolFree]
  split_ifs with hba
  · rw [hba, h.head_eq, nextIn_cons_self]
  · rw [h.link_eq b ((List.mem_cons.1 hb).resolve_left hba), nextIn_cons_of_ne _ (Ne.symm hba)]

/-- **Erasing and freeing a member** of a level lays out the list model's erase at that level
and the pool's `free`. -/
theorem Lays.eraseFree {lv : Levels} {p : SlabPool} (h : m.Lays lv p) (hn : n ∈ addrs (lv s₀ p₀)) :
    ((m.erase s₀ p₀ n).freeNode n).Lays (lv.set s₀ p₀ ((lv s₀ p₀).erase n)) (p.free n) := by
  have h₀ := h.spells s₀ p₀
  have hfree : (m.erase s₀ p₀ n).freeNode n = (m.erase s₀ p₀ n).poolFree n :=
    freeNode_of_pooled _ _ (by simpa [NodeMemory.erase] using (h₀.pooled _ hn).2)
  -- every level after keeps its slots among those it had, and loses the node
  have hsub : ∀ s px, ∀ a ∈ addrs (lv.set s₀ p₀ ((lv s₀ p₀).erase n) s px),
      a ∈ addrs (lv s px) ∧ a ≠ n := by
    intro s px a ha
    by_cases hs : s = s₀ ∧ px = p₀
    · obtain ⟨rfl, rfl⟩ := hs
      rw [Levels.set_self, h₀.addrs_erase hn] at ha
      exact ⟨List.mem_of_mem_erase ha, (h₀.linked.nodup.mem_erase_iff.1 ha).1⟩
    · rw [Levels.set_of_ne _ _ hs] at ha
      exact ⟨ha, fun e => h.apart s px s₀ p₀ (fun e' => hs (Prod.mk.inj_iff.1 e')) a ha (e ▸ hn)⟩
  have hlt : ∀ a ∈ (p.free n).freeList, a < m.numSlabs * nodesPerSlab := fun a ha =>
    (List.mem_cons.1 ha).elim (fun e => e ▸ h.level_lt s₀ p₀ n hn) (h.free_lt a)
  rw [hfree]
  refine ⟨fun s px => ?_, fun s px s' px' hne a ha ha' =>
      h.apart s px s' px' hne a (hsub s px a ha).1 (hsub s' px' a ha').1,
    (h.free.setView _ _ _).poolFree (h.free_apart _ _ _ hn), fun s px a ha h' =>
      (List.mem_cons.1 h').elim (hsub s px a ha).2 (h.free_apart s px a (hsub s px a ha).1),
    by simp [SlabPool.free, h.inUse, NodeMemory.erase], by simpa [NodeMemory.erase] using h.numSlabs,
    by simpa [NodeMemory.erase] using hlt, fun s px a ha => by
      simpa [NodeMemory.erase] using h.level_lt s px a (hsub s px a ha).1⟩
  by_cases hs : s = s₀ ∧ px = p₀
  · obtain ⟨rfl, rfl⟩ := hs
    rw [Levels.set_self]
    exact (h₀.erase hn).poolFree fun h' => h₀.linked.nodup.not_mem_erase (h₀.addrs_erase hn ▸ h')
  · have hap := h.apart s px s₀ p₀ (fun e' => hs (Prod.mk.inj_iff.1 e'))
    rw [Levels.set_of_ne _ _ hs]
    exact (h₀.erase_of_ne hn (h.spells s px) hs hap).poolFree fun h' => hap _ h' hn

end Erase

/-! ## Shrinking a member -/

section Reduce

variable {m} {s₀ : Side} {p₀ : Int} {n : Nat} {lv : Levels} {p : SlabPool}

theorem Spells.reduceQty_eq {v : LevelFIFO} (h : m.Spells s₀ p₀ v) (d : Int) :
    v.reduceQty n d = ((m.view s₀ p₀).reduceQty n d).toFIFO m.info (addrs v) := by
  rw [LinkedFIFO.toFIFO_reduceQty _ _ _ h.linked.nodup, h.reads]

theorem Spells.addrs_reduceQty {v : LevelFIFO} (h : m.Spells s₀ p₀ v) (d : Int) :
    addrs (v.reduceQty n d) = addrs v := by
  rw [h.reduceQty_eq d, addrs, LinkedFIFO.map_addr_toFIFO]

/-- Shrinking a node of a level spells the list model's `reduce_qty`. -/
theorem Spells.reduceQty {v : LevelFIFO} (h : m.Spells s₀ p₀ v) (d : Int) :
    (m.reduceQty s₀ p₀ n d).Spells s₀ p₀ (v.reduceQty n d) := by
  rw [NodeMemory.reduceQty]
  refine ⟨?_, ?_, ?_⟩ <;> rw [h.addrs_reduceQty d]
  · simpa using h.linked.reduceQty n d
  · rw [view_setView_self, info_setView, h.reduceQty_eq d]
  · simpa using h.pooled

/-- **Shrinking a member** of a level lays out the list model's `reduce_qty` at that level. -/
theorem Lays.reduceQty (h : m.Lays lv p) (hn : n ∈ addrs (lv s₀ p₀)) (d : Int) :
    (m.reduceQty s₀ p₀ n d).Lays (lv.set s₀ p₀ ((lv s₀ p₀).reduceQty n d)) p := by
  have ha : ∀ s px, addrs (lv.set s₀ p₀ ((lv s₀ p₀).reduceQty n d) s px) = addrs (lv s px) := by
    intro s px
    by_cases hs : s = s₀ ∧ px = p₀
    · obtain ⟨rfl, rfl⟩ := hs
      rw [Levels.set_self, (h.spells s px).addrs_reduceQty d]
    · rw [Levels.set_of_ne _ _ hs]
  refine ⟨fun s px => ?_, fun s px s' px' hne => by rw [ha, ha]; exact h.apart s px s' px' hne,
    h.free.setView _ _ _, fun s px => by rw [ha]; exact h.free_apart s px, h.inUse, h.numSlabs,
    h.free_lt, fun s px => by rw [ha]; exact h.level_lt s px⟩
  by_cases hs : s = s₀ ∧ px = p₀
  · obtain ⟨rfl, rfl⟩ := hs
    rw [Levels.set_self]
    exact (h.spells s px).reduceQty d
  · rw [Levels.set_of_ne _ _ hs]
    refine (h.spells s px).frame (by simp [NodeMemory.reduceQty, setView, hs]) fun a ha' => ?_
    have han : a ≠ n := fun e =>
      h.apart s px s₀ p₀ (fun e' => hs (Prod.mk.inj_iff.1 e')) a ha' (e ▸ hn)
    exact ⟨rfl, rfl, by simp [NodeMemory.reduceQty, LinkedFIFO.reduceQty, view, han], rfl, rfl, rfl,
      rfl, rfl⟩

end Reduce

/-! ## Allocating a slot -/

section Alloc

variable {m} {lv : Levels} {p : SlabPool}

theorem slabSlots_eq_cons {base k : Nat} (hk : 0 < k) :
    SlabPool.slabSlots base k = (base + k - 1) :: SlabPool.slabSlots base (k - 1) := by
  obtain ⟨j, rfl⟩ := Nat.exists_eq_succ_of_ne_zero hk.ne'
  simp [SlabPool.slabSlots]

theorem nodesPerSlab_pos : 0 < nodesPerSlab := by decide

/-- In a new slab's slots ahead of a list, each slot links to the one below it, and the first
slot of the slab to the list. -/
theorem nextIn_slabSlots {base a : Nat} (xs : List Nat) : ∀ {k : Nat},
    a ∈ SlabPool.slabSlots base k →
      nextIn (SlabPool.slabSlots base k ++ xs) a = if a = base then xs.head? else some (a - 1)
  | 0, h => absurd h (List.not_mem_nil _)
  | k + 1, h => by
    rw [SlabPool.slabSlots, List.cons_append]
    by_cases ha : a = base + k
    · subst ha
      rw [nextIn_cons_self]
      cases k with
      | zero => simp [SlabPool.slabSlots]
      | succ j => simp [SlabPool.slabSlots]
    · rw [nextIn_cons_of_ne _ (Ne.symm ha)]
      exact nextIn_slabSlots xs ((List.mem_cons.1 h).resolve_left ha)

/-- `add_slab()` leaves every slot below the new slab alone. -/
theorem sameSlot_addSlab {a : Nat} (ha : a < m.numSlabs * nodesPerSlab) : m.SameSlot m.addSlab a := by
  have : decide (m.numSlabs * nodesPerSlab ≤ a ∧ a < m.numSlabs * nodesPerSlab + nodesPerSlab) =
      false := decide_eq_false (by omega)
  constructor <;> simp only [NodeMemory.addSlab, this, Bool.false_eq_true, if_false]

/-- `add_slab()` puts the new slab's slots ahead of the free list. -/
theorem FreeSpells.addSlab {xs : List Nat} (h : m.FreeSpells xs)
    (hxs : ∀ a ∈ xs, a < m.numSlabs * nodesPerSlab) :
    m.addSlab.FreeSpells (SlabPool.slabSlots (m.numSlabs * nodesPerSlab) nodesPerSlab ++ xs) := by
  refine ⟨List.nodup_append.2 ⟨SlabPool.nodup_slabSlots _ _, h.nodup, fun a ha hb => ?_⟩, ?_,
    fun a ha => ?_⟩
  · have := hxs a hb
    rw [SlabPool.mem_slabSlots] at ha
    omega
  · rw [freeList_addSlab, slabSlots_eq_cons nodesPerSlab_pos]
    rfl
  · rcases List.mem_append.1 ha with ha | ha
    · rw [nextIn_slabSlots xs ha]
      simp only [NodeMemory.addSlab, decide_eq_true_eq, SlabPool.mem_slabSlots.1 ha, and_self, if_true]
      split_ifs
      exacts [h.head_eq, rfl]
    · rw [(sameSlot_addSlab (hxs a ha)).word, h.link_eq a ha,
        nextIn_append_right _ (List.nodup_append.2 ⟨SlabPool.nodup_slabSlots _ _, h.nodup,
          fun b hb hb' => by have := hxs b hb'; rw [SlabPool.mem_slabSlots] at hb; omega⟩) ha]

/-- **`add_slab()`** lays out the pool's `add_slab`. -/
theorem Lays.addSlab (h : m.Lays lv p) : m.addSlab.Lays lv (SlabPool.addSlab nodesPerSlab p) := by
  have hfl : (SlabPool.addSlab nodesPerSlab p).freeList =
      SlabPool.slabSlots (m.numSlabs * nodesPerSlab) nodesPerSlab ++ p.freeList := by
    rw [h.numSlabs]; rfl
  refine ⟨fun s px => (h.spells s px).frame rfl fun a ha => sameSlot_addSlab (h.level_lt s px a ha),
    h.apart, hfl ▸ h.free.addSlab h.free_lt, fun s px a ha h' => ?_, h.inUse,
    by simp [SlabPool.addSlab, h.numSlabs], fun a ha => ?_,
    fun s px a ha => by have := h.level_lt s px a ha; rw [numSlabs_addSlab, Nat.succ_mul]; omega⟩
  · rw [hfl, List.mem_append, SlabPool.mem_slabSlots] at h'
    have := h.level_lt s px a ha
    exact h'.elim (fun h'' => by omega) (h.free_apart s px a ha)
  · rw [hfl, List.mem_append, SlabPool.mem_slabSlots] at ha
    simp only [numSlabs_addSlab, Nat.succ_mul]
    exact ha.elim (fun h'' => by omega) fun h'' => by have := h.free_lt a h''; omega

/-- **Popping the head slot `a`** of the free list lays out the pool's pop; the slot is in no level
and no longer free. -/
theorem Lays.allocSlot (h : m.Lays lv p) {a : Nat} {rest : List Nat} (hfl : p.freeList = a :: rest) :
    (m.allocSlot a).Lays lv { p with freeList := rest, inUse := p.inUse + 1 } := by
  have hF := h.free
  rw [hfl] at hF
  have hna : a ∉ rest := (List.nodup_cons.1 hF.nodup).1
  have hlv : ∀ s px, ∀ x ∈ addrs (lv s px), x ≠ a := fun s px x hx e =>
    h.free_apart s px x hx (by rw [hfl, e]; exact List.mem_cons_self _ _)
  refine ⟨fun s px => (h.spells s px).frame rfl fun x hx => ?_, h.apart,
    ⟨(List.nodup_cons.1 hF.nodup).2, ?_, fun x hx => ?_⟩,
    fun s px x hx h' => h.free_apart s px x hx (hfl ▸ List.mem_cons_of_mem _ h'),
    by simp [h.inUse], h.numSlabs, fun x hx => h.free_lt x (hfl ▸ List.mem_cons_of_mem _ hx),
    h.level_lt⟩
  · exact ⟨rfl, rfl, rfl, rfl, rfl, rfl, rfl, by simp [NodeMemory.allocSlot, hlv s px x hx]⟩
  · rw [freeList_allocSlot, hF.link_eq a (List.mem_cons_self _ _), nextIn_cons_self]
  · have hxa : a ≠ x := fun e => hna (by simpa [e] using hx)
    rw [← nextIn_cons_of_ne rest hxa]
    exact hF.link_eq x (List.mem_cons_of_mem _ hx)

/-- **`alloc_node()` is the pool's `alloc`**: it hands out the slot the list model's pool does,
which is in no level, and lays out the pool after it. -/
theorem Lays.allocNode (h : m.Lays lv p) :
    ∃ m', m.allocNode = some ((p.alloc nodesPerSlab).1, m') ∧ m'.Lays lv (p.alloc nodesPerSlab).2 ∧
      m'.allocKind (p.alloc nodesPerSlab).1 = 1 ∧
      (p.alloc nodesPerSlab).1 ∉ (p.alloc nodesPerSlab).2.freeList ∧
      (∀ s px, (p.alloc nodesPerSlab).1 ∉ addrs (lv s px)) ∧
      (p.alloc nodesPerSlab).1 < m'.numSlabs * nodesPerSlab := by
  -- the pop from a pool `q` whose free list is `a :: rest`, laid out by `m₀`
  have pop : ∀ {m₀ : NodeMemory} {q : SlabPool} {a : Nat} {rest : List Nat}, m₀.Lays lv q →
      q.freeList = a :: rest → m₀.allocNode = some (a, m₀.allocSlot a) →
      (m₀.allocSlot a).Lays lv { q with freeList := rest, inUse := q.inUse + 1 } ∧
        (m₀.allocSlot a).allocKind a = 1 ∧ a ∉ rest ∧ (∀ s px, a ∉ addrs (lv s px)) ∧
        a < (m₀.allocSlot a).numSlabs * nodesPerSlab := by
    intro m₀ q a rest h₀ hq _
    have hmem : a ∈ q.freeList := hq ▸ List.mem_cons_self _ _
    exact ⟨h₀.allocSlot hq, by simp [NodeMemory.allocSlot],
      (List.nodup_cons.1 (hq ▸ h₀.free.nodup)).1, fun s px ha => h₀.free_apart s px a ha hmem,
      h₀.free_lt a hmem⟩
  cases hfl : p.freeList with
  | nil =>
    have hnull : m.freeList = .ptr none := by rw [h.free.head_eq, hfl]; rfl
    have h₁ := h.addSlab
    have hq : (SlabPool.addSlab nodesPerSlab p).freeList =
        (m.numSlabs * nodesPerSlab + nodesPerSlab - 1) ::
          SlabPool.slabSlots (m.numSlabs * nodesPerSlab) (nodesPerSlab - 1) := by
      simp [SlabPool.addSlab, hfl, h.numSlabs, slabSlots_eq_cons nodesPerSlab_pos]
    have hal : p.alloc nodesPerSlab = (m.numSlabs * nodesPerSlab + nodesPerSlab - 1,
        { SlabPool.addSlab nodesPerSlab p with
          freeList := SlabPool.slabSlots (m.numSlabs * nodesPerSlab) (nodesPerSlab - 1)
          inUse := (SlabPool.addSlab nodesPerSlab p).inUse + 1 }) := by
      simp only [SlabPool.alloc, hfl, List.isEmpty_nil, if_true, hq]
    rw [hal]
    exact ⟨_, allocNode_of_null m hnull, pop h₁ hq (allocNode_of_head _ _ rfl)⟩
  | cons a rest =>
    have hhead : m.freeList = .ptr (some a) := by rw [h.free.head_eq, hfl]; rfl
    have hal : p.alloc nodesPerSlab = (a, { p with freeList := rest, inUse := p.inUse + 1 }) := by
      simp [SlabPool.alloc, hfl]
    rw [hal]
    exact ⟨_, allocNode_of_head _ _ hhead, pop h hfl (allocNode_of_head _ _ hhead)⟩

end Alloc

/-! ## Resting a node -/

section Rest

variable {m} {lv : Levels} {p : SlabPool} {a : Nat}

/-- The rest path's writes touch the new slot only. -/
theorem sameSlot_fill {x : Nat} (hx : x ≠ a) (cmd : OrderCommand) (r : Int) :
    m.SameSlot (m.fill a cmd r) x := by
  simp only [NodeMemory.fill]
  exact ⟨rfl, rfl, by simp [hx], by simp [hx], by simp [hx], by simp [hx], by simp [hx], rfl⟩

/-- **Enqueueing a fresh slot** at the tail of a level lays out the list model's `enqueue` of its
node there. -/
theorem Lays.enqueue (h : m.Lays lv p) (t : Side) (px : Int) (hnf : a ∉ p.freeList)
    (hnl : ∀ s px, a ∉ addrs (lv s px)) (hw : ∃ id, m.word a = .orderId id) (hk : m.allocKind a = 1)
    (hlt : a < m.numSlabs * nodesPerSlab) :
    (m.enqueue t px a).Lays (lv.set t px ((lv t px).enqueue { m.info a with addr := a, qty := m.qty a }))
      p := by
  have h₀ := h.spells t px
  have hadd : addrs ((lv t px).enqueue { m.info a with addr := a, qty := m.qty a }) =
      addrs (lv t px) ++ [a] := by simp [addrs]
  -- every level after holds the slots it had, and the level at `px` also `a`
  have hsub : ∀ s qx, ∀ x ∈ addrs (lv.set t px ((lv t px).enqueue
      { m.info a with addr := a, qty := m.qty a }) s qx), x ∈ addrs (lv s qx) ∨ (s = t ∧ qx = px ∧ x = a) := by
    intro s qx x hx
    by_cases hs : s = t ∧ qx = px
    · obtain ⟨rfl, rfl⟩ := hs
      rw [Levels.set_self, hadd, List.mem_append, List.mem_singleton] at hx
      exact hx.imp id fun e => ⟨rfl, rfl, e⟩
    · rw [Levels.set_of_ne _ _ hs] at hx
      exact .inl hx
  refine ⟨fun s qx => ?_, fun s qx s' qx' hne x hx hx' => ?_, h.free.setView _ _ _,
    fun s qx x hx => ?_, h.inUse, h.numSlabs, h.free_lt, fun s qx x hx => ?_⟩
  · by_cases hs : s = t ∧ qx = px
    · obtain ⟨rfl, rfl⟩ := hs
      rw [Levels.set_self]
      refine ⟨?_, ?_, fun x hx => ?_⟩ <;> rw [hadd] at *
      · simpa [NodeMemory.enqueue] using h₀.linked.enqueue (hnl s qx)
      · rw [NodeMemory.enqueue, view_setView_self, info_setView, LinkedFIFO.toFIFO_enqueue, h₀.reads]
        rfl
      · rcases List.mem_append.1 hx with hx | hx
        · simpa [NodeMemory.enqueue] using h₀.pooled x hx
        · rw [List.mem_singleton.1 hx]
          simpa [NodeMemory.enqueue] using ⟨hw, hk⟩
    · rw [Levels.set_of_ne _ _ hs]
      refine (h.spells s qx).frame (by simp [NodeMemory.enqueue, setView, hs]) fun x hx => ?_
      have hxa : x ≠ a := fun e => hnl s qx (e ▸ hx)
      -- the old tail of the level at `px` is a slot of that level
      have htl : (m.headers t px).tail ≠ some x := fun e => h.apart s qx t px
        (fun e' => hs (Prod.mk.inj_iff.1 e')) x hx
        (List.mem_of_getLast?_eq_some (h₀.linked.tail_eq ▸ e))
      exact ⟨by simp [NodeMemory.enqueue, view, hxa], by simp [NodeMemory.enqueue, view, htl, hxa],
        by simp [NodeMemory.enqueue, view], rfl, rfl, rfl, rfl, rfl⟩
  · rcases hsub s qx x hx with hx | ⟨hs, hq, hxa⟩ <;>
      rcases hsub s' qx' x hx' with hx' | ⟨hs', hq', hxa'⟩
    · exact h.apart s qx s' qx' hne x hx hx'
    · exact hnl s qx (hxa' ▸ hx)
    · exact hnl s' qx' (hxa ▸ hx')
    · exact hne (by rw [hs, hq, hs', hq'])
  · rcases hsub s qx x hx with hx | ⟨-, -, hxa⟩
    exacts [h.free_apart s qx x hx, hxa ▸ hnf]
  · rcases hsub s qx x hx with hx | ⟨-, -, hxa⟩
    exacts [h.level_lt s qx x hx, hxa ▸ hlt]

/-- **The rest path's node** lays out the list model's rest: the pool's `alloc`, and the level at
the command's price with the new node at its tail. -/
theorem Lays.restNode (h : m.Lays lv p) (t : Side) (cmd : OrderCommand) (remaining : Int) :
    ∃ m', m.restNode t cmd remaining = some m' ∧
      m'.Lays (lv.set t cmd.priceTicks ((lv t cmd.priceTicks).enqueue
        ⟨(p.alloc nodesPerSlab).1, cmd.orderId, cmd.userId, remaining, cmd.recvTs, cmd.flags⟩))
        (p.alloc nodesPerSlab).2 := by
  obtain ⟨m₁, hal, h₁, hk, hnf, hnl, hlt⟩ := h.allocNode
  set a := (p.alloc nodesPerSlab).1
  have h₂ : (m₁.fill a cmd remaining).Lays lv (p.alloc nodesPerSlab).2 := by
    refine ⟨fun s px => (h₁.spells s px).frame rfl fun x hx => sameSlot_fill
        (fun e => hnl s px (by rw [← e]; exact hx)) cmd remaining, h₁.apart,
      ⟨h₁.free.nodup, h₁.free.head_eq, fun x hx => ?_⟩, h₁.free_apart, h₁.inUse, h₁.numSlabs,
      h₁.free_lt, h₁.level_lt⟩
    rw [← h₁.free.link_eq x hx]
    exact (sameSlot_fill (fun e => hnf (by rw [← e]; exact hx)) cmd remaining).word
  refine ⟨(m₁.fill a cmd remaining).enqueue t cmd.priceTicks a, by simp [NodeMemory.restNode, hal], ?_⟩
  have := h₂.enqueue t cmd.priceTicks hnf hnl ⟨cmd.orderId, by simp [NodeMemory.fill]⟩
    (by simpa [NodeMemory.fill] using hk) (by simpa using hlt)
  simpa [NodeMemory.info, NodeMemory.fill] using this

end Rest

/-! ## `cancel` of a resting order -/

section Cancel

variable {L : Type} [PriceLevels L] [LawfulPriceLevels L]

open PriceLevels

/-- The levels of the list model's book after `cancel` of an id the index finds. -/
theorem level_cancel_of_find {b : OrderBook L} {id : OrderId} {e : OrderEntry}
    (hf : b.idIndex.find id = some e) (s : Side) (px : Int) :
    level ((b.cancel id).book.side s) px =
      if s = e.side ∧ px = e.price then (level (b.side e.side) e.price).erase e.node
      else level (b.side s) px := by
  rw [OrderBook.cancel_of_find hf]
  by_cases hs : s = e.side
  · subst hs
    simp [OrderBook.level_eraseAt]
  · simp [hs]

omit [LawfulPriceLevels L] in
/-- An entry that points at a node of its level points at a member of the level's links. -/
theorem node_mem_addrs {b : OrderBook L} {e : OrderEntry} (hl : b.entryLinked e = true) :
    e.node ∈ addrs (level (b.side e.side) e.price) := by
  obtain ⟨n, hn⟩ := Option.isSome_iff_exists.1 hl
  exact List.mem_map.2 ⟨n, List.mem_of_find?_eq_some hn, by simpa using List.find?_some hn⟩

variable {m} {b : OrderBook L}

/-- **`cancel` of a resting order is the list model's `cancel`.** From a memory that spells the
book, `cancel(id)` whose entry points at a node of the level it names erases that node and frees
its slot, leaving a memory that spells the list model's book after `cancel(id)`; and the level's
`empty()`, which decides the best-price repair, is the list model's test. -/
theorem represents_cancel (h : m.Represents b) {id : OrderId} {e : OrderEntry}
    (hf : b.idIndex.find id = some e) (hl : b.entryLinked e = true) :
    (m.cancelNode e).Represents (b.cancel id).book ∧
      ((m.cancelNode e).headers e.side e.price).head.isNone =
        ((level (b.side e.side) e.price).erase e.node).empty := by
  have hL := Lays.eraseFree h (node_mem_addrs hl)
  exact ⟨hL.congr (level_cancel_of_find hf) (by simp [OrderBook.cancel_of_find hf]),
    by simpa using hL.head_isNone e.side e.price⟩

omit [LawfulPriceLevels L] in
/-- The list model's node an entry points at is the slot's order, with the slot's quantity. -/
theorem entryNode_eq (h : m.Represents b) {e : OrderEntry} (hl : b.entryLinked e = true) :
    b.entryNode e = { m.info e.node with addr := e.node, qty := m.qty e.node } := by
  obtain ⟨n, hn⟩ := Option.isSome_iff_exists.1 hl
  have ha : n.addr = e.node := by simpa using List.find?_some hn
  rw [OrderBook.entryNode, hn, Option.getD_some, ← ha]
  exact (h.spells e.side e.price).eq_of_mem (List.mem_of_find?_eq_some hn)

omit [LawfulPriceLevels L] in
theorem qty_entryNode (h : m.Represents b) {e : OrderEntry} (hl : b.entryLinked e = true) :
    (b.entryNode e).qty = m.qty e.node := by
  rw [entryNode_eq h hl]

omit [LawfulPriceLevels L] in
/-- What `cancel` of a resting order leaves in its slot: null links, the node's quantity, the
pool's mark, and the slot at the head of the free list; and the level's total without it. -/
theorem cancelNode_slot (h : m.Represents b) {e : OrderEntry} (hl : b.entryLinked e = true) :
    (m.cancelNode e).prev e.node = none ∧ (m.cancelNode e).next e.node = none ∧
      (m.cancelNode e).qty e.node = m.qty e.node ∧ (m.cancelNode e).allocKind e.node = 1 ∧
      (m.cancelNode e).freeList = .ptr (some e.node) ∧
      ((m.cancelNode e).headers e.side e.price).totalQty =
        wrapInt64 ((level (b.side e.side) e.price).totalQty - m.qty e.node) := by
  have h₀ := h.spells e.side e.price
  have hk : m.allocKind e.node = 1 := (h₀.pooled _ (node_mem_addrs hl)).2
  have ht : (m.headers e.side e.price).totalQty = (level (b.side e.side) e.price).totalQty :=
    congrArg LevelFIFO.totalQty h₀.reads
  rw [cancelNode, freeNode_of_pooled _ _ (by simpa [NodeMemory.erase] using hk)]
  simp [NodeMemory.erase, hk, view, ht]

end Cancel

/-! ## `cancel` and `modify` through an entry left behind -/

section Stale

variable {L : Type} [PriceLevels L] [LawfulPriceLevels L]

open PriceLevels

variable {m} {b : OrderBook L}

omit [LawfulPriceLevels L] in
/-- **A second `cancel` through the same entry.** `FlatMap::erase` can miss the entry of the
order that a `cancel` (or a fill) removes, and a resize brings it back within reach of `find`.
From a memory that spells the book, `cancel` of a resting order and then `cancel` through its
entry again: the second erase relinks through the node's `prev` and `next`, which the first
nulled, so the level's `head` and `tail` become null and every other order of the level is cut
off from it; `total_qty` loses the node's quantity a second time; and the slot is freed again,
so the free list's head is the slot and the slot's link points at itself: the next two
allocations both return it. -/
theorem cancelNode_twice (h : m.Represents b) {e : OrderEntry} (hl : b.entryLinked e = true) :
    ((m.cancelNode e).cancelNode e).headers e.side e.price =
        ⟨none, none, wrapInt64 (wrapInt64 ((level (b.side e.side) e.price).totalQty -
          (b.entryNode e).qty) - (b.entryNode e).qty)⟩ ∧
      ((m.cancelNode e).cancelNode e).freeList = .ptr (some e.node) ∧
      ((m.cancelNode e).cancelNode e).word e.node = .ptr (some e.node) ∧
      ∃ m₃ m₄, ((m.cancelNode e).cancelNode e).allocNode = some (e.node, m₃) ∧
        m₃.allocNode = some (e.node, m₄) := by
  obtain ⟨hp, hx, hq, hk, hfl, ht⟩ := cancelNode_slot h hl
  rw [qty_entryNode h hl]
  set m₁ := m.cancelNode e
  have h₂ : m₁.cancelNode e = (m₁.erase e.side e.price e.node).poolFree e.node :=
    freeNode_of_pooled _ _ (by simpa [NodeMemory.erase] using hk)
  have hw : (m₁.cancelNode e).word e.node = .ptr (some e.node) := by
    simp [h₂, word_poolFree, NodeMemory.erase, hfl]
  have hfl₂ : (m₁.cancelNode e).freeList = .ptr (some e.node) := by simp [h₂]
  -- the head is the slot and its link the slot itself, twice over
  exact ⟨by simp [h₂, NodeMemory.erase, view, hp, hx, hq, ht], hfl₂, hw, _, _,
    allocNode_of_head _ _ hfl₂, allocNode_of_head _ _ hw⟩

omit [LawfulPriceLevels L] in
/-- Shrinking a slot that is not in a level takes the reduction off that level's `total_qty`
and leaves its orders as they were. -/
theorem Spells.reduceQty_of_not_mem {s : Side} {px : Int} {v : LevelFIFO} (h : m.Spells s px v)
    {n : Nat} (hn : n ∉ addrs v) (d : Int) :
    (m.reduceQty s px n d).Spells s px { v with totalQty := wrapInt64 (v.totalQty - d) } := by
  have hne : ∀ a ∈ addrs v, a ≠ n := fun a ha e => hn (e ▸ ha)
  refine ⟨?_, ?_, fun a ha => by simpa [NodeMemory.reduceQty] using h.pooled a ha⟩
  · simpa [NodeMemory.reduceQty, addrs] using h.linked.reduceQty n d
  · conv_rhs => rw [← h.reads]
    simp only [NodeMemory.reduceQty, view_setView_self, info_setView, addrs, LinkedFIFO.toFIFO,
      LevelFIFO.mk.injEq]
    refine ⟨List.map_congr_left fun a ha => ?_, rfl⟩
    simp [LinkedFIFO.reduceQty, hne a (by simpa [addrs] using ha)]

/-- **`modify` in place through an entry left behind.** After `cancel` of a resting order,
`modify` through its entry at the entry's price and below the node's quantity reads that
quantity from the freed slot (`entry.node->qty`, the quantity of the order the entry was made
for) and takes the difference off the level's `total_qty` (`reduce_qty`), while the level keeps
every order the list model keeps there, with its quantity: `total_qty` is no longer theirs. -/
theorem shrink_freed (h : m.Represents b) {id : OrderId} {e : OrderEntry}
    (hf : b.idIndex.find id = some e) (hl : b.entryLinked e = true) (newQty : Int) :
    (m.cancelNode e).qty e.node = (b.entryNode e).qty ∧
      ((m.cancelNode e).reduceQty e.side e.price e.node ((b.entryNode e).qty - newQty)).Spells
        e.side e.price { level ((b.cancel id).book.side e.side) e.price with
          totalQty := wrapInt64 ((level ((b.cancel id).book.side e.side) e.price).totalQty -
            ((b.entryNode e).qty - newQty)) } := by
  have h₀ := h.spells e.side e.price
  have hn := node_mem_addrs hl
  refine ⟨(cancelNode_slot h hl).2.2.1.trans (qty_entryNode h hl).symm, ?_⟩
  refine ((represents_cancel h hf hl).1.spells e.side e.price).reduceQty_of_not_mem ?_ _
  rw [level_cancel_of_find hf, if_pos ⟨rfl, rfl⟩, h₀.addrs_erase hn]
  exact h₀.linked.nodup.not_mem_erase

omit [LawfulPriceLevels L] in
/-- **`cancel` through an entry whose slot heads another level.** Once the pool has handed the
freed slot of the entry's order to an order of another level, where it is the first node,
`cancel` through the entry erases it from the level the entry names: that level's `head` takes
the slot's `next`, a node of the other level's chain; the other level keeps the slot as its head
with a null `next`, so it reads as that one node; and the slot of that resting order goes back
to the pool, which hands it out next. -/
theorem cancelNode_foreign {e : OrderEntry} {s : Side} {px : Int} {zs : List Nat}
    (hlink : (m.view s px).WellLinked (e.node :: zs)) (hne : ¬(s = e.side ∧ px = e.price))
    (hk : m.allocKind e.node = 1) :
    ((m.cancelNode e).headers e.side e.price).head = zs.head? ∧
      ((m.cancelNode e).view s px).walk 2 ((m.cancelNode e).view s px).head = [e.node] ∧
      ∃ m', (m.cancelNode e).allocNode = some (e.node, m') := by
  have hp : m.prev e.node = none := by
    simpa [view] using hlink.prev_head (by simp [hlink.head_eq])
  have hx : m.next e.node = zs.head? := by
    simpa [view, nextIn_cons_self] using hlink.next_eq e.node (List.mem_cons_self _ _)
  have hh : (m.headers s px).head = some e.node := by simpa [view] using hlink.head_eq
  have hc : m.cancelNode e = (m.erase e.side e.price e.node).poolFree e.node :=
    freeNode_of_pooled _ _ (by simpa [NodeMemory.erase] using hk)
  refine ⟨by simp [hc, NodeMemory.erase, view, hp, hx], ?_, _,
    allocNode_of_head _ _ (by simp [hc])⟩
  rw [hc, view_poolFree, NodeMemory.erase, view_setView_of_ne _ _ _ _ hne]
  simp [LinkedFIFO.walk, hh, view]

end Stale

end NodeMemory

end HyperliquidEngine
