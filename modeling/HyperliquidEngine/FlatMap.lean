import HyperliquidEngine.Types

/-!
# The order index: an open-addressing hash map (flat_map.h)

`FlatMap<Key, Value, EmptyKey = 0>` with `uint64_t` keys, as the order book instantiates
it: linear probing over a power-of-two table, the multiply–xorshift `hash`, doubling when
the load reaches `0.7`, and backward-shift deletion.

The slots are the vector `entries_` as a function from slot index to entry. A slot is free
when its key is `EmptyKey = 0`; the table is zero-filled (`memset`), so a free slot holds
the zero value, modelled by `default`.

Every `while` loop of the source becomes a function with an explicit bound on its passes:
`find`'s own counter (`capacity_ + 1` slots), and `capacity_` passes for the loops of
`insert_internal` and `erase`, which end earlier whenever a slot is free.
-/

namespace HyperliquidEngine

/-- A slot of the table, `FlatMap::Entry`. -/
structure FlatMap.Entry (V : Type) where
  key : UInt64
  value : V

/-- The table `FlatMap<uint64_t, V>` (flat_map.h:9–162): `entries_`, `capacity_`, `size_`. -/
structure FlatMap (V : Type) where
  entries : Nat → FlatMap.Entry V
  capacity : Nat
  size : Nat

namespace FlatMap

variable {V : Type} [Inhabited V]

/-- The key hash `hash(k)` (flat_map.h:154–162): two multiply–xorshift rounds. -/
def hash (k : UInt64) : UInt64 :=
  let x := k ^^^ (k >>> 33)
  let x := x * 0xff51afd7ed558ccd
  let x := x ^^^ (x >>> 33)
  let x := x * 0xc4ceb9fe1a85ec53
  x ^^^ (x >>> 33)

/-- The slot mask, `buf_mask = capacity_ - 1`. -/
def mask (m : FlatMap V) : Nat := m.capacity - 1

/-- The home slot of a key, `hash(key) & buf_mask`. -/
def home (m : FlatMap V) (k : UInt64) : Nat := (hash k).toNat &&& m.mask

/-- The next slot of a probe, `(idx + 1) & buf_mask`. -/
def next (m : FlatMap V) (idx : Nat) : Nat := (idx + 1) &&& m.mask

/-- The probe loop of `find` (flat_map.h:27–45), from slot `idx` with `n` probes left. -/
def findLoop (m : FlatMap V) (key : UInt64) : Nat → Nat → Option V
  | 0, _ => none
  | n + 1, idx =>
    let e := m.entries idx
    if e.key = 0 then none
    else if e.key = key then some e.value
    else m.findLoop key n (m.next idx)

/-- Lookup, `find(key)`: the value stored under `key`, or `nullptr`. -/
def find (m : FlatMap V) (key : UInt64) : Option V :=
  if key = 0 then none else m.findLoop key (m.capacity + 1) (m.home key)

/-- The probe loop of `insert_internal` (flat_map.h:136–152). With every slot taken the
source probes forever; the model then leaves the table unchanged. -/
def insertLoop (m : FlatMap V) (key : UInt64) (val : V) : Nat → Nat → FlatMap V
  | 0, _ => m
  | n + 1, idx =>
    let e := m.entries idx
    if e.key = 0 then
      { m with entries := writeSlot m.entries idx ⟨key, val⟩, size := m.size + 1 }
    else if e.key = key then
      { m with entries := writeSlot m.entries idx { e with value := val } }
    else m.insertLoop key val n (m.next idx)

/-- Insertion without growth, `insert_internal(key, val)`. -/
def insertInternal (m : FlatMap V) (key : UInt64) (val : V) : FlatMap V :=
  m.insertLoop key val m.capacity (m.home key)

/-- Rehashing, `resize(new_cap)` (flat_map.h:117–134): a zero-filled table of `new_cap` slots, into
which the occupied old slots are reinserted in slot order. -/
def resize (m : FlatMap V) (newCap : Nat) : FlatMap V :=
  (List.range m.capacity).foldl
    (fun acc i => let e := m.entries i; if e.key ≠ 0 then acc.insertInternal e.key e.value else acc)
    ⟨fun _ => ⟨0, default⟩, newCap, 0⟩

/-- The capacity `FlatMap(initial_capacity)` settles on: `16`, doubled while below the
request. The source's `size_t` doubling never ends for a request above `2^63`; the model
stops after the 60 doublings that reach `2^64`. -/
def initCapacity (initial : Nat) : Nat :=
  go 60 16
where
  go : Nat → Nat → Nat
    | 0, cap => cap
    | n + 1, cap => if cap < initial then go n (2 * cap) else cap

/-- The constructor `FlatMap(initial_capacity)` (flat_map.h:14–19): `resize` of the empty vector. -/
def new (initial : Nat) : FlatMap V :=
  resize ⟨fun _ => ⟨0, default⟩, 0, 0⟩ (initCapacity initial)

/-- Insertion, `insert(key, value)` (flat_map.h:47–53). `size_ >= capacity_ * 0.7` is compared in
`double`; for the power-of-two capacities the table takes (below `2^52`) it is
`10 * size_ ≥ 7 * capacity_`. -/
def insert (m : FlatMap V) (key : UInt64) (val : V) : FlatMap V :=
  let m := if 7 * m.capacity ≤ 10 * m.size then m.resize (2 * m.capacity) else m
  m.insertInternal key val

/-- The backward-shift loop of `erase` (flat_map.h:70–102): `idx` is the hole, `probe` the
slot examined. The two branches of `can_move` are the source's, which test the same
condition whether or not the probe has wrapped past the last slot. -/
def shiftLoop (m : FlatMap V) : Nat → Nat → Nat → FlatMap V
  | 0, _, _ => m
  | n + 1, idx, probe =>
    let e := m.entries probe
    if e.key = 0 then m
    else
      let desired := m.home e.key
      let wrapped := decide (probe < idx)
      let canMove :=
        if !wrapped then decide (desired ≤ idx) || decide (probe < desired)
        else decide (desired ≤ idx) || decide (probe < desired)
      if canMove then
        let m' := { m with
          entries := writeSlot (writeSlot m.entries idx e) probe { e with key := 0 } }
        m'.shiftLoop n probe (m.next probe)
      else m.shiftLoop n idx (m.next probe)

/-- The search loop of `erase` (flat_map.h:55–107). -/
def eraseLoop (m : FlatMap V) (key : UInt64) : Nat → Nat → FlatMap V
  | 0, _ => m
  | n + 1, idx =>
    let e := m.entries idx
    if e.key = 0 then m
    else if e.key = key then
      let m' := { m with
        entries := writeSlot m.entries idx { e with key := 0 }, size := m.size - 1 }
      m'.shiftLoop m.capacity idx (m.next idx)
    else m.eraseLoop key n (m.next idx)

/-- Deletion, `erase(key)`. -/
def erase (m : FlatMap V) (key : UInt64) : FlatMap V :=
  m.eraseLoop key m.capacity (m.home key)

end FlatMap

end HyperliquidEngine
