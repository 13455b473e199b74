import HyperliquidEngine.Types
import Mathlib.Data.List.Nodup

/-!
# The slab allocator (mempool.h)

`SlabPool<T>` carves slabs of `SLAB_SIZE / sizeof(T)` objects and threads their slots on
an intrusive free list; `alloc` pops the head of the list (adding a slab when it is
empty) and `free` pushes the slot back.

The `mmap` that backs a slab returns an address the program does not choose. The model
numbers slots instead: slot `i` of the `k`-th slab is address `k * perSlab + i`, which
keeps what the source relies on (slots of different slabs are different addresses) and
nothing else.

The pool is safe for clients that free only pointers `alloc` returned and did not get back
since. `Safe p live` says that the free list and the pointers `live` held by clients list
every slot of every slab once, that `capacity_` counts the slots and `in_use_` the live
pointers. `alloc` and `free` keep it (`Safe.alloc`, `Safe.free`), so along every sequence of
calls that keeps the contract (`slabPool_safe`), `alloc` hands out a slot of a slab that no
client holds, and `capacity() - in_use()` is the length of the free list.
-/

namespace HyperliquidEngine

/-- The pool `SlabPool<T>` (mempool.h:17–100): the free list (head first), the number of slabs,
`capacity_` and `in_use_`. -/
structure SlabPool where
  freeList : List Nat
  numSlabs : Nat
  capacity : Nat
  inUse : Nat
  deriving DecidableEq, Repr

namespace SlabPool

/-- The slots `base + i - 1, …, base + 1, base`: the free list `add_slab` builds by pushing
`base`, `base + 1`, … in turn. -/
def slabSlots (base : Nat) : Nat → List Nat
  | 0 => []
  | i + 1 => (base + i) :: slabSlots base i

variable (perSlab : Nat)

/-- Growth by one slab, `add_slab()` (mempool.h:27–61), for slabs of `perSlab` objects. -/
def addSlab (p : SlabPool) : SlabPool :=
  { freeList := slabSlots (p.numSlabs * perSlab) perSlab ++ p.freeList
    numSlabs := p.numSlabs + 1
    capacity := p.capacity + perSlab
    inUse := p.inUse }

/-- The constructor `SlabPool(initial_slabs)`. -/
def new (initialSlabs : Nat) : SlabPool :=
  (addSlab perSlab)^[initialSlabs] ⟨[], 0, 0, 0⟩

/-- Allocation, `alloc()` (mempool.h:79–86): the slot it returns and the pool after. The empty-list case
after `add_slab` cannot arise while `perSlab > 0`, which `add_slab` asserts. -/
def alloc (p : SlabPool) : Nat × SlabPool :=
  let p := if p.freeList.isEmpty then addSlab perSlab p else p
  match p.freeList with
  | a :: rest => (a, { p with freeList := rest, inUse := p.inUse + 1 })
  | [] => (0, p)

/-- Release, `free(ptr)` (mempool.h:88–95). -/
def free (p : SlabPool) (a : Nat) : SlabPool :=
  { p with freeList := a :: p.freeList, inUse := p.inUse - 1 }

/-! ## Safety -/

theorem mem_slabSlots {base a : Nat} : ∀ {n : Nat}, a ∈ slabSlots base n ↔ base ≤ a ∧ a < base + n
  | 0 => by simp [slabSlots]
  | n + 1 => by
    rw [slabSlots, List.mem_cons, mem_slabSlots]
    omega

theorem nodup_slabSlots (base : Nat) : ∀ n, (slabSlots base n).Nodup
  | 0 => List.nodup_nil
  | n + 1 => List.nodup_cons.2 ⟨fun h => by simp [mem_slabSlots] at h, nodup_slabSlots base n⟩

/-- The pool is consistent with the pointers `live` its clients hold: the free list and
`live` list every slot of the `num_slabs()` slabs once, `capacity_` counts the slots and
`in_use_` the live pointers. -/
structure Safe (p : SlabPool) (live : List Nat) : Prop where
  capacity_eq : p.capacity = p.numSlabs * perSlab
  inUse_eq : p.inUse = live.length
  nodup : (p.freeList ++ live).Nodup
  mem_iff : ∀ a, a ∈ p.freeList ++ live ↔ a < p.numSlabs * perSlab

namespace Safe

variable {perSlab} {p : SlabPool} {live : List Nat}

/-- **`capacity() - in_use()` is the length of the free list.** -/
theorem capacity_sub_inUse (h : Safe perSlab p live) : p.capacity - p.inUse = p.freeList.length := by
  have hperm : (p.freeList ++ live).Perm (List.range (p.numSlabs * perSlab)) :=
    (List.perm_ext_iff_of_nodup h.nodup (List.nodup_range _)).2 fun a => by
      rw [h.mem_iff, List.mem_range]
  have := hperm.length_eq
  rw [List.length_append, List.length_range] at this
  rw [h.capacity_eq, h.inUse_eq]
  omega

theorem freeList_nodup (h : Safe perSlab p live) : p.freeList.Nodup :=
  (List.nodup_append.1 h.nodup).1

theorem live_nodup (h : Safe perSlab p live) : live.Nodup :=
  (List.nodup_append.1 h.nodup).2.1

/-- A new slab adds its slots to the free list. -/
theorem addSlab (h : Safe perSlab p live) : Safe perSlab (addSlab perSlab p) live := by
  refine ⟨by simp [SlabPool.addSlab, h.capacity_eq, Nat.succ_mul], h.inUse_eq, ?_, fun a => ?_⟩
  · rw [SlabPool.addSlab, List.append_assoc]
    refine List.nodup_append.2 ⟨nodup_slabSlots _ _, h.nodup, fun a ha hb => ?_⟩
    have := (h.mem_iff a).1 hb
    rw [mem_slabSlots] at ha
    omega
  · rw [SlabPool.addSlab, List.append_assoc, List.mem_append, h.mem_iff, mem_slabSlots, Nat.succ_mul]
    omega

/-- **`alloc` hands out a slot of a slab that no client holds**, and the pool stays
consistent with the pointer added to the live ones. -/
theorem alloc (h : Safe perSlab p live) (hper : 0 < perSlab) :
    Safe perSlab (p.alloc perSlab).2 ((p.alloc perSlab).1 :: live) ∧
      (p.alloc perSlab).1 ∉ live ∧ (p.alloc perSlab).1 < (p.alloc perSlab).2.numSlabs * perSlab := by
  -- the list `alloc` pops from: the free list, or a new slab's slots when it was empty
  obtain ⟨q, hq, hsafe, hne⟩ : ∃ q, (if p.freeList.isEmpty then SlabPool.addSlab perSlab p else p) = q ∧
      Safe perSlab q live ∧ q.freeList ≠ [] := by
    refine ⟨_, rfl, ?_, ?_⟩
    · split
      · exact h.addSlab
      · exact h
    · split
      · cases perSlab with
        | zero => exact absurd hper (Nat.lt_irrefl 0)
        | succ k => simp [SlabPool.addSlab, slabSlots]
      · next hne => simpa [List.isEmpty_iff] using hne
  obtain ⟨a, rest, hfl⟩ := List.exists_cons_of_ne_nil hne
  have hal : p.alloc perSlab = (a, { q with freeList := rest, inUse := q.inUse + 1 }) := by
    simp only [SlabPool.alloc, hq, hfl]
  rw [hal]
  have hperm : (rest ++ a :: live).Perm (q.freeList ++ live) := by
    rw [hfl]
    exact List.perm_middle
  have hmem : a ∈ q.freeList ++ live := by simp [hfl]
  refine ⟨⟨hsafe.capacity_eq, by simp [hsafe.inUse_eq], hperm.nodup_iff.2 hsafe.nodup,
    fun b => by rw [hperm.mem_iff, hsafe.mem_iff]⟩, fun ha => ?_, (hsafe.mem_iff a).1 hmem⟩
  -- `a` heads the free list, so the live pointers do not hold it
  have := hsafe.nodup
  rw [hfl, List.cons_append, List.nodup_cons] at this
  exact this.1 (List.mem_append_right _ ha)

/-- **`free` of a live pointer returns its slot to the free list.** -/
theorem free (h : Safe perSlab p live) {a : Nat} (ha : a ∈ live) :
    Safe perSlab (p.free a) (live.erase a) := by
  have hperm : (a :: p.freeList ++ live.erase a).Perm (p.freeList ++ live) := by
    rw [List.cons_append]
    exact (List.perm_middle.symm.trans (List.Perm.append_left _ (List.perm_cons_erase ha).symm))
  refine ⟨h.capacity_eq, ?_, hperm.nodup_iff.2 h.nodup, fun b => by rw [SlabPool.free, hperm.mem_iff, h.mem_iff]⟩
  rw [SlabPool.free, h.inUse_eq, List.length_erase_of_mem ha]

end Safe

/-- A new pool holds its slabs' slots on the free list and no live pointer. -/
theorem safe_new (initialSlabs : Nat) : Safe perSlab (new perSlab initialSlabs) [] := by
  induction initialSlabs with
  | zero => exact ⟨by simp [new], rfl, List.nodup_nil, fun a => by simp [new]⟩
  | succ k ih => rw [new, Function.iterate_succ_apply']; exact ih.addSlab

/-- A call on the pool: `alloc()` or `free(ptr)`. -/
inductive Call where
  | alloc
  | free (a : Nat)
  deriving DecidableEq, Repr

namespace Call

/-- The call on the pool and the pointers its clients hold: `alloc` adds the pointer it
returns, `free` takes one back. -/
def apply : SlabPool × List Nat → Call → SlabPool × List Nat
  | (p, live), .alloc => ((p.alloc perSlab).2, (p.alloc perSlab).1 :: live)
  | (p, live), .free a => (p.free a, live.erase a)

/-- The pool's contract: `free` only takes a pointer a client holds. -/
def Allowed (live : List Nat) : Call → Prop
  | .alloc => True
  | .free a => a ∈ live

instance (live : List Nat) : (c : Call) → Decidable (c.Allowed live)
  | .alloc => isTrue trivial
  | .free a => inferInstanceAs (Decidable (a ∈ live))

end Call

/-- The calls `cs` in order, from the pool and live pointers `s`. -/
def runCalls (s : SlabPool × List Nat) (cs : List Call) : SlabPool × List Nat :=
  cs.foldl (Call.apply perSlab) s

/-- Every call of `cs` keeps the contract in the state it meets. -/
def ValidCalls : SlabPool × List Nat → List Call → Prop
  | _, [] => True
  | s, c :: cs => c.Allowed s.2 ∧ ValidCalls (Call.apply perSlab s c) cs

instance decValidCalls : (s : SlabPool × List Nat) → (cs : List Call) → Decidable (ValidCalls perSlab s cs)
  | _, [] => isTrue trivial
  | s, c :: cs => @instDecidableAnd _ _ _ (decValidCalls (Call.apply perSlab s c) cs)

/-- Every call that keeps the contract keeps the pool consistent. -/
theorem safe_run (hper : 0 < perSlab) : ∀ (s : SlabPool × List Nat) (cs : List Call),
    Safe perSlab s.1 s.2 → ValidCalls perSlab s cs → Safe perSlab (runCalls perSlab s cs).1 (runCalls perSlab s cs).2
  | _, [], h, _ => h
  | (_, _), .alloc :: cs, h, ⟨_, hv⟩ => safe_run hper _ cs (h.alloc hper).1 hv
  | (_, _), .free _ :: cs, h, ⟨ha, hv⟩ => safe_run hper _ cs (h.free ha) hv

end SlabPool

open SlabPool

/-- **`SlabPool` never hands out a live slot.** For slabs of `perSlab > 0` objects, in every
state that a sequence of calls reaches from `SlabPool(initial_slabs)` while `free` only takes
pointers that `alloc` returned and that were not freed since: the next `alloc` returns a slot
of one of the pool's slabs that no client holds; the pointers clients hold are distinct slots
of the slabs; `in_use()` is their number; and the free list has no repetition and is
`capacity() - in_use()` long. -/
theorem slabPool_safe (perSlab initialSlabs : Nat) (hper : 0 < perSlab) (cs : List Call)
    (hv : ValidCalls perSlab (new perSlab initialSlabs, []) cs) :
    let s := runCalls perSlab (new perSlab initialSlabs, []) cs
    (s.1.alloc perSlab).1 ∉ s.2 ∧ (s.1.alloc perSlab).1 < (s.1.alloc perSlab).2.numSlabs * perSlab ∧
    s.2.Nodup ∧ (∀ a ∈ s.2, a < s.1.numSlabs * perSlab) ∧ s.1.inUse = s.2.length ∧
    s.1.freeList.Nodup ∧ s.1.capacity - s.1.inUse = s.1.freeList.length := by
  intro s
  have h : Safe perSlab s.1 s.2 := safe_run perSlab hper _ cs (safe_new perSlab initialSlabs) hv
  obtain ⟨-, h₁, h₂⟩ := h.alloc hper
  exact ⟨h₁, h₂, h.live_nodup, fun a ha => (h.mem_iff a).1 (List.mem_append_right _ ha), h.inUse_eq,
    h.freeList_nodup, h.capacity_sub_inUse⟩

/-- Slabs of `3`: after two allocations and the free of the first, the next allocation
reuses that slot, which no client holds. -/
theorem slabPool_safe_witness :
    ((runCalls 3 (new 3 1, []) [.alloc, .alloc, .free 2]).1.alloc 3).1 ∉
      (runCalls 3 (new 3 1, []) [.alloc, .alloc, .free 2]).2 :=
  (slabPool_safe 3 1 (by decide) [.alloc, .alloc, .free 2] (by decide)).1

end HyperliquidEngine
