import HyperliquidEngine.Index

/-!
# The index's load and the termination of its probe loops

The loops of `find`, `insert_internal` and `erase` (flat_map.h) run until they reach a free
slot; only `find` counts its probes. They end because `insert` doubles the table before
`size_` reaches `0.7 * capacity_`, and because `size_` is exactly the number of occupied slots,
which `resize` recounts from zero:

- `Load`: a power-of-two table of at least 16 slots, whose `size_` counts its occupied slots and
  is at most `⌊0.7 · capacity_⌋ + 1`;
- `load_new`, `Load.insert`, `Load.erase`: construction gives it, and every `insert` of a key
  other than `EmptyKey` and every `erase` keep it;
- `ShiftExit.shiftLoop_eq`: the backward shift of `erase` stops at the first free slot after its
  hole, whatever it moves on the way;
- `probeLoops_terminate`: on every table reached from construction at least one slot is free, so
  the probe of `find`, `insert_internal` and the search of `erase` stops within `capacity_`
  slots (`ProbeExit`, whose exit lemmas are in `Index`), and so does the shift of `erase`.
-/

namespace HyperliquidEngine

namespace FlatMap

variable {V : Type}

/-- What construction gives and every `insert` and `erase` keeps: a power-of-two table of at
least 16 slots whose `size_` counts its occupied slots and stays within the load factor. -/
structure Load (m : FlatMap V) : Prop where
  pow : ∃ k, m.capacity = 2 ^ k
  large : 16 ≤ m.capacity
  size_eq : occupiedBelow m.entries m.capacity = m.size
  size_le : m.size ≤ 7 * m.capacity / 10 + 1

theorem Load.size_lt {m : FlatMap V} (h : m.Load) : m.size < m.capacity := by
  have := h.size_le
  have := h.large
  omega

/-- A table with its load has a free slot. -/
theorem Load.exists_free {m : FlatMap V} (h : m.Load) : ∃ i < m.capacity, (m.entries i).key = 0 :=
  exists_free_of_occupiedBelow_lt (h.size_eq.trans_lt h.size_lt)

theorem Load.room {m : FlatMap V} (h : m.Load) : m.Room := ⟨h.pow, h.size_eq.le⟩

/-! ## Exact counts -/

section Count

variable {m : FlatMap V} {k : Nat}

/-- `insert_internal` of a key other than `EmptyKey` occupies exactly the slot it counts. -/
theorem occupied_insertLoop_eq (h : m.capacity = 2 ^ k) {key : UInt64} (hkey : key ≠ 0) (val : V) :
    ∀ (n idx : Nat), idx < m.capacity →
      occupiedBelow (m.insertLoop key val n idx).entries m.capacity + m.size =
        occupiedBelow m.entries m.capacity + (m.insertLoop key val n idx).size
  | 0, _, _ => rfl
  | n + 1, idx, hidx => by
    simp only [insertLoop]
    split_ifs with h₀ hk
    · have := occupiedBelow_writeSlot m.entries idx ⟨key, val⟩ m.capacity
      simp only [hidx, h₀, hkey, ne_eq, not_true_eq_false, not_false_eq_true, and_false,
        and_true, if_false, if_true] at this
      simp only
      omega
    · have := occupiedBelow_writeSlot m.entries idx { m.entries idx with value := val } m.capacity
      simp only at this ⊢
      omega
    · exact occupied_insertLoop_eq h hkey val n _ (next_lt h idx)

theorem occupiedBelow_mono (f : Nat → Entry V) {a b : Nat} (h : a ≤ b) :
    occupiedBelow f a ≤ occupiedBelow f b := by
  induction b, h using Nat.le_induction with
  | base => exact le_rfl
  | succ b _ ih => exact ih.trans (by simp only [occupiedBelow]; omega)

/-- The table `resize(new_cap)` has built after reinserting the first `n` old slots. -/
def rehashUpTo [Inhabited V] (m : FlatMap V) (newCap n : Nat) : FlatMap V :=
  (List.range n).foldl
    (fun acc i => let e := m.entries i; if e.key ≠ 0 then acc.insertInternal e.key e.value else acc)
    ⟨fun _ => ⟨0, default⟩, newCap, 0⟩

theorem resize_eq_rehashUpTo [Inhabited V] (m : FlatMap V) (newCap : Nat) :
    m.resize newCap = m.rehashUpTo newCap m.capacity := rfl

theorem rehashUpTo_succ [Inhabited V] (m : FlatMap V) (newCap i : Nat) :
    m.rehashUpTo newCap (i + 1) = let e := m.entries i
      if e.key ≠ 0 then (m.rehashUpTo newCap i).insertInternal e.key e.value
      else m.rehashUpTo newCap i := by
  rw [rehashUpTo, List.range_succ, List.foldl_append]
  rfl

/-- The rehash of the first `i` old slots counts exactly its occupied slots, and holds no more
entries than those slots had. -/
theorem rehashUpTo_count [Inhabited V] (m : FlatMap V) {newCap : Nat} (h : newCap = 2 ^ k) :
    ∀ i, (m.rehashUpTo newCap i).capacity = newCap ∧
      occupiedBelow (m.rehashUpTo newCap i).entries newCap = (m.rehashUpTo newCap i).size ∧
      (m.rehashUpTo newCap i).size ≤ occupiedBelow m.entries i
  | 0 => by simp [rehashUpTo, occupiedBelow_empty, occupiedBelow]
  | i + 1 => by
    obtain ⟨hc, hcount, hs⟩ := rehashUpTo_count m h i
    rw [rehashUpTo_succ]
    generalize m.rehashUpTo newCap i = acc at hc hcount hs
    dsimp only
    by_cases h₀ : (m.entries i).key = 0
    · simpa [h₀, occupiedBelow] using ⟨hc, hcount, hs⟩
    · have h₁ := occupied_insertLoop_eq (m := acc) (hc.trans h) h₀ (m.entries i).value acc.capacity
        (acc.home (m.entries i).key) (home_lt (hc.trans h) _)
      have h₂ := size_insertLoop_le (m := acc) (m.entries i).key (m.entries i).value acc.capacity
        (acc.home (m.entries i).key)
      simp only [h₀, ne_eq, not_false_eq_true, if_true, insertInternal, capacity_insertLoop, hc,
        occupiedBelow, if_false, true_and] at h₁ h₂ ⊢
      exact ⟨by omega, by omega⟩

/-- **`resize` recounts `size_`**: the new table counts exactly its occupied slots, and holds no
more entries than the old one had occupied slots. -/
theorem resize_count [Inhabited V] (m : FlatMap V) {newCap : Nat} (h : newCap = 2 ^ k) :
    (m.resize newCap).capacity = newCap ∧
      occupiedBelow (m.resize newCap).entries newCap = (m.resize newCap).size ∧
      (m.resize newCap).size ≤ occupiedBelow m.entries m.capacity :=
  rehashUpTo_count m h m.capacity

end Count

/-! ## The load along every history -/

section Load

variable [Inhabited V]

theorem initCapacity_go (initial : Nat) : ∀ (n k : Nat), 4 ≤ k →
    ∃ k', initCapacity.go initial n (2 ^ k) = 2 ^ k' ∧ 4 ≤ k'
  | 0, k, hk => ⟨k, rfl, hk⟩
  | n + 1, k, hk => by
    simp only [initCapacity.go]
    split_ifs
    · rw [← pow_succ']
      exact initCapacity_go initial n (k + 1) (by omega)
    · exact ⟨k, rfl, hk⟩

/-- **Construction gives the load**: the `FlatMap(initial_capacity)` of any request. -/
theorem load_new (initial : Nat) : (new initial : FlatMap V).Load := by
  obtain ⟨k, hk, h4⟩ := initCapacity_go initial 60 4 le_rfl
  replace hk : initCapacity initial = 2 ^ k := hk
  obtain ⟨hc, hcount, hs⟩ := resize_count (⟨fun _ => ⟨0, default⟩, 0, 0⟩ : FlatMap V) hk
  have h16 : 16 ≤ 2 ^ k := le_trans (by decide) (Nat.pow_le_pow_right (by decide) h4)
  simp only [occupiedBelow] at hs
  refine ⟨⟨k, hc.trans hk⟩, by rw [new, hc, hk]; exact h16, by rw [new, hc]; exact hcount, ?_⟩
  rw [new]
  omega

/-- **`insert` keeps the load**: the table `insert_internal` writes into has room for one more
entry, doubled first when `size_ ≥ 0.7 · capacity_`. -/
theorem Load.insertTarget {m : FlatMap V} (hl : m.Load) (key : UInt64) (val : V) :
    ∃ m₁ : FlatMap V, m.insert key val = m₁.insertInternal key val ∧ (∃ k, m₁.capacity = 2 ^ k) ∧
      16 ≤ m₁.capacity ∧ occupiedBelow m₁.entries m₁.capacity = m₁.size ∧
        m₁.size ≤ 7 * m₁.capacity / 10 := by
  obtain ⟨k, hk⟩ := hl.pow
  have := hl.size_le
  have := hl.large
  by_cases hload : 7 * m.capacity ≤ 10 * m.size
  · obtain ⟨hc, hcount, hs⟩ := resize_count m
      (show 2 * m.capacity = 2 ^ (k + 1) by rw [hk, pow_succ, Nat.mul_comm])
    rw [hl.size_eq] at hs
    refine ⟨m.resize (2 * m.capacity), by simp [FlatMap.insert, hload],
      ⟨k + 1, by rw [hc, hk, pow_succ, Nat.mul_comm]⟩,
      by omega, by rw [hc]; exact hcount, by omega⟩
  · exact ⟨m, by simp [FlatMap.insert, hload], ⟨k, hk⟩, hl.large, hl.size_eq, by omega⟩

theorem Load.insert {m : FlatMap V} (hl : m.Load) {key : UInt64} (hkey : key ≠ 0) (val : V) :
    (m.insert key val).Load := by
  obtain ⟨m₁, hm₁, ⟨k, hk⟩, h16, hcount, hs⟩ := hl.insertTarget key val
  have h₁ := occupied_insertLoop_eq hk hkey val m₁.capacity (m₁.home key) (home_lt hk key)
  have h₂ := size_insertLoop_le (m := m₁) key val m₁.capacity (m₁.home key)
  have hc : (m₁.insertInternal key val).capacity = m₁.capacity := capacity_insertLoop _ _ _ _
  rw [hm₁]
  refine ⟨⟨k, hc.trans hk⟩, hc ▸ h16, ?_, ?_⟩ <;> simp only [insertInternal, capacity_insertLoop] at h₁ h₂ ⊢ <;> omega

omit [Inhabited V] in
/-- **`erase` keeps the load**: it clears the slot of the key it finds, lowers `size_` by one,
and the backward shift only moves entries. -/
theorem Load.erase {m : FlatMap V} (hl : m.Load) (key : UInt64) : (m.erase key).Load := by
  obtain ⟨k, hk⟩ := hl.pow
  obtain ⟨j, hj, he⟩ := exists_probeExit hl.exists_free key (home_lt hk key)
  rw [FlatMap.erase, eraseLoop_of_probeExit hk (home_lt hk key) he _ hj]
  dsimp only
  split_ifs with h₀
  · exact hl
  generalize hp : (m.home key + j) % m.capacity = p at h₀
  have hpc : p < m.capacity := hp ▸ Nat.mod_lt _ (by omega)
  have w := occupiedBelow_writeSlot m.entries p ⟨0, (m.entries p).value⟩ m.capacity
  simp only [hpc, h₀, ne_eq, not_false_eq_true, and_self, if_true, not_true_eq_false,
    and_false, if_false] at w
  -- the shift starts from the key's slot cleared, with one entry fewer, and keeps the count
  have hs := occupied_shiftLoop m.capacity ⟨writeSlot m.entries p ⟨0, (m.entries p).value⟩,
    m.capacity, m.size - 1⟩ p (m.next p) hk hpc (next_lt hk p) (by simp)
  have := hl.size_eq
  have := hl.size_le
  have := hl.large
  refine ⟨⟨k, ?_⟩, ?_, ?_, ?_⟩ <;> simp only [capacity_shiftLoop] at hs ⊢ <;> omega

/-- A call that changes the table: `insert(key, value)` or `erase(key)`. -/
inductive Call (V : Type) where
  | insert (key : UInt64) (val : V)
  | erase (key : UInt64)

/-- The key a call names. -/
def Call.key : Call V → UInt64
  | .insert key _ => key
  | .erase key => key

/-- One call on the table. -/
def apply (m : FlatMap V) : Call V → FlatMap V
  | .insert key val => m.insert key val
  | .erase key => m.erase key

/-- A history of calls, from the first. -/
def runCalls (m : FlatMap V) (cs : List (Call V)) : FlatMap V :=
  cs.foldl apply m

/-- **Every history keeps the load**, when no call names `EmptyKey`. -/
theorem Load.runCalls {m : FlatMap V} (hl : m.Load) :
    ∀ cs : List (Call V), (∀ c ∈ cs, c.key ≠ 0) → (m.runCalls cs).Load
  | [], _ => hl
  | .insert _ val :: cs, hk =>
    Load.runCalls (hl.insert (hk _ (List.mem_cons_self _ _)) val) cs
      fun c hc => hk c (List.mem_cons_of_mem _ hc)
  | .erase key :: cs, hk =>
    Load.runCalls (hl.erase key) cs fun c hc => hk c (List.mem_cons_of_mem _ hc)

end Load

/-! ## The backward shift stops -/

/-- The backward shift of `erase` from the hole `idx` stops `d` slots on: that slot is free and
every slot between holds a key. -/
structure ShiftExit (m : FlatMap V) (idx d : Nat) : Prop where
  pos : 0 < d
  lt : d < m.capacity
  stop : (m.entries ((idx + d) % m.capacity)).key = 0
  pass : ∀ i, 0 < i → i < d → (m.entries ((idx + i) % m.capacity)).key ≠ 0

section Shift

variable {m : FlatMap V} {k : Nat}

/-- The shift with its hole `t` slots after `idx` and its probe `d - r` slots after it: the loop
writes only the hole and the probe, both behind the slots still to be probed, so it reaches the
free slot `d` on with these slots as they were, and more passes change nothing. -/
theorem shiftLoop_stable (h : m.capacity = 2 ^ k) (idx : Nat) {d : Nat} (hd : d < m.capacity) :
    ∀ (r : Nat) (m' : FlatMap V) (t : Nat), m'.capacity = m.capacity → t < d - r → r < d →
      (m'.entries ((idx + d) % m.capacity)).key = 0 →
      (∀ i, d - r ≤ i → i < d → (m'.entries ((idx + i) % m.capacity)).key ≠ 0) →
      ∀ n n', r < n → r < n' →
        m'.shiftLoop n ((idx + t) % m.capacity) ((idx + (d - r)) % m.capacity) =
          m'.shiftLoop n' ((idx + t) % m.capacity) ((idx + (d - r)) % m.capacity)
  | 0, m', t, _, _, _, hstop, _, n + 1, n' + 1, _, _ => by
    simp only [Nat.sub_zero, shiftLoop, hstop, if_true]
  | r + 1, m', t, hc, ht, hr, hstop, hpass, n + 1, n' + 1, hn, hn' => by
    have h₀ := hpass (d - (r + 1)) le_rfl (by omega)
    have hnext : m'.next ((idx + (d - (r + 1))) % m.capacity) = (idx + (d - r)) % m.capacity := by
      rw [next_eq (hc.trans h), hc, Nat.mod_add_mod,
        show idx + (d - (r + 1)) + 1 = idx + (d - r) by omega]
    simp only [shiftLoop, h₀, if_false, hnext, ite_self]
    split_ifs
    · -- the entry moves into the hole, and the probe becomes the hole
      refine shiftLoop_stable h idx hd r _ (d - (r + 1)) (by exact hc) (by omega) (by omega) ?_
        (fun i hi hid => ?_) n n' (by omega) (by omega)
      · simpa [writeSlot_apply, (add_mod_ne_add_mod (show t < d by omega) hd).symm,
          (add_mod_ne_add_mod (show d - (r + 1) < d by omega) hd).symm] using hstop
      · simpa [writeSlot_apply, (add_mod_ne_add_mod (show t < i by omega) (show i < m.capacity by omega)).symm,
          (add_mod_ne_add_mod (show d - (r + 1) < i by omega) (show i < m.capacity by omega)).symm]
          using hpass i (by omega) hid
    · exact shiftLoop_stable h idx hd r m' t hc (by omega) (by omega) hstop
        (fun i hi hid => hpass i (by omega) hid) n n' (by omega) (by omega)

/-- **The backward shift of `erase` stops at the first free slot after its hole**: with `d`
passes it has reached it, and more passes change nothing. -/
theorem ShiftExit.shiftLoop_eq (h : m.capacity = 2 ^ k) {idx d : Nat} (hidx : idx < m.capacity)
    (he : m.ShiftExit idx d) :
    ∀ n, d ≤ n → m.shiftLoop n idx (m.next idx) = m.shiftLoop d idx (m.next idx) := by
  intro n hn
  have hpos := he.pos
  have key := shiftLoop_stable h idx he.lt (d - 1) m 0 rfl (by omega) (by omega) he.stop
    (fun i hi hid => he.pass i (by omega) hid) n d (by omega) (by omega)
  rwa [Nat.add_zero, Nat.mod_eq_of_lt hidx, show d - (d - 1) = 1 by omega, ← next_eq h] at key

/-- With a free slot elsewhere, the shift from the cleared slot of a key stops within
`capacity_` slots. -/
theorem exists_shiftExit (hfree : ∃ i < m.capacity, (m.entries i).key = 0) {idx : Nat}
    (hidx : idx < m.capacity) (hocc : (m.entries idx).key ≠ 0) (e : Entry V) (size : Nat) :
    ∃ d, (⟨writeSlot m.entries idx e, m.capacity, size⟩ : FlatMap V).ShiftExit idx d := by
  -- the slots `1 … capacity_ - 1` on from `idx` are those of `m`
  have hother : ∀ i, 0 < i → i < m.capacity → (idx + i) % m.capacity ≠ idx :=
    fun i hi hic => add_mod_ne_self hidx hi hic
  have hex : ∃ d, 0 < d ∧ d < m.capacity ∧ (m.entries ((idx + d) % m.capacity)).key = 0 := by
    obtain ⟨f, hf, hf0⟩ := hfree
    have hfi : f ≠ idx := fun h => hocc (h ▸ hf0)
    have hd : (idx + (f + m.capacity - idx) % m.capacity) % m.capacity = f := by
      rw [Nat.add_mod_mod, show idx + (f + m.capacity - idx) = f + m.capacity by omega,
        Nat.add_mod_right, Nat.mod_eq_of_lt hf]
    refine ⟨(f + m.capacity - idx) % m.capacity, Nat.pos_of_ne_zero fun h0 => hfi ?_,
      Nat.mod_lt _ (by omega), by rw [hd]; exact hf0⟩
    rw [← hd, h0, Nat.add_zero, Nat.mod_eq_of_lt hidx]
  obtain ⟨hpos, hlt, hstop⟩ := Nat.find_spec hex
  refine ⟨Nat.find hex, hpos, hlt, by simpa [hother _ hpos hlt] using hstop, fun i hi hid => ?_⟩
  have := Nat.find_min hex hid
  simp only [not_and, not_not] at this
  simpa [hother _ hi (by omega)] using this hi (by omega)

end Shift

/-- **On every table reached from construction the probe loops stop.** After any history of
`insert` and `erase` calls on keys other than `EmptyKey`, from `FlatMap(initial)` for any
`initial`: `size_` counts the occupied slots, stays below `capacity_` and within
`⌊0.7 · capacity_⌋ + 1`, so a slot is free; the probe from any slot stops within `capacity_`
slots (`find`, the search of `erase`), so does that of `insert_internal` on the table `insert`
hands it, and the backward shift of `erase` from the slot of any key it clears. -/
theorem probeLoops_terminate [Inhabited V] (initial : Nat) (cs : List (Call V))
    (hkeys : ∀ c ∈ cs, c.key ≠ 0) :
    let m := (new initial : FlatMap V).runCalls cs
    m.size = occupiedBelow m.entries m.capacity ∧ m.size < m.capacity ∧
      m.size ≤ 7 * m.capacity / 10 + 1 ∧ (∃ i < m.capacity, (m.entries i).key = 0) ∧
      (∀ key idx, idx < m.capacity → ∃ j < m.capacity, m.ProbeExit key idx j) ∧
      (∀ key val, ∃ m₁ : FlatMap V, m.insert key val = m₁.insertInternal key val ∧
        ∃ j < m₁.capacity, m₁.ProbeExit key (m₁.home key) j) ∧
      (∀ idx < m.capacity, (m.entries idx).key ≠ 0 →
        ∃ d, (⟨writeSlot m.entries idx { (m.entries idx) with key := 0 }, m.capacity, m.size - 1⟩ :
          FlatMap V).ShiftExit idx d) := by
  intro m
  have hl : m.Load := (load_new initial).runCalls cs hkeys
  refine ⟨hl.size_eq.symm, hl.size_lt, hl.size_le, hl.exists_free,
    fun key idx hidx => exists_probeExit hl.exists_free key hidx, fun key val => ?_,
    fun idx hidx hocc => exists_shiftExit hl.exists_free hidx hocc _ _⟩
  obtain ⟨m₁, hm₁, ⟨k, hk⟩, h16, hcount, hs⟩ := hl.insertTarget key val
  exact ⟨m₁, hm₁, exists_probeExit (exists_free_of_occupiedBelow_lt (by omega)) key (home_lt hk key)⟩

/-- Three calls from `FlatMap(0)`: the table keeps a free slot. -/
theorem probeLoops_terminate_witness :
    (∀ c ∈ ([.insert 5 1, .insert 7 2, .erase 5] : List (Call Nat)), c.key ≠ 0) ∧
      ((new 0 : FlatMap Nat).runCalls [.insert 5 1, .insert 7 2, .erase 5]).size <
        ((new 0 : FlatMap Nat).runCalls [.insert 5 1, .insert 7 2, .erase 5]).capacity :=
  ⟨by decide, (probeLoops_terminate 0 _ (by decide)).2.1⟩

end FlatMap

end HyperliquidEngine
