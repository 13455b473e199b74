import HyperliquidEngine.Engine
import Mathlib.Data.Nat.Find

/-!
# The order index and what `cancel` and `modify` read from it

`cancel(id)` and `modify(id, …)` learn whether `id` rests only from `id_index_.find(id)`:

- `cancel_ret_eq_isSome`: `cancel` returns `true` exactly when the index finds the id;
- `cancel_of_find_none`, `modify_of_find_none`: for an id the index does not find, both
  return at once (`false`, `{0, 0}`) with the book and its index untouched and no event.

So "`cancel(id)` returns `true` iff `id` rests" is exactly "the index finds every resting
id". `FlatMap::erase` breaks that: its backward shift tests the same condition whether or
not the probe has wrapped past the last slot, so an entry that had wrapped to the front of
the table can be moved behind its home slot, where `find` no longer reaches it.
`cancel_misses_resting_order` runs this on the engine's book.
-/

namespace HyperliquidEngine

open PriceLevels

/-! ## Room in the table -/

namespace FlatMap

variable {V : Type}

/-- The number of occupied slots among the first `n`. -/
def occupiedBelow (entries : Nat → Entry V) : Nat → Nat
  | 0 => 0
  | n + 1 => occupiedBelow entries n + if (entries n).key = 0 then 0 else 1

/-- The table has room: a power-of-two capacity, and `size_` counts at least its occupied
slots, so that the load-factor check of `insert` always leaves a slot free. -/
structure Room (m : FlatMap V) : Prop where
  pow : ∃ k, m.capacity = 2 ^ k
  occupied_le : occupiedBelow m.entries m.capacity ≤ m.size

/-- A write to one slot moves the count by what it changes in that slot. -/
theorem occupiedBelow_writeSlot (f : Nat → Entry V) (i : Nat) (v : Entry V) :
    ∀ n, occupiedBelow (writeSlot f i v) n + (if i < n ∧ (f i).key ≠ 0 then 1 else 0) =
      occupiedBelow f n + (if i < n ∧ v.key ≠ 0 then 1 else 0)
  | 0 => by simp [occupiedBelow]
  | n + 1 => by
    have ih := occupiedBelow_writeSlot f i v n
    simp only [occupiedBelow, writeSlot_apply]
    rcases Nat.lt_trichotomy i n with h | rfl | h
    · simp only [h, true_and, Nat.ne_of_gt h, if_false, show i < n + 1 by omega] at ih ⊢
      omega
    · simp only [lt_irrefl, false_and, if_false, Nat.lt_succ_self, true_and, ↓reduceIte] at ih ⊢
      split_ifs <;> simp_all
    · simp only [show ¬i < n + 1 by omega, show ¬i < n by omega, false_and, if_false,
        Nat.ne_of_lt h] at ih ⊢
      omega

theorem exists_free_of_occupiedBelow_lt {f : Nat → Entry V} :
    ∀ {n : Nat}, occupiedBelow f n < n → ∃ i < n, (f i).key = 0
  | 0, h => absurd h (by simp [occupiedBelow])
  | n + 1, h => by
    by_cases hn : (f n).key = 0
    · exact ⟨n, by omega, hn⟩
    · simp only [occupiedBelow, hn, if_false] at h
      obtain ⟨i, hi, hk⟩ := exists_free_of_occupiedBelow_lt (f := f) (n := n) (by omega)
      exact ⟨i, by omega, hk⟩

theorem add_mod_ne_self {c idx d : Nat} (hidx : idx < c) (h0 : 0 < d) (hd : d < c) :
    (idx + d) % c ≠ idx := by
  intro h
  rcases Nat.lt_or_ge (idx + d) c with hlt | hge
  · rw [Nat.mod_eq_of_lt hlt] at h
    omega
  · rw [Nat.mod_eq_sub_mod hge, Nat.mod_eq_of_lt (by omega)] at h
    omega

/-- Two different offsets below `c` from one slot reach different slots. -/
theorem add_mod_ne_add_mod {c idx i j : Nat} (hij : i < j) (hj : j < c) :
    (idx + i) % c ≠ (idx + j) % c := by
  rw [show idx + j = idx + i + (j - i) by omega, Nat.add_mod (idx + i) (j - i) c,
    Nat.mod_eq_of_lt (show j - i < c by omega)]
  exact (add_mod_ne_self (Nat.mod_lt _ (by omega)) (by omega) (by omega)).symm

/-- The probe of `find`, of `insert_internal` or of the search of `erase` for `key` from slot
`idx` stops at its `j`-th slot on: that slot is free or holds `key`, and every slot before it
holds another key. These loops read nothing else, so this is where each leaves its loop. -/
structure ProbeExit (m : FlatMap V) (key : UInt64) (idx j : Nat) : Prop where
  stop : (m.entries ((idx + j) % m.capacity)).key = 0 ∨
    (m.entries ((idx + j) % m.capacity)).key = key
  pass : ∀ i < j, (m.entries ((idx + i) % m.capacity)).key ≠ 0 ∧
    (m.entries ((idx + i) % m.capacity)).key ≠ key

/-- With a free slot, every probe stops within `capacity_` slots. -/
theorem exists_probeExit {m : FlatMap V} (hfree : ∃ i < m.capacity, (m.entries i).key = 0)
    (key : UInt64) {idx : Nat} (hidx : idx < m.capacity) :
    ∃ j < m.capacity, m.ProbeExit key idx j := by
  have hex : ∃ j, j < m.capacity ∧ ((m.entries ((idx + j) % m.capacity)).key = 0 ∨
      (m.entries ((idx + j) % m.capacity)).key = key) := by
    obtain ⟨f, hf, hf0⟩ := hfree
    refine ⟨(f + m.capacity - idx) % m.capacity, Nat.mod_lt _ (by omega), .inl ?_⟩
    rwa [Nat.add_mod_mod, show idx + (f + m.capacity - idx) = f + m.capacity by omega,
      Nat.add_mod_right, Nat.mod_eq_of_lt hf]
  obtain ⟨hj, hstop⟩ := Nat.find_spec hex
  refine ⟨Nat.find hex, hj, hstop, fun i hi => ?_⟩
  have := Nat.find_min hex hi
  simp only [not_and, not_or] at this
  exact this (by omega)

section Probe

variable {m : FlatMap V} {k : Nat}

/-- On a power-of-two table the probe step `(idx + 1) & buf_mask` is `(idx + 1) % capacity_`. -/
theorem next_eq (h : m.capacity = 2 ^ k) (idx : Nat) : m.next idx = (idx + 1) % m.capacity := by
  rw [next, mask, h, Nat.and_pow_two_sub_one_eq_mod]

theorem next_lt (h : m.capacity = 2 ^ k) (idx : Nat) : m.next idx < m.capacity := by
  rw [next_eq h]
  exact Nat.mod_lt _ (by rw [h]; exact Nat.two_pow_pos k)

theorem home_lt (h : m.capacity = 2 ^ k) (key : UInt64) : m.home key < m.capacity := by
  rw [home, mask, h, Nat.and_pow_two_sub_one_eq_mod]
  exact Nat.mod_lt _ (Nat.two_pow_pos k)

/-- `i` probes after the next slot is `i + 1` probes after the slot. -/
theorem next_add_mod (h : m.capacity = 2 ^ k) (idx i : Nat) :
    (m.next idx + i) % m.capacity = (idx + (i + 1)) % m.capacity := by
  rw [next_eq h, Nat.mod_add_mod, Nat.add_assoc, Nat.add_comm 1 i]

@[simp] theorem capacity_insertLoop (key : UInt64) (val : V) :
    ∀ (n idx : Nat), (m.insertLoop key val n idx).capacity = m.capacity
  | 0, _ => rfl
  | n + 1, idx => by
    simp only [insertLoop]
    split_ifs
    · rfl
    · rfl
    · exact capacity_insertLoop key val n _

/-- A table's home and next slots depend on its capacity only. -/
@[simp] theorem home_mk (entries : Nat → Entry V) (size : Nat) :
    (⟨entries, m.capacity, size⟩ : FlatMap V).home = m.home := rfl

@[simp] theorem next_mk (entries : Nat → Entry V) (size : Nat) :
    (⟨entries, m.capacity, size⟩ : FlatMap V).next = m.next := rfl

theorem size_insertLoop_le (key : UInt64) (val : V) :
    ∀ (n idx : Nat), (m.insertLoop key val n idx).size ≤ m.size + 1
  | 0, _ => Nat.le_succ _
  | n + 1, idx => by
    simp only [insertLoop]
    split_ifs
    · exact le_rfl
    · exact Nat.le_succ _
    · exact size_insertLoop_le key val n _

/-- An insertion occupies at most the one slot it counts. -/
theorem occupied_insertLoop (key : UInt64) (val : V) (c : Nat) :
    ∀ (n idx : Nat), occupiedBelow (m.insertLoop key val n idx).entries c + m.size ≤
      occupiedBelow m.entries c + (m.insertLoop key val n idx).size
  | 0, _ => le_rfl
  | n + 1, idx => by
    simp only [insertLoop]
    split_ifs with h₀ hk
    · have := occupiedBelow_writeSlot m.entries idx ⟨key, val⟩ c
      simp only [h₀, ne_eq, not_true_eq_false, and_false, if_false] at this
      split_ifs at this <;> simp only <;> omega
    · have := occupiedBelow_writeSlot m.entries idx { m.entries idx with value := val } c
      simp only at this ⊢
      omega
    · exact occupied_insertLoop key val c n _

/-- A probe that stops `j + 1` slots on passes its first slot and stops `j` slots on from the
next one. -/
theorem ProbeExit.of_succ (h : m.capacity = 2 ^ k) {key : UInt64} {idx j : Nat}
    (hidx : idx < m.capacity) (he : m.ProbeExit key idx (j + 1)) :
    ((m.entries idx).key ≠ 0 ∧ (m.entries idx).key ≠ key) ∧ m.ProbeExit key (m.next idx) j := by
  refine ⟨by simpa [Nat.mod_eq_of_lt hidx] using he.pass 0 (by omega), ?_, fun i hi => ?_⟩
  · rw [next_add_mod h]
    exact he.stop
  · rw [next_add_mod h]
    exact he.pass (i + 1) (by omega)

/-- **`find`'s loop returns what its exit slot holds**, with any number of passes beyond the
exit: the bound of `capacity_ + 1` probes is never what ends it. -/
theorem findLoop_of_probeExit (h : m.capacity = 2 ^ k) {key : UInt64} :
    ∀ {j idx : Nat}, idx < m.capacity → m.ProbeExit key idx j → ∀ n, j < n →
      m.findLoop key n idx = let e := m.entries ((idx + j) % m.capacity)
        if e.key = 0 then none else some e.value
  | 0, idx, hidx, he, n + 1, _ => by
    have hs := he.stop
    simp only [Nat.add_zero, Nat.mod_eq_of_lt hidx] at hs ⊢
    rcases hs with hs | hs <;> simp [findLoop, hs]
  | j + 1, idx, hidx, he, n + 1, hn => by
    obtain ⟨⟨h₀, hk⟩, he'⟩ := he.of_succ h hidx
    simp only [findLoop, h₀, hk, if_false, findLoop_of_probeExit h (next_lt h idx) he' n (by omega),
      next_add_mod h]

/-- **`insert_internal`'s loop writes its exit slot**: the key into a free slot, counted in
`size_`, or the new value over the key's old one. -/
theorem insertLoop_of_probeExit (h : m.capacity = 2 ^ k) {key : UInt64} (val : V) :
    ∀ {j idx : Nat}, idx < m.capacity → m.ProbeExit key idx j → ∀ n, j < n →
      m.insertLoop key val n idx = let p := (idx + j) % m.capacity
        if (m.entries p).key = 0 then
          { m with entries := writeSlot m.entries p ⟨key, val⟩, size := m.size + 1 }
        else { m with entries := writeSlot m.entries p { (m.entries p) with value := val } }
  | 0, idx, hidx, he, n + 1, _ => by
    have hs := he.stop
    simp only [Nat.add_zero, Nat.mod_eq_of_lt hidx] at hs ⊢
    rcases hs with hs | hs <;> simp [insertLoop, hs]
  | j + 1, idx, hidx, he, n + 1, hn => by
    obtain ⟨⟨h₀, hk⟩, he'⟩ := he.of_succ h hidx
    simp only [insertLoop, h₀, hk, if_false,
      insertLoop_of_probeExit h val (next_lt h idx) he' n (by omega), next_add_mod h]

/-- **The search of `erase` stops at its exit slot**: at a free slot it leaves the table as it
is; at the key it clears the slot, lowers `size_` and runs the backward shift from there. -/
theorem eraseLoop_of_probeExit (h : m.capacity = 2 ^ k) {key : UInt64} :
    ∀ {j idx : Nat}, idx < m.capacity → m.ProbeExit key idx j → ∀ n, j < n →
      m.eraseLoop key n idx = let p := (idx + j) % m.capacity
        if (m.entries p).key = 0 then m
        else (⟨writeSlot m.entries p { (m.entries p) with key := 0 }, m.capacity, m.size - 1⟩ :
          FlatMap V).shiftLoop m.capacity p (m.next p)
  | 0, idx, hidx, he, n + 1, _ => by
    have hs := he.stop
    simp only [Nat.add_zero, Nat.mod_eq_of_lt hidx] at hs ⊢
    rcases hs with hs | hs <;> simp [eraseLoop, hs]
  | j + 1, idx, hidx, he, n + 1, hn => by
    obtain ⟨⟨h₀, hk⟩, he'⟩ := he.of_succ h hidx
    simp only [eraseLoop, h₀, hk, if_false, eraseLoop_of_probeExit h (next_lt h idx) he' n (by omega),
      next_add_mod h]

/-- A probe that stops at slot `p` still stops there once `p` holds its key. -/
theorem ProbeExit.writeSlot {key : UInt64} {idx j : Nat} (he : m.ProbeExit key idx j)
    (hj : j < m.capacity) (e : Entry V) (hkey : e.key = key) (size : Nat) :
    ({ m with entries := writeSlot m.entries ((idx + j) % m.capacity) e, size := size } :
      FlatMap V).ProbeExit key idx j where
  stop := .inr (by simpa using hkey)
  pass i hi := by
    simpa [writeSlot_apply, add_mod_ne_add_mod hi hj] using he.pass i hi

/-- **`find` returns what its exit slot holds.** -/
theorem find_of_probeExit (h : m.capacity = 2 ^ k) {key : UInt64} (hkey : key ≠ 0) {j : Nat}
    (he : m.ProbeExit key (m.home key) j) (hj : j < m.capacity) :
    m.find key = let e := m.entries ((m.home key + j) % m.capacity)
      if e.key = 0 then none else some e.value := by
  rw [find, if_neg hkey]
  exact findLoop_of_probeExit h (home_lt h key) he _ (by omega)

/-- With a free slot, `insert_internal` stores the value where `find` reaches it. -/
theorem find_insertInternal (h : m.capacity = 2 ^ k)
    (hfree : ∃ i < m.capacity, (m.entries i).key = 0) {key : UInt64} (hkey : key ≠ 0) (val : V) :
    (m.insertInternal key val).find key = some val := by
  obtain ⟨j, hj, he⟩ := exists_probeExit hfree key (home_lt h key)
  rw [insertInternal, insertLoop_of_probeExit h val (home_lt h key) he _ hj]
  dsimp only
  split_ifs with h₀
  · refine (find_of_probeExit (k := k) ?_ hkey (he.writeSlot hj ⟨key, val⟩ rfl _) hj).trans ?_
    · exact h
    · simp [hkey]
  · have hk := he.stop.resolve_left h₀
    refine (find_of_probeExit (k := k) ?_ hkey (he.writeSlot hj { (m.entries _) with value := val } hk _) hj).trans ?_
    · exact h
    · simp [h₀]

end Probe

section Room

variable [Inhabited V] {k : Nat}

theorem occupiedBelow_empty (n : Nat) : occupiedBelow (fun _ => (⟨0, default⟩ : Entry V)) n = 0 := by
  induction n with
  | zero => rfl
  | succ n ih => simp [occupiedBelow, ih]

/-- Rehashing into a power-of-two table gives a table of that capacity with room, whose
`size_` is at most the old capacity. -/
theorem resize_room (m : FlatMap V) {newCap : Nat} (h : newCap = 2 ^ k) :
    (m.resize newCap).capacity = newCap ∧ (m.resize newCap).Room ∧
      (m.resize newCap).size ≤ m.capacity := by
  unfold resize
  generalize hf : (fun (acc : FlatMap V) (i : Nat) => let e := m.entries i
    if e.key ≠ 0 then acc.insertInternal e.key e.value else acc) = f
  -- one rehash step keeps the capacity and the count, and adds at most one to `size_`
  have step : ∀ acc i, acc.capacity = newCap → occupiedBelow acc.entries newCap ≤ acc.size →
      (f acc i).capacity = newCap ∧ occupiedBelow (f acc i).entries newCap ≤ (f acc i).size ∧
        (f acc i).size ≤ acc.size + 1 := by
    intro acc i hc ho
    subst hf
    dsimp only
    split_ifs
    · have h₁ := occupied_insertLoop (m := acc) (m.entries i).key (m.entries i).value newCap
        acc.capacity (acc.home (m.entries i).key)
      have h₂ := size_insertLoop_le (m := acc) (m.entries i).key (m.entries i).value acc.capacity
        (acc.home (m.entries i).key)
      exact ⟨by simp [insertInternal, hc], by simp only [insertInternal]; omega, h₂⟩
    · exact ⟨hc, ho, Nat.le_succ _⟩
  have hfold : ∀ (l : List Nat) (acc : FlatMap V), acc.capacity = newCap →
      occupiedBelow acc.entries newCap ≤ acc.size →
      (l.foldl f acc).capacity = newCap ∧ occupiedBelow (l.foldl f acc).entries newCap ≤
        (l.foldl f acc).size ∧ (l.foldl f acc).size ≤ acc.size + l.length := by
    intro l
    induction l with
    | nil => exact fun acc hc ho => ⟨hc, ho, Nat.le_add_right _ _⟩
    | cons i l ih =>
      intro acc hc ho
      obtain ⟨h₁, h₂, h₃⟩ := step acc i hc ho
      obtain ⟨h₄, h₅, h₆⟩ := ih _ h₁ h₂
      simp only [List.foldl_cons, List.length_cons]
      exact ⟨h₄, h₅, by omega⟩
  obtain ⟨h₁, h₂, h₃⟩ := hfold (List.range m.capacity) ⟨fun _ => ⟨0, default⟩, newCap, 0⟩ rfl
    (by simp [occupiedBelow_empty])
  exact ⟨h₁, ⟨⟨k, h₁.trans h⟩, by rw [h₁]; exact h₂⟩, by simpa using h₃⟩

/-- **An insertion keeps room, and `find` then returns the value inserted**: the
load-factor check leaves `insert_internal` a free slot to reach. -/
theorem Room.insert {m : FlatMap V} (h : m.Room) (key : UInt64) (val : V) :
    (m.insert key val).Room ∧ (key ≠ 0 → (m.insert key val).find key = some val) := by
  obtain ⟨k, hk⟩ := h.pow
  have hpos : 0 < m.capacity := by rw [hk]; exact Nat.two_pow_pos k
  -- the table `insert_internal` writes into, after the load-factor check
  obtain ⟨m₁, hm₁, hroom, hlt⟩ : ∃ m₁ : FlatMap V, m.insert key val = m₁.insertInternal key val ∧
      m₁.Room ∧ m₁.size < m₁.capacity := by
    by_cases hload : 7 * m.capacity ≤ 10 * m.size
    · obtain ⟨hc, hr, hs⟩ := resize_room m
        (show 2 * m.capacity = 2 ^ (k + 1) by rw [hk, pow_succ, Nat.mul_comm])
      exact ⟨_, by simp [FlatMap.insert, hload], hr, by omega⟩
    · exact ⟨m, by simp [FlatMap.insert, hload], h, by have := h.occupied_le; omega⟩
  obtain ⟨k₁, hk₁⟩ := hroom.pow
  have h₁ := occupied_insertLoop (m := m₁) key val m₁.capacity m₁.capacity (m₁.home key)
  have h₂ := hroom.occupied_le
  rw [hm₁]
  refine ⟨⟨⟨k₁, by simp [insertInternal, hk₁]⟩, by simp only [insertInternal, capacity_insertLoop]; omega⟩,
    fun hkey => find_insertInternal hk₁ (exists_free_of_occupiedBelow_lt (by omega)) hkey val⟩

omit [Inhabited V] in
@[simp] theorem capacity_shiftLoop : ∀ (n : Nat) (m : FlatMap V) (idx probe : Nat),
    (m.shiftLoop n idx probe).capacity = m.capacity ∧ (m.shiftLoop n idx probe).size = m.size
  | 0, _, _, _ => ⟨rfl, rfl⟩
  | n + 1, m, idx, probe => by
    simp only [shiftLoop, ite_self]
    split_ifs
    · exact ⟨rfl, rfl⟩
    · exact capacity_shiftLoop n _ _ _
    · exact capacity_shiftLoop n _ _ _

omit [Inhabited V] in
/-- The backward shift moves entries into the hole: it occupies as many slots as before. -/
theorem occupied_shiftLoop : ∀ (n : Nat) (m : FlatMap V) (idx probe : Nat),
    m.capacity = 2 ^ k → idx < m.capacity → probe < m.capacity → (m.entries idx).key = 0 →
      occupiedBelow (m.shiftLoop n idx probe).entries m.capacity =
        occupiedBelow m.entries m.capacity
  | 0, _, _, _, _, _, _, _ => rfl
  | n + 1, m, idx, probe, hc, hidx, hprobe, hhole => by
    simp only [shiftLoop, ite_self]
    split_ifs with h₀ hmove
    · rfl
    · have hne : probe ≠ idx := fun h => h₀ (h ▸ hhole)
      have w₁ := occupiedBelow_writeSlot m.entries idx (m.entries probe) m.capacity
      have w₂ := occupiedBelow_writeSlot (writeSlot m.entries idx (m.entries probe)) probe
        { m.entries probe with key := 0 } m.capacity
      simp only [hhole, hidx, h₀, hprobe, ne_eq, not_true_eq_false, not_false_eq_true, and_false,
        and_true, true_and, if_false, if_true, writeSlot_apply, hne] at w₁ w₂
      refine Eq.trans (occupied_shiftLoop n _ probe (m.next probe) hc hprobe (next_lt hc probe)
        (by simp)) ?_
      show occupiedBelow (writeSlot (writeSlot m.entries idx (m.entries probe)) probe
        ⟨0, (m.entries probe).value⟩) m.capacity = _
      omega
    · exact occupied_shiftLoop n m idx _ hc hidx (next_lt hc probe) hhole

omit [Inhabited V] in
/-- The search of `erase` keeps room: it frees the one slot it clears from `size_`. -/
theorem eraseLoop_room {m : FlatMap V} (h : m.Room) (key : UInt64) :
    ∀ (n idx : Nat), idx < m.capacity → (m.eraseLoop key n idx).Room
  | 0, _, _ => h
  | n + 1, idx, hidx => by
    obtain ⟨k, hk⟩ := h.pow
    simp only [eraseLoop]
    split_ifs with h₀ hkey
    · exact h
    · have w := occupiedBelow_writeSlot m.entries idx ⟨0, (m.entries idx).value⟩ m.capacity
      simp only [hidx, h₀, ne_eq, not_false_eq_true, and_self, if_true, not_true_eq_false,
        and_false, if_false] at w
      have := h.occupied_le
      refine ⟨⟨k, by rw [(capacity_shiftLoop _ _ _ _).1]; exact hk⟩, ?_⟩
      rw [(capacity_shiftLoop _ _ _ _).1, (capacity_shiftLoop _ _ _ _).2]
      refine Eq.trans_le (occupied_shiftLoop m.capacity _ idx (m.next idx) hk hidx (next_lt hk idx)
        (by simp)) ?_
      show occupiedBelow (writeSlot m.entries idx ⟨0, (m.entries idx).value⟩) m.capacity ≤ m.size - 1
      omega
    · exact eraseLoop_room h key n _ (next_lt hk idx)

omit [Inhabited V] in
theorem Room.erase {m : FlatMap V} (h : m.Room) (key : UInt64) : (m.erase key).Room := by
  obtain ⟨k, hk⟩ := h.pow
  exact eraseLoop_room h key _ _ (home_lt hk key)

/-- The order book's index starts with room. -/
theorem room_new : (FlatMap.new 8192 : FlatMap V).Room :=
  (resize_room (k := 13) _ (by decide)).2.1

end Room

end FlatMap

namespace OrderBook

variable {L : Type} [PriceLevels L]

/-- **`cancel` reports what the index finds**, in every state: its result is `true` exactly
when `id_index_.find(id)` returns an entry. -/
theorem cancel_ret_eq_isSome (b : OrderBook L) (id : OrderId) :
    (b.cancel id).ret = (b.idIndex.find id).isSome := by
  cases h : b.idIndex.find id with
  | none => simp [cancel_of_find_none h]
  | some e => simp [cancel_of_find h]

/-- A modify of an id the index does not find returns `{0, 0}` and changes nothing. -/
theorem modify_of_find_none {b : OrderBook L} {id : OrderId} (h : b.idIndex.find id = none)
    (newPrice newQty : Int) : b.modify id newPrice newQty = ⟨⟨0, 0⟩, b, []⟩ := by
  simp [modify, h]

/-! ### The index keeps room on every run -/

theorem room_matchLevel (symbolId : SymbolId) (t : Taker) (px : Int) :
    ∀ (ns : List OrderNode) (f : Fill), f.index.Room → (matchLevel symbolId t px ns f).2.index.Room
  | [], _, h => h
  | m :: ms, f, h => by
    simp only [matchLevel]
    split_ifs
    · exact h
    · exact room_matchLevel symbolId t px ms f h
    · exact room_matchLevel symbolId t px ms _ (h.erase m.id)
    · exact room_matchLevel symbolId t px ms _ h

theorem room_matchLoop (o : Side) (limit : Int) (t : Taker) :
    ∀ (n : Nat) (b : OrderBook L) (qty filled : Int) (trades : List TradeEvent), b.idIndex.Room →
      (matchLoop o limit t n b qty filled trades).1.idIndex.Room
  | 0, _, _, _, _, h => h
  | n + 1, b, qty, filled, trades, h => by
    by_cases hq₀ : qty ≤ 0
    · simpa [matchLoop, hq₀] using h
    simp only [matchLoop, hq₀, if_false]
    split
    · exact h
    next lp _ =>
    have hr := room_matchLevel b.symbolId t (best (b.side o) o) (level (b.side o) lp).nodes
      ⟨qty, filled, (level (b.side o) lp).totalQty, b.idIndex, b.orderPool, trades⟩ h
    split_ifs
    · exact h
    · exact h
    · -- the level is depleted: the repair writes the ladder only
      exact room_matchLoop o limit t n _ _ _ _ (by simpa using hr)
    · exact hr

theorem room_submitLimit {b : OrderBook L} (h : b.idIndex.Room) (cmd : OrderCommand) :
    (b.submitLimit cmd).book.idIndex.Room := by
  have hm : (b.matchIfCrossing cmd.side cmd).1.idIndex.Room := by
    simp only [matchIfCrossing]
    split
    · exact room_matchLoop _ _ _ _ _ _ _ _ h
    · exact h
  simp only [submitLimit, submitLimitSide, settleLimit]
  split_ifs <;> simp only [book_endCommand, idIndex_emitBookUpdate, rest]
  · exact h
  · exact hm
  · exact (hm.insert _ _).1
  · exact hm

theorem room_submitMarket {b : OrderBook L} (h : b.idIndex.Room) (cmd : OrderCommand) :
    (b.submitMarket cmd).book.idIndex.Room := by
  simpa [submitMarket, matchAgainstSide] using room_matchLoop _ _ _ _ _ _ _ _ h

theorem room_cancel {b : OrderBook L} (h : b.idIndex.Room) (id : OrderId) :
    (b.cancel id).book.idIndex.Room := by
  cases hf : b.idIndex.find id with
  | none => simpa [cancel_of_find_none hf] using h
  | some e => simpa [cancel_of_find hf] using h.erase id

theorem room_modify {b : OrderBook L} (h : b.idIndex.Room) (id : OrderId) (newPrice newQty : Int) :
    (b.modify id newPrice newQty).book.idIndex.Room := by
  cases hf : b.idIndex.find id with
  | none => simpa [modify, hf] using h
  | some e =>
    have hc := room_cancel (b := { b with clock := b.clock.now.2 }) h id
    simp only [modify, hf]
    split_ifs
    · simpa using h
    · exact hc
    · exact room_submitLimit hc _

end OrderBook

namespace MatchingEngine

variable {L : Type} [PriceLevels L]

/-- **The order index keeps room along every run**, whatever `erase` does to the placement
of its entries: so `find` returns every entry `insert` has just written. -/
theorem room_run {b : OrderBook L} (h : b.idIndex.Room) :
    ∀ cmds : List OrderCommand, (run b cmds).1.idIndex.Room
  | [] => h
  | cmd :: cmds => by
    refine room_run ?_ cmds
    unfold processCommand
    split
    · split_ifs
      · exact OrderBook.room_submitLimit h cmd
      · exact OrderBook.room_submitMarket h cmd
    · exact OrderBook.room_cancel h _
    · exact OrderBook.room_modify h _ _ _

end MatchingEngine

/-- On the engine's book over `[100, 200]`: the ids `27659`, `8798` and `15811` have home
slots `8190`, `8191` and `8191` of the index's `8192`, so the third probes on to slot `0`.
All three rest as bids at `150`; cancelling `27659` shifts `15811` back into slot `8190`,
behind its home, so the index loses it while it still rests, and `cancel(15811)` returns
`false`. -/
theorem cancel_misses_resting_order :
    let cmds : List OrderCommand :=
      [.newOrder 27659 1 .bid 150 10 .limit .gtc 0, .newOrder 8798 1 .bid 150 10 .limit .gtc 0,
        .newOrder 15811 1 .bid 150 10 .limit .gtc 0, .cancelOrder 27659]
    let b := (MatchingEngine.run (MatchingEngine.book 1 ⟨100, 200⟩ Clock.ticks) cmds).1
    (FlatMap.new 8192 : FlatMap OrderEntry).home 27659 = 8190 ∧
      (FlatMap.new 8192 : FlatMap OrderEntry).home 8798 = 8191 ∧
      (FlatMap.new 8192 : FlatMap OrderEntry).home 15811 = 8191 ∧
      MatchingEngine.ValidRun (MatchingEngine.book 1 ⟨100, 200⟩ Clock.ticks) [] cmds ∧
      (level (b.side .bid) 150).nodes.map OrderNode.id = [8798, 15811] ∧
      b.idIndex.find 15811 = none ∧ (b.cancel 15811).ret = false := by
  decide

end HyperliquidEngine
