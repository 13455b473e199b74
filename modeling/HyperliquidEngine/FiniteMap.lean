import HyperliquidEngine.Load

/-!
# The index against a finite map

Read as a finite map, a history of `insert` and `erase` calls leaves under each key the value of
its latest `insert`, unless an `erase` of the key came after it (`mapOf`).

- `Placed`: every stored key sits where the probe from its home slot stops, having passed only
  slots of other keys. `find` then returns the value of the one slot holding the key
  (`Placed.find_eq_some`), or `nullptr` when no slot does (`find_eq_none_of_absent`);
- `Placed.insertInternal`, `Placed.resize`, `Placed.insert`: `insert_internal` writes into the
  slot where its probe stops, `resize` reinserts every old slot, so both keep the placement,
  and `insert` changes what `find` returns under its own key only;
- `find_runCalls_inserts`: without `erase`, `FlatMap` refines the finite map, through every
  doubling `resize` from `FlatMap(initial)`.

`erase` does not keep the placement: `erase_loses_wrapped_key` erases one key of a probe cluster
that wraps from the last slot to slot `0`, and the backward shift moves the wrapped entry behind
its home slot, where `find` no longer reaches it.
-/

namespace HyperliquidEngine

namespace FlatMap

variable {V : Type}

/-- The value a call leaves under its key: `insert`'s value, or none after `erase`. -/
def Call.value? : Call V → Option V
  | .insert _ val => some val
  | .erase _ => none

/-- Whether a call is an `insert`. -/
def Call.isInsert : Call V → Bool
  | .insert _ _ => true
  | .erase _ => false

/-- The finite map a history of calls builds, as the spec states it: under `key`, the value of
the most recent `insert(key, v)`, unless `key` was erased since. -/
def mapOf (cs : List (Call V)) (key : UInt64) : Option V :=
  (cs.reverse.find? fun c => c.key = key).bind Call.value?

theorem mapOf_append_singleton (cs : List (Call V)) (c : Call V) (key : UInt64) :
    mapOf (cs ++ [c]) key = if c.key = key then c.value? else mapOf cs key := by
  by_cases h : c.key = key <;> simp [mapOf, h]

theorem runCalls_append_singleton [Inhabited V] (m : FlatMap V) (cs : List (Call V)) (c : Call V) :
    m.runCalls (cs ++ [c]) = (m.runCalls cs).apply c := by
  simp only [runCalls, List.foldl_append, List.foldl_cons, List.foldl_nil]

/-! ## Where linear probing leaves the keys -/

/-- A power-of-two table whose every stored key sits at the exit of the probe from its home
slot: the probe passes only slots of other keys and stops at the key's own. -/
structure Placed (m : FlatMap V) : Prop where
  pow : ∃ k, m.capacity = 2 ^ k
  reach : ∀ i < m.capacity, (m.entries i).key ≠ 0 →
    ∃ j < m.capacity, (m.home (m.entries i).key + j) % m.capacity = i ∧
      m.ProbeExit (m.entries i).key (m.home (m.entries i).key) j

section Placed

variable {m : FlatMap V} {k : Nat}

theorem home_congr {m' : FlatMap V} (hc : m'.capacity = m.capacity) : m'.home = m.home := by
  funext key
  rw [home, home, mask, mask, hc]

/-- A probe that stops at its key still stops there on a table of the same capacity that keeps
the key of every occupied slot. -/
theorem ProbeExit.keep {m' : FlatMap V} {key : UInt64} {idx j : Nat} (he : m.ProbeExit key idx j)
    (hc : m'.capacity = m.capacity)
    (hkeep : ∀ q, (m.entries q).key ≠ 0 → (m'.entries q).key = (m.entries q).key)
    (hstop : (m'.entries ((idx + j) % m.capacity)).key = key) : m'.ProbeExit key idx j where
  stop := .inr (by rw [hc]; exact hstop)
  pass i hi := by
    rw [hc, hkeep _ (he.pass i hi).1]
    exact he.pass i hi

/-- Without a slot holding `key`, `find`'s loop runs out of slots or fuel: `nullptr`. -/
theorem findLoop_of_absent (h : m.capacity = 2 ^ k) {key : UInt64}
    (habs : ∀ q < m.capacity, (m.entries q).key ≠ key) :
    ∀ n idx, idx < m.capacity → m.findLoop key n idx = none
  | 0, _, _ => rfl
  | n + 1, idx, hidx => by
    simp only [findLoop, habs idx hidx, if_false,
      findLoop_of_absent h habs n _ (next_lt h idx), ite_self]

theorem find_eq_none_of_absent (h : m.capacity = 2 ^ k) {key : UInt64}
    (habs : ∀ q < m.capacity, (m.entries q).key ≠ key) : m.find key = none := by
  rw [find]
  split_ifs
  · rfl
  · exact findLoop_of_absent h habs _ _ (home_lt h key)

/-- **On a placed table `find` returns the value of the slot holding the key.** -/
theorem Placed.find_eq_some (hp : m.Placed) {i : Nat} (hi : i < m.capacity)
    (hocc : (m.entries i).key ≠ 0) : m.find (m.entries i).key = some (m.entries i).value := by
  obtain ⟨k, hk⟩ := hp.pow
  obtain ⟨j, hj, hji, he⟩ := hp.reach i hi hocc
  rw [find_of_probeExit hk hocc he hj]
  simp only [hji, hocc, if_false]

/-- A placed table holds each key in one slot: the first its probe reaches. -/
theorem Placed.eq_of_key (hp : m.Placed) {i i' : Nat} (hi : i < m.capacity) (hi' : i' < m.capacity)
    (hocc : (m.entries i).key ≠ 0) (h : (m.entries i').key = (m.entries i).key) : i' = i := by
  obtain ⟨j, -, hji, he⟩ := hp.reach i hi hocc
  obtain ⟨j', -, hji', he'⟩ := hp.reach i' hi' (h ▸ hocc)
  rw [h] at hji' he'
  rcases Nat.lt_trichotomy j j' with hlt | rfl | hlt
  · have := (he'.pass j hlt).2
    rw [hji] at this
    exact absurd rfl this
  · exact hji'.symm.trans hji
  · have := (he.pass j' hlt).2
    rw [hji', h] at this
    exact absurd rfl this

/-- **Writing a key into the slot where its probe stops keeps the placement**: the slot was free
or held the key, so every occupied slot keeps its key. -/
theorem Placed.writeExit (hp : m.Placed) {m' : FlatMap V} (hc : m'.capacity = m.capacity)
    {key : UInt64} {j : Nat} (he : m.ProbeExit key (m.home key) j) (hj : j < m.capacity) (val : V)
    (hent : m'.entries = writeSlot m.entries ((m.home key + j) % m.capacity) ⟨key, val⟩) :
    m'.Placed := by
  have hkeep : ∀ q, (m.entries q).key ≠ 0 → (m'.entries q).key = (m.entries q).key := by
    intro q hq
    rw [hent, writeSlot_apply]
    split_ifs with hqp
    · subst hqp
      exact (he.stop.resolve_left hq).symm
    · rfl
  obtain ⟨k, hk⟩ := hp.pow
  refine ⟨⟨k, hc.trans hk⟩, fun i hi hocc => ?_⟩
  rw [hc] at hi ⊢
  rw [home_congr hc]
  by_cases hip : i = (m.home key + j) % m.capacity
  · -- the written slot: the key's own probe stops there
    have hi' : m'.entries i = ⟨key, val⟩ := by rw [hent, writeSlot_apply, if_pos hip]
    rw [hi']
    exact ⟨j, hj, hip.symm, he.keep hc hkeep (by rw [← hip, hi'])⟩
  · -- any other slot: its key's probe passes the same keys as before
    have hi' : m'.entries i = m.entries i := by rw [hent, writeSlot_apply, if_neg hip]
    rw [hi'] at hocc ⊢
    obtain ⟨j', hj', hji', he'⟩ := hp.reach i hi hocc
    exact ⟨j', hj', hji', he'.keep hc hkeep (by rw [hji', hi'])⟩

/-- `insert_internal` writes the key and its value into the slot where its probe stops. -/
theorem entries_insertInternal (h : m.capacity = 2 ^ k) {key : UInt64} {j : Nat}
    (he : m.ProbeExit key (m.home key) j) (hj : j < m.capacity) (val : V) :
    (m.insertInternal key val).entries =
      writeSlot m.entries ((m.home key + j) % m.capacity) ⟨key, val⟩ := by
  rw [insertInternal, insertLoop_of_probeExit h val (home_lt h key) he _ hj]
  dsimp only
  split_ifs with h₀
  · rfl
  · rw [he.stop.resolve_left h₀]

theorem Placed.insertInternal (hp : m.Placed) (hfree : ∃ i < m.capacity, (m.entries i).key = 0)
    (key : UInt64) (val : V) : (m.insertInternal key val).Placed := by
  obtain ⟨k, hk⟩ := hp.pow
  obtain ⟨j, hj, he⟩ := exists_probeExit hfree key (home_lt hk key)
  exact hp.writeExit (capacity_insertLoop _ _ _ _) he hj val (entries_insertInternal hk he hj val)

/-- **`insert_internal` leaves what `find` returns for every other key.** -/
theorem Placed.find_insertInternal_ne (hp : m.Placed)
    (hfree : ∃ i < m.capacity, (m.entries i).key = 0) {key key' : UInt64} (hne : key' ≠ key)
    (val : V) : (m.insertInternal key val).find key' = m.find key' := by
  obtain ⟨k, hk⟩ := hp.pow
  obtain ⟨j, hj, he⟩ := exists_probeExit hfree key (home_lt hk key)
  have hc : (m.insertInternal key val).capacity = m.capacity := capacity_insertLoop _ _ _ _
  have hent := entries_insertInternal hk he hj val
  by_cases h0 : key' = 0
  · simp [find, h0]
  -- no slot but the written one changes, and that one does not hold `key'`
  have hsame : ∀ q, (m.entries q).key = key' →
      (m.insertInternal key val).entries q = m.entries q := by
    intro q hq
    rw [hent, writeSlot_apply, if_neg]
    rintro rfl
    rcases he.stop with h₀ | h₀ <;> rw [hq] at h₀
    exacts [h0 h₀, hne h₀]
  by_cases hex : ∃ i < m.capacity, (m.entries i).key = key'
  · obtain ⟨i, hi, rfl⟩ := hex
    rw [hp.find_eq_some hi h0, ← hsame i rfl,
      (hp.insertInternal hfree key val).find_eq_some (hc ▸ hi) (by rwa [hsame i rfl])]
  · push_neg at hex
    rw [find_eq_none_of_absent hk hex, find_eq_none_of_absent (hc.trans hk) fun q hq => ?_]
    rw [hent, writeSlot_apply]
    split_ifs
    · exact Ne.symm hne
    · exact hex q (hc ▸ hq)

theorem placed_empty [Inhabited V] {c : Nat} (h : c = 2 ^ k) (size : Nat) :
    (⟨fun _ => ⟨0, default⟩, c, size⟩ : FlatMap V).Placed :=
  ⟨⟨k, h⟩, fun _ _ hocc => absurd rfl hocc⟩

theorem find_empty [Inhabited V] (c size : Nat) (key : UInt64) :
    (⟨fun _ => ⟨0, default⟩, c, size⟩ : FlatMap V).find key = none := by
  simp [find, findLoop]

/-- The rehash of `resize` keeps the placement, and after the first `n` old slots finds the key
of each, with its value, and no other key. -/
theorem Placed.rehashUpTo [Inhabited V] (hp : m.Placed) {newCap : Nat} (h : newCap = 2 ^ k)
    (hroom : occupiedBelow m.entries m.capacity < newCap) :
    ∀ n ≤ m.capacity, (m.rehashUpTo newCap n).Placed ∧
      (∀ s < n, (m.entries s).key ≠ 0 →
        (m.rehashUpTo newCap n).find (m.entries s).key = some (m.entries s).value) ∧
      (∀ key, (∀ s < n, (m.entries s).key ≠ key) → (m.rehashUpTo newCap n).find key = none)
  | 0, _ => ⟨placed_empty h 0, fun _ hs => absurd hs (Nat.not_lt_zero _),
      fun key _ => find_empty newCap 0 key⟩
  | n + 1, hn => by
    obtain ⟨hp₁, hsome, hnone⟩ := hp.rehashUpTo h hroom n (by omega)
    obtain ⟨hc, hcount, hs⟩ := rehashUpTo_count m h n
    have hmono := occupiedBelow_mono m.entries (show n ≤ m.capacity by omega)
    rw [rehashUpTo_succ]
    generalize m.rehashUpTo newCap n = acc at hp₁ hsome hnone hc hcount hs
    dsimp only
    split_ifs with h₀
    · -- slot `n` holds a key, and no earlier slot holds it
      have hfree : ∃ i < acc.capacity, (acc.entries i).key = 0 :=
        exists_free_of_occupiedBelow_lt (by rw [hc]; omega)
      refine ⟨hp₁.insertInternal hfree _ _, fun s hs hocc => ?_, fun key habs => ?_⟩
      · rcases Nat.lt_succ_iff_lt_or_eq.1 hs with hs | rfl
        · rw [hp₁.find_insertInternal_ne hfree fun he => absurd
            (hp.eq_of_key (by omega) (by omega) h₀ he) (by omega)]
          exact hsome s hs hocc
        · exact find_insertInternal (hc.trans h) hfree h₀ _
      · rw [hp₁.find_insertInternal_ne hfree (habs n (Nat.lt_succ_self n)).symm]
        exact hnone key fun s hs => habs s (by omega)
    · refine ⟨hp₁, fun s hs hocc => ?_, fun key habs => hnone key fun s hs => habs s (by omega)⟩
      rcases Nat.lt_succ_iff_lt_or_eq.1 hs with hs | rfl
      · exact hsome s hs hocc
      · exact absurd (not_not.1 h₀) hocc

/-- **`resize` keeps what `find` returns**, and the placement, when the new table has room for
the occupied old slots. -/
theorem Placed.resize [Inhabited V] (hp : m.Placed) {newCap : Nat} (h : newCap = 2 ^ k)
    (hroom : occupiedBelow m.entries m.capacity < newCap) :
    (m.resize newCap).Placed ∧ ∀ key, (m.resize newCap).find key = m.find key := by
  obtain ⟨k₀, hk₀⟩ := hp.pow
  obtain ⟨hp₁, hsome, hnone⟩ := hp.rehashUpTo h hroom m.capacity le_rfl
  rw [resize_eq_rehashUpTo]
  refine ⟨hp₁, fun key => ?_⟩
  by_cases h0 : key = 0
  · simp [find, h0]
  by_cases hex : ∃ s < m.capacity, (m.entries s).key = key
  · obtain ⟨s, hs, rfl⟩ := hex
    rw [hsome s hs h0, hp.find_eq_some hs h0]
  · push_neg at hex
    rw [hnone key hex, find_eq_none_of_absent hk₀ hex]

theorem occupiedBelow_le (f : Nat → Entry V) : ∀ n, occupiedBelow f n ≤ n
  | 0 => le_rfl
  | n + 1 => by
    have := occupiedBelow_le f n
    simp only [occupiedBelow]
    split_ifs <;> omega

/-- The table `insert` hands to `insert_internal`: `m`, or its doubling `resize` once the load
reaches `0.7`. Either is placed, has a free slot, and finds what `m` finds. -/
theorem Placed.insertTarget [Inhabited V] (hr : m.Room) (hp : m.Placed) (key : UInt64) (val : V) :
    ∃ m₁ : FlatMap V, m.insert key val = m₁.insertInternal key val ∧ m₁.Placed ∧
      (∃ i < m₁.capacity, (m₁.entries i).key = 0) ∧ ∀ key', m₁.find key' = m.find key' := by
  obtain ⟨k, hk⟩ := hr.pow
  have hocc := hr.occupied_le
  by_cases hload : 7 * m.capacity ≤ 10 * m.size
  · have h2 : 2 * m.capacity = 2 ^ (k + 1) := by rw [hk, pow_succ, Nat.mul_comm]
    have hpos : 0 < m.capacity := hk ▸ Nat.two_pow_pos k
    have hroom : occupiedBelow m.entries m.capacity < 2 * m.capacity :=
      (occupiedBelow_le _ _).trans_lt (by omega)
    obtain ⟨hc, hcount, hs⟩ := resize_count m h2
    obtain ⟨hp₁, hf₁⟩ := hp.resize h2 hroom
    exact ⟨_, by simp [FlatMap.insert, hload], hp₁,
      exists_free_of_occupiedBelow_lt (by rw [hc]; omega), hf₁⟩
  · exact ⟨m, by simp [FlatMap.insert, hload], hp, exists_free_of_occupiedBelow_lt (by omega),
      fun _ => rfl⟩

/-- **`insert` stores its value under its key and changes nothing else `find` returns**, through
the doubling `resize` as well. -/
theorem Placed.insert [Inhabited V] (hl : m.Load) (hp : m.Placed) {key : UInt64} (hkey : key ≠ 0)
    (val : V) : (m.insert key val).Placed ∧
      ∀ key', (m.insert key val).find key' = if key = key' then some val else m.find key' := by
  obtain ⟨m₁, hm₁, hp₁, hfree, hfind⟩ := hp.insertTarget hl.room key val
  obtain ⟨k, hk⟩ := hp₁.pow
  refine ⟨hm₁ ▸ hp₁.insertInternal hfree key val, fun key' => ?_⟩
  rw [hm₁]
  split_ifs with h
  · subst h
    exact find_insertInternal hk hfree hkey val
  · rw [hp₁.find_insertInternal_ne hfree (Ne.symm h), hfind]

/-! ## Erasing a key just inserted -/

/-- `find` reads the keys of the slots and the values of the occupied ones, nothing else. -/
theorem find_congr {m' : FlatMap V} (hc : m'.capacity = m.capacity)
    (hkey : ∀ q, (m'.entries q).key = (m.entries q).key)
    (hval : ∀ q, (m.entries q).key ≠ 0 → (m'.entries q).value = (m.entries q).value)
    (key : UInt64) : m'.find key = m.find key := by
  have hnext : m'.next = m.next := by
    funext idx
    rw [next, next, mask, mask, hc]
  have hloop : ∀ n idx, m'.findLoop key n idx = m.findLoop key n idx := by
    intro n
    induction n with
    | zero => exact fun _ => rfl
    | succ n ih =>
      intro idx
      by_cases h₀ : (m.entries idx).key = 0
      · simp [findLoop, hkey, h₀]
      · simp [findLoop, hkey, h₀, hval idx h₀, hnext, ih]
  rw [find, find, hc, home_congr hc, hloop]

/-- On a placed table, an entry beyond a free slot `idx`, reached without passing the last
slot, has its home between `idx` and itself: its probe passes occupied slots only. -/
theorem Placed.home_between (hp : m.Placed) {idx q : Nat} (hq : q < m.capacity) (hidx : idx < q)
    (hfree : (m.entries idx).key = 0) (hocc : (m.entries q).key ≠ 0) :
    idx < m.home (m.entries q).key ∧ m.home (m.entries q).key ≤ q := by
  obtain ⟨k, hk⟩ := hp.pow
  obtain ⟨j, hj, hjq, he⟩ := hp.reach q hq hocc
  have hh := home_lt hk (m.entries q).key
  generalize m.home (m.entries q).key = h at hh hjq he ⊢
  have hne : ∀ t < j, (h + t) % m.capacity ≠ idx := fun t ht heq => (he.pass t ht).1 (heq ▸ hfree)
  rcases Nat.lt_or_ge (h + j) m.capacity with hlt | hge
  · -- the probe did not wrap: it would have passed `idx` had it started at or before it
    rw [Nat.mod_eq_of_lt hlt] at hjq
    refine ⟨Nat.lt_of_not_le fun hle => hne (idx - h) (by omega) ?_, by omega⟩
    rw [show h + (idx - h) = idx by omega, Nat.mod_eq_of_lt (by omega)]
  · -- a wrapped probe to `q` passes every slot below `q`, `idx` among them
    rw [Nat.mod_eq_sub_mod hge, Nat.mod_eq_of_lt (by omega)] at hjq
    refine absurd ?_ (hne (m.capacity - h + idx) (by omega))
    rw [show h + (m.capacity - h + idx) = idx + m.capacity by omega, Nat.add_mod_right,
      Nat.mod_eq_of_lt (by omega)]

/-- **The backward shift moves nothing** while every entry it probes, up to the free slot `s`,
has its home between the hole and itself: `can_move` is false for each. -/
theorem shiftLoop_of_home_between (h : m.capacity = 2 ^ k) {idx s : Nat} (hs : s < m.capacity)
    (hstop : (m.entries s).key = 0)
    (hhome : ∀ q, idx < q → q < s → (m.entries q).key ≠ 0 ∧
      idx < m.home (m.entries q).key ∧ m.home (m.entries q).key ≤ q) :
    ∀ n p, p ≤ s → idx < p → s - p < n → m.shiftLoop n idx p = m
  | 0, _, _, _, hn => absurd hn (Nat.not_lt_zero _)
  | n + 1, p, hps, hip, hn => by
    rcases Nat.lt_or_ge p s with hlt | hge
    · obtain ⟨h₀, hlo, hhi⟩ := hhome p hip hlt
      have hnext : m.next p = p + 1 := by rw [next_eq h, Nat.mod_eq_of_lt (by omega)]
      simp only [shiftLoop, h₀, if_false, ite_self, hnext, Nat.not_le.2 hlo, Nat.not_lt.2 hhi,
        decide_False, Bool.or_false, Bool.false_eq_true]
      exact shiftLoop_of_home_between h hs hstop hhome n (p + 1) (by omega) (by omega) (by omega)
    · rw [show p = s by omega]
      simp [shiftLoop, hstop]

/-- Writing a free entry into a free slot leaves every key. -/
theorem key_writeSlot_free {f : Nat → Entry V} {i : Nat} (hi0 : (f i).key = 0) {e : Entry V}
    (he : e.key = 0) (q : Nat) : (writeSlot f i e q).key = (f q).key := by
  by_cases h : q = i <;> simp [h, he, hi0]

theorem writeSlot_writeSlot_self {α : Type} (f : Nat → α) (i : Nat) (v w : α) :
    writeSlot (writeSlot f i v) i w = writeSlot f i w := by
  funext q
  simp only [writeSlot_apply]
  split_ifs <;> rfl

/-- The last slot is free, so no probe cluster wraps from it to slot `0`. -/
def LastFree (m : FlatMap V) : Prop := (m.entries (m.capacity - 1)).key = 0

instance (m : FlatMap V) : Decidable m.LastFree := decEq (m.entries (m.capacity - 1)).key 0

/-- **The backward shift from a slot that was free in a placed table moves nothing** when the
last slot is free: every entry it meets before a free slot has its home between the hole and
itself. -/
theorem Placed.shiftLoop_clear (hp : m.Placed) {i : Nat} (hi0 : (m.entries i).key = 0)
    (hil : i < m.capacity - 1) (hlast : m.LastFree) {e : Entry V} (he : e.key = 0)
    (size n : Nat) (hn : m.capacity ≤ n) :
    (⟨writeSlot m.entries i e, m.capacity, size⟩ : FlatMap V).shiftLoop n i (m.next i) =
      ⟨writeSlot m.entries i e, m.capacity, size⟩ := by
  obtain ⟨k, hk⟩ := hp.pow
  have hkey := key_writeSlot_free hi0 he
  -- the first free slot after `i`, at the latest the last slot
  have hex : ∃ s, i < s ∧ (m.entries s).key = 0 := ⟨_, hil, hlast⟩
  have hs := Nat.find_min' hex ⟨hil, hlast⟩
  obtain ⟨his, hs0⟩ := Nat.find_spec hex
  rw [show m.next i = i + 1 by rw [next_eq hk, Nat.mod_eq_of_lt (by omega)]]
  refine shiftLoop_of_home_between (m := ⟨writeSlot m.entries i e, m.capacity, size⟩) hk
    (show Nat.find hex < m.capacity by omega) ((hkey _).trans hs0) (fun q hiq hqs => ?_) n _
    (by omega) (by omega) (by omega)
  have hq : (m.entries q).key ≠ 0 := fun h₀ => Nat.find_min hex hqs ⟨hiq, h₀⟩
  have hb := hp.home_between (by omega) hiq hi0 hq
  rw [← hkey] at hq hb
  exact ⟨hq, hb⟩

/-- **Erasing a key just inserted gives back every `find`** on a placed table that did not hold
the key, when the last slot is still free after the insert. `erase`'s search stops at the slot
`insert_internal` wrote, and the backward shift from there meets only entries whose home lies
between that slot and themselves, so it moves none. With the last slot taken the shift may wrap
to slot `0`, where `can_move` misjudges (`erase_loses_wrapped_key`). -/
theorem Placed.find_erase_insert [Inhabited V] (hr : m.Room) (hp : m.Placed) {key : UInt64}
    (hkey : key ≠ 0) (habs : m.find key = none) (val : V) (hlast : (m.insert key val).LastFree)
    (key' : UInt64) : ((m.insert key val).erase key).find key' = m.find key' := by
  obtain ⟨m₁, hm₁, hp₁, hfree, hfind⟩ := hp.insertTarget hr key val
  obtain ⟨k, hk⟩ := hp₁.pow
  obtain ⟨j, hj, he⟩ := exists_probeExit hfree key (home_lt hk key)
  obtain ⟨i, hi⟩ : ∃ i, (m₁.home key + j) % m₁.capacity = i := ⟨_, rfl⟩
  have hic : i < m₁.capacity := hi ▸ Nat.mod_lt _ (hk ▸ Nat.two_pow_pos k)
  -- the key is absent, so its probe stops at a free slot, which `insert_internal` fills
  have hi0 : (m₁.entries i).key = 0 := hi ▸ he.stop.resolve_right fun h => by
    have := find_of_probeExit hk hkey he hj
    simp [h, hkey, hfind, habs] at this
  have hins : m₁.insertInternal key val =
      { m₁ with entries := writeSlot m₁.entries i ⟨key, val⟩, size := m₁.size + 1 } := by
    rw [FlatMap.insertInternal, insertLoop_of_probeExit hk val (home_lt hk key) he _ hj]
    simp only [hi, hi0, if_true]
  set m₂ : FlatMap V := ⟨writeSlot m₁.entries i ⟨key, val⟩, m₁.capacity, m₁.size + 1⟩ with hm₂
  rw [hm₁, hins] at hlast ⊢
  -- the last slot stayed free, so the key went below it
  have hil : i < m₁.capacity - 1 ∧ m₁.LastFree := by
    simp only [hm₂, LastFree, writeSlot_apply] at hlast
    split_ifs at hlast
    · exact absurd hlast hkey
    · exact ⟨by omega, hlast⟩
  -- `erase` stops at slot `i` and clears it; the shift from there moves nothing
  have he₂ : m₂.ProbeExit key (m₁.home key) j := by
    have := he.writeSlot hj ⟨key, val⟩ rfl (m₁.size + 1)
    rwa [hi] at this
  rw [FlatMap.erase, show m₂.home = m₁.home from home_congr rfl,
    eraseLoop_of_probeExit (m := m₂) hk (home_lt hk key) he₂ _ hj, show m₂.next = m₁.next from rfl]
  simp only [hi, hm₂, writeSlot_apply, if_true, hkey, if_false, writeSlot_writeSlot_self]
  rw [hp₁.shiftLoop_clear hi0 hil.1 hil.2 (e := ⟨0, val⟩) rfl _ _ le_rfl, ← hfind key']
  refine find_congr ?_ ?_ (fun q hq => ?_) key'
  exacts [rfl, key_writeSlot_free hi0 rfl, by simp [show q ≠ i by rintro rfl; exact hq hi0]]

end Placed

/-- **Without `erase`, `FlatMap` refines the finite map.** After any history of `insert` calls on
keys other than `EmptyKey`, from `FlatMap(initial)` for any `initial`, `find(key)` returns the
value of the latest `insert(key, v)`, and `nullptr` for a key never inserted. -/
theorem find_runCalls_inserts [Inhabited V] (initial : Nat) (cs : List (Call V))
    (hcs : ∀ c ∈ cs, c.isInsert ∧ c.key ≠ 0) (key : UInt64) :
    ((new initial : FlatMap V).runCalls cs).find key = mapOf cs key := by
  suffices ((new initial : FlatMap V).runCalls cs).Placed ∧
      ∀ key, ((new initial : FlatMap V).runCalls cs).find key = mapOf cs key from this.2 key
  induction cs using List.reverseRecOn with
  | nil =>
    obtain ⟨k, hk, -⟩ := initCapacity_go initial 60 4 le_rfl
    exact ⟨placed_empty hk 0, fun key => find_empty _ 0 key⟩
  | append_singleton cs c ih =>
    have hcs' : ∀ c ∈ cs, c.isInsert ∧ c.key ≠ 0 := fun c hc => hcs c (List.mem_append_left _ hc)
    obtain ⟨hp, hfind⟩ := ih hcs'
    have hl := (load_new initial).runCalls cs fun c hc => (hcs' c hc).2
    obtain ⟨hins, hkey⟩ := hcs c (List.mem_append_right _ (List.mem_singleton_self c))
    cases c with
    | erase _ => exact absurd hins Bool.false_ne_true
    | insert key val =>
      have hkey : key ≠ 0 := hkey
      obtain ⟨hp', hfind'⟩ := hp.insert hl hkey val
      rw [runCalls_append_singleton]
      refine ⟨hp', fun key' => ?_⟩
      rw [apply, hfind', mapOf_append_singleton, hfind]
      rfl

/-- **`erase` loses a key whose probe had wrapped.** In `FlatMap(16)` the keys `3`, `29` and `33`
have home slots `14`, `15` and `15`, so `33` is stored in slot `0`. Erasing `3` moves `33` into
slot `14`, behind its home slot `15`, since `can_move` asks `desired_idx <= idx ||
desired_idx > probe_idx` also when the probe has wrapped. `find(33)` then stops at the free slot
`0` and returns `nullptr`, although `33` was inserted and never erased. -/
theorem erase_loses_wrapped_key :
    let cs : List (Call Nat) := [.insert 3 1, .insert 29 2, .insert 33 3, .erase 3]
    let m := (new 16 : FlatMap Nat).runCalls cs
    (new 16 : FlatMap Nat).home 3 = 14 ∧ (new 16 : FlatMap Nat).home 29 = 15 ∧
      (new 16 : FlatMap Nat).home 33 = 15 ∧ (m.entries 14).key = 33 ∧ (m.entries 0).key = 0 ∧
      m.find 29 = some 2 ∧ mapOf cs 33 = some 3 ∧ m.find 33 = none := by
  decide

end FlatMap

end HyperliquidEngine
