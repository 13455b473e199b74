import Mathlib.Data.List.Sort
import Mathlib.Algebra.Order.BigOperators.Group.List
import Mathlib.Algebra.Order.Ring.Nat
import Mathlib.Algebra.Group.Action.Defs

/-!
# The latency tracker (latency_tracker.h)

Built with `HYPERLIQUID_PROFILING`, every operation of the book ends with
`latency_tracker_.record(start, rdtsc())` (order_book.h:16–20). `LatencyTracker` keeps the
differences in a buffer allocated once and drops a sample once the buffer is full;
`compute_percentiles` sorts the samples in place and reads the percentiles at the ranks
`count_ * q / 100` (in `size_t`), the extremes at both ends, and the mean of a `uint64_t` sum.

The samples are `samples_[0, count_)`, a list, and `count_ ≤ capacity_` is a field of the
structure: `record` writes inside the buffer. `std::sort` is not stable, but two sorted
permutations of one list of `uint64_t` are equal (`sort_unique`), so insertion sort models it.

- `samples_run`: along every sequence of calls from construction, the samples are the first
  `capacity_` durations recorded, reordered by the sorts in between;
- `percentiles_ordered`: `min ≤ p50 ≤ p90 ≤ p95 ≤ p99 ≤ p99.9 ≤ p99.99 ≤ max`, with `min` and
  `max` the least and the greatest sample, while `count_ * 9999` fits in `size_t`;
- `percentile_rank`: the sample at rank `k` has at least `k + 1` samples at or below it and at
  most `k` strictly below it, which is what a percentile at that rank means;
- `avg_between`: the mean lies between `min` and `max` when the samples' sum fits in 64 bits;
  past that the `uint64_t` sum wraps and the mean can fall below every sample.
-/

namespace HyperliquidEngine

/-! ## The order of `uint64_t` -/

theorem uint64_isTotal : IsTotal UInt64 (· ≤ ·) := ⟨UInt64.le_total⟩

theorem uint64_isTrans : IsTrans UInt64 (· ≤ ·) := ⟨fun _ _ _ => UInt64.le_trans⟩

theorem uint64_isRefl : IsRefl UInt64 (· ≤ ·) := ⟨UInt64.le_refl⟩

theorem uint64_isAntisymm : IsAntisymm UInt64 (· ≤ ·) :=
  ⟨fun _ _ h₁ h₂ => UInt64.toNat.inj (Nat.le_antisymm h₁ h₂)⟩

attribute [instance] uint64_isTotal uint64_isTrans uint64_isRefl uint64_isAntisymm

/-! ## The tracker -/

/-- `LatencyTracker` (latency_tracker.h:13–85): the samples `samples_[0, count_)`, the buffer's
size `capacity_`, and what `compute_percentiles` last set, in cycles. The buffer never holds
more than its size. -/
structure LatencyTracker where
  samples : List UInt64
  capacity : UInt64
  count_le : samples.length ≤ capacity.toNat
  p50 : UInt64
  p90 : UInt64
  p95 : UInt64
  p99 : UInt64
  p99_9 : UInt64
  p99_99 : UInt64
  max : UInt64
  min : UInt64
  avg : UInt64

namespace LatencyTracker

/-- The constructor `LatencyTracker(capacity)`: no sample, every statistic `0`. -/
def new (capacity : UInt64) : LatencyTracker :=
  ⟨[], capacity, Nat.zero_le _, 0, 0, 0, 0, 0, 0, 0, 0, 0⟩

theorem length_append_le {xs : List UInt64} {cap : UInt64} (h : xs.length < cap.toNat)
    (x : UInt64) : (xs ++ [x]).length ≤ cap.toNat := by
  simpa using h

/-- `record(start_cycles, end_cycles)`: the difference in `uint64_t` joins the samples while
`count_ < capacity_`, and is dropped after. -/
def record (t : LatencyTracker) (startCycles endCycles : UInt64) : LatencyTracker :=
  if h : t.samples.length < t.capacity.toNat then
    { t with samples := t.samples ++ [endCycles - startCycles],
             count_le := length_append_le h _ }
  else t

/-- `std::sort(samples_.begin(), samples_.begin() + count_)`. -/
def sort (xs : List UInt64) : List UInt64 := xs.insertionSort (· ≤ ·)

@[simp] theorem length_sort (xs : List UInt64) : (sort xs).length = xs.length :=
  List.length_insertionSort _ _

theorem sort_perm (xs : List UInt64) : (sort xs).Perm xs := List.perm_insertionSort _ _

theorem sorted_sort (xs : List UInt64) : (sort xs).Sorted (· ≤ ·) := List.sorted_insertionSort _ _

/-- Whatever order `std::sort` leaves equal samples in, it returns this list. -/
theorem sort_unique {xs ys : List UInt64} (hp : ys.Perm xs) (hs : ys.Sorted (· ≤ ·)) :
    ys = sort xs :=
  List.eq_of_perm_of_sorted (hp.trans (sort_perm xs).symm) hs (sorted_sort xs)

/-- `samples_[count_ * num / den]` of the sorted samples, the product taken in `size_t`. -/
def atRank (sorted : List UInt64) (num den : Nat) : UInt64 :=
  sorted.getD (sorted.length * num % 18446744073709551616 / den) 0

/-- The loop `sum += samples_[i]` in `uint64_t`. -/
def cycleSum (xs : List UInt64) : UInt64 := xs.foldl (· + ·) 0

/-- `compute_percentiles()` (latency_tracker.h:25–48): nothing without samples; else the sort,
the six percentiles, the extremes and the mean `sum / count_`. -/
def computePercentiles (t : LatencyTracker) : LatencyTracker :=
  if t.samples.length = 0 then t
  else
    let s := sort t.samples
    { t with samples := s, count_le := (length_sort t.samples).symm ▸ t.count_le,
             p50 := atRank s 50 100, p90 := atRank s 90 100, p95 := atRank s 95 100,
             p99 := atRank s 99 100, p99_9 := atRank s 999 1000, p99_99 := atRank s 9999 10000,
             max := s.getD (s.length - 1) 0, min := s.getD 0 0,
             avg := cycleSum s / UInt64.ofNat s.length }

/-- A call on the tracker. -/
inductive Call where
  | record (startCycles endCycles : UInt64)
  | computePercentiles
  deriving DecidableEq, Repr

/-- One call. -/
def apply (t : LatencyTracker) : Call → LatencyTracker
  | .record s e => t.record s e
  | .computePercentiles => t.computePercentiles

/-- A sequence of calls. -/
def run (t : LatencyTracker) (cs : List Call) : LatencyTracker := cs.foldl apply t

/-- The durations the calls record, in order. -/
def durations (cs : List Call) : List UInt64 :=
  cs.filterMap fun | .record s e => some (e - s) | .computePercentiles => none

end LatencyTracker

/-! ## Reading a sorted list -/

section Sorted

variable {s : List UInt64}

theorem getD_eq_getElem {i : Nat} (h : i < s.length) : s.getD i 0 = s[i] := by
  simp [List.getD_eq_getElem?_getD, List.getElem?_eq_getElem h]

theorem getD_le_getD (hs : s.Sorted (· ≤ ·)) {i j : Nat} (hij : i ≤ j) (hj : j < s.length) :
    s.getD i 0 ≤ s.getD j 0 := by
  rcases Nat.lt_or_eq_of_le hij with hlt | rfl
  · rw [getD_eq_getElem (by omega), getD_eq_getElem hj]
    exact List.pairwise_iff_getElem.1 hs _ _ _ _ hlt
  · exact UInt64.le_refl _

theorem getD_of_mem (hs : s.Sorted (· ≤ ·)) {x : UInt64} (hx : x ∈ s) :
    s.getD 0 0 ≤ x ∧ x ≤ s.getD (s.length - 1) 0 := by
  obtain ⟨k, hk, rfl⟩ := List.mem_iff_getElem.1 hx
  rw [← getD_eq_getElem hk]
  exact ⟨getD_le_getD hs (Nat.zero_le _) hk, getD_le_getD hs (by omega) (by omega)⟩

/-- The element at index `k` of a sorted list has the `k + 1` first elements at or below it,
and only elements before it strictly below it. -/
theorem rank_getD (hs : s.Sorted (· ≤ ·)) {k : Nat} (hk : k < s.length) :
    k + 1 ≤ s.countP (· ≤ s.getD k 0) ∧ s.countP (· < s.getD k 0) ≤ k := by
  constructor
  · have htake : (s.take (k + 1)).countP (· ≤ s.getD k 0) = k + 1 := by
      rw [List.countP_eq_length.2, List.length_take]
      · omega
      intro x hx
      obtain ⟨i, hi, rfl⟩ := List.mem_iff_getElem.1 hx
      rw [List.length_take] at hi
      rw [List.getElem_take, ← getD_eq_getElem (by omega), decide_eq_true_eq]
      exact getD_le_getD hs (by omega) hk
    exact htake ▸ (List.take_sublist _ _).countP_le _
  · have hsplit := List.countP_append (· < s.getD k 0) (s.take k) (s.drop k)
    have hdrop : (s.drop k).countP (· < s.getD k 0) = 0 := List.countP_eq_zero.2 fun x hx => by
      obtain ⟨i, hi, rfl⟩ := List.mem_iff_getElem.1 hx
      rw [List.length_drop] at hi
      rw [List.getElem_drop, ← getD_eq_getElem (by omega), decide_eq_true_eq, UInt64.not_lt]
      exact getD_le_getD hs (by omega) (by omega)
    have htake := List.countP_le_length (· < s.getD k 0) (l := s.take k)
    rw [List.take_append_drop, hdrop] at hsplit
    rw [List.length_take] at htake
    omega

end Sorted

/-! ## The samples along a run -/

namespace LatencyTracker

theorem take_append_take (l m : List UInt64) (n : Nat) :
    (l.take n ++ m).take n = (l ++ m).take n := by
  rw [List.take_append_eq_append_take, List.take_append_eq_append_take, List.take_take,
    Nat.min_self, List.length_take]
  by_cases h : l.length ≤ n
  · rw [Nat.min_eq_right h]
  · rw [Nat.min_eq_left (by omega), Nat.sub_self, Nat.sub_eq_zero_of_le (by omega)]

theorem take_append_perm {l l' : List UInt64} (hp : l'.Perm l) {n : Nat} (hn : l.length ≤ n)
    (m : List UInt64) : ((l' ++ m).take n).Perm ((l ++ m).take n) := by
  rw [List.take_append_eq_append_take, List.take_append_eq_append_take, hp.length_eq,
    List.take_of_length_le (hp.length_eq ▸ hn), List.take_of_length_le hn]
  exact hp.append_right _

theorem samples_record (t : LatencyTracker) (s e : UInt64) :
    (t.record s e).samples = (t.samples ++ [e - s]).take t.capacity.toNat := by
  unfold record
  split_ifs with h
  · rw [List.take_of_length_le (by simpa using h)]
  · rw [List.take_append_eq_append_take, List.take_of_length_le t.count_le,
      show t.capacity.toNat - t.samples.length = 0 by have := t.count_le; omega]
    simp

theorem samples_computePercentiles (t : LatencyTracker) :
    t.computePercentiles.samples.Perm t.samples := by
  unfold computePercentiles
  split_ifs
  · exact List.Perm.refl _
  · exact sort_perm _

@[simp] theorem capacity_apply (t : LatencyTracker) (c : Call) : (t.apply c).capacity = t.capacity := by
  cases c <;> simp only [apply, record, computePercentiles] <;> split <;> rfl

theorem samples_run_of (cs : List Call) : ∀ t : LatencyTracker,
    (t.run cs).samples.Perm ((t.samples ++ durations cs).take t.capacity.toNat) := by
  induction cs with
  | nil => intro t; simp [run, durations, List.take_of_length_le t.count_le]
  | cons c cs ih =>
    intro t
    refine (ih (t.apply c)).trans ?_
    rw [capacity_apply]
    cases c with
    | record s e =>
      rw [apply, samples_record, take_append_take, List.append_assoc]
      rfl
    | computePercentiles =>
      exact take_append_perm (samples_computePercentiles t) t.count_le _

/-- Along every sequence of `record` and `compute_percentiles` calls from construction, the
samples are the first `capacity_` durations recorded, in some order: every duration up to the
capacity is kept, each once, and every later one is dropped. -/
theorem samples_run (capacity : UInt64) (cs : List Call) :
    ((new capacity).run cs).samples.Perm ((durations cs).take capacity.toNat) :=
  samples_run_of cs (new capacity)

/-! ## The statistics -/

/-- What `compute_percentiles` reports about `samples`: `min ≤ p50 ≤ p90 ≤ p95 ≤ p99 ≤ p99.9 ≤
p99.99 ≤ max`, and `min` and `max` are the least and the greatest sample. -/
structure PercentilesOrdered (c : LatencyTracker) (samples : List UInt64) : Prop where
  min_le_p50 : c.min ≤ c.p50
  p50_le_p90 : c.p50 ≤ c.p90
  p90_le_p95 : c.p90 ≤ c.p95
  p95_le_p99 : c.p95 ≤ c.p99
  p99_le_p99_9 : c.p99 ≤ c.p99_9
  p99_9_le_p99_99 : c.p99_9 ≤ c.p99_99
  p99_99_le_max : c.p99_99 ≤ c.max
  min_mem : c.min ∈ samples
  max_mem : c.max ∈ samples
  bounds : ∀ x ∈ samples, c.min ≤ x ∧ x ≤ c.max

/-- The percentiles come out in order, between the extreme samples, while `count_ * 9999` fits
in `size_t`. -/
theorem percentiles_ordered (t : LatencyTracker) (hne : t.samples ≠ [])
    (hn : t.samples.length * 9999 < 18446744073709551616) :
    PercentilesOrdered t.computePercentiles t.samples := by
  have hlen : 0 < t.samples.length := List.length_pos.2 hne
  have hs := sorted_sort t.samples
  have hl := length_sort t.samples
  have hmem : ∀ {i}, i < t.samples.length → (sort t.samples).getD i 0 ∈ t.samples := fun hi =>
    (sort_perm _).subset (by rw [getD_eq_getElem (by omega)]; exact List.getElem_mem _)
  simp only [computePercentiles, if_neg (Nat.pos_iff_ne_zero.1 hlen), atRank, hl]
  simp (disch := omega) only [Nat.mod_eq_of_lt]
  refine ⟨getD_le_getD hs (Nat.zero_le _) (by omega), getD_le_getD hs (by omega) (by omega),
    getD_le_getD hs (by omega) (by omega), getD_le_getD hs (by omega) (by omega),
    getD_le_getD hs (by omega) (by omega), getD_le_getD hs (by omega) (by omega),
    getD_le_getD hs (by omega) (by omega), hmem hlen, hmem (by omega), fun x hx => ?_⟩
  simpa [hl] using getD_of_mem hs ((sort_perm _).mem_iff.2 hx)

/-- Three operations timed at `20`, `1` and `100` cycles. -/
def threeSamples : LatencyTracker :=
  (new 4).run [.record 10 30, .record 5 6, .record 0 100]

theorem percentiles_ordered_threeSamples :
    PercentilesOrdered threeSamples.computePercentiles threeSamples.samples :=
  percentiles_ordered threeSamples (by decide) (by decide)

/-- The sample `compute_percentiles` reports at rank `k = count_ * num / den` (`num < den`:
`p50` is `50 / 100`, …, `p99.99` is `9999 / 10000`) has at least `k + 1` samples at or below
it and at most `k` strictly below it. -/
theorem percentile_rank (xs : List UInt64) (hne : xs ≠ []) {num den : Nat} (hnd : num < den) :
    xs.length * num % 18446744073709551616 / den + 1 ≤ xs.countP (· ≤ atRank (sort xs) num den) ∧
      xs.countP (· < atRank (sort xs) num den) ≤
        xs.length * num % 18446744073709551616 / den := by
  have hlen : 0 < xs.length := List.length_pos.2 hne
  have hk : xs.length * num % 18446744073709551616 / den < xs.length := by
    have := Nat.mod_le (xs.length * num) 18446744073709551616
    exact Nat.div_lt_of_lt_mul (lt_of_le_of_lt this
      (by rw [Nat.mul_comm den]; exact Nat.mul_lt_mul_of_pos_left hnd hlen))
  have h := rank_getD (sorted_sort xs) (by rwa [length_sort])
  rw [(sort_perm xs).countP_eq, (sort_perm xs).countP_eq] at h
  simpa only [atRank, length_sort] using h

theorem percentile_rank_threeSamples :
    threeSamples.samples.length * 50 % 18446744073709551616 / 100 + 1 ≤
        threeSamples.samples.countP (· ≤ atRank (sort threeSamples.samples) 50 100) ∧
      threeSamples.samples.countP (· < atRank (sort threeSamples.samples) 50 100) ≤
        threeSamples.samples.length * 50 % 18446744073709551616 / 100 :=
  percentile_rank threeSamples.samples (by decide) (by decide)

theorem toNat_foldl_add (xs : List UInt64) (a : UInt64) :
    (xs.foldl (· + ·) a).toNat = (a.toNat + (xs.map UInt64.toNat).sum) % 18446744073709551616 := by
  induction xs generalizing a with
  | nil => simpa using (Nat.mod_eq_of_lt a.toNat_lt_size).symm
  | cons x xs ih =>
    rw [List.foldl_cons, ih, List.map_cons, List.sum_cons]
    show ((a.toNat + x.toNat) % 18446744073709551616 + _) % _ = _
    omega

/-- The mean `compute_percentiles` reports lies between `min` and `max` when the samples' sum
fits in `uint64_t`. -/
theorem avg_between (t : LatencyTracker) (hne : t.samples ≠ [])
    (hsum : (t.samples.map UInt64.toNat).sum < 18446744073709551616) :
    t.computePercentiles.min ≤ t.computePercentiles.avg ∧
      t.computePercentiles.avg ≤ t.computePercentiles.max := by
  have hlen : 0 < t.samples.length := List.length_pos.2 hne
  have hs := sorted_sort t.samples
  have hl := length_sort t.samples
  have hperm := (sort_perm t.samples).map UInt64.toNat
  have hsum' : (cycleSum (sort t.samples)).toNat = ((sort t.samples).map UInt64.toNat).sum := by
    rw [cycleSum, toNat_foldl_add, hperm.sum_eq]
    simpa using Nat.mod_eq_of_lt hsum
  have hcount : (UInt64.ofNat (sort t.samples).length).toNat = t.samples.length := by
    rw [hl]
    exact UInt64.toNat_ofNat_of_lt (by have := t.count_le; have := t.capacity.toNat_lt_size; omega)
  have hlo := List.card_nsmul_le_sum ((sort t.samples).map UInt64.toNat)
    ((sort t.samples).getD 0 0).toNat (by
      simp only [List.mem_map]
      rintro _ ⟨x, hx, rfl⟩
      exact (getD_of_mem hs hx).1)
  have hhi := List.sum_le_card_nsmul ((sort t.samples).map UInt64.toNat)
    ((sort t.samples).getD ((sort t.samples).length - 1) 0).toNat (by
      simp only [List.mem_map]
      rintro _ ⟨x, hx, rfl⟩
      exact (getD_of_mem hs hx).2)
  simp only [List.length_map, smul_eq_mul] at hlo hhi
  simp only [computePercentiles, if_neg (Nat.pos_iff_ne_zero.1 hlen)]
  constructor
  · show _ ≤ (cycleSum _ / _).toNat
    rw [UInt64.toNat_div, hsum', hcount]
    exact (Nat.le_div_iff_mul_le hlen).2 (by rw [Nat.mul_comm, ← hl]; exact hlo)
  · show (cycleSum _ / _).toNat ≤ _
    rw [UInt64.toNat_div, hsum', hcount]
    exact Nat.div_le_of_le_mul (by rw [← hl]; exact hhi)

theorem avg_between_threeSamples :
    threeSamples.computePercentiles.min ≤ threeSamples.computePercentiles.avg ∧
      threeSamples.computePercentiles.avg ≤ threeSamples.computePercentiles.max :=
  avg_between threeSamples (by decide) (by decide)

/-- Past `2^64` the sum wraps: two samples of `2^63` cycles average to `0`. -/
example : ((new 2).run [.record 0 9223372036854775808, .record 0 9223372036854775808]).computePercentiles.avg <
    ((new 2).run [.record 0 9223372036854775808, .record 0 9223372036854775808]).computePercentiles.min := by
  decide

end LatencyTracker

end HyperliquidEngine
