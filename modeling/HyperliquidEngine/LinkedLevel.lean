import HyperliquidEngine.Order

/-!
# The level queue as order.h links it

`LevelFIFO` threads its nodes through their `prev`/`next` pointers between `head` and
`tail`. `LinkedFIFO` is that layout: `head`, `tail`, `total_qty`, and the `prev`, `next` and
`qty` fields of the nodes by address (`none` is `nullptr`). `enqueue`, `erase` and
`reduceQty` are the three methods, write by write.

`WellLinked q xs` says that the pointers spell the list of addresses `xs`: no address
twice, `head` and `tail` its ends, and each member's `next` and `prev` its neighbours in
`xs` (`nextIn`, `prevIn`). The shape of a doubly linked list follows from it
(`WellLinked.head_eq_none_iff_tail`, `.prev_head`, `.next_tail`, `.prev_of_next`), and so
does the list the queue is read as: walking `next` from `head` visits `xs` and ends in
`nullptr` (`WellLinked.walk_eq`).

- `WellLinked.enqueue`, `WellLinked.erase`, `WellLinked.reduceQty`: the methods keep the
  pointers well linked, appending the node, removing it, or keeping the list;
- `TotalMatches`: `total_qty` is the `int64_t` image of the members' sum; every method
  keeps it;
- `levelFIFO_wellFormed`: along every sequence of calls from an empty queue that enqueues
  non-members and erases or shrinks members, the pointers spell the enqueue order with the
  erased nodes removed, and `total_qty` is the members' sum whenever that sum fits;
- `toFIFO_enqueue`, `toFIFO_erase`, `toFIFO_reduceQty`: read through its pointers, the linked
  queue is the list model `LevelFIFO` of `HyperliquidEngine.Order`, method by method.
-/

namespace HyperliquidEngine

/-! ## Neighbours in a list of addresses -/

/-- The address after `a` in `xs`. -/
def nextIn : List Nat → Nat → Option Nat
  | x :: y :: rest, a => if x = a then some y else nextIn (y :: rest) a
  | _, _ => none

/-- The address before `a` in `xs`. -/
def prevIn : List Nat → Nat → Option Nat
  | x :: y :: rest, a => if y = a then some x else prevIn (y :: rest) a
  | _, _ => none

section Neighbours

variable {a : Nat}

@[simp] theorem nextIn_cons_self (zs : List Nat) : nextIn (a :: zs) a = zs.head? := by
  cases zs <;> simp [nextIn]

theorem nextIn_cons_of_ne {x : Nat} (zs : List Nat) (h : x ≠ a) : nextIn (x :: zs) a = nextIn zs a := by
  cases zs with
  | nil => rfl
  | cons y zs => simp [nextIn, h]

theorem prevIn_of_not_mem : ∀ {xs : List Nat}, a ∉ xs → prevIn xs a = none
  | [], _ => rfl
  | [_], _ => rfl
  | x :: y :: rest, h => by
    have h' : a ∉ y :: rest := fun h' => h (List.mem_cons_of_mem _ h')
    have hy : y ≠ a := fun hy => h' (hy ▸ List.mem_cons_self _ _)
    simp [prevIn, hy, prevIn_of_not_mem h']

theorem prevIn_cons_self {zs : List Nat} (h : a ∉ zs) : prevIn (a :: zs) a = none := by
  cases zs with
  | nil => rfl
  | cons y zs =>
    have hy : y ≠ a := fun hy => h (hy ▸ List.mem_cons_self _ _)
    simp [prevIn, hy, prevIn_of_not_mem h]

/-- The neighbour after a member of the front part of a list: the first of the back part
for the front's last member. -/
theorem nextIn_append_left : ∀ {ys : List Nat} (zs : List Nat), (ys ++ zs).Nodup → a ∈ ys →
    nextIn (ys ++ zs) a = if ys.getLast? = some a then zs.head? else nextIn ys a
  | [], _, _, h => absurd h (List.not_mem_nil a)
  | [y], zs, _, h => by
    obtain rfl := List.mem_singleton.1 h
    simp [nextIn]
  | y :: y' :: ys, zs, hn, h => by
    have hn' : (y' :: ys ++ zs).Nodup := (List.nodup_cons.1 hn).2
    by_cases hy : y = a
    · subst hy
      have hl : (y' :: ys).getLast? ≠ some y := fun hl =>
        (List.nodup_cons.1 hn).1 (List.mem_append_left _ (List.mem_of_getLast?_eq_some hl))
      simp [nextIn, hl]
    · have h' : a ∈ y' :: ys := (List.mem_cons.1 h).resolve_left (Ne.symm hy)
      simpa [nextIn, hy] using nextIn_append_left zs hn' h'

/-- The neighbour after a member of the back part of a list. -/
theorem nextIn_append_right : ∀ (ys : List Nat) {zs : List Nat}, (ys ++ zs).Nodup → a ∈ zs →
    nextIn (ys ++ zs) a = nextIn zs a
  | [], _, _, _ => rfl
  | y :: ys, zs, hn, h => by
    have hy : y ≠ a := fun hy => (List.nodup_cons.1 hn).1 (hy ▸ List.mem_append_right _ h)
    rw [List.cons_append, nextIn_cons_of_ne _ hy, nextIn_append_right ys (List.nodup_cons.1 hn).2 h]

/-- The neighbour before a member of the front part of a list. -/
theorem prevIn_append_left : ∀ {ys : List Nat} (zs : List Nat), (ys ++ zs).Nodup → a ∈ ys →
    prevIn (ys ++ zs) a = prevIn ys a
  | [], _, _, h => absurd h (List.not_mem_nil a)
  | [y], zs, hn, h => by
    obtain rfl := List.mem_singleton.1 h
    exact prevIn_cons_self (List.nodup_cons.1 hn).1
  | y :: y' :: ys, zs, hn, h => by
    have hn' : (y' :: ys ++ zs).Nodup := (List.nodup_cons.1 hn).2
    by_cases hy : y' = a
    · simp [prevIn, hy]
    have ih : prevIn (y' :: ys ++ zs) a = prevIn (y' :: ys) a := by
      rcases List.mem_cons.1 h with rfl | h'
      · -- `a` is the first of the list, with nothing before it in either
        have ha : a ∉ y' :: ys ++ zs := (List.nodup_cons.1 hn).1
        rw [prevIn_of_not_mem ha, prevIn_of_not_mem fun h'' => ha (List.mem_append_left _ h'')]
      · exact prevIn_append_left zs hn' h'
    simpa [prevIn, hy] using ih

/-- The neighbour before a member of the back part of a list: the front's last member for
the back's first. -/
theorem prevIn_append_right : ∀ (ys : List Nat) {zs : List Nat}, (ys ++ zs).Nodup → a ∈ zs →
    prevIn (ys ++ zs) a = if zs.head? = some a then ys.getLast? else prevIn zs a
  | [], zs, hn, h => by
    cases zs with
    | nil => rfl
    | cons z zs =>
      split_ifs with hz
      · obtain rfl : z = a := by simpa using hz
        exact prevIn_cons_self (List.nodup_cons.1 hn).1
      · rfl
  | [y], zs, hn, h => by
    cases zs with
    | nil => exact absurd h (List.not_mem_nil a)
    | cons z zs => by_cases hz : z = a <;> simp [prevIn, hz]
  | y :: y' :: ys, zs, hn, h => by
    have hy : y' ≠ a := fun hy => (List.nodup_cons.1 (List.nodup_cons.1 hn).2).1
      (hy ▸ List.mem_append_right _ h)
    simpa [prevIn, hy] using prevIn_append_right (y' :: ys) (List.nodup_cons.1 hn).2 h

/-- In a list without repetition, `b` after `a` means `a` before `b`. -/
theorem prevIn_of_nextIn : ∀ {xs : List Nat} {b : Nat}, xs.Nodup → nextIn xs a = some b →
    b ∈ xs ∧ prevIn xs b = some a
  | x :: y :: rest, b, hn, h => by
    by_cases hx : x = a
    · subst hx
      simp only [nextIn, if_true, Option.some.injEq] at h
      subst h
      simp [prevIn]
    · rw [nextIn_cons_of_ne _ hx] at h
      obtain ⟨hb, hp⟩ := prevIn_of_nextIn (List.nodup_cons.1 hn).2 h
      refine ⟨List.mem_cons_of_mem _ hb, ?_⟩
      rw [← List.singleton_append, prevIn_append_right [x] hn hb]
      split_ifs with hyb
      · cases rest with
        | nil => simp [nextIn] at h
        | cons z rest =>
          -- `b` is the first of `y :: rest`, which has `a` before it: impossible
          obtain rfl : y = b := by simpa using hyb
          simp [prevIn_cons_self (List.nodup_cons.1 (List.nodup_cons.1 hn).2).1] at hp
      · exact hp
  | [], _, _, h => by simp [nextIn] at h
  | [_], _, _, h => by simp [nextIn] at h

theorem mem_of_nextIn : ∀ {xs : List Nat} {b : Nat}, nextIn xs a = some b → b ∈ xs
  | x :: y :: rest, b, h => by
    unfold nextIn at h
    split_ifs at h
    · cases h; simp
    · exact List.mem_cons_of_mem _ (mem_of_nextIn h)
  | [], _, h => by simp [nextIn] at h
  | [_], _, h => by simp [nextIn] at h

theorem mem_of_prevIn : ∀ {xs : List Nat} {b : Nat}, prevIn xs a = some b → b ∈ xs
  | x :: y :: rest, b, h => by
    unfold prevIn at h
    split_ifs at h
    · cases h; simp
    · exact List.mem_cons_of_mem _ (mem_of_prevIn h)
  | [], _, h => by simp [prevIn] at h
  | [_], _, h => by simp [prevIn] at h

end Neighbours

/-! ## The linked layout -/

/-- A `LevelFIFO` as order.h lays it out (order.h:46–82): `head`, `tail` and `total_qty`, and
the `prev`, `next` and `qty` fields of the nodes, by address (`none` for `nullptr`). -/
structure LinkedFIFO where
  head : Option Nat
  tail : Option Nat
  totalQty : Int
  prev : Nat → Option Nat
  next : Nat → Option Nat
  qty : Nat → Int

namespace LinkedFIFO

/-- `empty()`: `head == nullptr`. -/
def empty (q : LinkedFIFO) : Bool := q.head.isNone

/-- `enqueue(node)` (order.h:54–63), write by write. -/
def enqueue (q : LinkedFIFO) (n : Nat) : LinkedFIFO :=
  let q := { q with next := writeSlot q.next n none }
  let q := { q with prev := writeSlot q.prev n q.tail }
  let q := match q.tail with
    | some t => { q with next := writeSlot q.next t (some n) }
    | none => { q with head := some n }
  { q with tail := some n, totalQty := wrapInt64 (q.totalQty + q.qty n) }

/-- `erase(node)` (order.h:65–76), write by write. -/
def erase (q : LinkedFIFO) (n : Nat) : LinkedFIFO :=
  let q := match q.prev n with
    | some p => { q with next := writeSlot q.next p (q.next n) }
    | none => { q with head := q.next n }
  let q := match q.next n with
    | some x => { q with prev := writeSlot q.prev x (q.prev n) }
    | none => { q with tail := q.prev n }
  let q := { q with totalQty := wrapInt64 (q.totalQty - q.qty n) }
  { q with prev := writeSlot q.prev n none, next := writeSlot q.next n none }

/-- `reduce_qty(node, reduction)` (order.h:78–81). -/
def reduceQty (q : LinkedFIFO) (n : Nat) (reduction : Int) : LinkedFIFO :=
  { q with qty := writeSlot q.qty n (q.qty n - reduction), totalQty := wrapInt64 (q.totalQty - reduction) }

/-- The nodes met walking `next` from `p`, for at most `k` nodes. -/
def walk (q : LinkedFIFO) : Nat → Option Nat → List Nat
  | 0, _ => []
  | _ + 1, none => []
  | k + 1, some a => a :: walk q k (q.next a)

section Fields

variable (q : LinkedFIFO) (n a : Nat)

@[simp] theorem head_enqueue : (q.enqueue n).head = if q.tail = none then some n else q.head := by
  cases h : q.tail <;> simp [enqueue, h]

@[simp] theorem tail_enqueue : (q.enqueue n).tail = some n := by
  cases h : q.tail <;> simp [enqueue, h]

@[simp] theorem next_enqueue :
    (q.enqueue n).next a = if q.tail = some a then some n else if a = n then none else q.next a := by
  cases h : q.tail <;> simp [enqueue, h, eq_comm]

@[simp] theorem prev_enqueue : (q.enqueue n).prev a = if a = n then q.tail else q.prev a := by
  cases h : q.tail <;> simp [enqueue, h]

@[simp] theorem qty_enqueue : (q.enqueue n).qty = q.qty := by
  cases h : q.tail <;> simp [enqueue, h]

@[simp] theorem totalQty_enqueue : (q.enqueue n).totalQty = wrapInt64 (q.totalQty + q.qty n) := by
  cases h : q.tail <;> simp [enqueue, h]

@[simp] theorem head_erase : (q.erase n).head = if q.prev n = none then q.next n else q.head := by
  cases hp : q.prev n <;> cases hx : q.next n <;> simp [erase, hp, hx]

@[simp] theorem tail_erase : (q.erase n).tail = if q.next n = none then q.prev n else q.tail := by
  cases hp : q.prev n <;> cases hx : q.next n <;> simp [erase, hp, hx]

@[simp] theorem next_erase :
    (q.erase n).next a = if a = n then none else if q.prev n = some a then q.next n else q.next a := by
  cases hp : q.prev n <;> cases hx : q.next n <;> simp [erase, hp, hx, eq_comm]

@[simp] theorem prev_erase :
    (q.erase n).prev a = if a = n then none else if q.next n = some a then q.prev n else q.prev a := by
  cases hp : q.prev n <;> cases hx : q.next n <;> simp [erase, hp, hx, eq_comm]

@[simp] theorem qty_erase : (q.erase n).qty = q.qty := by
  cases hp : q.prev n <;> cases hx : q.next n <;> simp [erase, hp, hx]

@[simp] theorem totalQty_erase : (q.erase n).totalQty = wrapInt64 (q.totalQty - q.qty n) := by
  cases hp : q.prev n <;> cases hx : q.next n <;> simp [erase, hp, hx]

end Fields

/-! ## Well-linked queues -/

/-- The pointers of `q` spell the list of addresses `xs`: no address twice, `head` and
`tail` its ends, and every member's `next` and `prev` its neighbours in `xs`. -/
structure WellLinked (q : LinkedFIFO) (xs : List Nat) : Prop where
  nodup : xs.Nodup
  head_eq : q.head = xs.head?
  tail_eq : q.tail = xs.getLast?
  next_eq : ∀ a ∈ xs, q.next a = nextIn xs a
  prev_eq : ∀ a ∈ xs, q.prev a = prevIn xs a

namespace WellLinked

variable {q : LinkedFIFO} {xs : List Nat}

theorem head_eq_none_iff (h : WellLinked q xs) : q.head = none ↔ xs = [] := by
  rw [h.head_eq, List.head?_eq_none_iff]

/-- `head` is null exactly when `tail` is. -/
theorem head_eq_none_iff_tail (h : WellLinked q xs) : q.head = none ↔ q.tail = none := by
  rw [h.head_eq_none_iff, h.tail_eq, List.getLast?_eq_none_iff]

theorem empty_iff (h : WellLinked q xs) : q.empty = true ↔ xs = [] := by
  rw [empty, Option.isNone_iff_eq_none, h.head_eq_none_iff]

/-- `head->prev` is null. -/
theorem prev_head (h : WellLinked q xs) {a : Nat} (ha : q.head = some a) : q.prev a = none := by
  rw [h.head_eq, List.head?_eq_some_iff] at ha
  obtain ⟨rest, rfl⟩ := ha
  rw [h.prev_eq a (List.mem_cons_self _ _), prevIn_cons_self (List.nodup_cons.1 h.nodup).1]

/-- `tail->next` is null. -/
theorem next_tail (h : WellLinked q xs) {a : Nat} (ha : q.tail = some a) : q.next a = none := by
  rw [h.tail_eq, List.getLast?_eq_some_iff] at ha
  obtain ⟨init, rfl⟩ := ha
  rw [h.next_eq a (by simp), nextIn_append_right init h.nodup (List.mem_singleton_self a)]
  rfl

/-- `x->next->prev == x`. -/
theorem prev_of_next (h : WellLinked q xs) {a b : Nat} (ha : a ∈ xs) (hb : q.next a = some b) :
    b ∈ xs ∧ q.prev b = some a := by
  rw [h.next_eq a ha] at hb
  obtain ⟨hb', hp⟩ := prevIn_of_nextIn h.nodup hb
  exact ⟨hb', by rw [h.prev_eq b hb', hp]⟩

/-- **Walking `next` from `head` reads the members in order and ends in `nullptr`**: the
queue has no cycle. -/
theorem walk_eq (h : WellLinked q xs) (k : Nat) : q.walk (xs.length + k) q.head = xs := by
  -- every suffix of the list is walked from its first node
  suffices ∀ zs ys, xs = ys ++ zs → q.walk (zs.length + k) zs.head? = zs by
    simpa [h.head_eq] using this xs [] rfl
  intro zs
  induction zs with
  | nil => intro _ _; cases k <;> rfl
  | cons z zs ih =>
    intro ys hxs
    have hz : q.next z = zs.head? := by
      rw [h.next_eq z (by simp [hxs]), hxs, nextIn_append_right ys (hxs ▸ h.nodup) (by simp),
        nextIn_cons_self]
    rw [List.length_cons, show zs.length + 1 + k = (zs.length + k) + 1 by omega]
    simp only [List.head?_cons, walk, hz, ih (ys ++ [z]) (by simp [hxs])]

/-- **Enqueueing a node that is not a member appends it.** -/
theorem enqueue (h : WellLinked q xs) {n : Nat} (hn : n ∉ xs) :
    WellLinked (q.enqueue n) (xs ++ [n]) := by
  have hnd : (xs ++ [n]).Nodup := List.nodup_append.2
    ⟨h.nodup, List.nodup_singleton n, fun a ha hb => hn (List.mem_singleton.1 hb ▸ ha)⟩
  refine ⟨hnd, ?_, by simp, fun a ha => ?_, fun a ha => ?_⟩
  · rw [head_enqueue, h.tail_eq]
    cases xs with
    | nil => rfl
    | cons x xs => simp [h.head_eq]
  · rw [next_enqueue, h.tail_eq]
    rcases List.mem_append.1 ha with ha | ha
    · rw [if_neg (show a ≠ n from fun e => hn (e ▸ ha)), h.next_eq a ha,
        nextIn_append_left [n] hnd ha]
      rfl
    · obtain rfl := List.mem_singleton.1 ha
      rw [if_neg fun e => hn (List.mem_of_getLast?_eq_some e), if_pos rfl,
        nextIn_append_right xs hnd (List.mem_singleton_self _)]
      rfl
  · rw [prev_enqueue, h.tail_eq]
    rcases List.mem_append.1 ha with ha | ha
    · rw [if_neg (show a ≠ n from fun e => hn (e ▸ ha)), h.prev_eq a ha,
        prevIn_append_left [n] hnd ha]
    · obtain rfl := List.mem_singleton.1 ha
      rw [if_pos rfl, prevIn_append_right xs hnd (List.mem_singleton_self _)]
      simp

/-- **Erasing a member unlinks it.** -/
theorem erase (h : WellLinked q xs) {n : Nat} (hn : n ∈ xs) : WellLinked (q.erase n) (xs.erase n) := by
  obtain ⟨ys, zs, rfl⟩ := List.append_of_mem hn
  have hnd := h.nodup
  have hdisj := (List.nodup_append.1 hnd).2.2
  have hys : n ∉ ys := fun h' => hdisj h' (List.mem_cons_self _ _)
  have herase : (ys ++ n :: zs).erase n = ys ++ zs := by
    rw [List.erase_append_right _ hys, List.erase_cons_head]
  have hnd' : (ys ++ zs).Nodup := herase ▸ hnd.erase n
  have hne : ∀ a ∈ ys ++ zs, a ≠ n := by
    rintro a ha rfl
    rcases List.mem_append.1 ha with ha | ha
    exacts [hys ha, (List.nodup_cons.1 (List.nodup_append.1 hnd).2.1).1 ha]
  -- the node's neighbours: the last of the front, the first of the back
  have hp : q.prev n = ys.getLast? := by
    rw [h.prev_eq n (by simp), prevIn_append_right ys hnd (List.mem_cons_self _ _)]
    simp
  have hx : q.next n = zs.head? := by
    rw [h.next_eq n (by simp), nextIn_append_right ys hnd (List.mem_cons_self _ _), nextIn_cons_self]
  rw [herase]
  refine ⟨hnd', ?_, ?_, fun a ha => ?_, fun a ha => ?_⟩
  · rw [head_erase, hp, hx, h.head_eq]
    cases ys <;> simp
  · rw [tail_erase, hp, hx, h.tail_eq]
    cases zs <;> simp [List.getLast?_append]
  · have han := hne a ha
    rw [next_erase, if_neg han, hp, hx]
    rcases List.mem_append.1 ha with ha | ha
    · rw [nextIn_append_left zs hnd' ha, h.next_eq a (by simp [ha]), nextIn_append_left _ hnd ha]
      split_ifs <;> rfl
    · have hl : ys.getLast? ≠ some a := fun e =>
        hdisj (List.mem_of_getLast?_eq_some e) (List.mem_cons_of_mem _ ha)
      rw [if_neg hl, h.next_eq a (by simp [ha]), nextIn_append_right _ hnd (List.mem_cons_of_mem _ ha),
        nextIn_cons_of_ne _ (Ne.symm han), nextIn_append_right _ hnd' ha]
  · have han := hne a ha
    rw [prev_erase, if_neg han, hp, hx]
    rcases List.mem_append.1 ha with ha | ha
    · have hl : zs.head? ≠ some a := fun e =>
        hdisj ha (List.mem_cons_of_mem _ (List.mem_of_mem_head? e))
      rw [if_neg hl, h.prev_eq a (by simp [ha]), prevIn_append_left _ hnd ha, prevIn_append_left _ hnd' ha]
    · rw [prevIn_append_right _ hnd' ha, h.prev_eq a (by simp [ha]),
        prevIn_append_right _ hnd (List.mem_cons_of_mem _ ha),
        if_neg (show (n :: zs).head? ≠ some a by simpa using Ne.symm han),
        ← List.singleton_append, prevIn_append_right [n] (List.nodup_append.1 hnd).2.1 ha]
      split_ifs <;> rfl

/-- Shrinking a node leaves the links alone. -/
theorem reduceQty (h : WellLinked q xs) (n : Nat) (d : Int) : WellLinked (q.reduceQty n d) xs :=
  ⟨h.1, h.2, h.3, h.4, h.5⟩

/-- A member's `next` is a member. -/
theorem next_mem (h : WellLinked q xs) {a b : Nat} (ha : a ∈ xs) (hb : q.next a = some b) : b ∈ xs :=
  mem_of_nextIn (h.next_eq a ha ▸ hb)

/-- A member's `prev` is a member. -/
theorem prev_mem (h : WellLinked q xs) {a b : Nat} (ha : a ∈ xs) (hb : q.prev a = some b) : b ∈ xs :=
  mem_of_prevIn (h.prev_eq a ha ▸ hb)

/-- The links of a list depend on its ends and on the members' pointers only. -/
theorem congr {q' : LinkedFIFO} (h : WellLinked q xs) (hh : q'.head = q.head) (ht : q'.tail = q.tail)
    (hn : ∀ a ∈ xs, q'.next a = q.next a) (hp : ∀ a ∈ xs, q'.prev a = q.prev a) : WellLinked q' xs :=
  ⟨h.nodup, hh.trans h.head_eq, ht.trans h.tail_eq, fun a ha => (hn a ha).trans (h.next_eq a ha),
    fun a ha => (hp a ha).trans (h.prev_eq a ha)⟩

end WellLinked

/-! ## The running total -/

/-- `total_qty` is the `int64_t` image of the members' open quantities. -/
def TotalMatches (q : LinkedFIFO) (xs : List Nat) : Prop := q.totalQty = wrapInt64 (xs.map q.qty).sum

namespace TotalMatches

variable {q : LinkedFIFO} {xs : List Nat}

theorem enqueue (h : TotalMatches q xs) (n : Nat) : TotalMatches (q.enqueue n) (xs ++ [n]) := by
  unfold TotalMatches at *
  rw [totalQty_enqueue, qty_enqueue, h, wrapInt64_add_wrap]
  simp

theorem erase (h : TotalMatches q xs) {n : Nat} (hn : n ∈ xs) : TotalMatches (q.erase n) (xs.erase n) := by
  unfold TotalMatches at *
  rw [totalQty_erase, qty_erase, h, wrapInt64_sub_wrap, ← List.sum_map_erase q.qty hn, add_sub_cancel_left]

/-- Shrinking a member by `d` takes `d` off the members' sum, the member counted once. -/
theorem reduceQty (h : TotalMatches q xs) (hnd : xs.Nodup) {n : Nat} (hn : n ∈ xs) (d : Int) :
    TotalMatches (q.reduceQty n d) xs := by
  have hrest : ((xs.erase n).map (q.reduceQty n d).qty).sum = ((xs.erase n).map q.qty).sum := by
    refine congrArg List.sum (List.map_congr_left fun a ha => ?_)
    have : a ≠ n := fun e => (hnd.mem_erase_iff.1 ha).1 e
    simp [LinkedFIFO.reduceQty, this]
  have h₁ := List.sum_map_erase (q.reduceQty n d).qty hn
  have h₂ := List.sum_map_erase q.qty hn
  unfold TotalMatches at *
  rw [← h₁, hrest, show (q.reduceQty n d).totalQty = wrapInt64 (q.totalQty - d) from rfl, h,
    wrapInt64_sub_wrap, ← h₂]
  simp only [LinkedFIFO.reduceQty, writeSlot_apply, if_true]
  ring_nf

end TotalMatches

/-! ## Runs of calls -/

/-- A call on a level queue: `enqueue(node)`, `erase(node)` or `reduce_qty(node, reduction)`. -/
inductive FifoCall where
  | enqueue (n : Nat)
  | erase (n : Nat)
  | reduceQty (n : Nat) (reduction : Int)
  deriving DecidableEq, Repr

namespace FifoCall

/-- The call on the linked queue. -/
def apply (q : LinkedFIFO) : FifoCall → LinkedFIFO
  | .enqueue n => q.enqueue n
  | .erase n => q.erase n
  | .reduceQty n d => q.reduceQty n d

/-- What the call does to the members, in order: the enqueued node joins at the end, the
erased node leaves. -/
def members (xs : List Nat) : FifoCall → List Nat
  | .enqueue n => xs ++ [n]
  | .erase n => xs.erase n
  | .reduceQty _ _ => xs

/-- The call's contract on the members `xs`: only a node in no list is enqueued, only a
member is erased or shrunk. -/
def Allowed (xs : List Nat) : FifoCall → Prop
  | .enqueue n => n ∉ xs
  | .erase n => n ∈ xs
  | .reduceQty n _ => n ∈ xs

instance (xs : List Nat) : (c : FifoCall) → Decidable (c.Allowed xs)
  | .enqueue n => inferInstanceAs (Decidable (n ∉ xs))
  | .erase n => inferInstanceAs (Decidable (n ∈ xs))
  | .reduceQty n _ => inferInstanceAs (Decidable (n ∈ xs))

end FifoCall

/-- The calls `cs` in order from `q`. -/
def runCalls (q : LinkedFIFO) (cs : List FifoCall) : LinkedFIFO := cs.foldl FifoCall.apply q

/-- The members after the calls `cs` from an empty queue: the enqueue order with the erased
nodes removed. -/
def memberList (cs : List FifoCall) : List Nat := cs.foldl FifoCall.members []

/-- Every call of `cs` keeps the contract on the members it meets, from the members `xs`. -/
def ValidCalls : List Nat → List FifoCall → Prop
  | _, [] => True
  | xs, c :: cs => c.Allowed xs ∧ ValidCalls (c.members xs) cs

instance decValidCalls : (xs : List Nat) → (cs : List FifoCall) → Decidable (ValidCalls xs cs)
  | _, [] => isTrue trivial
  | xs, c :: cs => @instDecidableAnd _ _ _ (decValidCalls (c.members xs) cs)

/-- One allowed call keeps the queue well linked and its total matching. -/
theorem wellLinked_apply {q : LinkedFIFO} {xs : List Nat} (h : WellLinked q xs)
    (ht : TotalMatches q xs) {c : FifoCall} (hc : c.Allowed xs) :
    WellLinked (c.apply q) (c.members xs) ∧ TotalMatches (c.apply q) (c.members xs) := by
  cases c with
  | enqueue n => exact ⟨h.enqueue hc, ht.enqueue n⟩
  | erase n => exact ⟨h.erase hc, ht.erase hc⟩
  | reduceQty n d => exact ⟨h.reduceQty n d, ht.reduceQty h.nodup hc d⟩

/-- Every valid run of calls keeps the queue well linked and its total matching. -/
theorem wellLinked_run : ∀ (q : LinkedFIFO) (xs : List Nat) (cs : List FifoCall),
    WellLinked q xs → TotalMatches q xs → ValidCalls xs cs →
      WellLinked (runCalls q cs) (cs.foldl FifoCall.members xs) ∧
        TotalMatches (runCalls q cs) (cs.foldl FifoCall.members xs)
  | _, _, [], h, ht, _ => ⟨h, ht⟩
  | q, xs, c :: cs, h, ht, ⟨hc, hv⟩ =>
    wellLinked_run (c.apply q) (c.members xs) cs (wellLinked_apply h ht hc).1
      (wellLinked_apply h ht hc).2 hv

end LinkedFIFO

open LinkedFIFO

/-- **`LevelFIFO` stays a well-formed FIFO with a correct total.** From any queue with null
`head` and `tail` and `total_qty` zero (whatever its nodes' fields hold), along every
sequence of `enqueue` of non-members, `erase` of members and `reduce_qty` of members (by any
amount): `head` is null exactly when `tail` is, `head->prev` and `tail->next` are null,
`x->next->prev == x` for every member, walking `next` from `head` reads the members without
repetition, in enqueue order with the erased nodes removed, and ends in `nullptr`; `empty()`
holds exactly when there is no member; and `total_qty` is the members' sum whenever that sum
fits in `int64_t`. -/
theorem levelFIFO_wellFormed (q : LinkedFIFO) (hh : q.head = none) (ht : q.tail = none)
    (h0 : q.totalQty = 0) (cs : List FifoCall) (hv : ValidCalls [] cs) :
    let q' := runCalls q cs
    let xs := memberList cs
    (q'.head = none ↔ q'.tail = none) ∧
    (∀ a, q'.head = some a → q'.prev a = none) ∧
    (∀ a, q'.tail = some a → q'.next a = none) ∧
    (∀ a ∈ xs, ∀ b, q'.next a = some b → q'.prev b = some a) ∧
    xs.Nodup ∧ (∀ k, q'.walk (xs.length + k) q'.head = xs) ∧
    (q'.empty = true ↔ xs = []) ∧
    (InInt64 (xs.map q'.qty).sum → q'.totalQty = (xs.map q'.qty).sum) := by
  intro q' xs
  have h₀ : WellLinked q [] := ⟨List.nodup_nil, hh, ht, fun _ h => absurd h (List.not_mem_nil _),
    fun _ h => absurd h (List.not_mem_nil _)⟩
  obtain ⟨h, htot⟩ := wellLinked_run q [] cs h₀ (show q.totalQty = wrapInt64 0 by rw [h0]; decide) hv
  refine ⟨h.head_eq_none_iff_tail, fun a => h.prev_head, fun a => h.next_tail,
    fun a ha b hb => (h.prev_of_next ha hb).2, h.nodup, h.walk_eq, h.empty_iff,
    fun hfit => htot.trans (wrapInt64_of_mem hfit)⟩

/-! ## The list model it implements -/

namespace LinkedFIFO

/-- The list model of a linked queue whose members are `xs`: the member nodes in order, each
with the fields `info` holds for it (id, user, timestamp, flags) and the quantity the queue
holds, and `total_qty`. -/
def toFIFO (q : LinkedFIFO) (info : Nat → OrderNode) (xs : List Nat) : LevelFIFO :=
  ⟨xs.map fun a => { info a with addr := a, qty := q.qty a }, q.totalQty⟩

section Refinement

variable (q : LinkedFIFO) (info : Nat → OrderNode) {xs : List Nat} (n : Nat)

/-- The list model reads the members' quantities and fields, and `total_qty`, only. -/
theorem toFIFO_congr {q' : LinkedFIFO} {info' : Nat → OrderNode} (ht : q'.totalQty = q.totalQty)
    (hq : ∀ a ∈ xs, q'.qty a = q.qty a) (hi : ∀ a ∈ xs, info' a = info a) :
    toFIFO q' info' xs = toFIFO q info xs := by
  simp only [toFIFO, ht, LevelFIFO.mk.injEq, and_true]
  exact List.map_congr_left fun a ha => by rw [hq a ha, hi a ha]

@[simp] theorem map_addr_toFIFO : (toFIFO q info xs).nodes.map (·.addr) = xs := by
  simp only [toFIFO, List.map_map]
  exact List.map_id'' (fun _ => rfl) xs

theorem find?_toFIFO : ∀ {xs : List Nat}, n ∈ xs →
    (toFIFO q info xs).nodes.find? (·.addr = n) = some { info n with addr := n, qty := q.qty n }
  | x :: xs, h => by
    by_cases hx : x = n
    · simp [toFIFO, hx]
    · simpa [toFIFO, hx] using find?_toFIFO ((List.mem_cons.1 h).resolve_left (Ne.symm hx))

theorem eraseP_toFIFO : ∀ xs : List Nat,
    (toFIFO q info xs).nodes.eraseP (·.addr = n) = (toFIFO q info (xs.erase n)).nodes
  | [] => rfl
  | x :: xs => by
    by_cases hx : x = n
    · simp [toFIFO, hx]
    · simpa [toFIFO, hx, List.erase_cons, Ne.symm hx] using eraseP_toFIFO xs

theorem reduceAt_toFIFO (d : Int) : ∀ {xs : List Nat}, xs.Nodup →
    reduceAt n d (toFIFO q info xs).nodes = (toFIFO (q.reduceQty n d) info xs).nodes
  | [], _ => rfl
  | x :: xs, hnd => by
    have ih := reduceAt_toFIFO d (List.nodup_cons.1 hnd).2
    by_cases hx : x = n
    · subst hx
      -- the other members keep their quantities
      have hrest : ∀ a ∈ xs, a ≠ x := fun a ha e => (List.nodup_cons.1 hnd).1 (e ▸ ha)
      simp only [toFIFO, List.map_cons, reduceAt, if_true, List.cons.injEq]
      exact ⟨by simp [LinkedFIFO.reduceQty],
        List.map_congr_left fun a ha => by simp [LinkedFIFO.reduceQty, hrest a ha]⟩
    · simp only [toFIFO, List.map_cons, reduceAt, hx, if_false] at ih ⊢
      simpa [LinkedFIFO.reduceQty, hx] using ih

/-- **Enqueueing is the list model's enqueue** of the node with its quantity. -/
theorem toFIFO_enqueue (xs : List Nat) :
    toFIFO (q.enqueue n) info (xs ++ [n]) =
      (toFIFO q info xs).enqueue { info n with addr := n, qty := q.qty n } := by
  simp [toFIFO, LevelFIFO.enqueue]

/-- **Erasing a member is the list model's erase** of the node at its address. -/
theorem toFIFO_erase (hn : n ∈ xs) : toFIFO (q.erase n) info (xs.erase n) = (toFIFO q info xs).erase n := by
  rw [LevelFIFO.erase_of_node? (find?_toFIFO q info n hn), eraseP_toFIFO]
  simp [toFIFO]

/-- **Shrinking a member is the list model's `reduceQty`.** -/
theorem toFIFO_reduceQty (hnd : xs.Nodup) (d : Int) :
    toFIFO (q.reduceQty n d) info xs = (toFIFO q info xs).reduceQty n d := by
  rw [LevelFIFO.reduceQty, reduceAt_toFIFO q info n d hnd]
  rfl

end Refinement

end LinkedFIFO

/-- Three nodes enqueued on an empty queue, the middle one erased: `head` walks to `1`, then
`3`, then `nullptr`. -/
theorem levelFIFO_wellFormed_witness :
    (runCalls ⟨none, none, 0, fun _ => none, fun _ => none, fun _ => 5⟩
        [.enqueue 1, .enqueue 2, .enqueue 3, .erase 2]).walk 3
      (runCalls ⟨none, none, 0, fun _ => none, fun _ => none, fun _ => 5⟩
        [.enqueue 1, .enqueue 2, .enqueue 3, .erase 2]).head = [1, 3] :=
  (levelFIFO_wellFormed ⟨none, none, 0, fun _ => none, fun _ => none, fun _ => 5⟩ rfl rfl rfl
    [.enqueue 1, .enqueue 2, .enqueue 3, .erase 2] (by decide)).2.2.2.2.2.1 1

end HyperliquidEngine
