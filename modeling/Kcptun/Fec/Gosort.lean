/- Kcptun/Fec/Gosort
   source: crates/kcp/src/gosort.rs
   digest: Go's pattern-defeating quicksort over an arbitrary comparison closure; a range that is
     already in order is left as it is. -/

import Mathlib.Data.List.Basic
import Mathlib.Data.Nat.Size

set_option autoImplicit false
set_option relaxedAutoImplicit false

namespace Kcptun.Fec.Gosort

/-- The slice being sorted and what the closure `less` has captured. -/
structure LessSwap (σ α : Type) where
  data : List α
  closure : σ

/-- Code that sorts in place. `none` stands for a panic: an index out of range, or an underflow. -/
abbrev SortM (σ α : Type) := StateT (LessSwap σ α) Option

inductive SortedHint
  | unknown
  | increasing
  | decreasing
  deriving DecidableEq, Repr

/-- One step of the `xorshift` generator: the new state, which is also what it returns. -/
def Xorshift.next (r : UInt64) : UInt64 :=
  let r := r ^^^ (r <<< 13)
  let r := r ^^^ (r >>> 7)
  r ^^^ (r <<< 17)

def bitsLen (x : ℕ) : ℕ := Nat.size x

def nextPowerOfTwo (length : ℕ) : ℕ := 1 <<< bitsLen length

section Algorithm

variable {σ α : Type} (cmp : σ → α → α → Bool × σ)

def less (i j : ℕ) : SortM σ α Bool := fun s =>
  match s.data[i]?, s.data[j]? with
  | some x, some y => some ((cmp s.closure x y).1, { s with closure := (cmp s.closure x y).2 })
  | _, _ => none

def swap (i j : ℕ) : SortM σ α Unit := fun s =>
  match s.data[i]?, s.data[j]? with
  | some x, some y => some ((), { s with data := (s.data.set i y).set j x })
  | _, _ => none

def sub (x y : ℕ) : SortM σ α ℕ := if y ≤ x then pure (x - y) else failure

/-- The inner loop of the insertion sort: moves element `j` down while it is smaller. -/
def insertDown (a : ℕ) : ℕ → SortM σ α Unit
  | 0 => pure ()
  | j + 1 => do
    if j + 1 > a then
      if ← less cmp (j + 1) j then
        swap (j + 1) j
        insertDown a j

def insertionSortFunc (a b : ℕ) : SortM σ α Unit :=
  (List.range' (a + 1) (b - (a + 1))).forM fun i => insertDown cmp a i

/-- Restores the heap property on `data[lo..hi]`; `first` is the offset of the heap's root. -/
def siftDownFunc (root hi first : ℕ) : SortM σ α Unit := do
  if 2 * root + 1 < hi then
    let right ← if 2 * root + 2 < hi then less cmp (first + (2 * root + 1)) (first + (2 * root + 2))
      else pure false
    if right then
      if ← less cmp (first + root) (first + (2 * root + 2)) then
        swap (first + root) (first + (2 * root + 2))
        siftDownFunc (2 * root + 2) hi first
    else
      if ← less cmp (first + root) (first + (2 * root + 1)) then
        swap (first + root) (first + (2 * root + 1))
        siftDownFunc (2 * root + 1) hi first
termination_by hi - root

def heapSortFunc (a b : ℕ) : SortM σ α Unit := do
  let hi ← sub b a
  let last ← sub hi 1
  (List.range (last / 2 + 1)).reverse.forM fun i => siftDownFunc cmp i hi a
  (List.range hi).reverse.forM fun i => do
    swap a (a + i)
    siftDownFunc cmp 0 i a

/-- `while i <= j && less(i, a) { i += 1 }`, or with the comparison the other way round. -/
def scanUp (test : ℕ → SortM σ α Bool) (i j : ℕ) : SortM σ α ℕ := do
  if i ≤ j then
    if ← test i then scanUp test (i + 1) j else return i
  else return i
termination_by j + 1 - i

/-- `while i <= j && !less(j, a) { j -= 1 }`, or with the comparison the other way round. -/
def scanDown (test : ℕ → SortM σ α Bool) (i : ℕ) : ℕ → SortM σ α ℕ
  | 0 => do
    if i ≤ 0 then
      if ← test 0 then sub 0 1 else return 0
    else return 0
  | j + 1 => do
    if i ≤ j + 1 then
      if ← test (j + 1) then scanDown test i j else return j + 1
    else return j + 1

/-- The main loop of both partitions: scans from both ends and swaps what stands wrong. -/
def partitionLoop (up down : ℕ → SortM σ α Bool) : ℕ → ℕ → ℕ → SortM σ α (ℕ × ℕ)
  | 0, _, _ => failure
  | fuel + 1, i, j => do
    let i ← scanUp up i j
    let j ← scanDown down i j
    if i > j then return (i, j)
    swap i j
    partitionLoop up down fuel (i + 1) (← sub j 1)

/-- One quicksort partition of `data[a..b]` around `data[pivot]`: the pivot's new index and whether
the range was already partitioned. -/
def partitionFunc (a b pivot : ℕ) : SortM σ α (ℕ × Bool) := do
  let up := fun i => less cmp i a
  let down := fun j => (! ·) <$> less cmp j a
  swap a pivot
  let last ← sub b 1
  let i ← scanUp up (a + 1) last
  let j ← scanDown down i last
  if i > j then
    swap j a
    return (j, true)
  swap i j
  let (_, j) ← partitionLoop up down (b - a) (i + 1) (← sub j 1)
  swap j a
  return (j, false)

/-- Partitions `data[a..b]` into elements equal to `data[pivot]` followed by greater ones; the start
of the greater ones. -/
def partitionEqualFunc (a b pivot : ℕ) : SortM σ α ℕ := do
  swap a pivot
  let last ← sub b 1
  let (i, _) ← partitionLoop (fun i => (! ·) <$> less cmp a i) (fun j => less cmp a j) (b - a)
    (a + 1) last
  return i

/-- `while i < b && !less(i, i - 1) { i += 1 }`. -/
def skipOrdered (i b : ℕ) : SortM σ α ℕ := do
  if i < b then
    let before ← sub i 1
    if ← less cmp i before then return i else skipOrdered (i + 1) b
  else return i
termination_by b - i

/-- Shifts the smaller one to the left. The loop is bounded by `j >= 1`, not by the range. -/
def shiftLeft : ℕ → SortM σ α Unit
  | 0 => pure ()
  | j + 1 => do
    if ← less cmp (j + 1) j then
      swap (j + 1) j
      shiftLeft j

def shiftRight (j b : ℕ) : SortM σ α Unit := do
  if j < b then
    let before ← sub j 1
    if ← less cmp j before then
      swap j before
      shiftRight (j + 1) b
termination_by b - j

def MAX_STEPS : ℕ := 5

def SHORTEST_SHIFTING : ℕ := 50

def partialSteps (a b : ℕ) : ℕ → ℕ → SortM σ α Bool
  | 0, _ => return false
  | steps + 1, i => do
    let i ← skipOrdered cmp i b
    if i = b then return true
    let length ← sub b a
    if length < SHORTEST_SHIFTING then return false
    let before ← sub i 1
    swap i before
    let left ← sub i a
    if left ≥ 2 then shiftLeft cmp before
    let right ← sub b i
    if right ≥ 2 then shiftRight cmp (i + 1) b
    partialSteps a b steps i

/-- Partially sorts `data[a..b]`; `true` if it is sorted at the end. -/
def partialInsertionSortFunc (a b : ℕ) : SortM σ α Bool := partialSteps cmp a b MAX_STEPS (a + 1)

/-- Scatters some elements around to break patterns that cause imbalanced partitions. -/
def breakPatternsFunc (a b : ℕ) : SortM σ α Unit := do
  let length ← sub b a
  if length ≥ 8 then
    let modulus := nextPowerOfTwo length
    let mid := a + length / 4 * 2
    let first ← sub mid 1
    let r1 := Xorshift.next (UInt64.ofNat length)
    let r2 := Xorshift.next r1
    let r3 := Xorshift.next r2
    [(first, r1), (mid, r2), (mid + 1, r3)].forM fun (idx, random) => do
      let other := random.toNat &&& (modulus - 1)
      swap idx (a + if other ≥ length then other - length else other)

/-- `(x, y)` with `data[x] <= data[y]`, and the number of swaps so far. -/
def order2Func (a b swaps : ℕ) : SortM σ α (ℕ × ℕ × ℕ) := do
  if ← less cmp b a then return (b, a, swaps + 1) else return (a, b, swaps)

def medianFunc (a b c swaps : ℕ) : SortM σ α (ℕ × ℕ) := do
  let (a, b, swaps) ← order2Func cmp a b swaps
  let (b, _, swaps) ← order2Func cmp b c swaps
  let (_, b, swaps) ← order2Func cmp a b swaps
  return (b, swaps)

/-- The median of `data[a - 1]`, `data[a]`, `data[a + 1]`. -/
def medianAdjacentFunc (a swaps : ℕ) : SortM σ α (ℕ × ℕ) := do
  medianFunc cmp (← sub a 1) a (a + 1) swaps

def SHORTEST_NINTHER : ℕ := 50

def MAX_SWAPS : ℕ := 4 * 3

def hintOf (swaps : ℕ) : SortedHint :=
  if swaps = 0 then .increasing else if swaps = MAX_SWAPS then .decreasing else .unknown

/-- Chooses a pivot in `data[a..b]`: static below 8 elements, median of three below 50, Tukey's
ninther above. -/
def choosePivotFunc (a b : ℕ) : SortM σ α (ℕ × SortedHint) := do
  let l ← sub b a
  let i := a + l / 4
  let j := a + l / 4 * 2
  let k := a + l / 4 * 3
  if l < 8 then return (j, hintOf 0)
  if l < SHORTEST_NINTHER then
    let (j, swaps) ← medianFunc cmp i j k 0
    return (j, hintOf swaps)
  let (i, swaps) ← medianAdjacentFunc cmp i 0
  let (j, swaps) ← medianAdjacentFunc cmp j swaps
  let (k, swaps) ← medianAdjacentFunc cmp k swaps
  let (j, swaps) ← medianFunc cmp i j k swaps
  return (j, hintOf swaps)

def reverseRange (i j : ℕ) : SortM σ α Unit := do
  if i < j then
    swap i j
    reverseRange (i + 1) (j - 1)
termination_by j - i

def reverseRangeFunc (a b : ℕ) : SortM σ α Unit := do reverseRange a (← sub b 1)

def MAX_INSERTION : ℕ := 12

/-- If the last partitioning was imbalanced, patterns are broken and the limit goes down. -/
def rebalance (a b limit : ℕ) (wasBalanced : Bool) : SortM σ α ℕ :=
  if wasBalanced then pure limit else do
    breakPatternsFunc a b
    sub limit 1

/-- The pivot; a range that looks decreasing is reversed first. -/
def orient (a b : ℕ) : SortM σ α (ℕ × SortedHint) := do
  let (pivot, hint) ← choosePivotFunc cmp a b
  if hint = .decreasing then
    reverseRangeFunc a b
    let pivot ← sub (← sub b 1) (← sub pivot a)
    return (pivot, .increasing)
  else
    return (pivot, hint)

/-- Whether the pivot equals the element before the range, which is less than no element in it. -/
def equalsPrevious (a pivot : ℕ) : SortM σ α Bool :=
  if a > 0 then (! ·) <$> less cmp (a - 1) pivot else pure false

/-- Sorts `data[a..b]`; `limit` is the number of bad pivots allowed before falling back to heapsort.
One unit of fuel is one turn of the loop, which makes the range smaller. -/
def pdqsortFunc : ℕ → ℕ → ℕ → ℕ → Bool → Bool → SortM σ α Unit
  | 0, _, _, _, _, _ => failure
  | fuel + 1, a, b, limit, wasBalanced, wasPartitioned => do
    let length ← sub b a
    if length ≤ MAX_INSERTION then
      insertionSortFunc cmp a b
    else if limit = 0 then
      heapSortFunc cmp a b
    else
      let limit ← rebalance a b limit wasBalanced
      let (pivot, hint) ← orient cmp a b
      let likely := wasBalanced && wasPartitioned && hint = .increasing
      let done ← if likely then partialInsertionSortFunc cmp a b else pure false
      if done then return
      if ← equalsPrevious cmp a pivot then
        let mid ← partitionEqualFunc cmp a b pivot
        pdqsortFunc fuel mid b limit wasBalanced wasPartitioned
      else
        let (mid, alreadyPartitioned) ← partitionFunc cmp a b pivot
        let leftLen ← sub mid a
        let rightLen ← sub b mid
        let balanceThreshold := length / 8
        if leftLen < rightLen then
          pdqsortFunc fuel a mid limit true true
          pdqsortFunc fuel (mid + 1) b limit (leftLen ≥ balanceThreshold) alreadyPartitioned
        else
          pdqsortFunc fuel (mid + 1) b limit true true
          pdqsortFunc fuel a mid limit (rightLen ≥ balanceThreshold) alreadyPartitioned

def slice (data : List α) (closure : σ) : Option (List α × σ) :=
  let s : LessSwap σ α := ⟨data, closure⟩
  (pdqsortFunc cmp (data.length + 1) 0 data.length (bitsLen data.length) true true s).map
    fun (_, s) => (s.data, s.closure)

end Algorithm

/-! Sorting what is in order already. -/

section Ordered

variable {σ α : Type} {cmp : σ → α → α → Bool × σ} {s : LessSwap σ α}

theorem bind_of_eq {β γ : Type} {m : SortM σ α β} {f : β → SortM σ α γ} {x : β} {s' : LessSwap σ α}
    (h : m s = some (x, s')) : (m >>= f) s = f x s' := by
  change (m s).bind (fun p => f p.1 p.2) = _
  rw [h]
  rfl

theorem sub_eq {x y : ℕ} (h : y ≤ x) (s : LessSwap σ α) : sub x y s = some (x - y, s) := by
  unfold sub
  rw [if_pos h]
  rfl

/-- No element of the slice is less than an earlier one, and comparing does not change the
closure. -/
def Ordered (cmp : σ → α → α → Bool × σ) (s : LessSwap σ α) : Prop :=
  ∀ i j, i ≤ j → j < s.data.length → less cmp j i s = some (false, s)

private theorem Ordered.insertDown (h : Ordered cmp s) (a : ℕ) {j : ℕ} (hj : j < s.data.length) :
    insertDown cmp a j s = some ((), s) := by
  cases j with
  | zero => rfl
  | succ j =>
    unfold Gosort.insertDown
    split_ifs
    · rw [bind_of_eq (h j (j + 1) (by omega) hj)]
      rfl
    · rfl

private theorem Ordered.insertionSortFunc (h : Ordered cmp s) (a : ℕ) {b : ℕ}
    (hb : b ≤ s.data.length) : insertionSortFunc cmp a b s = some ((), s) := by
  have hall : ∀ is : List ℕ, (∀ i ∈ is, i < s.data.length) →
      (is.forM fun i => Gosort.insertDown cmp a i) s = some ((), s) := by
    intro is his
    induction is with
    | nil => rfl
    | cons i is ih =>
      change (Gosort.insertDown cmp a i >>= fun _ => is.forM _) s = _
      rw [bind_of_eq (h.insertDown a (his i List.mem_cons_self))]
      exact ih fun k hk => his k (List.mem_cons_of_mem i hk)
  refine hall _ ?_
  intro i hi
  have := List.mem_range'_1.mp hi
  omega

private theorem Ordered.order2Func (h : Ordered cmp s) {i j : ℕ} (hij : i ≤ j)
    (hj : j < s.data.length)
    (swaps : ℕ) : order2Func cmp i j swaps s = some ((i, j, swaps), s) := by
  unfold Gosort.order2Func
  rw [bind_of_eq (h i j hij hj)]
  rfl

private theorem Ordered.medianFunc (h : Ordered cmp s) {i j k : ℕ} (hij : i ≤ j) (hjk : j ≤ k)
    (hk : k < s.data.length) (swaps : ℕ) : medianFunc cmp i j k swaps s = some ((j, swaps), s) := by
  unfold Gosort.medianFunc
  rw [bind_of_eq (h.order2Func hij (by omega) swaps)]
  dsimp only
  rw [bind_of_eq (h.order2Func hjk hk swaps)]
  dsimp only
  rw [bind_of_eq (h.order2Func hij (by omega) swaps)]
  rfl

private theorem Ordered.medianAdjacentFunc (h : Ordered cmp s) {i : ℕ} (hpos : 0 < i)
    (hi : i + 1 < s.data.length) (swaps : ℕ) :
    medianAdjacentFunc cmp i swaps s = some ((i, swaps), s) := by
  unfold Gosort.medianAdjacentFunc
  rw [bind_of_eq (sub_eq hpos s)]
  exact h.medianFunc (by omega) (by omega) hi swaps

private theorem Ordered.choosePivotFunc (h : Ordered cmp s) {a b : ℕ} (hab : a ≤ b)
    (hb : b ≤ s.data.length) :
    choosePivotFunc cmp a b s = some ((a + (b - a) / 4 * 2, .increasing), s) := by
  unfold Gosort.choosePivotFunc
  rw [bind_of_eq (sub_eq hab s)]
  dsimp only
  split_ifs with h8 h50
  · rfl
  · rw [bind_of_eq (h.medianFunc (by omega) (by omega) (by omega) 0)]
    rfl
  · unfold SHORTEST_NINTHER at h50
    rw [bind_of_eq (h.medianAdjacentFunc (by omega) (by omega) 0)]
    dsimp only
    rw [bind_of_eq (h.medianAdjacentFunc (by omega) (by omega) 0)]
    dsimp only
    rw [bind_of_eq (h.medianAdjacentFunc (by omega) (by omega) 0)]
    dsimp only
    rw [bind_of_eq (h.medianFunc (by omega) (by omega) (by omega) 0)]
    rfl

private theorem Ordered.skipOrdered (h : Ordered cmp s) {b : ℕ} (hb : b ≤ s.data.length) (n i : ℕ)
    (hi : i + n = b) (hpos : 0 < i) : skipOrdered cmp i b s = some (b, s) := by
  induction n generalizing i with
  | zero =>
    rw [Gosort.skipOrdered, if_neg (by omega), ← hi]
    rfl
  | succ n ih =>
    rw [Gosort.skipOrdered, if_pos (by omega), bind_of_eq (sub_eq hpos s),
      bind_of_eq (h (i - 1) i (by omega) (by omega))]
    exact ih (i + 1) (by omega) (by omega)

private theorem Ordered.partialInsertionSortFunc (h : Ordered cmp s) {a b : ℕ} (hab : a < b)
    (hb : b ≤ s.data.length) : partialInsertionSortFunc cmp a b s = some (true, s) := by
  unfold Gosort.partialInsertionSortFunc MAX_STEPS partialSteps
  rw [bind_of_eq (h.skipOrdered hb (b - (a + 1)) (a + 1) (by omega) (by omega)), if_pos rfl]
  rfl

private theorem Ordered.orient (h : Ordered cmp s) {a b : ℕ} (hab : a ≤ b)
    (hb : b ≤ s.data.length) : orient cmp a b s = some ((a + (b - a) / 4 * 2, .increasing), s) := by
  unfold Gosort.orient
  rw [bind_of_eq (h.choosePivotFunc hab hb)]
  rfl

theorem slice_ordered {data : List α} {closure : σ} (h : Ordered cmp ⟨data, closure⟩) :
    slice cmp data closure = some (data, closure) := by
  have hsort : pdqsortFunc cmp (data.length + 1) 0 data.length (bitsLen data.length) true true
      ⟨data, closure⟩ = some ((), ⟨data, closure⟩) := by
    rw [pdqsortFunc, bind_of_eq (sub_eq (Nat.zero_le _) _)]
    by_cases hshort : data.length - 0 ≤ MAX_INSERTION
    · rw [if_pos hshort]
      exact h.insertionSortFunc 0 (Nat.le_refl _)
    · have hlimit : bitsLen data.length ≠ 0 := by
        intro hzero
        rw [bitsLen, Nat.size_eq_zero] at hzero
        omega
      have hbal : rebalance 0 data.length (bitsLen data.length) true (⟨data, closure⟩ : LessSwap σ α) =
          some (bitsLen data.length, ⟨data, closure⟩) := rfl
      rw [if_neg hshort, if_neg hlimit]
      have hpos : 0 < data.length := by omega
      rw [bind_of_eq hbal, bind_of_eq (h.orient (Nat.zero_le _) (Nat.le_refl _))]
      change (Gosort.partialInsertionSortFunc cmp 0 data.length >>= _) _ = _
      rw [bind_of_eq (h.partialInsertionSortFunc hpos (Nat.le_refl _))]
      rfl
  unfold slice
  dsimp only
  rw [hsort]
  rfl

end Ordered

end Kcptun.Fec.Gosort
