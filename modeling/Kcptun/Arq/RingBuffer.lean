/- Kcptun/Arq/RingBuffer
   source: crates/kcp/src/ringbuffer.rs
   digest: The growable ring buffer over its backing array: what each operation does to the window of
     a list that lies straight or wrapped in the array, with default values outside it. -/

import Kcptun.Lib.TwoEnded
import Mathlib.Data.List.Basic

set_option autoImplicit false
set_option relaxedAutoImplicit false

namespace Kcptun.Arq

open Kcptun.Lib

def RINGBUFFER_MIN : ℕ := 8
def RINGBUFFER_EXP : ℕ := 1024

/-- `head` is the slot of the next element to be popped, `tail` the slot to push into. -/
structure RingBuffer (α : Type) where
  head : ℕ
  tail : ℕ
  elements : List α

variable {α : Type}

/-- `l[a..b]`; `none` stands for a panic here and below. -/
def sliceOf (l : List α) (a b : ℕ) : Option (List α) :=
  if a ≤ b ∧ b ≤ l.length then some ((l.take b).drop a) else none

def checkedSub (a b : ℕ) : Option ℕ := if b ≤ a then some (a - b) else none

section Fill

variable [Inhabited α]

/-- `l[a..b].fill_with(T::default)`. -/
def fillRange (l : List α) (a b : ℕ) : Option (List α) :=
  if a ≤ b ∧ b ≤ l.length then some (l.take a ++ List.replicate (b - a) default ++ l.drop b) else none

/-- `resize_with(n, T::default)`. -/
def resizeWith (l : List α) (n : ℕ) : List α := l.take n ++ List.replicate (n - l.length) default

end Fill

namespace RingBuffer

def growTo (size : ℕ) : ℕ :=
  if size < RINGBUFFER_MIN then RINGBUFFER_MIN
  else if size < RINGBUFFER_EXP then size * 2
  else size + (size + 9) / 10

variable (r : RingBuffer α)

def succ (i : ℕ) : Option ℕ :=
  if r.elements.length = 0 then none else some ((i + 1) % r.elements.length)

variable {r} in
theorem succ_of_lt {i : ℕ} (hi : i + 1 < r.elements.length) : r.succ i = some (i + 1) := by
  unfold succ
  rw [if_neg (by omega), Nat.mod_eq_of_lt hi]

variable {r} in
theorem succ_last {i : ℕ} (hi : i + 1 = r.elements.length) : r.succ i = some 0 := by
  unfold succ
  rw [if_neg (by omega), hi, Nat.mod_self]

def len : Option ℕ :=
  if r.head ≤ r.tail then some (r.tail - r.head)
  else (checkedSub r.elements.length r.head).map (· + r.tail)

def isEmpty : Bool := r.head == r.tail

def isFull : Option Bool := (r.succ r.tail).map (· == r.head)

def InWindow (i : ℕ) : Prop :=
  if r.head ≤ r.tail then r.head ≤ i ∧ i < r.tail else r.head ≤ i ∨ i < r.tail

/-- The elements as two slices of the array, head to tail. -/
def asSlices : Option (List α × List α) :=
  if r.head ≤ r.tail then (sliceOf r.elements r.head r.tail).map fun a => (a, [])
  else if r.head ≤ r.elements.length then
    (sliceOf (r.elements.take r.head) 0 r.tail).map fun b => (r.elements.drop r.head, b)
  else none

def putSlices (a b : List α) : RingBuffer α :=
  if r.head ≤ r.tail then
    { r with elements := r.elements.take r.head ++ a ++ r.elements.drop r.tail }
  else { r with elements := b ++ (r.elements.take r.head).drop r.tail ++ a }

def slotAt (index : ℕ) : ℕ :=
  if r.head + index ≥ r.elements.length then r.head + index - r.elements.length
  else r.head + index

def get (index : ℕ) : Option (Option α) := do
  let n ← r.len
  if index ≥ n then return none
  let v ← r.elements[r.slotAt index]?
  return some v

/-- `get_mut`, and what the caller leaves there. -/
def getMut (index : ℕ) (leave : α → α) : Option (Option α × RingBuffer α) := do
  let n ← r.len
  if index ≥ n then return (none, r)
  let v ← r.elements[r.slotAt index]?
  return (some v, { r with elements := r.elements.set (r.slotAt index) (leave v) })

def peek : Option (Option α) :=
  if r.isEmpty then some none else r.elements[r.head]?.map some

def peekMut (leave : α → α) : Option (Option α × RingBuffer α) :=
  if r.isEmpty then some (none, r)
  else r.elements[r.head]?.map fun v =>
    (some v, { r with elements := r.elements.set r.head (leave v) })

def iter : Option (Chain α) := r.asSlices.map fun s => .ofSlots s.1 s.2

/-- What is lent of the two slices, and the ring when it is given back. -/
structure Lent (α : Type) where
  chain : Chain α
  giveBack : Chain α → RingBuffer α

def iterMut : Option (Lent α) := do
  let s ← r.asSlices
  return { chain := .ofSlots s.1 s.2, giveBack := fun c => r.putSlices c.a.slots c.b.slots }

def iterMutFrom (skip : ℕ) : Option (Lent α) := do
  let s ← r.asSlices
  if skip ≤ s.1.length then
    return { chain := .ofSlots (s.1.drop skip) s.2
             giveBack := fun c => r.putSlices (s.1.take skip ++ c.a.slots) c.b.slots }
  let n := min (skip - s.1.length) s.2.length
  return { chain := .ofSlots (s.1.take 0) (s.2.drop n)
           giveBack := fun c => r.putSlices (c.a.slots ++ s.1.drop 0) (s.2.take n ++ c.b.slots) }

def iterMutTo (n : ℕ) : Option (Lent α) := do
  let n := min n (← r.len)
  let s ← r.asSlices
  if n ≤ s.1.length then
    return { chain := .ofSlots (s.1.take n) (s.2.take 0)
             giveBack := fun c => r.putSlices (c.a.slots ++ s.1.drop n) (c.b.slots ++ s.2.drop 0) }
  let k := n - s.1.length
  if k ≤ s.2.length then
    return { chain := .ofSlots s.1 (s.2.take k)
             giveBack := fun c => r.putSlices c.a.slots (c.b.slots ++ s.2.drop k) }
  none

/-- A loop over all elements from one side, to the first `false` of the callback. -/
def forEachFrom (side : Side) (f : List α → α → Bool × α) : Option (List α × RingBuffer α) := do
  let it ← r.iterMut
  let done := visit Chain.pull side f r.elements.length [] it.chain
  return (done.1, it.giveBack done.2)

def forEach (f : List α → α → Bool × α) : Option (List α × RingBuffer α) := r.forEachFrom .front f

def forEachReverse (f : List α → α → Bool × α) : Option (List α × RingBuffer α) :=
  r.forEachFrom .back f

section Default

variable [Inhabited α]

def new (size : ℕ) : RingBuffer α :=
  ⟨0, 0, List.replicate (max size RINGBUFFER_MIN) default⟩

def moveTo (size : ℕ) : Option (RingBuffer α) := do
  let n ← r.len
  let s ← r.asSlices
  return ⟨0, n, resizeWith (s.1 ++ s.2) size⟩

def grow : Option (RingBuffer α) := r.moveTo (growTo r.elements.length)

def push (v : α) : Option (RingBuffer α) := do
  let r ← if ← r.isFull then r.grow else pure r
  if r.tail < r.elements.length then
    let tail ← r.succ r.tail
    return { r with elements := r.elements.set r.tail v, tail := tail }
  none

def pop : Option (Option α × RingBuffer α) := do
  if r.isEmpty then return (none, r)
  let v ← r.elements[r.head]?
  let head ← r.succ r.head
  return (some v, { r with elements := r.elements.set r.head default, head := head })

def clear : Option (RingBuffer α) :=
  if r.head ≤ r.tail then (fillRange r.elements r.head r.tail).map fun l => ⟨0, 0, l⟩
  else do
    let l ← fillRange r.elements r.head r.elements.length
    let l ← fillRange l 0 r.tail
    return ⟨0, 0, l⟩

/-- Drops up to `n` elements at the head, and says how many. -/
def discard (n : ℕ) : Option (ℕ × RingBuffer α) := do
  let currentLen ← r.len
  let n := min n currentLen
  if n = currentLen then return (n, ← r.clear)
  let cap := r.elements.length
  let stop := r.head + n
  if stop < cap then
    let l ← fillRange r.elements r.head stop
    return (n, { r with head := stop, elements := l })
  else
    let rest ← checkedSub stop cap
    let l ← fillRange r.elements r.head cap
    let l ← fillRange l 0 rest
    return (n, { r with head := rest, elements := l })

/-- Shrinks the array to `size` slots where that leaves room, and says whether anything was given
up. -/
def shrinkTo (size : ℕ) : Option (Bool × RingBuffer α) := do
  let n ← r.len
  let newSize := max (max size RINGBUFFER_MIN) (n + 1)
  if r.elements.length ≤ newSize then return (false, r)
  return (true, ← r.moveTo newSize)

end Default

end RingBuffer

end Kcptun.Arq
