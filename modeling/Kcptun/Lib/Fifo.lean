/- Kcptun/Lib/Fifo
   digest: First-in first-out queues over a backing array that grows when full. -/

import Mathlib.Data.List.Basic

set_option autoImplicit false
set_option relaxedAutoImplicit false

namespace Kcptun.Lib

/-- The elements of a queue in order, and the length of its backing array. The array always keeps
one free slot. -/
structure Fifo (α : Type) where
  items : List α
  slots : ℕ
  deriving DecidableEq, Repr

namespace Fifo

variable {α : Type}

def minSlots : ℕ := 8
def expSlots : ℕ := 1024

def new (size : ℕ) : Fifo α := ⟨[], max size minSlots⟩

def length (q : Fifo α) : ℕ := q.items.length

def isEmpty (q : Fifo α) : Bool := q.items.isEmpty

def grow (slots : ℕ) : ℕ :=
  if slots < minSlots then minSlots
  else if slots < expSlots then slots * 2
  else slots + (slots + 9) / 10

def push (q : Fifo α) (v : α) : Fifo α :=
  ⟨q.items ++ [v], if q.items.length + 1 ≥ q.slots then grow q.slots else q.slots⟩

def pop (q : Fifo α) : Option (α × Fifo α) :=
  match q.items with
  | [] => none
  | v :: rest => some (v, { q with items := rest })

def peek (q : Fifo α) : Option α := q.items.head?

def get (q : Fifo α) (index : ℕ) : Option α := q.items[index]?

def discard (q : Fifo α) (n : ℕ) : Fifo α := { q with items := q.items.drop n }

/-- Replaces the elements in place; the array keeps its length. -/
def setItems (q : Fifo α) (items : List α) : Fifo α := { q with items := items }

def shrinkTo (q : Fifo α) (size : ℕ) : Bool × Fifo α :=
  let newSize := max (max size minSlots) (q.items.length + 1)
  if q.slots ≤ newSize then (false, q) else (true, { q with slots := newSize })

@[simp] theorem items_new (size : ℕ) : (new size : Fifo α).items = [] := rfl

@[simp] theorem items_push (q : Fifo α) (v : α) : (q.push v).items = q.items ++ [v] := rfl

@[simp] theorem items_discard (q : Fifo α) (n : ℕ) : (q.discard n).items = q.items.drop n := rfl

@[simp] theorem items_setItems (q : Fifo α) (items : List α) :
    (q.setItems items).items = items := rfl

@[simp] theorem items_shrinkTo (q : Fifo α) (size : ℕ) :
    (q.shrinkTo size).2.items = q.items := by
  simp only [shrinkTo]
  split_ifs <;> rfl

theorem pop_eq_some {q r : Fifo α} {v : α} (h : q.pop = some (v, r)) :
    q.items = v :: r.items := by
  unfold pop at h
  split at h
  · cases h
  · rename_i w rest heq
    cases h
    exact heq

end Fifo

end Kcptun.Lib
