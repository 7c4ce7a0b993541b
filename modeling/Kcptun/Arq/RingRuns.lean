/- Kcptun/Arq/RingRuns
   source: crates/kcp/src/ringbuffer.rs
   digest: Every sequence of operations on a ring buffer answers what a list answers; with the length of
     its array it is the queue that the protocol is modelled over. -/

import Kcptun.Arq.RingRefines
import Kcptun.Lib.Fifo
import Kcptun.Lib.Run

set_option autoImplicit false
set_option relaxedAutoImplicit false

namespace Kcptun.Arq

open Kcptun.Lib

variable {α : Type}

/-- The operations; a client takes elements from an iterator, and a callback may end a loop. -/
inductive RingOp (α : Type) where
  | new (size : ℕ)
  | push (v : α)
  | pop
  | discard (n : ℕ)
  | clear
  | shrinkTo (size : ℕ)
  | len
  | isEmpty
  | get (index : ℕ)
  | getMut (index : ℕ) (leave : α → α)
  | peek
  | peekMut (leave : α → α)
  | iter (client : Client α)
  | iterMut (client : Client α)
  | iterMutFrom (skip : ℕ) (client : Client α)
  | iterMutTo (n : ℕ) (client : Client α)
  | forEach (f : List α → α → Bool × α)
  | forEachReverse (f : List α → α → Bool × α)

inductive RingAnswer (α : Type) where
  | done
  | item (v : Option α)
  | count (n : ℕ)
  | flag (b : Bool)
  | seen (vs : List (Option α))
  | called (vs : List α)

namespace RingOp

def withLent (lent : Option (RingBuffer.Lent α)) (client : Client α) :
    Option (RingAnswer α × RingBuffer α) := do
  let it ← lent
  let done := drive Chain.pull client it.chain
  return (.seen done.1, it.giveBack done.2)

section Default

variable [Inhabited α]

/-- An operation on a ring. That `shrinkTo` gave something up cannot be seen in the elements. -/
def onRing (r : RingBuffer α) : RingOp α → Option (RingAnswer α × RingBuffer α)
  | .new size => some (.done, .new size)
  | .push v => (r.push v).map fun r => (.done, r)
  | .pop => r.pop.map fun p => (.item p.1, p.2)
  | .discard n => (r.discard n).map fun p => (.count p.1, p.2)
  | .clear => r.clear.map fun r => (.done, r)
  | .shrinkTo size => (r.shrinkTo size).map fun p => (.done, p.2)
  | .len => r.len.map fun n => (.count n, r)
  | .isEmpty => some (.flag r.isEmpty, r)
  | .get index => (r.get index).map fun v => (.item v, r)
  | .getMut index leave => (r.getMut index leave).map fun p => (.item p.1, p.2)
  | .peek => r.peek.map fun v => (.item v, r)
  | .peekMut leave => (r.peekMut leave).map fun p => (.item p.1, p.2)
  | .iter client => r.iter.map fun chain => (.seen (drive Chain.pull client chain).1, r)
  | .iterMut client => withLent r.iterMut client
  | .iterMutFrom skip client => withLent (r.iterMutFrom skip) client
  | .iterMutTo n client => withLent (r.iterMutTo n) client
  | .forEach f => (r.forEach f).map fun p => (.called p.1, p.2)
  | .forEachReverse f => (r.forEachReverse f).map fun p => (.called p.1, p.2)

end Default

def onList (l : List α) : RingOp α → RingAnswer α × List α
  | .new _ => (.done, [])
  | .push v => (.done, l ++ [v])
  | .pop => (.item l.head?, l.tail)
  | .discard n => (.count (min n l.length), l.drop n)
  | .clear => (.done, [])
  | .shrinkTo _ => (.done, l)
  | .len => (.count l.length, l)
  | .isEmpty => (.flag l.isEmpty, l)
  | .get index => (.item l[index]?, l)
  | .getMut index leave => (.item l[index]?, l.modify index leave)
  | .peek => (.item l.head?, l)
  | .peekMut leave => (.item l.head?, l.modifyHead leave)
  | .iter client => (.seen (drive SliceIter.pull client (.ofSlots l)).1, l)
  | .iterMut client =>
    let done := drive SliceIter.pull client (.ofSlots l)
    (.seen done.1, done.2.slots)
  | .iterMutFrom skip client =>
    let done := drive SliceIter.pull client (.ofSlots (l.drop skip))
    (.seen done.1, l.take skip ++ done.2.slots)
  | .iterMutTo n client =>
    let done := drive SliceIter.pull client (.ofSlots (l.take n))
    (.seen done.1, done.2.slots ++ l.drop n)
  | .forEach f =>
    let done := visitList f [] l
    (.called done.1, done.2)
  | .forEachReverse f =>
    let done := visitList f [] l.reverse
    (.called done.1, done.2.reverse)

end RingOp

variable [Inhabited α]

/-- A ring, until an operation panics. -/
def ringStep (s : Option (RingBuffer α)) (op : RingOp α) :
    Option (RingBuffer α) × Option (RingAnswer α) :=
  let done := s.bind fun r => op.onRing r
  (done.map Prod.snd, done.map Prod.fst)

omit [Inhabited α] in
def listStep (l : List α) (op : RingOp α) : List α × Option (RingAnswer α) :=
  ((op.onList l).2, some (op.onList l).1)

private theorem withLent_holds {size : ℕ} {it : RingBuffer.Lent α} {before lent after : List α}
    (h : Holds.Lends size it before lent after) (client : Client α) : ∃ r',
    RingOp.withLent (some it) client =
        some (.seen (drive SliceIter.pull client (.ofSlots lent)).1, r') ∧
      Holds r' (before ++ (drive SliceIter.pull client (.ofSlots lent)).2.slots ++ after) := by
  obtain ⟨hseen, hholds, -⟩ := h.drive client
  unfold RingOp.withLent
  rw [← hseen]
  exact ⟨_, rfl, hholds⟩

/-- Every operation on a ring that holds a list is answered, as the list answers it, and leaves what
it leaves of the list. -/
theorem Holds.onRing {r : RingBuffer α} {l : List α} (h : Holds r l) (op : RingOp α) : ∃ r',
    op.onRing r = some ((op.onList l).1, r') ∧ Holds r' (op.onList l).2 := by
  cases op with
  | new size => exact ⟨_, rfl, new_holds size⟩
  | push v =>
    obtain ⟨r', hr', hholds, -⟩ := h.push_holds v
    exact ⟨r', by rw [RingOp.onRing, hr']; rfl, hholds⟩
  | pop =>
    obtain ⟨r', hr', hholds, -⟩ := h.pop_holds
    exact ⟨r', by rw [RingOp.onRing, hr']; rfl, hholds⟩
  | discard n =>
    obtain ⟨r', hr', hholds, -⟩ := h.discard_holds n
    exact ⟨r', by rw [RingOp.onRing, hr']; rfl, hholds⟩
  | clear =>
    obtain ⟨r', hr', hholds, -⟩ := h.clear_holds
    exact ⟨r', by rw [RingOp.onRing, hr']; rfl, hholds⟩
  | shrinkTo size =>
    obtain ⟨r', hr', hholds, -⟩ := h.shrinkTo_holds size
    exact ⟨r', by rw [RingOp.onRing, hr']; rfl, hholds⟩
  | len => exact ⟨r, by rw [RingOp.onRing, h.len_eq]; rfl, h⟩
  | isEmpty => exact ⟨r, by rw [RingOp.onRing, h.isEmpty_eq]; rfl, h⟩
  | get index => exact ⟨r, by rw [RingOp.onRing, h.get_eq]; rfl, h⟩
  | getMut index leave =>
    obtain ⟨r', hr', hholds, -⟩ := h.getMut_holds index leave
    exact ⟨r', by rw [RingOp.onRing, hr']; rfl, hholds⟩
  | peek => exact ⟨r, by rw [RingOp.onRing, h.peek_eq]; rfl, h⟩
  | peekMut leave =>
    obtain ⟨r', hr', hholds, -⟩ := h.peekMut_holds leave
    exact ⟨r', by rw [RingOp.onRing, hr']; rfl, hholds⟩
  | iter client =>
    obtain ⟨chain, hchain, hseen⟩ := h.iter_drive client
    refine ⟨r, ?_, h⟩
    rw [RingOp.onRing, hchain, Option.map_some, hseen]
    rfl
  | iterMut client =>
    obtain ⟨it, hit, hlends⟩ := h.iterMut_lends
    obtain ⟨r', hr', hholds⟩ := withLent_holds hlends client
    rw [List.nil_append, List.append_nil] at hholds
    exact ⟨r', by rw [RingOp.onRing, hit, hr']; rfl, hholds⟩
  | iterMutFrom skip client =>
    obtain ⟨it, hit, hlends⟩ := h.iterMutFrom_lends skip
    obtain ⟨r', hr', hholds⟩ := withLent_holds hlends client
    rw [List.append_nil] at hholds
    exact ⟨r', by rw [RingOp.onRing, hit, hr']; rfl, hholds⟩
  | iterMutTo n client =>
    obtain ⟨it, hit, hlends⟩ := h.iterMutTo_lends n
    obtain ⟨r', hr', hholds⟩ := withLent_holds hlends client
    rw [List.nil_append] at hholds
    exact ⟨r', by rw [RingOp.onRing, hit, hr']; rfl, hholds⟩
  | forEach f =>
    obtain ⟨r', hr', hholds, -⟩ := h.forEach_holds f
    exact ⟨r', by rw [RingOp.onRing, hr']; rfl, hholds⟩
  | forEachReverse f =>
    obtain ⟨r', hr', hholds, -⟩ := h.forEachReverse_holds f
    exact ⟨r', by rw [RingOp.onRing, hr']; rfl, hholds⟩

/-- A ring that has not panicked, and the list that it is. -/
def IsList (s : Option (RingBuffer α)) (l : List α) : Prop := ∃ r, s = some r ∧ Holds r l

private theorem IsList.step {s : Option (RingBuffer α)} {l : List α} (h : IsList s l)
    (op : RingOp α) :
    (ringStep s op).2 = (listStep l op).2 ∧ IsList (ringStep s op).1 (listStep l op).1 := by
  obtain ⟨r, rfl, hholds⟩ := h
  obtain ⟨r', hr', hholds'⟩ := hholds.onRing op
  unfold ringStep
  rw [Option.bind_some, hr']
  exact ⟨rfl, r', rfl, hholds'⟩

/-- Every sequence of operations on a ring buffer: none of them panics, all are answered as by the
list that starts empty, and at the end the ring holds that list in order, keeps a free slot, and has
the default in every slot outside the window. -/
theorem ring_refines_list (size : ℕ) (ops : List (RingOp α)) :
    (run ringStep (some (RingBuffer.new size)) ops).2 = (run listStep [] ops).2 ∧
      ∃ r : RingBuffer α, (run ringStep (some (RingBuffer.new size)) ops).1 = some r ∧
        (∃ a b, r.asSlices = some (a, b) ∧ a ++ b = (run listStep [] ops).1) ∧
        (run listStep [] ops).1.length < r.elements.length ∧
        ∀ i, i < r.elements.length → ¬r.InWindow i → r.elements[i]? = some default := by
  have hnew : IsList (some (RingBuffer.new size)) ([] : List α) := ⟨_, rfl, Holds.new_holds size⟩
  refine ⟨run_simulation IsList (fun _ => True) (fun s l op _ h => h.step op) (fun _ _ => trivial)
    hnew, ?_⟩
  obtain ⟨r, hr, hholds⟩ := run_related IsList (fun s l op h => (h.step op).2) ops hnew
  obtain ⟨a, b, hslices, hl, -⟩ := hholds.slices
  exact ⟨r, hr, ⟨a, b, hslices, hl.symm⟩, hholds.lt_size, fun i hi hout => hholds.vacant hi hout⟩

/-! The ring as the queue of the protocol: its list, and the length of its array. -/

structure IsFifo (r : RingBuffer α) (q : Fifo α) : Prop where
  holds : Holds r q.items
  slots : r.elements.length = q.slots

namespace IsFifo

variable {r : RingBuffer α} {q : Fifo α}

private theorem new (size : ℕ) : IsFifo (.new size : RingBuffer α) (.new size) :=
  ⟨Holds.new_holds size, List.length_replicate⟩

private theorem push (h : IsFifo r q) (v : α) :
    ∃ r', r.push v = some r' ∧ IsFifo r' (q.push v) := by
  obtain ⟨r', hr', hholds, hlength⟩ := h.holds.push_holds v
  have hlt := h.holds.lt_size
  refine ⟨r', hr', hholds, ?_⟩
  rw [hlength]
  unfold Fifo.push
  rw [h.slots] at hlt ⊢
  dsimp only
  by_cases hfull : q.items.length + 1 = q.slots
  · rw [if_pos hfull, if_pos (by omega)]
    rfl
  · rw [if_neg hfull, if_neg (by omega)]

private theorem discard (h : IsFifo r q) (n : ℕ) : ∃ r',
    r.discard n = some (min n q.items.length, r') ∧ IsFifo r' (q.discard n) := by
  obtain ⟨r', hr', hholds, hlength⟩ := h.holds.discard_holds n
  exact ⟨r', hr', hholds, hlength.trans h.slots⟩

private theorem shrinkTo (h : IsFifo r q) (size : ℕ) : ∃ r',
    r.shrinkTo size = some ((q.shrinkTo size).1, r') ∧ IsFifo r' (q.shrinkTo size).2 := by
  obtain ⟨r', hr', hholds, hlength⟩ := h.holds.shrinkTo_holds size
  have hnew : max (max size RINGBUFFER_MIN) (q.items.length + 1) =
      max (max size Fifo.minSlots) (q.items.length + 1) := rfl
  rw [h.slots, hnew] at hlength
  rw [hr', hlength, h.slots]
  by_cases hsmall : q.slots ≤ max (max size Fifo.minSlots) (q.items.length + 1)
  · rw [Fifo.shrinkTo, if_pos hsmall, Nat.min_eq_left hsmall, decide_eq_false (Nat.lt_irrefl _)]
    exact ⟨r', rfl, hholds, hlength.trans (Nat.min_eq_left hsmall)⟩
  · have hmin := Nat.min_eq_right (Nat.le_of_not_le hsmall)
    rw [Fifo.shrinkTo, if_neg hsmall, hmin, decide_eq_true (Nat.lt_of_not_le hsmall)]
    exact ⟨r', rfl, hholds, hlength.trans hmin⟩

private theorem pop (h : IsFifo r q) : ∃ r', r.pop = some (q.pop.map Prod.fst, r') ∧
    IsFifo r' (q.pop.elim q Prod.snd) := by
  obtain ⟨r', hr', hholds, hlength⟩ := h.holds.pop_holds
  obtain ⟨items, slots⟩ := q
  cases items with
  | nil => exact ⟨r', hr', hholds, hlength.trans h.slots⟩
  | cons x items => exact ⟨r', hr', hholds, hlength.trans h.slots⟩

private theorem peek (h : IsFifo r q) : r.peek = some q.peek := h.holds.peek_eq

private theorem get (h : IsFifo r q) (index : ℕ) : r.get index = some (q.get index) :=
  h.holds.get_eq index

end IsFifo

end Kcptun.Arq
