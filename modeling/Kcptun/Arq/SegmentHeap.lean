/- Kcptun/Arq/SegmentHeap
   source: crates/kcp/src/heap.rs
   digest: The receive heap of out-of-order segments with its set of sequence numbers. -/

import Kcptun.Lib.BinaryHeap
import Kcptun.Arq.Segment
import Mathlib.Data.Finset.Basic

set_option autoImplicit false
set_option relaxedAutoImplicit false

namespace Kcptun.Arq

open Kcptun.Lib

/-- Receive-side segment heap with duplicate detection. -/
structure SegmentHeap where
  segments : Array Segment := #[]
  marks : Finset UInt32 := ∅
  deriving DecidableEq

namespace SegmentHeap

def less (a b : Segment) : Bool := itimediff b.sn a.sn > 0

def len (h : SegmentHeap) : ℕ := h.segments.size

def isEmpty (h : SegmentHeap) : Bool := h.segments.isEmpty

def push (h : SegmentHeap) (seg : Segment) : SegmentHeap where
  marks := insert seg.sn h.marks
  segments := BinaryHeap.push less h.segments seg

def pop (h : SegmentHeap) : Option (Segment × SegmentHeap) :=
  match BinaryHeap.pop less h.segments with
  | none => none
  | some (x, segments) => some (x, { segments, marks := h.marks.erase x.sn })

def peek (h : SegmentHeap) : Option Segment := h.segments[0]?

def has (h : SegmentHeap) (sn : UInt32) : Bool := sn ∈ h.marks

theorem pop_eq_some {h h' : SegmentHeap} {x : Segment} (hp : h.pop = some (x, h')) :
    BinaryHeap.pop less h.segments = some (x, h'.segments) ∧ h'.marks = h.marks.erase x.sn := by
  unfold pop at hp
  split at hp
  · cases hp
  · rename_i heq
    cases hp
    exact ⟨heq, rfl⟩

theorem pop_eq_none {h : SegmentHeap} : h.pop = none ↔ h.segments = #[] := by
  rw [← BinaryHeap.pop_eq_none less, pop]
  split <;> simp_all

theorem mem_push {h : SegmentHeap} {seg s : Segment} :
    s ∈ (h.push seg).segments ↔ s ∈ h.segments ∨ s = seg := by
  rw [push, (BinaryHeap.push_perm less h.segments seg).mem_iff, Array.mem_push]

theorem mem_of_pop {h h' : SegmentHeap} {x : Segment} (hp : h.pop = some (x, h')) (s : Segment) :
    s ∈ h.segments ↔ s ∈ h'.segments ∨ s = x := by
  rw [← (BinaryHeap.pop_perm (pop_eq_some hp).1).mem_iff, Array.mem_push]

theorem len_of_pop {h h' : SegmentHeap} {x : Segment} (hp : h.pop = some (x, h')) :
    h.len = h'.len + 1 := by
  have := (BinaryHeap.pop_perm (pop_eq_some hp).1).size_eq
  simpa [len] using this.symm

/-- The sequence numbers in the heap, in array order. -/
def sns (h : SegmentHeap) : List UInt32 := h.segments.toList.map Segment.sn

theorem mem_sns {h : SegmentHeap} {sn : UInt32} :
    sn ∈ h.sns ↔ ∃ seg ∈ h.segments, seg.sn = sn := by
  simp [sns]

theorem sns_push (h : SegmentHeap) (seg : Segment) :
    (h.push seg).sns.Perm (seg.sn :: h.sns) := by
  have hperm := (BinaryHeap.push_perm less h.segments seg).toList.map Segment.sn
  apply hperm.trans
  rw [Array.toList_push, List.map_append]
  exact List.perm_append_comm

theorem sns_of_pop {h h' : SegmentHeap} {x : Segment} (hp : h.pop = some (x, h')) :
    h.sns.Perm (x.sn :: h'.sns) := by
  have hperm := (BinaryHeap.pop_perm (pop_eq_some hp).1).toList.map Segment.sn
  apply hperm.symm.trans
  rw [Array.toList_push, List.map_append]
  exact List.perm_append_comm

end SegmentHeap

end Kcptun.Arq
