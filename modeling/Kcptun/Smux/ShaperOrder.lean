/- Kcptun/Smux/ShaperOrder
   source: crates/smux/src/shaper.rs (ShaperHeap, ShaperQueue::push, ShaperQueue::pop)
   digest: The order in which the requests of one stream leave the write queue. -/

import Kcptun.Smux.ShaperQueue
import Mathlib.Data.List.Chain

set_option autoImplicit false
set_option relaxedAutoImplicit false

namespace Kcptun.Smux

open Kcptun.Lib

/-- The sequence numbers queued together for a stream are distinct and less than half the number
space apart. -/
def ShaperQueue.Separated {T : Type} (q : ShaperQueue T) : Prop :=
  ∀ sid, Spread ((q.pending sid).map WriteRequest.seq)

def dataOf {T : Type} (sid : UInt32) (reqs : List (WriteRequest T)) : List (WriteRequest T) :=
  reqs.filter fun req => req.sid = sid ∧ req.class_ = .data

def Increasing {T : Type} (reqs : List (WriteRequest T)) : Prop :=
  reqs.IsChain fun a b => 0 < itimediff b.seq a.seq

namespace ShaperRun

variable {T : Type} {s s' : ShaperRun T} {op : ShaperOp T} {sid : UInt32}

def Separates (s : ShaperRun T) (op : ShaperOp T) : Prop :=
  ∀ s', s.next op = some s' → s'.queue.Separated

/-- What the queue maintains while the sequence numbers are separated. -/
structure Sorted (s : ShaperRun T) : Prop where
  ok : ∃ t, s.queue.Ok t
  separated : s.queue.Separated
  ordered : ∀ sid, (s.queue.heapOf sid).Ordered

theorem sorted_new : ({} : ShaperRun T).Sorted := by
  refine ⟨⟨_, ShaperQueue.ok_new⟩, fun sid => ⟨List.nodup_nil, 0, ?_⟩, ?_⟩
  · intro n hn
    cases hn
  · intro sid j _ hj
    exact absurd hj (Nat.not_lt_zero j)

theorem Sorted.pop (h : s.Sorted) {req : WriteRequest T} {q' : ShaperQueue T}
    (hpop : s.queue.pop = some (some req, q')) :
    (s.queue.pending req.sid).Perm (req :: q'.pending req.sid) ∧
      (∀ r ∈ q'.pending req.sid, req.before r = true) ∧ (q'.heapOf req.sid).Ordered ∧
      ∀ sid, sid ≠ req.sid → q'.heapOf sid = s.queue.heapOf sid := by
  obtain ⟨⟨t, hok⟩, hsep, hord⟩ := h
  obtain ⟨passed, ahead⟩ := t
  cases ahead with
  | nil =>
    rw [hok.pop_none rfl] at hpop
    cases hpop
  | cons x rest =>
    obtain ⟨req', q1, hpop', -, hsid, htake, hothers, -⟩ := hok.pop_spec
    rw [hpop] at hpop'
    cases hpop'
    rw [hsid]
    have hin : x.2 ∈ s.queue.streams := (hok.keys x.2).mp (by simp [Turns.members])
    have hfull : (s.queue.heapOf x.2).isEmpty = false := by
      rw [Bool.eq_false_iff, ne_eq, ← ShaperQueue.requests_eq_nil]
      exact hok.pending_ne_nil.mpr hin
    obtain ⟨r, heap, hheap, hperm, hfirst⟩ := (s.queue.heapOf x.2).pop_spec hfull
    rw [htake] at hheap
    cases hheap
    obtain ⟨hkept, hbefore⟩ := hfirst (hord x.2) (hsep x.2)
    exact ⟨hperm, hbefore, hkept, hothers⟩

theorem Sorted.next (h : s.Sorted) (hsep : s.Separates op) (hnext : s.next op = some s') :
    s'.Sorted := by
  have hsep' := hsep s' hnext
  obtain ⟨⟨t, hok⟩, hold, hord⟩ := h
  cases op with
  | push req =>
    obtain ⟨q', t', hpush, hok', -, -, hheap, hothers⟩ := hok.push_spec req
    rw [ShaperRun.next, hpush] at hnext
    cases hnext
    refine ⟨⟨t', hok'⟩, hsep', ?_⟩
    intro sid
    show (q'.heapOf sid).Ordered
    by_cases hsid : sid = req.sid
    · obtain ⟨heap, hpush', -, hkept⟩ := (s.queue.heapOf req.sid).push_spec req
      rw [hheap] at hpush'
      cases hpush'
      rw [hsid]
      exact hkept (hord req.sid) (hsep' req.sid)
    · rw [hothers sid hsid]
      exact hord sid
  | pop =>
    obtain ⟨passed, ahead⟩ := t
    cases ahead with
    | nil =>
      rw [ShaperRun.next, hok.pop_none rfl] at hnext
      cases hnext
      exact ⟨⟨_, hok⟩, hsep', hord⟩
    | cons x rest =>
      obtain ⟨req, q', hpop, hok', -⟩ := hok.pop_spec
      obtain ⟨-, -, hkept, hothers⟩ := Sorted.pop ⟨⟨_, hok⟩, hold, hord⟩ hpop
      rw [ShaperRun.next, hpop] at hnext
      cases hnext
      refine ⟨⟨_, hok'⟩, hsep', ?_⟩
      intro sid
      show (q'.heapOf sid).Ordered
      by_cases hsid : sid = req.sid
      · rw [hsid]
        exact hkept
      · rw [hothers sid hsid]
        exact hord sid

/-- The data frames of a stream that were pushed: those popped, then those queued, in order. -/
def InOrder (s : ShaperRun T) (sid : UInt32) : Prop :=
  Increasing (dataOf sid s.pushed) → ∃ rest, dataOf sid s.pushed = dataOf sid s.popped ++ rest ∧
    rest.Perm (dataOf sid (s.queue.pending sid))

end ShaperRun

section DataOf

variable {T : Type} {sid : UInt32} {reqs rest : List (WriteRequest T)} {req : WriteRequest T}

private theorem dataOf_append (xs ys : List (WriteRequest T)) :
    dataOf sid (xs ++ ys) = dataOf sid xs ++ dataOf sid ys := List.filter_append xs ys

private theorem Increasing.first (h : Increasing (req :: rest))
    (hspread : Spread ((req :: rest).map WriteRequest.seq)) :
    ∀ r ∈ rest, 0 < itimediff r.seq req.seq := by
  obtain ⟨-, base, hbase⟩ := hspread
  have hclose : ∀ r ∈ req :: rest, (r.seq - base).toNat < 2147483648 := fun r hr =>
    hbase r.seq (List.mem_map_of_mem hr)
  have hchain : (req :: rest).IsChain fun a b => (a.seq - base).toNat < (b.seq - base).toNat := by
    refine List.IsChain.imp_of_mem_imp ?_ h
    intro a b ha hb hab
    rw [itimediff_eq (hclose a ha) (hclose b hb)] at hab
    omega
  have hpair := List.isChain_iff_pairwise.mp
    ((List.isChain_map fun r : WriteRequest T => (r.seq - base).toNat).mpr hchain)
  rw [List.map_cons, List.pairwise_cons] at hpair
  intro r hr
  have hlt := hpair.1 _ (List.mem_map_of_mem hr)
  rw [itimediff_eq (hclose req List.mem_cons_self) (hclose r (List.mem_cons_of_mem _ hr))]
  omega

theorem not_before {a b : WriteRequest T} (hclass : a.class_ = b.class_)
    (h : 0 < itimediff b.seq a.seq) : b.before a = false := by
  have hswap := Serial.diff_eq a.seq b.seq
  have hdiff := Serial.diff_eq b.seq a.seq
  unfold WriteRequest.before itimediff at *
  rw [if_neg (by rw [hclass]; exact not_not.mpr rfl), decide_eq_false_iff_not]
  omega

theorem Spread.perm {xs ys : List UInt32} (h : Spread xs) (hperm : xs.Perm ys) : Spread ys := by
  obtain ⟨hnodup, base, hbase⟩ := h
  exact ⟨hperm.nodup_iff.mp hnodup, base, fun n hn => hbase n (hperm.mem_iff.mpr hn)⟩

theorem Spread.sublist {xs ys : List UInt32} (h : Spread ys) (hsub : xs.Sublist ys) : Spread xs := by
  obtain ⟨hnodup, base, hbase⟩ := h
  exact ⟨hnodup.sublist hsub, base, fun n hn => hbase n (hsub.mem hn)⟩

end DataOf

namespace ShaperRun

variable {T : Type} {s s' : ShaperRun T} {op : ShaperOp T} {sid : UInt32}

private theorem InOrder.push (h : s.InOrder sid) (hsorted : s.Sorted) {req : WriteRequest T}
    (hnext : s.next (.push req) = some s') : s'.InOrder sid := by
  obtain ⟨⟨t, hok⟩, -, -⟩ := hsorted
  obtain ⟨q', t', hpush, -, -, -, hheap, hothers⟩ := hok.push_spec req
  rw [ShaperRun.next, hpush] at hnext
  cases hnext
  intro hincr
  have hpushed : dataOf sid (s.pushed ++ [req]) = dataOf sid s.pushed ++ dataOf sid [req] :=
    dataOf_append _ _
  unfold Increasing at hincr
  rw [hpushed] at hincr
  obtain ⟨rest, heq, hperm⟩ := h hincr.left_of_append
  refine ⟨rest ++ dataOf sid [req], ?_, ?_⟩
  · rw [hpushed, heq, List.append_assoc]
  · show (rest ++ dataOf sid [req]).Perm (dataOf sid (q'.pending sid))
    by_cases hsid : req.sid = sid
    · subst hsid
      obtain ⟨heap, hpush', hperm', -⟩ := (s.queue.heapOf req.sid).push_spec req
      rw [hheap] at hpush'
      cases hpush'
      refine List.Perm.trans ?_ (hperm'.symm.filter _)
      refine (hperm.append_right _).trans (List.perm_append_comm.trans ?_)
      rw [← dataOf_append]
      exact .refl _
    · have hnone : dataOf sid [req] = [] := by simp [dataOf, hsid]
      have hsame : q'.pending sid = s.queue.pending sid := by
        rw [ShaperQueue.pending, hothers sid (Ne.symm hsid), ShaperQueue.pending]
      rw [hnone, List.append_nil, hsame]
      exact hperm

private theorem InOrder.pop (h : s.InOrder sid) (hsorted : s.Sorted)
    (hnext : s.next .pop = some s') : s'.InOrder sid := by
  obtain ⟨r, hpop, rfl⟩ := Option.map_eq_some_iff.mp hnext
  intro hincr
  obtain ⟨rest, heq, hperm⟩ := h hincr
  cases hr : r.1 with
  | none =>
    obtain ⟨t, hok⟩ := hsorted.ok
    obtain ⟨passed, ahead⟩ := t
    cases ahead with
    | nil =>
      rw [hok.pop_none rfl] at hpop
      cases hpop
      refine ⟨rest, ?_, hperm⟩
      rw [heq]
      simp
    | cons x xs =>
      obtain ⟨req, q', hpop', -⟩ := hok.pop_spec
      rw [hpop'] at hpop
      cases hpop
      cases hr
  | some req =>
    obtain ⟨out, q'⟩ := r
    obtain rfl : out = some req := hr
    obtain ⟨hpending, hfirst, -, hothers⟩ := hsorted.pop hpop
    show ∃ rest, dataOf sid s.pushed = dataOf sid (s.popped ++ [req]) ++ rest ∧
      rest.Perm (dataOf sid (q'.pending sid))
    rw [dataOf_append]
    by_cases hsid : req.sid = sid
    · subst hsid
      by_cases hclass : req.class_ = .data
      · -- the first of the remaining frames comes before all others, and so does `req`
        have hone : dataOf req.sid [req] = [req] := by simp [dataOf, hclass]
        have hcons : dataOf req.sid (req :: q'.pending req.sid) =
            req :: dataOf req.sid (q'.pending req.sid) := by simp [dataOf, hclass]
        have hqueued : rest.Perm (req :: dataOf req.sid (q'.pending req.sid)) := by
          rw [← hcons]
          exact hperm.trans (hpending.filter _)
        cases rest with
        | nil => exact absurd hqueued.length_eq (by simp)
        | cons r0 rest =>
          have hspread : Spread ((r0 :: rest).map WriteRequest.seq) := by
            refine (((hsorted.separated req.sid).sublist ?_).perm (hperm.map _).symm)
            exact List.filter_sublist.map _
          have hchain : Increasing (r0 :: rest) := by
            unfold Increasing at hincr
            rw [show (dataOf req.sid s.pushed) = _ from heq] at hincr
            exact hincr.right_of_append
          have hsame : r0 = req := by
            rcases List.mem_cons.mp (hqueued.mem_iff.mp List.mem_cons_self) with hsame | hlater
            · exact hsame
            · rcases List.mem_cons.mp (hqueued.mem_iff.mpr List.mem_cons_self) with hsame | hmem
              · exact hsame.symm
              · have hbefore := hfirst r0 (List.mem_of_mem_filter hlater)
                have hdata := (List.mem_filter.mp hlater).2
                rw [decide_eq_true_eq] at hdata
                have hafter := not_before (hdata.2.trans hclass.symm)
                  (hchain.first hspread req hmem)
                rw [hbefore] at hafter
                cases hafter
          subst hsame
          exact ⟨rest, by rw [heq, hone, List.append_assoc]; rfl, hqueued.cons_inv⟩
      · have hnone : dataOf req.sid [req] = [] := by simp [dataOf, hclass]
        have hskip : dataOf req.sid (req :: q'.pending req.sid) =
            dataOf req.sid (q'.pending req.sid) := by simp [dataOf, hclass]
        refine ⟨rest, by rw [hnone, List.append_nil]; exact heq, ?_⟩
        rw [← hskip]
        exact hperm.trans (hpending.filter _)
    · have hnone : dataOf sid [req] = [] := by simp [dataOf, hsid]
      have hsame : q'.pending sid = s.queue.pending sid := by
        rw [ShaperQueue.pending, hothers sid (Ne.symm hsid), ShaperQueue.pending]
      rw [hnone, List.append_nil, hsame]
      exact ⟨rest, heq, hperm⟩

end ShaperRun

/-- In a run that keeps the sequence numbers of each stream separated, a `pop` returns the first of
the requests queued for its stream, and the data frames of a stream that are pushed with increasing
numbers are popped in that order. -/
theorem shaper_order {T : Type} (ops : List (ShaperOp T)) (s : ShaperRun T)
    (hrun : exec ShaperRun.next {} ops = some s)
    (hsep : Along ShaperRun.next ShaperRun.Separates {} ops) :
    (∀ req q', s.queue.pop = some (some req, q') →
      (s.queue.pending req.sid).Perm (req :: q'.pending req.sid) ∧
        ∀ r ∈ q'.pending req.sid, req.before r = true) ∧
      ∀ sid, Increasing (dataOf sid s.pushed) → dataOf sid s.popped <+: dataOf sid s.pushed := by
  have hinv : s.Sorted ∧ ∀ sid, s.InOrder sid := by
    refine exec_invariant (fun s : ShaperRun T => s.Sorted ∧ ∀ sid, s.InOrder sid) ?_ ?_ hsep hrun
    · intro s op s' h hop hnext
      refine ⟨h.1.next hop hnext, ?_⟩
      intro sid
      cases op with
      | push req => exact (h.2 sid).push h.1 hnext
      | pop => exact (h.2 sid).pop h.1 hnext
    · exact ⟨ShaperRun.sorted_new, fun sid _ => ⟨[], rfl, .refl _⟩⟩
  constructor
  · intro req q' hpop
    obtain ⟨hperm, hfirst, -⟩ := hinv.1.pop hpop
    exact ⟨hperm, hfirst⟩
  · intro sid hincr
    obtain ⟨rest, heq, -⟩ := hinv.2 sid hincr
    exact ⟨rest, heq.symm⟩

/-- Two data frames of stream 1 around the wrap of the sequence numbers, a frame of stream 2 and a
control frame of stream 1. -/
def wrappingFrames : List (ShaperOp Unit) :=
  [.push ⟨.data, 1, 0xffffffff, ()⟩, .push ⟨.data, 1, 0, ()⟩, .push ⟨.data, 2, 1, ()⟩,
    .push ⟨.ctrl, 1, 2, ()⟩, .pop, .pop, .pop]

/-- Separated, as seen from the number `base`. -/
def SeparatedFrom (base : UInt32) (q : ShaperQueue Unit) : Prop :=
  ∀ e ∈ q.streams.entries, (e.2.requests.map WriteRequest.seq).Nodup ∧
    ∀ req ∈ e.2.requests, (req.seq - base).toNat < 2147483648

instance (base : UInt32) (q : ShaperQueue Unit) : Decidable (SeparatedFrom base q) :=
  inferInstanceAs (Decidable (∀ e ∈ _, _))

private theorem SeparatedFrom.separated {base : UInt32} {q : ShaperQueue Unit}
    (h : SeparatedFrom base q) : q.Separated := by
  intro sid
  cases hl : q.streams.lookup sid with
  | none =>
    rw [ShaperQueue.pending, ShaperQueue.heapOf, hl]
    exact ⟨List.nodup_nil, base, fun n hn => by cases hn⟩
  | some heap =>
    obtain ⟨hnodup, hclose⟩ := h ⟨sid, heap⟩ (AList.mem_lookup_iff.mp hl)
    rw [ShaperQueue.pending, ShaperQueue.heapOf_of_lookup hl]
    refine ⟨hnodup, base, ?_⟩
    intro n hn
    obtain ⟨req, hreq, rfl⟩ := List.mem_map.mp hn
    exact hclose req hreq

theorem shaper_order_wrapping : ∃ s : ShaperRun Unit,
    exec ShaperRun.next {} wrappingFrames = some s ∧
      s.popped = [⟨.ctrl, 1, 2, ()⟩, ⟨.data, 2, 1, ()⟩, ⟨.data, 1, 0xffffffff, ()⟩] ∧
      dataOf 1 s.popped <+: dataOf 1 s.pushed := by
  obtain ⟨s, hrun, hpopped, hincr⟩ : ∃ s : ShaperRun Unit,
      exec ShaperRun.next {} wrappingFrames = some s ∧
        s.popped = [⟨.ctrl, 1, 2, ()⟩, ⟨.data, 2, 1, ()⟩, ⟨.data, 1, 0xffffffff, ()⟩] ∧
        dataOf 1 s.pushed = [⟨.data, 1, 0xffffffff, ()⟩, ⟨.data, 1, 0, ()⟩] := by
    refine ⟨_, rfl, ?_, ?_⟩ <;> decide +kernel
  have hsep : Along ShaperRun.next ShaperRun.Separates ({} : ShaperRun Unit) wrappingFrames := by
    have hcheck : Along ShaperRun.next (fun s op => ∀ s' ∈ s.next op,
        SeparatedFrom 0xffffffff s'.queue) ({} : ShaperRun Unit) wrappingFrames := by
      decide +kernel
    exact hcheck.imp fun s op h s' hnext => (h s' hnext).separated
  refine ⟨s, hrun, hpopped, (shaper_order wrappingFrames s hrun hsep).2 1 ?_⟩
  rw [hincr]
  unfold Increasing
  decide +kernel

end Kcptun.Smux
