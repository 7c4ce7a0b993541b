/- Kcptun/Smux/ShaperQueue
   source: crates/smux/src/shaper.rs (ShaperQueue)
   digest: The write queue of a session: a heap for each stream id and the round-robin list of the
     ids. Nothing in it can fail, and what was pushed is popped or still queued. -/

import Kcptun.Lib.RoundRobin
import Kcptun.Lib.Interleaving
import Kcptun.Smux.RrList
import Kcptun.Smux.ShaperHeap
import Mathlib.Data.List.AList

set_option autoImplicit false
set_option relaxedAutoImplicit false

namespace Kcptun.Smux

open Kcptun.Lib

/-- The queue; `next` is the element to start the next `pop` from. -/
structure ShaperQueue (T : Type) where
  count : ℕ := 0
  streams : AList (fun _ : UInt32 => ShaperHeap T) := ∅
  rrList : RrList := {}
  next : Option ℕ := none

namespace ShaperQueue

variable {T : Type}

/-- Queues `req` in its stream's heap; a stream without one joins the round-robin list. -/
def push (q : ShaperQueue T) (req : WriteRequest T) : Option (ShaperQueue T) :=
  match q.streams.lookup req.sid with
  | some heap => do
    let heap ← heap.push req
    return { q with streams := q.streams.insert req.sid heap, count := q.count + 1 }
  | none => do
    let r ← q.rrList.pushBack req.sid
    let heap ← ShaperHeap.push {} req
    return {
      count := q.count + 1
      streams := q.streams.insert req.sid heap
      rrList := r.1
      next := q.next.or (some r.2) }

/-- The element after `current`, the front after the back. -/
def follow (q : ShaperQueue T) (current : ℕ) : Option (Option ℕ) :=
  (q.rrList.next current).map fun next => next.or q.rrList.front

/-- The first request of a stream that has one, and the heap without it. -/
def take (q : ShaperQueue T) (sid : UInt32) : Option (Option (WriteRequest T × ShaperHeap T)) :=
  match q.streams.lookup sid with
  | some heap => if heap.isEmpty then some none else heap.pop
  | none => some none

/-- A request of the stream at `current` is served, the heap `heap` is left. -/
def serve (q : ShaperQueue T) (current : ℕ) (sid : UInt32) (heap : ShaperHeap T) :
    Option (ShaperQueue T) := do
  let next ← q.follow current
  if heap.isEmpty then do
    let rrList ← q.rrList.remove current
    return {
      count := q.count - 1
      streams := q.streams.erase sid
      rrList := rrList
      next := if rrList.len = 0 then none else next }
  else
    return { q with count := q.count - 1, streams := q.streams.insert sid heap, next := next }

/-- The loop through the streams, from `current` until it is back at `start`. -/
def scan (q : ShaperQueue T) (start : ℕ) : ℕ → ℕ → Option (Option (WriteRequest T) × ShaperQueue T)
  | 0, _ => none
  | fuel + 1, current => do
    let sid ← q.rrList.sid current
    match ← q.take sid with
    | some popped => (q.serve current sid popped.2).map fun q' => (some popped.1, q')
    | none =>
      match ← q.follow current with
      | none => return (none, q)
      | some id => if id = start then return (none, q) else q.scan start fuel id

def pop (q : ShaperQueue T) : Option (Option (WriteRequest T) × ShaperQueue T) :=
  match q.next with
  | none => some (none, q)
  | some start => if q.count = 0 then some (none, q) else q.scan start (q.rrList.len + 1) start

def len (q : ShaperQueue T) : ℕ := q.count

/-- The heap of a stream, an empty one if there is none. -/
def heapOf (q : ShaperQueue T) (sid : UInt32) : ShaperHeap T := (q.streams.lookup sid).getD {}

def pending (q : ShaperQueue T) (sid : UInt32) : List (WriteRequest T) := (q.heapOf sid).requests

def queued (q : ShaperQueue T) : List (WriteRequest T) :=
  q.streams.entries.flatMap fun e => e.2.requests

/-- The queue with its round-robin list and the cursor in it. -/
structure Ok (q : ShaperQueue T) (t : Turns (ℕ × UInt32)) : Prop where
  list : q.rrList.Holds t.members
  cursor : q.next = headId t.ahead none
  wrapped : t.ahead = [] → t.passed = []
  sids : (t.members.map Prod.snd).Nodup
  keys : ∀ sid, sid ∈ t.members.map Prod.snd ↔ sid ∈ q.streams
  filled : ∀ sid h, q.streams.lookup sid = some h → h.isEmpty = false
  owned : ∀ sid, ∀ r ∈ q.pending sid, r.sid = sid
  count : q.count = q.queued.length

variable {q q' : ShaperQueue T} {t : Turns (ℕ × UInt32)} {sid : UInt32}

theorem ok_new : ({} : ShaperQueue T).Ok ⟨[], []⟩ :=
  ⟨RrList.holds_new, rfl, fun _ => rfl, List.nodup_nil, by simp [Turns.members],
    (fun sid h hl => by cases hl), (fun sid r hr => by cases hr), rfl⟩

theorem requests_eq_nil {h : ShaperHeap T} : h.requests = [] ↔ h.isEmpty = true := by
  rw [ShaperHeap.requests, ShaperHeap.isEmpty, Array.isEmpty_iff, Array.toList_eq_nil_iff]

theorem heapOf_of_lookup {h : ShaperHeap T} (hl : q.streams.lookup sid = some h) :
    q.heapOf sid = h := by
  rw [heapOf, hl, Option.getD_some]

theorem Ok.pending_ne_nil (h : q.Ok t) : q.pending sid ≠ [] ↔ sid ∈ q.streams := by
  unfold pending
  cases hl : q.streams.lookup sid with
  | none =>
    rw [← AList.lookup_isSome, hl, heapOf, hl]
    simp [ShaperHeap.requests]
  | some heap =>
    rw [← AList.lookup_isSome, hl, heapOf_of_lookup hl, ne_eq, requests_eq_nil, h.filled sid heap hl]
    simp

private theorem entries_perm {s : AList (fun _ : UInt32 => ShaperHeap T)} {h : ShaperHeap T}
    (hl : s.lookup sid = some h) : s.entries.Perm (⟨sid, h⟩ :: (s.erase sid).entries) := by
  have hmem : sid ∈ s.entries.keys := AList.mem_keys.mp (AList.lookup_isSome.mp (by rw [hl]; rfl))
  obtain ⟨h', l1, l2, -, heq, herase⟩ := List.exists_of_kerase hmem
  have hsome : (⟨sid, h'⟩ : Sigma fun _ : UInt32 => ShaperHeap T) ∈ s.entries := by
    rw [heq]
    simp
  have hl' : s.lookup sid = some h' := AList.mem_lookup_iff.mpr hsome
  rw [hl] at hl'
  cases hl'
  have herase' : (s.erase sid).entries = l1 ++ l2 := herase
  rw [herase', heq]
  exact List.perm_middle

theorem queued_perm (q : ShaperQueue T) (sid : UInt32) :
    q.queued.Perm (q.pending sid ++ (q.streams.erase sid).entries.flatMap fun e => e.2.requests) := by
  cases hl : q.streams.lookup sid with
  | none =>
    have hnot : sid ∉ q.streams := by
      rw [← AList.lookup_isSome, hl]
      exact Bool.false_ne_true
    have herase : (q.streams.erase sid).entries = q.streams.entries :=
      List.kerase_of_notMem_keys fun hmem => hnot (AList.mem_keys.mpr hmem)
    rw [herase, pending, heapOf, hl]
    rfl
  | some heap =>
    rw [pending, heapOf_of_lookup hl]
    exact (entries_perm hl).flatMap_right _

private theorem queued_insert {h : ShaperHeap T} (hs : q'.streams = q.streams.insert sid h) :
    q'.queued = h.requests ++ (q.streams.erase sid).entries.flatMap fun e => e.2.requests := by
  rw [queued, hs]
  rfl

private theorem queued_erase (hs : q'.streams = q.streams.erase sid) :
    q'.queued = (q.streams.erase sid).entries.flatMap fun e => e.2.requests := by
  rw [queued, hs]

private theorem heapOf_insert {h : ShaperHeap T} (hs : q'.streams = q.streams.insert sid h)
    (k : UInt32) : q'.heapOf k = if k = sid then h else q.heapOf k := by
  unfold heapOf
  rw [hs]
  split_ifs with hk
  · rw [hk, AList.lookup_insert, Option.getD_some]
  · rw [AList.lookup_insert_ne hk]

private theorem heapOf_erase (hs : q'.streams = q.streams.erase sid) (k : UInt32) :
    q'.heapOf k = if k = sid then {} else q.heapOf k := by
  unfold heapOf
  rw [hs]
  split_ifs with hk
  · rw [hk, AList.lookup_erase, Option.getD_none]
  · rw [AList.lookup_erase_ne hk]

private theorem Ok.filled_insert (h : q.Ok t) {heap h' : ShaperHeap T}
    (hs : q'.streams = q.streams.insert sid heap) (hfull : heap.isEmpty = false) {k : UInt32}
    (hl : q'.streams.lookup k = some h') : h'.isEmpty = false := by
  rw [hs] at hl
  by_cases hk : k = sid
  · rw [hk, AList.lookup_insert] at hl
    cases hl
    exact hfull
  · rw [AList.lookup_insert_ne hk] at hl
    exact h.filled k h' hl

private theorem Ok.count_pred (h : q.Ok t) {req : WriteRequest T}
    (hqueued : q.queued.Perm (req :: q'.queued)) (hcount : q'.count = q.count - 1) :
    q'.count = q'.queued.length := by
  have hlen := hqueued.length_eq
  rw [List.length_cons, ← h.count] at hlen
  omega

theorem Ok.push_spec (h : q.Ok t) (req : WriteRequest T) : ∃ q' t', q.push req = some q' ∧ q'.Ok t' ∧
    (t' = t ∨ (req.sid ∉ q.streams ∧ ∃ id, t' = t.join (id, req.sid))) ∧
    q'.queued.Perm (req :: q.queued) ∧ (q.heapOf req.sid).push req = some (q'.heapOf req.sid) ∧
    ∀ sid, sid ≠ req.sid → q'.heapOf sid = q.heapOf sid := by
  obtain ⟨heap, hpush, hperm, -⟩ := (q.heapOf req.sid).push_spec req
  have hmem : req ∈ heap.requests := hperm.mem_iff.mpr List.mem_cons_self
  have hfull : heap.isEmpty = false := by
    rw [Bool.eq_false_iff, ne_eq, ← requests_eq_nil]
    exact List.ne_nil_of_mem hmem
  -- what holds of the streams in both cases
  have hstreams (q' : ShaperQueue T) (hs : q'.streams = q.streams.insert req.sid heap) :
      (∀ sid h', q'.streams.lookup sid = some h' → h'.isEmpty = false) ∧
      (∀ sid, ∀ r ∈ q'.pending sid, r.sid = sid) ∧ q'.queued.Perm (req :: q.queued) ∧
      (q.heapOf req.sid).push req = some (q'.heapOf req.sid) ∧
      ∀ sid, sid ≠ req.sid → q'.heapOf sid = q.heapOf sid := by
    have hheap := heapOf_insert hs
    refine ⟨?_, ?_, ?_, ?_, ?_⟩
    · intro sid h' hl
      exact h.filled_insert hs hfull hl
    · intro sid r hr
      unfold pending at hr
      rw [hheap] at hr
      split_ifs at hr with hsid
      · rcases List.mem_cons.mp (hperm.mem_iff.mp hr) with rfl | hr
        · exact hsid.symm
        · exact (h.owned _ r hr).trans hsid.symm
      · exact h.owned sid r hr
    · rw [queued_insert hs]
      refine (hperm.append_right _).trans ?_
      exact List.Perm.cons req (queued_perm q req.sid).symm
    · rw [hheap, if_pos rfl, hpush]
    · intro sid hne
      rw [hheap, if_neg hne]
  cases hl : q.streams.lookup req.sid with
  | some old =>
    have hin : req.sid ∈ q.streams := AList.lookup_isSome.mp (by rw [hl]; rfl)
    rw [heapOf_of_lookup hl] at hpush
    obtain ⟨hfilled, howned, hqueued, hheaps⟩ := hstreams
      { q with streams := q.streams.insert req.sid heap, count := q.count + 1 } rfl
    refine ⟨_, t, ?_, ?_, .inl rfl, hqueued, hheaps⟩
    · unfold ShaperQueue.push
      rw [hl]
      dsimp only
      rw [hpush]
      rfl
    · refine ⟨h.list, h.cursor, h.wrapped, h.sids, ?_, hfilled, howned, ?_⟩
      · intro sid
        rw [h.keys, AList.mem_insert]
        exact ⟨.inr, fun hor => hor.elim (fun heq => heq ▸ hin) id⟩
      · rw [hqueued.length_eq, List.length_cons, ← h.count]
  | none =>
    have hout : req.sid ∉ q.streams := by
      rw [← AList.lookup_isSome, hl]
      exact Bool.false_ne_true
    have hnew : q.heapOf req.sid = {} := by rw [heapOf, hl, Option.getD_none]
    rw [hnew] at hpush
    obtain ⟨rrList, id, hback, hholds⟩ := h.list.pushBack_spec req.sid
    obtain ⟨hfilled, howned, hqueued, hheaps⟩ := hstreams
      { count := q.count + 1, streams := q.streams.insert req.sid heap, rrList := rrList,
        next := q.next.or (some id) } rfl
    refine ⟨_, t.join (id, req.sid), ?_, ?_, .inr ⟨hout, id, rfl⟩, hqueued, hheaps⟩
    · unfold ShaperQueue.push
      rw [hl]
      dsimp only
      rw [hback, Option.bind_eq_bind, Option.bind_some, hpush]
      rfl
    · have hmembers : (t.join (id, req.sid)).members = t.members ++ [(id, req.sid)] :=
        (List.append_assoc ..).symm
      refine ⟨hmembers ▸ hholds, ?_, ?_, ?_, ?_, hfilled, howned, ?_⟩
      · show q.next.or (some id) = _
        rw [h.cursor]
        obtain ⟨passed, ahead⟩ := t
        cases ahead <;> rfl
      · intro hempty
        exact absurd hempty (by simp [Turns.join])
      · rw [hmembers, List.map_append, List.nodup_append]
        refine ⟨h.sids, List.nodup_singleton _, ?_⟩
        intro a ha b hb
        rw [List.mem_singleton.mp hb]
        rintro rfl
        exact hout ((h.keys _).mp ha)
      · intro sid
        rw [hmembers, List.map_append, List.mem_append, h.keys, AList.mem_insert, or_comm]
        simp
      · rw [hqueued.length_eq, List.length_cons, ← h.count]

theorem Ok.pop_none (h : q.Ok t) (hempty : t.ahead = []) : q.pop = some (none, q) := by
  have hnext : q.next = none := by rw [h.cursor, hempty, headId_nil]
  rw [pop, hnext]

variable {passed rest : List (ℕ × UInt32)} {x : ℕ × UInt32}

private theorem Ok.follow_eq (h : q.Ok ⟨passed, x :: rest⟩) :
    q.follow x.1 = some ((headId rest none).or (headId (passed ++ [x]) none)) := by
  rw [follow, RrList.Holds.next_eq h.list, h.list.front, Option.map_some]
  congr 2
  cases passed <;> rfl

private theorem Ok.take_eq (h : q.Ok ⟨passed, x :: rest⟩) : ∃ req heap,
    q.take x.2 = some (some (req, heap)) ∧ (q.heapOf x.2).pop = some (some (req, heap)) ∧
    (q.heapOf x.2).requests.Perm (req :: heap.requests) := by
  have hin : x.2 ∈ q.streams := (h.keys x.2).mp (by simp [Turns.members])
  obtain ⟨old, hl⟩ := Option.isSome_iff_exists.mp (AList.lookup_isSome.mpr hin)
  obtain ⟨req, heap, hpop, hperm, -⟩ := old.pop_spec (h.filled x.2 old hl)
  rw [heapOf_of_lookup hl]
  refine ⟨req, heap, ?_, hpop, hperm⟩
  rw [take, hl]
  dsimp only
  rw [h.filled x.2 old hl, if_neg Bool.false_ne_true, hpop]

private theorem Ok.serve_keep (h : q.Ok ⟨passed, x :: rest⟩) {heap : ShaperHeap T}
    {req : WriteRequest T}
    (hperm : (q.heapOf x.2).requests.Perm (req :: heap.requests)) (hfull : heap.isEmpty = false) :
    ∃ q', q.serve x.1 x.2 heap = some q' ∧ q'.Ok (Turns.keep passed x rest) ∧
      q'.heapOf x.2 = heap ∧ (∀ sid, sid ≠ x.2 → q'.heapOf sid = q.heapOf sid) ∧
      q.queued.Perm (req :: q'.queued) := by
  obtain ⟨q', hq'⟩ : ∃ q' : ShaperQueue T, q' = { q with
    count := q.count - 1, streams := q.streams.insert x.2 heap,
    next := (headId rest none).or (headId (passed ++ [x]) none) } := ⟨_, rfl⟩
  have hs : q'.streams = q.streams.insert x.2 heap := by rw [hq']
  have hheap := heapOf_insert hs
  have hin : x.2 ∈ q.streams := (h.keys x.2).mp (by simp [Turns.members])
  have hqueued : q.queued.Perm (req :: q'.queued) := by
    rw [queued_insert hs]
    exact (queued_perm q x.2).trans (hperm.append_right _)
  have hmembers : (Turns.keep passed x rest).members = passed ++ x :: rest := by
    rw [Turns.keep, Turns.members_wrap]
    simp [Turns.members]
  refine ⟨q', ?_, ?_, by rw [hheap, if_pos rfl], fun sid hne => by rw [hheap, if_neg hne], hqueued⟩
  · rw [serve, h.follow_eq, hfull, hq']
    rfl
  · refine ⟨?_, ?_, Turns.ahead_wrap, ?_, ?_, ?_, ?_, ?_⟩
    · rw [hmembers, hq']
      exact h.list
    · rw [hq']
      cases rest <;> rfl
    · rw [hmembers]
      exact h.sids
    · intro sid
      rw [hmembers, hs, AList.mem_insert]
      have hkeys := h.keys sid
      rw [Turns.members] at hkeys
      rw [hkeys]
      exact ⟨.inr, fun hor => hor.elim (fun heq => heq ▸ hin) id⟩
    · intro sid h' hl
      exact h.filled_insert hs hfull hl
    · intro sid r hr
      unfold pending at hr
      rw [hheap] at hr
      split_ifs at hr with hsid
      · exact (h.owned _ r (hperm.mem_iff.mpr (List.mem_cons_of_mem _ hr))).trans hsid.symm
      · exact h.owned sid r hr
    · exact h.count_pred hqueued (by rw [hq'])

private theorem Ok.serve_leave (h : q.Ok ⟨passed, x :: rest⟩) {heap : ShaperHeap T}
    {req : WriteRequest T}
    (hperm : (q.heapOf x.2).requests.Perm (req :: heap.requests)) (hempty : heap.isEmpty = true) :
    ∃ q', q.serve x.1 x.2 heap = some q' ∧ q'.Ok (Turns.leave passed rest) ∧
      q'.heapOf x.2 = {} ∧ (∀ sid, sid ≠ x.2 → q'.heapOf sid = q.heapOf sid) ∧
      q.queued.Perm (req :: q'.queued) := by
  obtain ⟨rrList, hremove, hholds⟩ := RrList.Holds.remove_spec h.list
  obtain ⟨q', hq'⟩ : ∃ q' : ShaperQueue T, q' = { q with
    count := q.count - 1, streams := q.streams.erase x.2, rrList := rrList,
    next := if rrList.len = 0 then none
      else (headId rest none).or (headId (passed ++ [x]) none) } := ⟨_, rfl⟩
  have hs : q'.streams = q.streams.erase x.2 := by rw [hq']
  have hheap := heapOf_erase hs
  have hqueued : q.queued.Perm (req :: q'.queued) := by
    rw [queued_erase hs]
    have hone := hperm
    rw [requests_eq_nil.mpr hempty] at hone
    exact (queued_perm q x.2).trans (hone.append_right _)
  have hmembers : (Turns.leave passed rest).members = passed ++ rest := by
    rw [Turns.leave, Turns.members_wrap]
    rfl
  have hsids := h.sids
  have hkeys := h.keys
  rw [Turns.members, List.map_append, List.map_cons] at hsids hkeys
  have hout := (List.nodup_middle.mp hsids)
  rw [List.nodup_cons] at hout
  refine ⟨q', ?_, ?_, by rw [hheap, if_pos rfl], fun sid hne => by rw [hheap, if_neg hne], hqueued⟩
  · rw [serve, h.follow_eq, hempty, hremove, hq']
    rfl
  · refine ⟨?_, ?_, Turns.ahead_wrap, ?_, ?_, ?_, ?_, ?_⟩
    · rw [hmembers, hq']
      exact hholds
    · rw [hq', hholds.len]
      cases rest with
      | nil => cases passed <;> rfl
      | cons y ys =>
        rw [if_neg (by simp)]
        rfl
    · rw [hmembers, List.map_append]
      exact hout.2
    · intro sid
      rw [hmembers, hs, AList.mem_erase, ← hkeys, List.map_append]
      simp only [List.mem_append, List.mem_cons]
      constructor
      · intro hmem
        refine ⟨fun heq => hout.1 ?_, hmem.imp id .inr⟩
        rw [← heq]
        exact List.mem_append.mpr hmem
      · rintro ⟨hne, hmem⟩
        exact hmem.imp id fun hor => hor.resolve_left hne
    · intro sid h' hl
      rw [hs] at hl
      by_cases hsid : sid = x.2
      · rw [hsid, AList.lookup_erase] at hl
        cases hl
      · rw [AList.lookup_erase_ne hsid] at hl
        exact h.filled sid h' hl
    · intro sid r hr
      unfold pending at hr
      rw [hheap] at hr
      split_ifs at hr with hsid
      · cases hr
      · exact h.owned sid r hr
    · exact h.count_pred hqueued (by rw [hq'])

/-- What a `pop` does when the list is not empty: the stream at the cursor is served, and it stays
in the list while it has requests. -/
theorem Ok.pop_spec (h : q.Ok ⟨passed, x :: rest⟩) : ∃ req q', q.pop = some (some req, q') ∧
    q'.Ok (if (q'.heapOf x.2).isEmpty then Turns.leave passed rest
      else Turns.keep passed x rest) ∧
    req.sid = x.2 ∧ (q.heapOf x.2).pop = some (some (req, q'.heapOf x.2)) ∧
    (∀ sid, sid ≠ x.2 → q'.heapOf sid = q.heapOf sid) ∧ q.queued.Perm (req :: q'.queued) := by
  obtain ⟨req, heap, htake, hpop, hperm⟩ := h.take_eq
  have hsid : req.sid = x.2 := h.owned x.2 req (hperm.mem_iff.mpr List.mem_cons_self)
  have hscan {q' : ShaperQueue T} (hserve : q.serve x.1 x.2 heap = some q') :
      q.pop = some (some req, q') := by
    have hnext : q.next = some x.1 := h.cursor
    have hcount : q.count ≠ 0 := by
      rw [h.count, (queued_perm q x.2).length_eq, pending, List.length_append, hperm.length_eq,
        List.length_cons]
      omega
    have hsidx := h.list.sid_eq (x := x) (by simp [Turns.members])
    rw [pop, hnext]
    dsimp only
    rw [if_neg hcount, scan, hsidx, Option.bind_eq_bind, Option.bind_some, htake,
      Option.bind_eq_bind, Option.bind_some]
    dsimp only
    rw [hserve]
    rfl
  cases hempty : heap.isEmpty with
  | true =>
    obtain ⟨q', hserve, hok, hown, hothers, hqueued⟩ := h.serve_leave hperm hempty
    have hnil : heap = {} := by
      obtain ⟨items⟩ := heap
      exact congrArg ShaperHeap.mk (Array.isEmpty_iff.mp hempty)
    refine ⟨req, q', hscan hserve, ?_, hsid, by rw [hown, hpop, hnil], hothers, hqueued⟩
    rw [hown]
    exact hok
  | false =>
    obtain ⟨q', hserve, hok, hown, hothers, hqueued⟩ := h.serve_keep hperm hempty
    refine ⟨req, q', hscan hserve, ?_, hsid, by rw [hown, hpop], hothers, hqueued⟩
    rw [hown, hempty, if_neg Bool.false_ne_true]
    exact hok

structure Consistent (q : ShaperQueue T) : Prop where
  count : q.count = q.queued.length
  sids_nodup : q.rrList.sids.Nodup
  sids_iff : ∀ sid, sid ∈ q.rrList.sids ↔ sid ∈ q.streams
  len : q.rrList.len = q.rrList.sids.length
  filled : ∀ sid heap, q.streams.lookup sid = some heap → heap.isEmpty = false
  cursor : (∃ id, q.next = some id ∧ id ∈ q.rrList.elements.map Prod.fst) ↔ q.queued ≠ []
  unset : q.next = none ↔ q.queued = []
  push : ∀ req, ∃ q', q.push req = some q'
  pop : ∃ r q', q.pop = some (r, q') ∧ (r.isSome = true ↔ 0 < q.count)

private theorem Ok.queued_eq_nil (h : q.Ok t) : q.queued = [] ↔ t.ahead = [] := by
  constructor
  · intro hq
    cases hahead : t.ahead with
    | nil => rfl
    | cons x rest =>
      have hin : x.2 ∈ q.streams := (h.keys x.2).mp (by simp [Turns.members, hahead])
      have hne := h.pending_ne_nil.mpr hin
      have hperm := (queued_perm q x.2).length_eq
      rw [hq, List.length_append, List.length_nil] at hperm
      exact absurd (List.length_eq_zero_iff.mp (by omega)) hne
  · intro hahead
    have hmembers : t.members = [] := by rw [Turns.members, h.wrapped hahead, hahead]; rfl
    have hnone : q.streams.entries = [] := by
      apply List.eq_nil_iff_forall_not_mem.mpr
      intro e he
      have hmem : e.1 ∈ t.members.map Prod.snd :=
        (h.keys e.1).mpr (AList.mem_keys.mpr (List.mem_keys_of_mem he))
      rw [hmembers] at hmem
      cases hmem
    rw [queued, hnone]
    rfl

private theorem Ok.consistent (h : q.Ok t) : q.Consistent := by
  have hsids : q.rrList.sids = t.members.map Prod.snd := by rw [RrList.sids, h.list.walk_eq]
  refine ⟨h.count, hsids ▸ h.sids, hsids ▸ h.keys, ?_, h.filled, ?_, ?_, ?_, ?_⟩
  · rw [hsids, List.length_map, h.list.len]
  · rw [h.list.walk_eq, h.cursor, ne_eq, h.queued_eq_nil]
    constructor
    · rintro ⟨id, hid, -⟩ hahead
      rw [hahead] at hid
      cases hid
    · intro hahead
      obtain ⟨x, rest, heq⟩ := List.exists_cons_of_ne_nil hahead
      exact ⟨x.1, by rw [heq]; rfl, by simp [Turns.members, heq]⟩
  · rw [h.cursor, h.queued_eq_nil]
    cases t.ahead <;> simp
  · intro req
    obtain ⟨q', -, hpush, -⟩ := h.push_spec req
    exact ⟨q', hpush⟩
  · obtain ⟨passed, ahead⟩ := t
    cases ahead with
    | nil =>
      refine ⟨none, q, h.pop_none rfl, ?_⟩
      rw [h.count, h.queued_eq_nil.mpr rfl]
      simp
    | cons x rest =>
      obtain ⟨req, q', hpop, -⟩ := h.pop_spec
      refine ⟨some req, q', hpop, ?_⟩
      have hne : q.queued ≠ [] := fun hq => by simpa using h.queued_eq_nil.mp hq
      rw [h.count]
      simpa using List.length_pos_iff.mpr hne

end ShaperQueue

inductive ShaperOp (T : Type)
  | push (req : WriteRequest T)
  | pop

/-- A queue with what was pushed to it and what was popped from it so far. -/
structure ShaperRun (T : Type) where
  queue : ShaperQueue T := {}
  pushed : List (WriteRequest T) := []
  popped : List (WriteRequest T) := []

namespace ShaperRun

variable {T : Type}

def next (s : ShaperRun T) : ShaperOp T → Option (ShaperRun T)
  | .push req => (s.queue.push req).map fun queue =>
    { s with queue, pushed := s.pushed ++ [req] }
  | .pop => s.queue.pop.map fun r =>
    { s with queue := r.2, popped := s.popped ++ r.1.toList }

def Invariant (s : ShaperRun T) : Prop :=
  (∃ t, s.queue.Ok t) ∧ s.pushed.Perm (s.popped ++ s.queue.queued)

theorem invariant_new : ({} : ShaperRun T).Invariant := ⟨⟨_, ShaperQueue.ok_new⟩, .refl _⟩

variable {s : ShaperRun T}

theorem Invariant.next (h : s.Invariant) (op : ShaperOp T) :
    ∃ s', s.next op = some s' ∧ s'.Invariant := by
  obtain ⟨⟨t, hok⟩, hperm⟩ := h
  cases op with
  | push req =>
    obtain ⟨q', t', hpush, hok', -, hqueued, -⟩ := hok.push_spec req
    refine ⟨_, by rw [ShaperRun.next, hpush]; rfl, ⟨t', hok'⟩, ?_⟩
    show (s.pushed ++ [req]).Perm (s.popped ++ q'.queued)
    refine ((hperm.append_right [req]).trans ?_).trans (hqueued.symm.append_left s.popped)
    rw [List.append_assoc]
    exact List.perm_append_comm.append_left s.popped
  | pop =>
    obtain ⟨passed, ahead⟩ := t
    cases ahead with
    | nil =>
      refine ⟨{ s with popped := s.popped ++ [] }, ?_, ⟨_, hok⟩, ?_⟩
      · rw [ShaperRun.next, hok.pop_none rfl]
        rfl
      · rwa [List.append_nil]
    | cons x rest =>
      obtain ⟨req, q', hpop, hok', -, -, -, hqueued⟩ := hok.pop_spec
      refine ⟨_, by rw [ShaperRun.next, hpop]; rfl, ⟨_, hok'⟩, ?_⟩
      show s.pushed.Perm (s.popped ++ [req] ++ q'.queued)
      rw [List.append_assoc]
      exact hperm.trans (hqueued.append_left s.popped)

end ShaperRun

/-- After any calls the queue is consistent, none of them has failed, and what was pushed is popped
or still queued. -/
theorem shaper_queue_consistent {T : Type} (ops : List (ShaperOp T)) :
    ∃ s, exec ShaperRun.next {} ops = some s ∧ s.queue.Consistent ∧
      s.pushed.Perm (s.popped ++ s.queue.queued) := by
  obtain ⟨s, hexec, ⟨t, hok⟩, hperm⟩ := exec_total ShaperRun.Invariant
    (fun _ op h => h.next op) ops (ShaperRun.invariant_new (T := T))
  exact ⟨s, hexec, hok.consistent, hperm⟩

end Kcptun.Smux
