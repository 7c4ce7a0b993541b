/- Kcptun/Smux/UpdateOrder
   source: crates/smux/src/stream.rs (send_window_update, queue_window_update),
     crates/smux/src/session.rs (write_frame_internal, send_loop), crates/smux/src/shaper.rs
   digest: The order in which a stream's window updates leave the write queue, the one sender task,
     and the update that the task overlooks. -/

import Kcptun.Smux.UpdateTask

set_option autoImplicit false
set_option relaxedAutoImplicit false

namespace Kcptun.Smux.UpdateTask

open Kcptun.Lib Kcptun.Lib.LittleEndian
open Kcptun.Smux.Window (Upd)

/-! Numbers drawn recently. -/

section Numbers

variable {numbers seqs : List UInt32} {requestId : UInt32}

private theorem not_mem_of_recent (h : ∀ n ∈ numbers, (requestId - n).toNat < 2147483648) :
    requestId + 1 ∉ numbers := by
  intro hmem
  have hlt := h _ hmem
  rw [UInt32.toNat_sub, UInt32.toNat_add] at hlt
  have := requestId.toNat_lt
  rw [UInt32.toNat_one] at hlt
  omega

private theorem later_of_recent {n : UInt32} (hne : n ≠ requestId)
    (h : (requestId - n).toNat < 2147483648) : 0 < itimediff requestId n := by
  have hn := n.toNat_lt
  have hid := requestId.toNat_lt
  have hne' : n.toNat ≠ requestId.toNat := fun heq => hne (UInt32.toNat_inj.mp heq)
  rw [UInt32.toNat_sub] at h
  unfold itimediff
  rw [Serial.diff_eq]
  omega

private theorem spread_of_recent (hnodup : seqs.Nodup)
    (h : ∀ n ∈ seqs, (requestId - n).toNat < 2147483648) : Spread seqs := by
  refine ⟨hnodup, requestId - 2147483647, ?_⟩
  intro n hn
  have hlt := h n hn
  have hn := n.toNat_lt
  have hid := requestId.toNat_lt
  rw [UInt32.toNat_sub] at hlt
  rw [UInt32.toNat_sub, UInt32.toNat_sub]
  have hconst : (2147483647 : UInt32).toNat = 2147483647 := rfl
  rw [hconst]
  omega

end Numbers

/-! Updates in line: those that left the queue, those in it, and those waiting for it. -/

def updateRequests (reqs : List (WriteRequest Body)) : List (WriteRequest Body) :=
  reqs.filter fun req => req.body.update?.isSome

/-- The queue holds the updates of `q`. Over all stages the updates stand in the order in which they
became due, and those in the queue or waiting with a number have increasing numbers. -/
structure Line (shaper : ShaperRun Body) (waiting : List Upd) (held : List UInt32) (read : ℕ)
    (q : List (WriteRequest Body)) : Prop where
  perm : q.Perm (updateRequests shaper.queue.queued)
  order : (updatesOf shaper.popped ++ updatesOf q ++ waiting).Pairwise (·.count ≤ ·.count)
  seqs : (q.map WriteRequest.seq ++ held).Pairwise fun a b => 0 < itimediff b a
  exact : ∀ u ∈ updatesOf shaper.popped ++ updatesOf q ++ waiting,
    u.consumed = UInt32.ofNat u.count ∧ u.count ≤ read

namespace Line

variable {shaper shaper' : ShaperRun Body} {waiting waiting' : List Upd} {held held' : List UInt32}
  {read read' : ℕ} {q : List (WriteRequest Body)} {u : Upd} {sid seq : UInt32}

private theorem sub (h : Line shaper waiting held read q) (hwaiting : waiting'.Sublist waiting)
    (hheld : held'.Sublist held) (hread : read ≤ read') : Line shaper waiting' held' read' q := by
  have hline := hwaiting.append_left (updatesOf shaper.popped ++ updatesOf q)
  refine ⟨h.perm, h.order.sublist hline, h.seqs.sublist (hheld.append_left _), ?_⟩
  intro u hu
  obtain ⟨hconsumed, hle⟩ := h.exact u (hline.subset hu)
  exact ⟨hconsumed, Nat.le_trans hle hread⟩

private theorem join (h : Line shaper waiting held read q) (hwaiting : waiting'.Sublist waiting)
    (hread : read ≤ u.count) (hconsumed : u.consumed = UInt32.ofNat u.count) :
    Line shaper (waiting' ++ [u]) held u.count q := by
  obtain ⟨hperm, horder, hseqs, hexact⟩ := h.sub hwaiting (List.Sublist.refl held) hread
  refine ⟨hperm, ?_, hseqs, ?_⟩
  · rw [← List.append_assoc]
    refine List.pairwise_append.mpr ⟨horder, List.pairwise_singleton _ _, ?_⟩
    intro v hv w hw
    obtain rfl := List.mem_singleton.mp hw
    exact (hexact v hv).2
  · rw [← List.append_assoc]
    intro v hv
    rcases List.mem_append.mp hv with hv | hv
    · exact hexact v hv
    · obtain rfl := List.mem_singleton.mp hv
      exact ⟨hconsumed, Nat.le_refl _⟩

private theorem number (h : Line shaper waiting [] read q)
    (hlater : ∀ req ∈ q, 0 < itimediff seq req.seq) : Line shaper waiting [seq] read q := by
  refine ⟨h.perm, h.order, ?_, h.exact⟩
  refine List.pairwise_append.mpr ⟨?_, List.pairwise_singleton _ _, ?_⟩
  · have hseqs := h.seqs
    rwa [List.append_nil] at hseqs
  · intro a ha b hb
    obtain ⟨req, hreq, rfl⟩ := List.mem_map.mp ha
    obtain rfl := List.mem_singleton.mp hb
    exact hlater req hreq

private theorem queue (h : Line shaper (u :: waiting) [seq] read q)
    (hpopped : shaper'.popped = shaper.popped)
    (hqueued : shaper'.queue.queued.Perm (⟨.ctrl, sid, seq, .update u⟩ :: shaper.queue.queued)) :
    Line shaper' waiting [] read (q ++ [⟨.ctrl, sid, seq, .update u⟩]) := by
  obtain ⟨hperm, horder, hseqs, hexact⟩ := h
  have hupdates : updatesOf (q ++ [(⟨.ctrl, sid, seq, .update u⟩ : WriteRequest Body)]) =
      updatesOf q ++ [u] := List.filterMap_append
  have hline : updatesOf shaper'.popped ++ updatesOf (q ++ [⟨.ctrl, sid, seq, .update u⟩]) ++ waiting =
      updatesOf shaper.popped ++ updatesOf q ++ u :: waiting := by
    rw [hpopped, hupdates, List.append_assoc, List.append_assoc, List.append_assoc]
    rfl
  refine ⟨?_, by rw [hline]; exact horder, ?_, by rw [hline]; exact hexact⟩
  · refine List.perm_append_comm.trans (List.Perm.trans ?_ (hqueued.filter _).symm)
    exact hperm.cons _
  · rw [List.map_append, List.append_nil]
    exact hseqs

private theorem other (h : Line shaper waiting held read q)
    (hpopped : updatesOf shaper'.popped = updatesOf shaper.popped)
    (hqueued : (updateRequests shaper'.queue.queued).Perm (updateRequests shaper.queue.queued)) :
    Line shaper' waiting held read q := by
  obtain ⟨hperm, horder, hseqs, hexact⟩ := h
  refine ⟨hperm.trans hqueued.symm, ?_, hseqs, ?_⟩
  · rw [hpopped]
    exact horder
  · rw [hpopped]
    exact hexact

private theorem pop (h : Line shaper waiting held read q) {req : WriteRequest Body}
    (hreq : req.body = .update u) (hpopped : shaper'.popped = shaper.popped ++ [req])
    (hqueued : shaper.queue.queued.Perm (req :: shaper'.queue.queued))
    (hfirst : ∀ r ∈ updateRequests shaper'.queue.queued, req.class_ = r.class_ ∧ req.before r = true) :
    ∃ q', Line shaper' waiting held read q' := by
  obtain ⟨hperm, horder, hseqs, hexact⟩ := h
  have hmatch : req.body.update?.isSome = true := by rw [hreq]; rfl
  have hsplit : q.Perm (req :: updateRequests shaper'.queue.queued) := by
    refine hperm.trans ((hqueued.filter _).trans (List.Perm.of_eq ?_))
    exact List.filter_cons_of_pos hmatch
  cases q with
  | nil => exact absurd hsplit.length_eq (by simp)
  | cons r0 q' =>
    have hsame : r0 = req := by
      rcases List.mem_cons.mp (hsplit.mem_iff.mp List.mem_cons_self) with hsame | hlater
      · exact hsame
      · rcases List.mem_cons.mp (hsplit.mem_iff.mpr List.mem_cons_self) with hsame | hmem
        · exact hsame.symm
        · -- the numbers say that `r0` comes before the request that the queue chose
          obtain ⟨hclass, hbefore⟩ := hfirst r0 hlater
          rw [List.map_cons, List.cons_append, List.pairwise_cons] at hseqs
          have hnumber := hseqs.1 req.seq (List.mem_append_left held (List.mem_map_of_mem hmem))
          rw [not_before hclass.symm hnumber] at hbefore
          cases hbefore
    subst hsame
    have hpop : updatesOf (shaper.popped ++ [r0]) = updatesOf shaper.popped ++ [u] := by
      unfold updatesOf
      rw [List.filterMap_append, List.filterMap_cons_some (b := u) (by rw [hreq]; rfl)]
      rfl
    have hcons : updatesOf (r0 :: q') = u :: updatesOf q' :=
      List.filterMap_cons_some (by rw [hreq]; rfl)
    have hline : updatesOf shaper'.popped ++ updatesOf q' ++ waiting =
        updatesOf shaper.popped ++ updatesOf (r0 :: q') ++ waiting := by
      rw [hpopped, hpop, hcons, List.append_assoc, List.append_assoc, List.append_assoc]
      rfl
    refine ⟨q', hsplit.cons_inv, by rw [hline]; exact horder, ?_, by rw [hline]; exact hexact⟩
    rw [List.map_cons, List.cons_append, List.pairwise_cons] at hseqs
    exact hseqs.2

end Line

/-! The invariant of a run in which the updates keep their turn. -/

namespace State

variable {config : Config} {sid : UInt32} {s s' : State}

def waiting (s : State) : List Upd := s.owed ++ s.reader.unqueued

structure Ordered (sid : UInt32) (s : State) : Prop where
  one : s.OneTask
  numRead : s.buf.numRead = UInt32.ofNat s.read
  sorted : s.shaper.Sorted
  control : ∀ req ∈ s.shaper.queue.queued, ∀ u, req.body = .update u →
    req.class_ = .ctrl ∧ req.sid = sid
  nodup : s.numbers.Nodup
  recent : s.Recent
  turn : s.reader.seqs ≠ [] → s.owed = []
  line : ∃ q, Line s.shaper s.waiting s.heldSeqs s.read q

private theorem ordered_new (sid : UInt32) : ({} : State).Ordered sid := by
  refine ⟨.inl ⟨rfl, rfl, rfl⟩, rfl, ShaperRun.sorted_new, ?_,
    List.nodup_nil, ?_, fun h => absurd rfl h, [], ?_⟩
  · intro req hreq
    cases hreq
  · intro n hn
    cases hn
  · refine ⟨List.Perm.refl [], List.Pairwise.nil, List.Pairwise.nil, ?_⟩
    intro u hu
    cases hu

private theorem Ordered.sent (h : s.Ordered sid) :
    s.sent.Pairwise (·.count ≤ ·.count) ∧ ∀ u ∈ s.sent, u.consumed = UInt32.ofNat u.count := by
  obtain ⟨q, -, horder, -, hexact⟩ := h.line
  rw [List.append_assoc] at horder hexact
  exact ⟨(List.pairwise_append.mp horder).1, fun u hu => (hexact u (List.mem_append_left _ hu)).1⟩

private theorem Ordered.shrink (h : s.Ordered sid) (hone : s'.OneTask)
    (hnumRead : s'.buf.numRead = UInt32.ofNat s'.read) (hshaper : s'.shaper = s.shaper)
    (hid : s'.requestId = s.requestId) (hothers : s'.others.Sublist s.others)
    (hheld : s'.heldSeqs.Sublist s.heldSeqs) (hturn : s'.reader.seqs ≠ [] → s'.owed = [])
    (hwaiting : s'.waiting.Sublist s.waiting) (hread : s.read ≤ s'.read) : s'.Ordered sid := by
  have hnumbers : s'.numbers.Sublist s.numbers := by
    unfold numbers
    rw [hshaper]
    exact (hothers.append hheld).append_right _
  refine ⟨hone, hnumRead, hshaper ▸ h.sorted, hshaper ▸ h.control, h.nodup.sublist hnumbers,
    ?_, hturn, ?_⟩
  · intro n hn
    rw [hid]
    exact h.recent n (hnumbers.subset hn)
  · obtain ⟨q, hline⟩ := h.line
    rw [hshaper]
    exact ⟨q, hline.sub hwaiting hheld hread⟩

private theorem Ordered.draw (h : s.Ordered sid) (hrecent : s'.Recent)
    (hid : s'.requestId = s.requestId + 1)
    (hnumbers : s'.numbers.Perm ((s.requestId + 1) :: s.numbers)) : s'.numbers.Nodup ∧
      ∀ n ∈ s.numbers, 0 < itimediff (s.requestId + 1) n := by
  have hfresh : s.requestId + 1 ∉ s.numbers := not_mem_of_recent h.recent
  refine ⟨hnumbers.nodup_iff.mpr (List.nodup_cons.mpr ⟨hfresh, h.nodup⟩), ?_⟩
  intro n hn
  have hlt := hrecent n (hnumbers.mem_iff.mpr (List.mem_cons_of_mem _ hn))
  rw [hid] at hlt
  exact later_of_recent (fun heq => hfresh (heq ▸ hn)) hlt

private theorem separated (hnodup : s.numbers.Nodup) (hrecent : s.Recent) :
    s.shaper.queue.Separated := by
  intro sid'
  have hsub : ((s.shaper.queue.pending sid').map WriteRequest.seq).Subperm
      (s.shaper.queue.queued.map WriteRequest.seq) :=
    ((List.sublist_append_left _ _).map _).subperm.trans
      ((ShaperQueue.queued_perm s.shaper.queue sid').symm.map _).subperm
  have hall : ((s.shaper.queue.pending sid').map WriteRequest.seq).Subperm s.numbers :=
    hsub.trans (List.sublist_append_right _ _).subperm
  obtain ⟨ns, hperm, hsublist⟩ := hall
  have hclose : ∀ n ∈ (s.shaper.queue.pending sid').map WriteRequest.seq,
      (s.requestId - n).toNat < 2147483648 := fun n hn =>
    hrecent n (hsublist.subset (hperm.mem_iff.mpr hn))
  exact spread_of_recent (hperm.nodup_iff.mp (hnodup.sublist hsublist)) hclose

private theorem push_queued {shaper shaper' : ShaperRun Body} {req : WriteRequest Body}
    (h : shaper.Sorted) (hpush : shaper.next (.push req) = some shaper') :
    shaper'.queue.queued.Perm (req :: shaper.queue.queued) ∧ shaper'.popped = shaper.popped := by
  obtain ⟨t, hok⟩ := h.ok
  obtain ⟨q', t', hq', -, -, hqueued, -⟩ := hok.push_spec req
  rw [ShaperRun.next, hq'] at hpush
  cases hpush
  exact ⟨hqueued, rfl⟩

private theorem pop_queued {shaper shaper' : ShaperRun Body} (h : shaper.Sorted)
    (hpop : shaper.next .pop = some shaper') :
    (shaper'.queue = shaper.queue ∧ shaper'.popped = shaper.popped) ∨
      ∃ req, shaper'.popped = shaper.popped ++ [req] ∧
        shaper.queue.queued.Perm (req :: shaper'.queue.queued) ∧
        ∀ r ∈ shaper'.queue.queued, r.sid = req.sid → req.before r = true := by
  obtain ⟨t, hok⟩ := h.ok
  obtain ⟨passed, ahead⟩ := t
  cases ahead with
  | nil =>
    rw [ShaperRun.next, hok.pop_none rfl] at hpop
    cases hpop
    exact .inl ⟨rfl, List.append_nil _⟩
  | cons x rest =>
    obtain ⟨req, q', hq', hok', -, -, -, hqueued⟩ := hok.pop_spec
    obtain ⟨-, hfirst, -, -⟩ := h.pop hq'
    rw [ShaperRun.next, hq'] at hpop
    cases hpop
    refine .inr ⟨req, rfl, hqueued, fun r hr hsid => hfirst r ?_⟩
    -- a request is queued under its own stream
    obtain ⟨e, he, hmem⟩ := List.mem_flatMap.mp hr
    have hlookup : q'.streams.lookup e.1 = some e.2 := AList.mem_lookup_iff.mpr he
    have hpending : q'.pending e.1 = e.2.requests := by
      rw [ShaperQueue.pending, ShaperQueue.heapOf_of_lookup hlookup]
    have hown := hok'.owned e.1 r (by rw [hpending]; exact hmem)
    rw [← hsid, hown, hpending]
    exact hmem

private theorem Ordered.push (h : s.Ordered sid) {req : WriteRequest Body}
    (hpush : s.shaper.next (.push req) = some s'.shaper) (hid : s'.requestId = s.requestId)
    (hmoved : (s.others ++ s.heldSeqs).Perm (req.seq :: (s'.others ++ s'.heldSeqs)))
    (hreq : ∀ u, req.body = .update u → req.class_ = .ctrl ∧ req.sid = sid) :
    s'.shaper.Sorted ∧ s'.numbers.Nodup ∧ s'.Recent ∧
      ∀ req ∈ s'.shaper.queue.queued, ∀ u, req.body = .update u →
        req.class_ = .ctrl ∧ req.sid = sid := by
  obtain ⟨hqueued, -⟩ := push_queued h.sorted hpush
  have hnumbers : s'.numbers.Perm s.numbers := by
    unfold numbers
    refine ((hqueued.map WriteRequest.seq).append_left _).trans ?_
    apply List.perm_middle.trans
    exact (hmoved.symm.append_right _)
  have hnodup : s'.numbers.Nodup := hnumbers.nodup_iff.mpr h.nodup
  have hrecent : s'.Recent := by
    intro n hn
    rw [hid]
    exact h.recent n (hnumbers.mem_iff.mp hn)
  refine ⟨?_, hnodup, hrecent, ?_⟩
  · refine h.sorted.next ?_ hpush
    intro shaper hshaper
    obtain rfl := Option.some.inj (hpush.symm.trans hshaper)
    exact separated hnodup hrecent
  · intro r hr u hu
    rcases List.mem_cons.mp (hqueued.mem_iff.mp hr) with rfl | hr
    · exact hreq u hu
    · exact h.control r hr u hu

private theorem Ordered.sendLoop (h : s.Ordered sid) {shaper : ShaperRun Body}
    (hpop : s.shaper.next .pop = some shaper) :
    ({ s with shaper := shaper } : State).Ordered sid := by
  obtain ⟨q, hline⟩ := h.line
  rcases pop_queued h.sorted hpop with ⟨hqueue, hpopped⟩ | ⟨req, hpopped, hqueued, hfirst⟩
  · have hsep : shaper.queue.Separated := hqueue ▸ h.sorted.separated
    refine ⟨h.one, h.numRead, ?_, ?_, ?_, ?_, h.turn, q, hline.other ?_ ?_⟩
    · refine h.sorted.next ?_ hpop
      intro shaper' hshaper'
      obtain rfl := Option.some.inj (hpop.symm.trans hshaper')
      exact hsep
    · change ∀ req ∈ shaper.queue.queued, _
      rw [hqueue]
      exact h.control
    · unfold numbers
      dsimp only
      rw [hqueue]
      exact h.nodup
    · unfold Recent numbers
      dsimp only
      rw [hqueue]
      exact h.recent
    · rw [hpopped]
    · rw [hqueue]
  · have hnumbers : ({ s with shaper := shaper } : State).numbers.Subperm s.numbers := by
      unfold numbers
      refine List.Subperm.append (List.Subperm.refl _) ?_
      exact ((List.sublist_cons_self _ _).map _).subperm.trans
        (hqueued.symm.map WriteRequest.seq).subperm
    obtain ⟨ns, hns, hsub⟩ := hnumbers
    have hnodup : ({ s with shaper := shaper } : State).numbers.Nodup :=
      hns.nodup_iff.mp (h.nodup.sublist hsub)
    have hrecent : ({ s with shaper := shaper } : State).Recent := fun n hn =>
      h.recent n (hsub.subset (hns.mem_iff.mpr hn))
    have hcontrol : ∀ r ∈ shaper.queue.queued, ∀ u, r.body = .update u →
        r.class_ = .ctrl ∧ r.sid = sid := fun r hr =>
      h.control r (hqueued.mem_iff.mpr (List.mem_cons_of_mem req hr))
    have hsorted : shaper.Sorted := by
      refine h.sorted.next ?_ hpop
      intro shaper' hshaper'
      obtain rfl := Option.some.inj (hpop.symm.trans hshaper')
      exact separated hnodup hrecent
    refine ⟨h.one, h.numRead, hsorted, hcontrol, hnodup, hrecent, h.turn, ?_⟩
    cases hbody : req.body with
    | update u =>
      obtain ⟨hclass, hsid⟩ := h.control req (hqueued.mem_iff.mpr List.mem_cons_self) u hbody
      apply hline.pop hbody hpopped hqueued
      intro r hr
      obtain ⟨hr, hsome⟩ := List.mem_filter.mp hr
      cases hupdate : r.body with
      | update v =>
        obtain ⟨hclass', hsid'⟩ := hcontrol r hr v hupdate
        exact ⟨hclass.trans hclass'.symm, hfirst r hr (hsid'.trans hsid.symm)⟩
      | other =>
        rw [hupdate] at hsome
        cases hsome
    | other =>
      refine ⟨q, hline.other ?_ ?_⟩
      · rw [hpopped]
        unfold updatesOf
        rw [List.filterMap_append, List.filterMap_cons_none (by rw [hbody]; rfl)]
        exact List.append_nil _
      · refine List.Perm.trans ?_ (hqueued.filter _).symm
        exact List.Perm.of_eq (List.filter_cons_of_neg (by rw [hbody]; exact Bool.false_ne_true)).symm

private theorem Ordered.numbers (h : s.Ordered sid) (hrecent : s'.Recent) (hone : s'.OneTask)
    (hbuf : s'.buf = s.buf ∧ s'.read = s.read) (hshaper : s'.shaper = s.shaper)
    (hid : s'.requestId = s.requestId + 1) (hothers : s'.others = s.others)
    (hnone : s.heldSeqs = []) (hheld : s'.heldSeqs = [s.requestId + 1])
    (hturn : s'.reader.seqs ≠ [] → s'.owed = []) (hwaiting : s'.waiting = s.waiting) :
    s'.Ordered sid := by
  have hnumbers : s'.numbers.Perm ((s.requestId + 1) :: s.numbers) := by
    unfold State.numbers
    rw [hheld, hnone, hothers, hshaper, List.append_nil, List.append_assoc]
    exact List.perm_middle
  obtain ⟨hnodup, hlater⟩ := h.draw hrecent hid hnumbers
  obtain ⟨q, hline⟩ := h.line
  rw [hnone] at hline
  refine ⟨hone, ?_, hshaper ▸ h.sorted, hshaper ▸ h.control, hnodup, hrecent, hturn, q, ?_⟩
  · rw [hbuf.1, hbuf.2]
    exact h.numRead
  · rw [hshaper, hwaiting, hheld, hbuf.2]
    refine hline.number fun req hreq => hlater req.seq (List.mem_append_right _ ?_)
    exact List.mem_map_of_mem (List.mem_of_mem_filter (hline.perm.mem_iff.mp hreq))

private theorem Ordered.queues (h : s.Ordered sid) (u : Upd) (seq : UInt32) (hone : s'.OneTask)
    (hpush : s.shaper.next (.push ⟨.ctrl, sid, seq, .update u⟩) = some s'.shaper)
    (hbuf : s'.buf = s.buf ∧ s'.read = s.read) (hid : s'.requestId = s.requestId)
    (hothers : s'.others = s.others) (hheld : s.heldSeqs = [seq]) (hnone : s'.heldSeqs = [])
    (hturn : s'.reader.seqs ≠ [] → s'.owed = []) (hwaiting : s.waiting = u :: s'.waiting) :
    s'.Ordered sid := by
  have hmoved : (s.others ++ s.heldSeqs).Perm (seq :: (s'.others ++ s'.heldSeqs)) := by
    rw [hheld, hnone, hothers, List.append_nil]
    exact List.perm_append_comm
  obtain ⟨hsorted, hnodup, hrecent, hcontrol⟩ := h.push hpush hid hmoved fun v _ => ⟨rfl, rfl⟩
  obtain ⟨hqueued, hpopped⟩ := push_queued h.sorted hpush
  obtain ⟨q, hline⟩ := h.line
  rw [hheld, hwaiting] at hline
  refine ⟨hone, ?_, hsorted, hcontrol, hnodup, hrecent, hturn,
    q ++ [⟨.ctrl, sid, seq, .update u⟩], ?_⟩
  · rw [hbuf.1, hbuf.2]
    exact h.numRead
  · rw [hnone, hbuf.2]
    exact hline.queue hpopped hqueued

private theorem owed_of_task {pc : TaskPc} (htasks : s.tasks = [pc]) : s.owed =
    pc.unqueued ++ if s.pending.consumed = 0 then [] else [s.pending] := by
  unfold owed
  rw [htasks, List.flatMap_singleton]

private theorem heldSeqs_of_task {pc : TaskPc} (htasks : s.tasks = [pc]) :
    s.heldSeqs = pc.seqs ++ s.reader.seqs := by
  unfold heldSeqs
  rw [htasks, List.flatMap_singleton]

private theorem OneTask.seqs_of_owed (h : s.OneTask) (howed : s.owed = []) :
    s.tasks.flatMap TaskPc.seqs = [] := by
  rcases h with ⟨-, htasks, -⟩ | ⟨-, pc, htasks⟩
  · rw [htasks]
    rfl
  · rw [owed_of_task htasks] at howed
    rw [htasks]
    cases pc with
    | admission v seq => cases howed
    | _ => rfl

private theorem Ordered.taskMoved (h : s.Ordered sid) (hsending : s.sending = true)
    (hrecent : s'.Recent) (hmoved : s.TaskMoved sid s') : s'.Ordered sid := by
  have hidle : ∀ {pc u us}, s.tasks = [pc] → pc.unqueued = u :: us → s.reader.seqs = [] := by
    intro pc u us htasks hpc
    by_contra hc
    have hnil := h.turn hc
    rw [owed_of_task htasks, hpc] at hnil
    cases hnil
  cases hmoved with
  | ended =>
    refine h.shrink (.inl ⟨rfl, rfl, rfl⟩) h.numRead rfl rfl (List.Sublist.refl _)
      (List.sublist_append_right _ _) (fun _ => rfl) (List.sublist_append_right _ _) (Nat.le_refl _)
  | takes htasks hpending =>
    have hsame : ({ s with pending := ⟨0, 0⟩, tasks := [.due s.pending] } : State).owed = s.owed := by
      rw [owed_of_task htasks, if_neg hpending]
      rfl
    refine h.shrink (.inr ⟨hsending, _, rfl⟩) h.numRead rfl rfl (List.Sublist.refl _) ?_
      (fun hc => hsame.trans (h.turn hc)) ?_ (Nat.le_refl _)
    · rw [heldSeqs_of_task htasks]
      exact List.Sublist.refl _
    · unfold waiting
      rw [hsame]
  | finishes htasks =>
    have hsame : ({ s with tasks := [.take] } : State).owed = s.owed := by
      rw [owed_of_task htasks]
      rfl
    refine h.shrink (.inr ⟨hsending, _, rfl⟩) h.numRead rfl rfl (List.Sublist.refl _) ?_
      (fun hc => hsame.trans (h.turn hc)) ?_ (Nat.le_refl _)
    · rw [heldSeqs_of_task htasks]
      exact List.Sublist.refl _
    · unfold waiting
      rw [hsame]
  | fails =>
    have hsub : ({ s with tasks := [.failed] } : State).owed.Sublist s.owed :=
      List.sublist_append_right _ _
    refine h.shrink (.inr ⟨hsending, _, rfl⟩) h.numRead rfl rfl (List.Sublist.refl _)
      (List.sublist_append_right _ _) ?_ (hsub.append_right _) (Nat.le_refl _)
    intro hc
    rw [h.turn hc] at hsub
    exact List.sublist_nil.mp hsub
  | numbers u htasks =>
    have hreader := hidle htasks rfl
    refine h.numbers hrecent (.inr ⟨hsending, _, rfl⟩) ⟨rfl, rfl⟩ rfl rfl rfl ?_ ?_
      (fun hc => absurd hreader hc) ?_
    · rw [heldSeqs_of_task htasks, hreader]
      rfl
    · exact congrArg (_ :: ·) hreader
    · unfold waiting
      rw [owed_of_task htasks]
      rfl
  | queues u seq shaper htasks hpush =>
    have hreader := hidle htasks rfl
    refine h.queues u seq (.inr ⟨hsending, _, rfl⟩) hpush ⟨rfl, rfl⟩ rfl rfl ?_ hreader
      (fun hc => absurd hreader hc) ?_
    · rw [heldSeqs_of_task htasks, hreader]
      rfl
    · unfold waiting
      rw [owed_of_task htasks]
      rfl

/-! The reader. -/

private theorem taken_numRead {taken : StreamBuf × Bytes × UInt32} {buf : StreamBuf}
    (h : Window.Taken config buf taken) :
    taken.1.numRead = buf.numRead + UInt32.ofNat taken.2.1.length ∧
      (taken.2.2 ≠ 0 → taken.2.2 = taken.1.numRead) := by
  obtain ⟨⟨hnumRead, -, hnotify⟩, -⟩ := h
  rw [hnumRead, hnotify]
  unfold StreamBuf.accountRead
  dsimp only
  split_ifs
  · exact ⟨rfl, fun _ => rfl⟩
  · exact ⟨rfl, fun hc => absurd rfl hc⟩

section Taken

variable {taken : StreamBuf × Bytes × UInt32}

private theorem Ordered.numRead_take (h : s.Ordered sid)
    (htaken : Window.Taken config s.buf taken) :
    (s.take taken).buf.numRead = UInt32.ofNat (s.take taken).read := by
  change taken.1.numRead = UInt32.ofNat (s.read + taken.2.1.length)
  rw [(taken_numRead htaken).1, h.numRead, UInt32.ofNat_add]

private theorem Ordered.take (h : s.Ordered sid) (htaken : Window.Taken config s.buf taken) :
    (s.take taken).Ordered sid :=
  h.shrink h.one (h.numRead_take htaken) rfl rfl (List.Sublist.refl _) (List.Sublist.refl _) h.turn
    (List.Sublist.refl _) (Nat.le_add_right _ _)

private theorem Ordered.dueUpdate (h : s.Ordered sid) (htaken : Window.Taken config s.buf taken)
    {u : Upd} (hdue : s.dueUpdate taken = some u) :
    u.count = (s.take taken).read ∧ u.consumed = UInt32.ofNat u.count := by
  unfold State.dueUpdate at hdue
  split_ifs at hdue with hnone
  cases hdue
  refine ⟨rfl, ?_⟩
  have hconsumed := (taken_numRead htaken).2 fun hzero => hnone (.inr hzero)
  exact hconsumed.trans (h.numRead_take htaken)

private theorem Ordered.join (h : s.Ordered sid) (htaken : Window.Taken config s.buf taken)
    {u : Upd} (hdue : s.dueUpdate taken = some u) (hone : s'.OneTask)
    (hbuf : s'.buf = (s.take taken).buf ∧ s'.read = (s.take taken).read)
    (hshaper : s'.shaper = s.shaper) (hid : s'.requestId = s.requestId)
    (hothers : s'.others = s.others) (hheld : s'.heldSeqs = s.heldSeqs)
    (hturn : s'.reader.seqs ≠ [] → s'.owed = [])
    (hwaiting : ∃ us : List Upd, us.Sublist s.waiting ∧ s'.waiting = us ++ [u]) :
    s'.Ordered sid := by
  obtain ⟨hcount, hconsumed⟩ := h.dueUpdate htaken hdue
  obtain ⟨q, hline⟩ := h.line
  obtain ⟨us, hsub, hus⟩ := hwaiting
  have hnumbers : s'.numbers = s.numbers := by
    unfold State.numbers
    rw [hothers, hheld, hshaper]
  refine ⟨hone, ?_, hshaper ▸ h.sorted, hshaper ▸ h.control, hnumbers ▸ h.nodup, ?_, hturn, q, ?_⟩
  · rw [hbuf.1, hbuf.2]
    exact h.numRead_take htaken
  · unfold Recent
    rw [hnumbers, hid]
    exact h.recent
  · rw [hshaper, hheld, hbuf.2, hus, ← hcount]
    refine hline.join hsub ?_ hconsumed
    rw [hcount]
    exact Nat.le_add_right _ _

private theorem Ordered.afterRead (h : s.Ordered sid) (htaken : Window.Taken config s.buf taken)
    (hidle : s.reader = .idle) : (s.afterRead taken).Ordered sid := by
  unfold State.afterRead
  cases hdue : s.dueUpdate taken with
  | none => exact h.take htaken
  | some u =>
    refine h.join htaken hdue h.one ⟨rfl, rfl⟩ rfl rfl rfl ?_ (fun hc => absurd rfl hc)
      ⟨s.owed, List.sublist_append_left _ _, rfl⟩
    unfold heldSeqs
    rw [hidle]
    rfl

private theorem Ordered.beginWrite (h : s.Ordered sid) (htaken : Window.Taken config s.buf taken)
    (hidle : s.reader = .idle) : (s.beginWrite taken).Ordered sid := by
  have hheld : ∀ due, ({ s.take taken with reader := .writing due } : State).heldSeqs =
      s.heldSeqs := by
    intro due
    unfold heldSeqs
    rw [hidle]
    rfl
  unfold State.beginWrite
  split_ifs
  · exact h.take htaken
  · cases hdue : s.dueUpdate taken with
    | none =>
      refine h.shrink h.one (h.numRead_take htaken) rfl rfl (List.Sublist.refl _) ?_
        (fun hc => absurd rfl hc) ?_ (Nat.le_add_right _ _)
      · rw [hheld]
      · exact List.Sublist.append (List.Sublist.refl _) (List.nil_sublist _)
    | some u =>
      exact h.join htaken hdue h.one ⟨rfl, rfl⟩ rfl rfl rfl (hheld _) (fun hc => absurd rfl hc)
        ⟨s.owed, List.sublist_append_left _ _, rfl⟩

private theorem Ordered.afterChunk (h : s.Ordered sid) (htaken : Window.Taken config s.buf taken)
    (hidle : s.reader = .idle) : (s.afterChunk taken).Ordered sid := by
  unfold State.afterChunk
  cases hdue : s.dueUpdate taken with
  | none => exact h.take htaken
  | some u =>
    have hnotify : u.consumed ≠ 0 := by
      unfold State.dueUpdate at hdue
      split_ifs at hdue with hnone
      cases hdue
      intro hzero
      exact hnone (.inr hzero)
    have hone := OneTask.queueWindowUpdate (s := s.take taken) h.one u
    dsimp only
    unfold State.queueWindowUpdate at hone ⊢
    by_cases hsending : (s.take taken).sending = true
    · rw [if_pos hsending] at hone ⊢
      refine h.join htaken hdue hone ⟨rfl, rfl⟩ rfl rfl rfl rfl ?_
        ⟨s.tasks.flatMap TaskPc.unqueued, ?_, ?_⟩
      · intro hc
        rw [show (s.take taken).reader = .idle from hidle] at hc
        exact absurd rfl hc
      · exact (List.sublist_append_left _ _).trans (List.sublist_append_left _ _)
      · unfold waiting owed
        dsimp only
        rw [if_neg hnotify, show (s.take taken).reader = .idle from hidle]
        exact List.append_nil _
    · have hnone : s.tasks = [] := by
        rcases h.one with ⟨-, htasks, -⟩ | ⟨hc, -⟩
        · exact htasks
        · exact absurd hc hsending
      rw [if_neg hsending] at hone ⊢
      refine h.join htaken hdue hone ⟨rfl, rfl⟩ rfl rfl rfl ?_ ?_ ⟨[], ?_, ?_⟩
      · unfold heldSeqs
        rw [show (s.take taken).tasks = [] from hnone, hnone]
        rfl
      · intro hc
        rw [show (s.take taken).reader = .idle from hidle] at hc
        exact absurd rfl hc
      · exact List.nil_sublist _
      · unfold waiting owed
        dsimp only
        rw [if_neg hnotify, show (s.take taken).reader = .idle from hidle,
          show (s.take taken).tasks = [] from hnone]
        rfl

end Taken

private theorem Ordered.readerNumbers (h : s.Ordered sid) (howed : s.owed = [])
    (hrecent : ∀ s', s.next config sid .number = some s' → s'.Recent)
    (hnext : s.next config sid .number = some s') : s'.Ordered sid := by
  have hrecent := hrecent s' hnext
  simp only [State.next] at hnext
  split at hnext
  next u hreader =>
    cases hnext
    have htasks := h.one.seqs_of_owed howed
    refine h.numbers hrecent h.one ⟨rfl, rfl⟩ rfl rfl rfl ?_ ?_ (fun _ => howed) ?_
    · unfold heldSeqs
      rw [htasks, hreader]
      rfl
    · unfold heldSeqs
      dsimp only
      rw [htasks]
      rfl
    · unfold waiting
      rw [hreader]
      rfl
  next => cases hnext

private theorem Ordered.readerQueues (h : s.Ordered sid)
    (hnext : s.next config sid .queue = some s') : s'.Ordered sid := by
  simp only [State.next] at hnext
  split at hnext
  next u seq hreader =>
    obtain ⟨shaper, hpush, rfl⟩ := Option.map_eq_some_iff.mp hnext
    have howed : s.owed = [] := h.turn (by rw [hreader]; exact List.cons_ne_nil _ _)
    have htasks := h.one.seqs_of_owed howed
    refine h.queues u seq h.one hpush ⟨rfl, rfl⟩ rfl rfl ?_ ?_ (fun hc => absurd rfl hc) ?_
    · unfold heldSeqs
      rw [htasks, hreader]
      rfl
    · unfold heldSeqs
      dsimp only
      rw [htasks]
      rfl
    · unfold waiting
      rw [hreader, howed, show ({ s with reader := .result, shaper := shaper } : State).owed = [] from
        howed]
      rfl
  next => cases hnext

private theorem Ordered.setReader (h : s.Ordered sid) {pc : ReaderPc} (hseqs : pc.seqs = [])
    (hunqueued : pc.unqueued.Sublist s.reader.unqueued) :
    ({ s with reader := pc } : State).Ordered sid := by
  refine h.shrink h.one h.numRead rfl rfl (List.Sublist.refl _) ?_ (fun hc => absurd hseqs hc) ?_
    (Nat.le_refl _)
  · unfold heldSeqs
    dsimp only
    rw [hseqs]
    exact (List.Sublist.refl _).append (List.nil_sublist _)
  · exact (List.Sublist.refl _).append hunqueued

private theorem Ordered.next (hversion : config.version = 2) (h : s.Ordered sid) {a : Action}
    (hturn : s.InTurn config sid a) (hnext : s.next config sid a = some s') : s'.Ordered sid := by
  have hrecent : s'.Recent := hturn.2 s' hnext
  have hchunk := Window.popChunk_taken hversion s.buf
  cases a with
  | receive data =>
    cases hnext
    exact h.shrink h.one h.numRead rfl rfl (List.Sublist.refl _) (List.Sublist.refl _) h.turn
      (List.Sublist.refl _) (Nat.le_refl _)
  | read size =>
    obtain ⟨⟨hidle, -⟩, hs'⟩ := Option.ite_none_right_eq_some.mp hnext
    obtain rfl := Option.some.inj hs'
    exact h.afterRead (Window.takeFront_taken hversion s.buf size) hidle
  | readChunk =>
    obtain ⟨hidle, hs'⟩ := Option.ite_none_right_eq_some.mp hnext
    obtain rfl := Option.some.inj hs'
    exact h.afterChunk hchunk hidle
  | writeTo =>
    obtain ⟨hidle, hs'⟩ := Option.ite_none_right_eq_some.mp hnext
    obtain rfl := Option.some.inj hs'
    exact h.beginWrite hchunk hidle
  | written ok =>
    simp only [State.next] at hnext
    split at hnext
    next u hreader =>
      cases hnext
      cases ok with
      | true =>
        apply h.setReader rfl
        rw [hreader]
        exact List.Sublist.refl _
      | false => exact h.setReader rfl (List.nil_sublist _)
    next =>
      cases hnext
      exact h.setReader rfl (List.nil_sublist _)
    next => cases hnext
  | number => exact h.readerNumbers (hturn.1 rfl) hturn.2 hnext
  | queue => exact h.readerQueues hnext
  | stop =>
    simp only [State.next] at hnext
    split at hnext
    next =>
      cases hnext
      exact h.setReader rfl (List.nil_sublist _)
    next =>
      cases hnext
      exact h.setReader rfl (List.nil_sublist _)
    next => cases hnext
  | task i step =>
    obtain ⟨hsending, hmoved⟩ := h.one.step hnext
    exact h.taskMoved hsending hrecent hmoved
  | otherNumbers =>
    cases hnext
    obtain ⟨hnodup, -⟩ := h.draw hrecent rfl (List.Perm.refl _)
    exact ⟨h.one, h.numRead, h.sorted, h.control, hnodup, hrecent, h.turn, h.line⟩
  | otherQueues seq class_ sid' =>
    obtain ⟨hmem, hs'⟩ := Option.ite_none_right_eq_some.mp hnext
    obtain ⟨shaper, hpush, rfl⟩ := Option.map_eq_some_iff.mp hs'
    have hmoved : (s.others ++ s.heldSeqs).Perm
        (seq :: (s.others.erase seq ++ s.heldSeqs)) :=
      (List.perm_cons_erase hmem).append_right _
    let s' : State := { s with others := s.others.erase seq, shaper := shaper }
    obtain ⟨hsorted, hnodup, hrecent, hcontrol⟩ := @Ordered.push sid s s' h _ hpush rfl hmoved
      fun u hu => by cases hu
    obtain ⟨hqueued, hpopped⟩ := push_queued h.sorted hpush
    obtain ⟨q, hline⟩ := h.line
    refine ⟨h.one, h.numRead, hsorted, hcontrol, hnodup, hrecent, h.turn, q, hline.other ?_ ?_⟩
    · rw [hpopped]
    · exact hqueued.filter _
  | otherGivesUp seq =>
    obtain ⟨-, hs'⟩ := Option.ite_none_right_eq_some.mp hnext
    obtain rfl := Option.some.inj hs'
    exact h.shrink h.one h.numRead rfl rfl List.erase_sublist (List.Sublist.refl _) h.turn
      (List.Sublist.refl _) (Nat.le_refl _)
  | sendLoop =>
    obtain ⟨shaper, hpop, rfl⟩ := Option.map_eq_some_iff.mp hnext
    exact h.sendLoop hpop

end State

private theorem itimediff_counts {u v : Upd} (hu : u.consumed = UInt32.ofNat u.count)
    (hv : v.consumed = UInt32.ofNat v.count) (hle : u.count ≤ v.count)
    (hclose : v.count - u.count < 2147483648) : 0 ≤ itimediff v.consumed u.consumed := by
  unfold itimediff
  rw [hu, hv, Serial.diff_of_stands (Serial.stands_ofNat v.count) (Serial.stands_ofNat u.count)
    (by omega) (by omega)]
  omega

/-- At most one sender task runs, and none leaves an update pending. In every run in which the
reader asks for no update of its own while the task owes an older one, and no request waits while
`2 ^ 31` others draw their numbers, the updates leave the queue in the order of their counts, and so
in wrapping order where fewer than `2 ^ 31` bytes lie between two of them. -/
theorem updates_never_go_back {config : Config} {sid : UInt32} (hversion : config.version = 2)
    {actions : List Action} {s : State}
    (hrun : exec (State.next config sid) {} actions = some s) :
    s.tasks.length ≤ 1 ∧ (s.tasks = [] → s.pending.consumed = 0) ∧
      (Along (State.next config sid) (State.InTurn config sid) {} actions →
        s.sent.Pairwise fun u v => u.count ≤ v.count ∧
          (v.count - u.count < 2147483648 → 0 ≤ itimediff v.consumed u.consumed)) := by
  have hone : s.OneTask := exec_invariant_all State.OneTask (fun _ _ _ h hnext => h.next hnext)
    (.inl ⟨rfl, rfl, rfl⟩) hrun
  refine ⟨?_, ?_, ?_⟩
  · rcases hone with ⟨-, htasks, -⟩ | ⟨-, pc, htasks⟩
    · rw [htasks]
      exact Nat.zero_le 1
    · rw [htasks]
      exact Nat.le_refl 1
  · intro hnone
    rcases hone with ⟨-, -, hpending⟩ | ⟨-, pc, htasks⟩
    · exact hpending
    · rw [htasks] at hnone
      cases hnone
  · intro hturn
    obtain ⟨horder, hexact⟩ := (exec_invariant (State.Ordered sid)
      (fun _ _ _ h hok hnext => h.next hversion hok hnext) (State.ordered_new sid) hturn hrun).sent
    refine List.Pairwise.imp_of_mem (fun {u v} hu hv hle => ⟨hle, ?_⟩) horder
    intro hclose
    exact itimediff_counts (hexact u hu) (hexact v hv) hle hclose

/-- A chunk is read, its update is sent by the task, and a second one by `read`. -/
def inTurn : List Action :=
  [.receive [1], .receive [2], .readChunk, .task 0 (.take false), .task 0 .number, .task 0 .queue,
    .sendLoop, .task 0 .finish, .read 8, .number, .queue, .sendLoop]

theorem updates_never_go_back_inTurn :
    ∃ s : State, s.sent = [⟨1, 1⟩, ⟨2, 2⟩] ∧ s.tasks.length ≤ 1 ∧
      s.sent.Pairwise fun u v => u.count ≤ v.count ∧
        (v.count - u.count < 2147483648 → 0 ≤ itimediff v.consumed u.consumed) := by
  obtain ⟨s, hrun, hsent⟩ : ∃ s, exec (State.next Window.smallConfig 3) {} inTurn = some s ∧
      s.sent = [⟨1, 1⟩, ⟨2, 2⟩] := ⟨_, rfl, rfl⟩
  obtain ⟨hone, -, horder⟩ := updates_never_go_back rfl hrun
  have hturn : Along (State.next Window.smallConfig 3) (State.InTurn Window.smallConfig 3) {}
      inTurn := by decide
  exact ⟨s, hsent, hone, horder hturn⟩

/-- The task holds the update of a chunk when `read` asks for its own, and draws its number later. -/
def overtaken : List Action :=
  [.receive [1], .receive [2], .readChunk, .task 0 (.take false), .read 8, .number, .queue,
    .sendLoop, .task 0 .number, .task 0 .queue, .sendLoop]

/-- The update of two bytes leaves the queue before that of one byte. -/
theorem update_overtaken :
    ∃ s : State, exec (State.next Window.smallConfig 3) {} overtaken = some s ∧
      s.sent = [⟨2, 2⟩, ⟨1, 1⟩] ∧ itimediff 1 2 < 0 :=
  ⟨_, rfl, rfl, by decide⟩

end Kcptun.Smux.UpdateTask
