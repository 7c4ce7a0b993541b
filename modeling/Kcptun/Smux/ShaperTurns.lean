/- Kcptun/Smux/ShaperTurns
   source: crates/smux/src/shaper.rs (ShaperQueue::push, ShaperQueue::pop)
   digest: Which streams the write queue serves between two requests of one stream. -/

import Kcptun.Smux.ShaperQueue

set_option autoImplicit false
set_option relaxedAutoImplicit false

namespace Kcptun.Smux

open Kcptun.Lib

def turnsOf {T : Type} (sid : UInt32) (served : List (WriteRequest T)) : ℕ :=
  served.countP fun req => req.sid = sid

namespace ShaperRun

variable {T : Type} {s s' : ShaperRun T} {op : ShaperOp T} {a b : UInt32} {t : Turns (ℕ × UInt32)}

def Serves (s : ShaperRun T) (sid : UInt32) (s' : ShaperRun T) : Prop :=
  s.next .pop = some s' ∧ ∃ req, s'.popped = s.popped ++ [req] ∧ req.sid = sid

def Waits (sid : UInt32) (s : ShaperRun T) : Prop := s.queue.pending sid ≠ []

instance (sid : UInt32) (s : ShaperRun T) : Decidable (s.Waits sid) :=
  inferInstanceAs (Decidable (_ ≠ _))

/-- Stream `a` stands behind `b` in the round-robin list, or nothing does. -/
def Behind (a b : UInt32) (s : ShaperRun T) : Prop :=
  ∃ xs ys, s.queue.rrList.sids = xs ++ b :: ys ∧ (a ∈ ys ∨ ys = [])

/-- The streams, with the cursor. -/
def At (s : ShaperRun T) (t : Turns UInt32) : Prop := ∃ t', s.queue.Ok t' ∧ t'.map Prod.snd = t

variable {t : Turns UInt32}

private theorem At.nodup (h : s.At t) : t.members.Nodup := by
  obtain ⟨t', hok, rfl⟩ := h
  rw [Turns.members_map]
  exact hok.sids

private theorem At.sids_eq (h : s.At t) : s.queue.rrList.sids = t.members := by
  obtain ⟨t', hok, rfl⟩ := h
  rw [Turns.members_map, RrList.sids, hok.list.walk_eq]

private theorem At.mem_iff (h : s.At t) : a ∈ t.members ↔ s.Waits a := by
  obtain ⟨t', hok, rfl⟩ := h
  rw [Turns.members_map, hok.keys, Waits, hok.pending_ne_nil]

private theorem At.next (h : s.At t) (hnext : s.next op = some s') :
    (s'.popped = s.popped ∧ ∃ t', s'.At t' ∧ (t' = t ∨ ∃ sid, sid ∉ t.members ∧ t' = t.join sid)) ∨
    (∃ passed x rest req, op = .pop ∧ t = ⟨passed, x :: rest⟩ ∧ s'.popped = s.popped ++ [req] ∧
      req.sid = x ∧ ((s'.Waits x ∧ s'.At (Turns.keep passed x rest)) ∨
        (¬ s'.Waits x ∧ s'.At (Turns.leave passed rest)))) := by
  obtain ⟨t', hok, rfl⟩ := h
  cases op with
  | push req =>
    obtain ⟨q', t1, hpush, hok', hjoin, -⟩ := hok.push_spec req
    rw [ShaperRun.next, hpush] at hnext
    cases hnext
    refine .inl ⟨rfl, t1.map Prod.snd, ⟨t1, hok', rfl⟩, ?_⟩
    rcases hjoin with rfl | ⟨hout, id, rfl⟩
    · exact .inl rfl
    · refine .inr ⟨req.sid, ?_, Turns.map_join ..⟩
      rw [Turns.members_map, hok.keys]
      exact hout
  | pop =>
    obtain ⟨passed, ahead⟩ := t'
    cases ahead with
    | nil =>
      rw [ShaperRun.next, hok.pop_none rfl] at hnext
      cases hnext
      exact .inl ⟨List.append_nil _, _, ⟨_, hok, rfl⟩, .inl rfl⟩
    | cons x rest =>
      obtain ⟨req, q', hpop, hok', hsid, -⟩ := hok.pop_spec
      rw [ShaperRun.next, hpop] at hnext
      cases hnext
      refine .inr ⟨_, _, _, req, rfl, rfl, rfl, hsid, ?_⟩
      cases hempty : (q'.heapOf x.2).isEmpty with
      | true =>
        rw [hempty, if_pos rfl] at hok'
        refine .inr ⟨fun hwaits => hwaits (ShaperQueue.requests_eq_nil.mpr hempty), _, hok', ?_⟩
        exact Turns.map_leave ..
      | false =>
        rw [hempty, if_neg Bool.false_ne_true] at hok'
        refine .inl ⟨?_, _, hok', Turns.map_keep ..⟩
        intro hnil
        rw [ShaperQueue.requests_eq_nil.mp hnil] at hempty
        cases hempty

/-- While `a` comes before `b`, it is not `b` that is served; and once `a` has been served and stays,
`b` comes before `a`. -/
theorem At.awaits_next (h : s.At t) (hnext : s.next op = some s') (hawaits : t.Awaits a b)
    (hne : a ≠ b) (ha : s'.Waits a) :
    ∃ served t', s'.popped = s.popped ++ served ∧ s'.At t' ∧ turnsOf b served = 0 ∧
      ((turnsOf a served = 0 ∧ t'.Awaits a b) ∨
        (turnsOf a served = 1 ∧ (s.Waits b → t'.Awaits b a))) := by
  rcases h.next hnext with ⟨hpopped, t', hat, hjoin⟩ |
    ⟨passed, x, rest, req, rfl, rfl, hpopped, hreq, hafter⟩
  · refine ⟨[], t', by rw [hpopped, List.append_nil], hat, rfl, .inl ⟨rfl, ?_⟩⟩
    rcases hjoin with rfl | ⟨sid, -, rfl⟩
    · exact hawaits
    · exact hawaits.join sid
  · have hnodup := h.nodup
    have hcount (sid : UInt32) : turnsOf sid [req] = if x = sid then 1 else 0 := by
      simp [turnsOf, hreq]
    by_cases hx : x = a
    · subst hx
      rcases hafter with ⟨-, hat⟩ | ⟨hgone, -⟩
      · refine ⟨[req], _, hpopped, hat, by rw [hcount, if_neg hne], .inr ⟨?_, ?_⟩⟩
        · rw [hcount, if_pos rfl]
        · intro hb
          exact Turns.awaits_keep hnodup (h.mem_iff.mpr hb) (Ne.symm hne)
      · exact absurd ha hgone
    · obtain ⟨hxb, hkeep, hleave⟩ := hawaits.served hnodup hx
      rcases hafter with ⟨-, hat⟩ | ⟨-, hat⟩
      · refine ⟨[req], _, hpopped, hat, by rw [hcount, if_neg hxb], .inl ⟨?_, hkeep⟩⟩
        rw [hcount, if_neg hx]
      · refine ⟨[req], _, hpopped, hat, by rw [hcount, if_neg hxb], .inl ⟨?_, hleave⟩⟩
        rw [hcount, if_neg hx]

private theorem turnsOf_append (sid : UInt32) (xs ys : List (WriteRequest T)) :
    turnsOf sid (xs ++ ys) = turnsOf sid xs + turnsOf sid ys := List.countP_append

private theorem popped_next (hnext : s.next op = some s') :
    ∃ served, s'.popped = s.popped ++ served := by
  cases op with
  | push req =>
    obtain ⟨q, -, rfl⟩ := Option.map_eq_some_iff.mp hnext
    exact ⟨[], (List.append_nil _).symm⟩
  | pop =>
    obtain ⟨r, -, rfl⟩ := Option.map_eq_some_iff.mp hnext
    exact ⟨_, rfl⟩

private theorem popped_run {ops : List (ShaperOp T)} (hrun : exec ShaperRun.next s ops = some s') :
    ∃ served, s'.popped = s.popped ++ served := by
  induction ops generalizing s with
  | nil =>
    cases hrun
    exact ⟨[], (List.append_nil _).symm⟩
  | cons op ops ih =>
    obtain ⟨s1, hnext, hrest⟩ := exec_cons_iff.mp hrun
    obtain ⟨xs, hxs⟩ := popped_next hnext
    obtain ⟨ys, hys⟩ := ih hrest
    exact ⟨xs ++ ys, by rw [hys, hxs, List.append_assoc]⟩

/-- Stream `sid` has a request queued all the time, from `s` to the end of the run. -/
def WaitsThrough (sid : UInt32) (s : ShaperRun T) (ops : List (ShaperOp T)) : Prop :=
  Along ShaperRun.next (fun s _ => s.Waits sid) s ops ∧
    ∀ s', exec ShaperRun.next s ops = some s' → s'.Waits sid

variable {ops : List (ShaperOp T)} {s1 : ShaperRun T} {served : List (WriteRequest T)}

private theorem WaitsThrough.head (h : WaitsThrough a s ops) : s.Waits a := by
  cases ops with
  | nil => exact h.2 s rfl
  | cons op ops => exact h.1.1

private theorem WaitsThrough.tail (h : WaitsThrough a s (op :: ops)) (hnext : s.next op = some s1) :
    WaitsThrough a s1 ops :=
  ⟨h.1.2 s1 hnext, fun s' hrun => h.2 s' (exec_cons_iff.mpr ⟨s1, hnext, hrun⟩)⟩

private theorem At.awaits_run (h : s.At t) (hrun : exec ShaperRun.next s ops = some s')
    (hawaits : t.Awaits a b) (hne : a ≠ b) (ha : WaitsThrough a s ops)
    (hserved : s'.popped = s.popped ++ served) (hnone : turnsOf a served = 0) :
    turnsOf b served = 0 ∧ ∃ t', s'.At t' ∧ t'.Awaits a b := by
  induction ops generalizing s t served with
  | nil =>
    cases hrun
    rw [List.self_eq_append_right.mp hserved]
    exact ⟨rfl, t, h, hawaits⟩
  | cons op ops ih =>
    obtain ⟨s1, hnext, hrest⟩ := exec_cons_iff.mp hrun
    have hlater := ha.tail hnext
    obtain ⟨xs, t1, hxs, hat, hb, hturn⟩ := h.awaits_next hnext hawaits hne hlater.head
    obtain ⟨ys, hys⟩ := popped_run hrest
    have heq : served = xs ++ ys := by
      rw [hys, hxs, List.append_assoc] at hserved
      exact (List.append_cancel_left hserved).symm
    rw [heq, turnsOf_append] at hnone
    rcases hturn with ⟨-, hkept⟩ | ⟨hone, -⟩
    · obtain ⟨hrestb, hend⟩ := ih hat hrest hkept hlater hys (by omega)
      rw [heq, turnsOf_append, hb, hrestb]
      exact ⟨rfl, hend⟩
    · omega

private theorem At.turns_le_one (h : s.At t) (hrun : exec ShaperRun.next s ops = some s')
    (hawaits : t.Awaits a b) (hne : a ≠ b) (ha : WaitsThrough a s ops) (hb : WaitsThrough b s ops)
    (hserved : s'.popped = s.popped ++ served) (hnone : turnsOf b served = 0) :
    turnsOf a served ≤ 1 := by
  induction ops generalizing s t served with
  | nil =>
    cases hrun
    rw [List.self_eq_append_right.mp hserved]
    exact Nat.zero_le 1
  | cons op ops ih =>
    obtain ⟨s1, hnext, hrest⟩ := exec_cons_iff.mp hrun
    have hlater := ha.tail hnext
    obtain ⟨xs, t1, hxs, hat, -, hturn⟩ := h.awaits_next hnext hawaits hne hlater.head
    obtain ⟨ys, hys⟩ := popped_run hrest
    have heq : served = xs ++ ys := by
      rw [hys, hxs, List.append_assoc] at hserved
      exact (List.append_cancel_left hserved).symm
    rw [heq, turnsOf_append] at hnone ⊢
    rcases hturn with ⟨hzero, hkept⟩ | ⟨hone, hswap⟩
    · have := ih hat hrest hkept hlater (hb.tail hnext) hys (by omega)
      omega
    · have hback := hswap hb.head
      have := (hat.awaits_run hrest hback (Ne.symm hne) (hb.tail hnext) hys (by omega)).1
      omega

private theorem Serves.awaits {x : UInt32} (h : s.At t) (hserves : s.Serves x s') (hne : a ≠ x)
    (ha : s.Waits a) (hplace : s'.Waits x ∨ s.Behind a x) : ∃ t', s'.At t' ∧ t'.Awaits a x := by
  obtain ⟨hnext, req, hpopped, hreq⟩ := hserves
  have hmem := h.mem_iff.mpr ha
  have hnodup := h.nodup
  have hsids := h.sids_eq
  rcases h.next hnext with ⟨hsame, -⟩ | ⟨passed, y, rest, req', -, rfl, hpopped', hreq', hafter⟩
  · rw [hsame] at hpopped
    exact absurd hpopped (by simp)
  · obtain rfl : req' = req := by
      rw [hpopped] at hpopped'
      simpa using hpopped'.symm
    obtain rfl : y = x := hreq'.symm.trans hreq
    rcases hafter with ⟨-, hat⟩ | ⟨hgone, hat⟩
    · exact ⟨_, hat, Turns.awaits_keep hnodup hmem hne⟩
    · refine ⟨_, hat, Turns.awaits_leave hnodup ?_⟩
      obtain ⟨xs, ys, heq, hys⟩ := hplace.resolve_left hgone
      rw [hsids] at heq
      have hsplit : passed ++ y :: rest = xs ++ y :: ys := heq
      have hnot : y ∉ rest := (List.nodup_cons.mp (List.nodup_append.mp hnodup).2.1).1
      have hpassed : y ∉ passed := fun hy =>
        (List.nodup_append.mp hnodup).2.2 y hy y List.mem_cons_self rfl
      have hrest : rest = ys := ((List.append_cons_inj_of_notMem hpassed hnot).mp hsplit).2.2
      rcases hys with hin | hnil
      · exact .inl (hrest ▸ hin)
      · rw [hrest, hnil] at hmem ⊢
        refine .inr ⟨?_, rfl⟩
        rcases List.mem_append.mp hmem with hin | hin
        · exact hin
        · exact absurd (List.mem_singleton.mp hin) hne

private theorem at_of_run (hrun : exec ShaperRun.next {} ops = some s) : ∃ t, s.At t := by
  have hinv : s.Invariant := by
    refine exec_invariant_all Invariant ?_ invariant_new hrun
    intro s op s' h hnext
    obtain ⟨s1, hnext', h'⟩ := h.next op
    rw [hnext] at hnext'
    cases hnext'
    exact h'
  obtain ⟨⟨t, hok⟩, -⟩ := hinv
  exact ⟨_, t, hok, rfl⟩

end ShaperRun

open ShaperRun in
/-- Between two requests of stream `b` with none of `b` in between, a stream `a` with a request queued
all the time is served at least once if `b` has another request queued after the first one, or if `a`
stands behind `b` or nothing does; and exactly once if `b` has a request queued all the time. -/
theorem served_between {T : Type} (hist between : List (ShaperOp T)) (s s1 s2 s3 : ShaperRun T)
    (a b : UInt32) (served : List (WriteRequest T)) (hne : a ≠ b)
    (hhist : exec ShaperRun.next {} hist = some s) (hfirst : s.Serves b s1)
    (hbetween : exec ShaperRun.next s1 between = some s2) (hserved : s2.popped = s1.popped ++ served)
    (hnone : turnsOf b served = 0) (hsecond : s2.Serves b s3) (hstart : s.Waits a)
    (ha : WaitsThrough a s1 between) :
    (s1.Waits b ∨ s.Behind a b → 1 ≤ turnsOf a served) ∧
      (WaitsThrough b s1 between → turnsOf a served = 1) := by
  obtain ⟨t, hat⟩ := at_of_run hhist
  have hleast (hplace : s1.Waits b ∨ s.Behind a b) : 1 ≤ turnsOf a served := by
    obtain ⟨t1, hat1, hawaits⟩ := hfirst.awaits hat hne hstart hplace
    by_contra hzero
    obtain ⟨-, t2, hat2, hawaits2⟩ := hat1.awaits_run hbetween hawaits hne ha hserved (by omega)
    obtain ⟨hnext, req, hpopped, hreq⟩ := hsecond
    rcases hat2.next hnext with ⟨hsame, -⟩ | ⟨passed, x, rest, req', -, rfl, hpopped', hreq', -⟩
    · rw [hsame] at hpopped
      exact absurd hpopped (by simp)
    · obtain rfl : req' = req := by
        rw [hpopped] at hpopped'
        simpa using hpopped'.symm
      have hx : x = b := hreq'.symm.trans hreq
      refine (hawaits2.served hat2.nodup ?_).1 hx
      rw [hx]
      exact Ne.symm hne
  refine ⟨hleast, ?_⟩
  intro hb
  obtain ⟨t1, hat1, hawaits⟩ := hfirst.awaits hat hne hstart (.inl hb.head)
  have hmost := hat1.turns_le_one hbetween hawaits hne ha hb hserved hnone
  have := hleast (.inl hb.head)
  omega

def frame (sid seq : UInt32) : WriteRequest Unit := ⟨.data, sid, seq, ()⟩

/-- Streams 1, 2 and 3 have requests, and stream 1 has been served. -/
def threeStreams : List (ShaperOp Unit) :=
  [.push (frame 1 1), .push (frame 1 2), .push (frame 1 6), .push (frame 2 3), .push (frame 2 4),
    .push (frame 3 5), .pop]

private theorem waitsThrough_iff {T : Type} {sid : UInt32} {s s' : ShaperRun T}
    {ops : List (ShaperOp T)} (hrun : exec ShaperRun.next s ops = some s') :
    s.WaitsThrough sid ops ↔ Along ShaperRun.next (fun s _ => s.Waits sid) s ops ∧ s'.Waits sid := by
  constructor
  · intro h
    exact ⟨h.1, h.2 s' hrun⟩
  · intro h
    refine ⟨h.1, ?_⟩
    intro s'' hrun'
    rw [hrun] at hrun'
    cases hrun'
    exact h.2

theorem served_between_three : ∃ s s1 s2 s3 : ShaperRun Unit,
    exec ShaperRun.next {} threeStreams = some s ∧ s.next .pop = some s1 ∧
      exec ShaperRun.next s1 [.pop, .pop] = some s2 ∧ s2.next .pop = some s3 ∧
      s2.popped = s1.popped ++ [frame 3 5, frame 1 2] ∧
      turnsOf 1 [frame 3 5, frame 1 2] = 1 := by
  obtain ⟨s, s1, s2, s3, hhist, hfirst, hreq, hbetween, hserved, hsecond, hreq', hstart, ha, hend, hb,
      hendb⟩ : ∃ s s1 s2 s3 : ShaperRun Unit, exec ShaperRun.next {} threeStreams = some s ∧
      s.next .pop = some s1 ∧ s1.popped = s.popped ++ [frame 2 3] ∧
      exec ShaperRun.next s1 [.pop, .pop] = some s2 ∧
      s2.popped = s1.popped ++ [frame 3 5, frame 1 2] ∧ s2.next .pop = some s3 ∧
      s3.popped = s2.popped ++ [frame 2 4] ∧ s.Waits 1 ∧
      Along ShaperRun.next (fun s _ => s.Waits 1) s1 [.pop, .pop] ∧ s2.Waits 1 ∧
      Along ShaperRun.next (fun s _ => s.Waits 2) s1 [.pop, .pop] ∧ s2.Waits 2 := by
    refine ⟨_, _, _, _, rfl, rfl, ?_, rfl, ?_, rfl, ?_⟩ <;> decide +kernel
  have hone := (served_between threeStreams [.pop, .pop] s s1 s2 s3 1 2 _ (by decide) hhist
    ⟨hfirst, _, hreq, rfl⟩ hbetween hserved (by decide) ⟨hsecond, _, hreq', rfl⟩ hstart
    ((waitsThrough_iff hbetween).mpr ⟨ha, hend⟩)).2 ((waitsThrough_iff hbetween).mpr ⟨hb, hendb⟩)
  exact ⟨s, s1, s2, s3, hhist, hfirst, hbetween, hsecond, hserved, hone⟩

/-- Stream 2 runs empty, comes back at the end of the list and is served again before the cursor has
reached stream 1. -/
theorem served_twice_before : ∃ s s1 s2 s3 : ShaperRun Unit,
    exec ShaperRun.next {} [.push (frame 1 1), .push (frame 1 2), .push (frame 2 3),
      .push (frame 3 4), .pop] = some s ∧ s.Serves 2 s1 ∧
    exec ShaperRun.next s1 [.push (frame 2 5), .pop] = some s2 ∧
    s2.popped = s1.popped ++ [frame 3 4] ∧ s2.Serves 2 s3 ∧
    s.Waits 1 ∧ s1.WaitsThrough 1 [.push (frame 2 5), .pop] := by
  refine ⟨_, _, _, _, rfl, ⟨rfl, frame 2 3, ?_, rfl⟩, rfl, ?_, ⟨rfl, frame 2 5, ?_, rfl⟩, ?_,
    (waitsThrough_iff rfl).mpr ⟨?_, ?_⟩⟩ <;> decide +kernel

end Kcptun.Smux
