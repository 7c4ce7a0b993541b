/- Kcptun/Smux/Sending
   source: crates/smux/src/session.rs (write_frame_internal, send_loop)
   digest: The way of a frame out of a session: it is numbered, waits for a slot, is queued and is
     written. What is on the wire are whole frames, and the data frames of a stream are there in the
     order in which they were queued, also where the numbers wrap. -/

import Kcptun.Smux.Frames
import Kcptun.Smux.ShaperOrder

set_option autoImplicit false
set_option relaxedAutoImplicit false

namespace Kcptun.Smux.Sending

open Kcptun.Lib Kcptun.Lib.LittleEndian Kcptun.Smux.Frames

def MAX_SHAPER_SIZE : ℕ := 1024

/-- What the queue carries: the frame, and how many requests had been numbered with this one. -/
structure RequestBody where
  frame : Frame
  no : ℕ
deriving DecidableEq, Repr

abbrev Request := WriteRequest RequestBody

/-- The requests of a session and its send loop. The last two fields are history: how many requests
were numbered, and what the connection took. -/
structure Outgoing where
  requestId : UInt32 := 0
  waiting : List Request := []
  shaper : ShaperRun RequestBody := {}
  sendDone : Bool := false
  numbered : ℕ := 0
  wire : Bytes := []

inductive Op where
  | number (frame : Frame) (class_ : ClassId)
  | enqueue (k : ℕ)
  | abandon (k : ℕ)
  | send
  | cut (n : ℕ)
deriving DecidableEq, Repr

namespace Outgoing

def number (o : Outgoing) (frame : Frame) (class_ : ClassId) : Outgoing := { o with
  requestId := o.requestId + 1
  numbered := o.numbered + 1
  waiting := o.waiting ++ [⟨class_, frame.sid, o.requestId + 1, ⟨frame, o.numbered + 1⟩⟩] }

def enqueue (o : Outgoing) (k : ℕ) : Option Outgoing :=
  if o.shaper.queue.len < MAX_SHAPER_SIZE then
    o.waiting[k]?.bind fun req => (o.shaper.next (.push req)).map fun shaper =>
      { o with shaper, waiting := o.waiting.eraseIdx k }
  else none

/-- The send loop takes a request, and the connection takes `write` of its frame. -/
def pop (o : Outgoing) (write : Bytes → Bytes) : Option Outgoing :=
  if o.sendDone then none
  else o.shaper.queue.pop.bind fun r => r.1.map fun req => { o with
    shaper := { o.shaper with queue := r.2, popped := o.shaper.popped ++ [req] }
    wire := o.wire ++ write req.body.frame.encode }

def next (o : Outgoing) : Op → Option Outgoing
  | .number frame class_ => some (o.number frame class_)
  | .enqueue k => o.enqueue k
  | .abandon k =>
    if k < o.waiting.length then some { o with waiting := o.waiting.eraseIdx k } else none
  | .send => o.pop id
  | .cut n => (o.pop (List.take n)).map fun o => { o with sendDone := true }

end Outgoing

/-! What is asked of a frame, and of the pace of the queue. -/

def isPsh (sid : UInt32) (req : Request) : Bool :=
  req.body.frame.sid = sid ∧ req.body.frame.cmd = CMD_PSH

def pshOf (sid : UInt32) (reqs : List Request) : List Request := reqs.filter (isPsh sid)

def framesOf (reqs : List Request) : List Frame := reqs.map fun req => req.body.frame

/-- The frame is one that the peer accepts, its class is that of its command, and no data frame of
the same stream waits for a slot. -/
structure Op.Fits (version : UInt8) (o : Outgoing) (frame : Frame) (class_ : ClassId) : Prop where
  valid : frame.Valid version
  data : frame.cmd = CMD_PSH → class_ = .data ∧ pshOf frame.sid o.waiting = []

def Op.Allowed (version : UInt8) (o : Outgoing) : Op → Prop
  | .number frame class_ => Op.Fits version o frame class_
  | _ => True

def Outgoing.Prompt (o : Outgoing) : Prop :=
  ∀ req ∈ o.shaper.queue.queued, o.numbered < req.body.no + 2147483648

section Numbers

variable {o : Outgoing} {a b : Request}

/-- The number of a request as the queue sees it. -/
structure Outgoing.Issued (o : Outgoing) (req : Request) : Prop where
  seq : req.seq = UInt32.ofNat req.body.no
  le : req.body.no ≤ o.numbered
  sid : req.sid = req.body.frame.sid
  data : req.body.frame.cmd = CMD_PSH → req.class_ = .data

def Outgoing.base (o : Outgoing) : ℕ := o.numbered - 2147483647

private theorem Outgoing.Issued.distance (h : o.Issued a)
    (hprompt : o.numbered < a.body.no + 2147483648) :
    (a.seq - UInt32.ofNat o.base).toNat = a.body.no - o.base ∧ o.base ≤ a.body.no ∧
      a.body.no - o.base < 2147483648 := by
  have hle := h.le
  have hbase : o.base ≤ a.body.no ∧ a.body.no - o.base < 2147483648 := by
    unfold Outgoing.base
    omega
  refine ⟨?_, hbase⟩
  obtain ⟨d, hd⟩ := Nat.exists_eq_add_of_le hbase.1
  have hsub : a.seq - UInt32.ofNat o.base = UInt32.ofNat d := by
    rw [h.seq, hd, UInt32.ofNat_add, add_comm, add_sub_cancel_right]
  rw [hsub, UInt32.toNat_ofNat', hd, Nat.add_sub_cancel_left]
  exact Nat.mod_eq_of_lt (by omega)

private theorem Outgoing.Issued.no_lt (ha : o.Issued a) (hb : o.Issued b)
    (hpa : o.numbered < a.body.no + 2147483648) (hpb : o.numbered < b.body.no + 2147483648)
    (hclass : a.class_ = b.class_) (hbefore : a.before b = true) : a.body.no < b.body.no := by
  obtain ⟨hda, hle, hlt⟩ := ha.distance hpa
  obtain ⟨hdb, hle', hlt'⟩ := hb.distance hpb
  rw [before_iff (by rw [hda]; exact hlt) (by rw [hdb]; exact hlt'), hda, hdb] at hbefore
  rcases hbefore with hless | ⟨-, hless⟩
  · rw [hclass] at hless
    cases hc : b.class_ <;> rw [hc] at hless <;> cases hless
  · omega

end Numbers

/-! What the queue does to the requests in it. -/

section Queue

variable {T : Type} {s s' : ShaperRun T} {q' : ShaperQueue T} {req : WriteRequest T}

private theorem mem_pending {q : ShaperQueue T} {t : Turns (ℕ × UInt32)} (h : q.Ok t)
    (hreq : req ∈ q.queued) : req ∈ q.pending req.sid := by
  obtain ⟨⟨sid, heap⟩, hentry, hmem⟩ := List.mem_flatMap.mp hreq
  have hlookup : q.streams.lookup sid = some heap := AList.mem_lookup_iff.mpr hentry
  have hpending : req ∈ q.pending sid := by
    rw [ShaperQueue.pending, ShaperQueue.heapOf_of_lookup hlookup]
    exact hmem
  rw [h.owned sid req hpending]
  exact hpending

private theorem push_queued (hok : ∃ t, s.queue.Ok t) (hnext : s.next (.push req) = some s') :
    s'.queue.queued.Perm (req :: s.queue.queued) ∧ s'.pushed = s.pushed ++ [req] ∧
      s'.popped = s.popped := by
  obtain ⟨t, hok⟩ := hok
  obtain ⟨q', t', hpush, -, -, hqueued, -⟩ := hok.push_spec req
  rw [ShaperRun.next, hpush] at hnext
  cases hnext
  exact ⟨hqueued, rfl, rfl⟩

private theorem pop_queued (hsorted : s.Sorted) (hpop : s.queue.pop = some (some req, q')) :
    (∃ t, q'.Ok t) ∧ s.queue.queued.Perm (req :: q'.queued) ∧
      ∀ r ∈ q'.queued, r.sid = req.sid → req.before r = true := by
  obtain ⟨t, hok⟩ := hsorted.ok
  obtain ⟨passed, ahead⟩ := t
  cases ahead with
  | nil =>
    rw [hok.pop_none rfl] at hpop
    cases hpop
  | cons x rest =>
    obtain ⟨req', q1, hpop', hok', -, -, -, hqueued⟩ := hok.pop_spec
    rw [hpop] at hpop'
    cases hpop'
    obtain ⟨-, hfirst, -⟩ := hsorted.pop hpop
    refine ⟨⟨_, hok'⟩, hqueued, fun r hr hsid => hfirst r ?_⟩
    rw [← hsid]
    exact mem_pending hok' hr

private theorem accounted_next {op : ShaperOp T} (h : s.Invariant) (hnext : s.next op = some s') :
    s'.Invariant := by
  obtain ⟨s1, hnext', hinv⟩ := h.next op
  obtain rfl := Option.some.inj (hnext.symm.trans hnext')
  exact hinv

private theorem pop_next (hpop : s.queue.pop = some (some req, q')) :
    s.next .pop = some { s with queue := q', popped := s.popped ++ [req] } := by
  rw [ShaperRun.next, hpop]
  rfl

end Queue

private theorem perm_eraseIdx {α : Type} {xs : List α} {k : ℕ} {x : α} (h : xs[k]? = some x) :
    xs.Perm (x :: xs.eraseIdx k) := by
  induction xs generalizing k with
  | nil => cases h
  | cons y xs ih =>
    cases k with
    | zero =>
      rw [List.getElem?_cons_zero] at h
      cases h
      exact .refl _
    | succ k =>
      rw [List.getElem?_cons_succ] at h
      rw [List.eraseIdx_cons_succ]
      exact ((ih h).cons y).trans (.swap x y _)

section Filters

variable {sid : UInt32} {req : Request} {xs ys : List Request}

private theorem pshOf_append (xs ys : List Request) :
    pshOf sid (xs ++ ys) = pshOf sid xs ++ pshOf sid ys :=
  List.filter_append xs ys

private theorem pshOf_singleton_of (h : isPsh sid req = true) : pshOf sid [req] = [req] :=
  List.filter_cons_of_pos h

private theorem pshOf_singleton_not (h : isPsh sid req = false) : pshOf sid [req] = [] := by
  apply List.filter_cons_of_neg
  rw [h]
  exact Bool.false_ne_true

private theorem mem_pshOf : req ∈ pshOf sid xs ↔
    req ∈ xs ∧ req.body.frame.sid = sid ∧ req.body.frame.cmd = CMD_PSH := by
  unfold pshOf isPsh
  rw [List.mem_filter, decide_eq_true_iff]

theorem framesOf_append (xs ys : List Request) : framesOf (xs ++ ys) = framesOf xs ++ framesOf ys :=
  List.map_append

end Filters

/-! What a session keeps while its queue is prompt. -/

namespace Outgoing

/-- The data frames of a stream that were queued: those that have left, then those still queued, in
the order of their numbers. -/
def InOrder (o : Outgoing) (sid : UInt32) : Prop :=
  ∃ rest, pshOf sid o.shaper.pushed = pshOf sid o.shaper.popped ++ rest ∧
    rest.Perm (pshOf sid o.shaper.queue.queued) ∧ rest.Pairwise fun a b => a.body.no < b.body.no

def open_ (o : Outgoing) : List Request := o.waiting ++ o.shaper.queue.queued

structure Ok (version : UInt8) (o : Outgoing) : Prop where
  sorted : o.shaper.Sorted
  accounted : o.shaper.Invariant
  counter : o.requestId = UInt32.ofNat o.numbered
  issued : ∀ req ∈ o.open_, o.Issued req
  distinct : (o.open_.map fun req => req.body.no).Nodup
  valid : ∀ req ∈ o.waiting ++ o.shaper.pushed, req.body.frame.Valid version
  inOrder : ∀ sid, o.InOrder sid
  single : ∀ sid, (pshOf sid o.waiting).length ≤ 1
  later : ∀ sid, ∀ w ∈ pshOf sid o.waiting, ∀ r ∈ pshOf sid o.shaper.queue.queued,
    r.body.no < w.body.no
  framed : o.wire <+: (framesOf o.shaper.popped).flatMap Frame.encode
  whole : o.sendDone = false → o.wire = (framesOf o.shaper.popped).flatMap Frame.encode

variable {version : UInt8} {o o' : Outgoing} {op : Op}

private theorem separated (hissued : ∀ req ∈ o.shaper.queue.queued, o.Issued req)
    (hdistinct : (o.shaper.queue.queued.map fun req => req.body.no).Nodup) (hprompt : o.Prompt) :
    o.shaper.queue.Separated := by
  have hspread : Spread (o.shaper.queue.queued.map WriteRequest.seq) := by
    refine ⟨?_, UInt32.ofNat o.base, ?_⟩
    · refine List.Nodup.map_on ?_ (List.Nodup.of_map _ hdistinct)
      intro a ha b hb hseq
      obtain ⟨hda, hle, -⟩ := (hissued a ha).distance (hprompt a ha)
      obtain ⟨hdb, hle', -⟩ := (hissued b hb).distance (hprompt b hb)
      rw [hseq, hdb] at hda
      exact List.inj_on_of_nodup_map hdistinct ha hb (by omega)
    · intro seq hseq
      obtain ⟨req, hreq, rfl⟩ := List.mem_map.mp hseq
      obtain ⟨hd, -, hlt⟩ := (hissued req hreq).distance (hprompt req hreq)
      rw [hd]
      exact hlt
  intro sid
  have hperm := (o.shaper.queue.queued_perm sid).map WriteRequest.seq
  rw [List.map_append] at hperm
  exact (hspread.perm hperm).sublist (List.sublist_append_left _ _)

theorem ok_new (version : UInt8) : ({} : Outgoing).Ok version where
  sorted := ShaperRun.sorted_new
  accounted := ShaperRun.invariant_new
  counter := rfl
  issued := fun req hreq => by cases hreq
  distinct := List.nodup_nil
  valid := fun req hreq => by cases hreq
  inOrder := fun sid => ⟨[], rfl, .refl _, .nil⟩
  single := fun sid => Nat.zero_le 1
  later := fun sid w hw => by cases hw
  framed := List.nil_prefix
  whole := fun _ => rfl

private theorem Issued.mono {req : Request} (h : o.Issued req) (hle : o.numbered ≤ o'.numbered) :
    o'.Issued req :=
  ⟨h.seq, h.le.trans hle, h.sid, h.data⟩

theorem Ok.number (h : o.Ok version) {frame : Frame} {class_ : ClassId}
    (hfits : Op.Fits version o frame class_) : (o.number frame class_).Ok version := by
  generalize hreq : (⟨class_, frame.sid, o.requestId + 1, ⟨frame, o.numbered + 1⟩⟩ : Request) = req
  have hnumber : o.number frame class_ = { o with
      requestId := o.requestId + 1, numbered := o.numbered + 1, waiting := o.waiting ++ [req] } := by
    rw [← hreq]
    rfl
  have hopen : (o.number frame class_).open_.Perm (req :: o.open_) := by
    rw [hnumber]
    unfold open_
    rw [List.append_assoc]
    exact List.perm_middle
  have hissued : (o.number frame class_).Issued req := by
    refine ⟨?_, ?_, ?_, ?_⟩
    · rw [← hreq]
      dsimp only
      rw [h.counter, UInt32.ofNat_add]
      rfl
    · rw [← hreq]
      exact Nat.le_refl _
    · rw [← hreq]
    · intro hcmd
      rw [← hreq] at hcmd ⊢
      exact (hfits.data hcmd).1
  have hold : ∀ r ∈ o.open_, r.body.no < req.body.no := by
    intro r hr
    rw [← hreq]
    exact Nat.lt_succ_of_le (h.issued r hr).le
  constructor
  · exact h.sorted
  · exact h.accounted
  · rw [hnumber]
    dsimp only
    rw [h.counter, UInt32.ofNat_add]
    rfl
  · intro r hr
    rcases List.mem_cons.mp (hopen.mem_iff.mp hr) with rfl | hr
    · exact hissued
    · exact (h.issued r hr).mono (Nat.le_succ _)
  · rw [(hopen.map _).nodup_iff, List.map_cons, List.nodup_cons]
    refine ⟨?_, h.distinct⟩
    intro hmem
    obtain ⟨r, hr, hno⟩ := List.mem_map.mp hmem
    exact absurd hno (Nat.ne_of_lt (hold r hr))
  · intro r hr
    rw [hnumber] at hr
    dsimp only at hr
    rcases List.mem_append.mp hr with hr | hr
    · rcases List.mem_append.mp hr with hr | hr
      · exact h.valid r (List.mem_append_left _ hr)
      · rw [List.mem_singleton.mp hr, ← hreq]
        exact hfits.valid
    · exact h.valid r (List.mem_append_right _ hr)
  · exact h.inOrder
  · intro sid
    rw [hnumber]
    dsimp only
    rw [pshOf_append, List.length_append]
    cases hpsh : isPsh sid req with
    | false =>
      rw [pshOf_singleton_not hpsh]
      exact h.single sid
    | true =>
      have hreq' := mem_pshOf.mp (pshOf_singleton_of hpsh ▸ List.mem_singleton_self req)
      rw [pshOf_singleton_of hpsh]
      rw [← hreq] at hreq'
      obtain rfl : frame.sid = sid := hreq'.2.1
      rw [(hfits.data hreq'.2.2).2]
      exact Nat.le_refl 1
  · intro sid w hw r hr
    rw [hnumber] at hw
    dsimp only at hw
    rw [pshOf_append] at hw
    rcases List.mem_append.mp hw with hw | hw
    · exact h.later sid w hw r hr
    · obtain rfl := List.mem_singleton.mp (mem_pshOf.mp hw).1
      exact hold r (List.mem_append_right _ (mem_pshOf.mp hr).1)
  · exact h.framed
  · exact h.whole

/-- Request `req` has left the waiting ones for the queue. -/
structure Enqueued (o : Outgoing) (req : Request) (rest : List Request)
    (shaper : ShaperRun RequestBody) : Prop where
  waiting : o.waiting.Perm (req :: rest)
  queued : shaper.queue.queued.Perm (req :: o.shaper.queue.queued)
  pushed : shaper.pushed = o.shaper.pushed ++ [req]
  popped : shaper.popped = o.shaper.popped

section Enqueue

variable {req : Request} {rest : List Request} {shaper : ShaperRun RequestBody} {sid : UInt32}

private theorem Ok.enqueued (h : o.Ok version) {k : ℕ} (hnext : o.enqueue k = some o') :
    ∃ req rest shaper, o.shaper.next (.push req) = some shaper ∧ o.Enqueued req rest shaper ∧
      o' = { o with shaper, waiting := rest } := by
  unfold Outgoing.enqueue at hnext
  split_ifs at hnext with hslot
  obtain ⟨req, hreq, hnext⟩ := Option.bind_eq_some_iff.mp hnext
  obtain ⟨shaper, hpush, rfl⟩ := Option.map_eq_some_iff.mp hnext
  obtain ⟨hqueued, hpushed, hpopped⟩ := push_queued h.sorted.ok hpush
  exact ⟨req, _, shaper, hpush, ⟨perm_eraseIdx hreq, hqueued, hpushed, hpopped⟩, rfl⟩

private theorem Enqueued.open_perm (hmove : o.Enqueued req rest shaper) :
    (rest ++ shaper.queue.queued).Perm o.open_ := by
  refine (hmove.queued.append_left rest).trans (List.perm_middle.trans ?_)
  exact hmove.waiting.symm.append_right o.shaper.queue.queued

private theorem Enqueued.mem_waiting (hmove : o.Enqueued req rest shaper) : req ∈ o.waiting :=
  hmove.waiting.mem_iff.mpr List.mem_cons_self

private theorem Enqueued.psh_sublist (hmove : o.Enqueued req rest shaper) (sid : UInt32) :
    (pshOf sid rest).length ≤ (pshOf sid o.waiting).length ∧
      ∀ w ∈ pshOf sid rest, w ∈ pshOf sid o.waiting := by
  have hsub := (List.sublist_cons_self req rest).filter (isPsh sid)
  have hperm := hmove.waiting.filter (isPsh sid)
  constructor
  · exact hsub.length_le.trans_eq hperm.length_eq.symm
  · intro w hw
    exact hperm.mem_iff.mpr (hsub.mem hw)

private theorem Enqueued.psh_alone (hmove : o.Enqueued req rest shaper)
    (hsingle : (pshOf sid o.waiting).length ≤ 1) (hpsh : isPsh sid req = true) :
    pshOf sid rest = [] := by
  have hlen := (hmove.waiting.filter (isPsh sid)).length_eq
  unfold pshOf at hsingle ⊢
  rw [hlen, List.filter_cons_of_pos hpsh, List.length_cons] at hsingle
  exact List.length_eq_zero_iff.mp (by omega)

private theorem Enqueued.valid (hmove : o.Enqueued req rest shaper) (h : o.Ok version) :
    ∀ r ∈ rest ++ shaper.pushed, r.body.frame.Valid version := by
  intro r hr
  rw [hmove.pushed] at hr
  rcases List.mem_append.mp hr with hr | hr
  · apply h.valid r (List.mem_append_left _ _)
    exact hmove.waiting.mem_iff.mpr (List.mem_cons_of_mem _ hr)
  · rcases List.mem_append.mp hr with hr | hr
    · exact h.valid r (List.mem_append_right _ hr)
    · rw [List.mem_singleton.mp hr]
      exact h.valid req (List.mem_append_left _ hmove.mem_waiting)

private theorem Enqueued.inOrder (hmove : o.Enqueued req rest shaper) (h : o.Ok version)
    (sid : UInt32) : InOrder { o with shaper, waiting := rest } sid := by
  obtain ⟨last, hsplit, hperm, hsorted⟩ := h.inOrder sid
  refine ⟨last ++ pshOf sid [req], ?_, ?_, ?_⟩
  · dsimp only
    rw [hmove.pushed, hmove.popped, pshOf_append, hsplit, List.append_assoc]
  · refine List.perm_append_comm.trans (List.Perm.trans ?_ (hmove.queued.filter (isPsh sid)).symm)
    rw [show req :: o.shaper.queue.queued = [req] ++ o.shaper.queue.queued from rfl,
      List.filter_append]
    exact hperm.append_left _
  · refine List.pairwise_append.mpr ⟨hsorted, ?_, ?_⟩
    · cases hpsh : isPsh sid req with
      | false =>
        rw [pshOf_singleton_not hpsh]
        exact .nil
      | true =>
        rw [pshOf_singleton_of hpsh]
        exact List.pairwise_singleton _ _
    · intro a ha b hb
      obtain ⟨hb, hsid, hcmd⟩ := mem_pshOf.mp hb
      obtain rfl := List.mem_singleton.mp hb
      exact h.later sid b (mem_pshOf.mpr ⟨hmove.mem_waiting, hsid, hcmd⟩) a (hperm.mem_iff.mp ha)

private theorem Enqueued.later (hmove : o.Enqueued req rest shaper) (h : o.Ok version)
    (sid : UInt32) : ∀ w ∈ pshOf sid rest, ∀ r ∈ pshOf sid shaper.queue.queued,
      r.body.no < w.body.no := by
  intro w hw r hr
  obtain ⟨hr, hsid, hcmd⟩ := mem_pshOf.mp hr
  rcases List.mem_cons.mp (hmove.queued.mem_iff.mp hr) with rfl | hr
  · have hpsh : isPsh sid r = true := by
      rw [isPsh, decide_eq_true_iff]
      exact ⟨hsid, hcmd⟩
    rw [hmove.psh_alone (h.single sid) hpsh] at hw
    cases hw
  · exact h.later sid w ((hmove.psh_sublist sid).2 w hw) r (mem_pshOf.mpr ⟨hr, hsid, hcmd⟩)

private theorem Enqueued.sorted (h : o.Ok version)
    (hpush : o.shaper.next (.push req) = some shaper) (hseparated : shaper.queue.Separated) :
    shaper.Sorted := by
  refine h.sorted.next ?_ hpush
  intro s hs
  obtain rfl := Option.some.inj (hpush.symm.trans hs)
  obtain ⟨t, hok⟩ := h.sorted.ok
  obtain ⟨q', t', hpush', -, -⟩ := hok.push_spec req
  rw [ShaperRun.next, hpush'] at hpush
  cases hpush
  exact hseparated

private theorem Ok.enqueue (h : o.Ok version) {k : ℕ} (hnext : o.enqueue k = some o')
    (hprompt : o'.Prompt) : o'.Ok version := by
  obtain ⟨req, rest, shaper, hpush, hmove, rfl⟩ := h.enqueued hnext
  have hissued : ∀ r ∈ rest ++ shaper.queue.queued,
      Issued { o with shaper, waiting := rest } r := fun r hr =>
    (h.issued r (hmove.open_perm.mem_iff.mp hr)).mono (Nat.le_refl _)
  have hdistinct : ((rest ++ shaper.queue.queued).map fun r => r.body.no).Nodup :=
    (hmove.open_perm.map _).nodup_iff.mpr h.distinct
  constructor
  · apply Enqueued.sorted h hpush
    exact separated (fun r hr => hissued r (List.mem_append_right _ hr))
      (hdistinct.sublist ((List.sublist_append_right _ _).map _)) hprompt
  · exact accounted_next h.accounted hpush
  · exact h.counter
  · exact hissued
  · exact hdistinct
  · exact hmove.valid h
  · exact hmove.inOrder h
  · intro sid
    exact (hmove.psh_sublist sid).1.trans (h.single sid)
  · exact hmove.later h
  · dsimp only
    rw [hmove.popped]
    exact h.framed
  · dsimp only
    rw [hmove.popped]
    exact h.whole

end Enqueue

private theorem Ok.abandon (h : o.Ok version) (k : ℕ) :
    ({ o with waiting := o.waiting.eraseIdx k } : Outgoing).Ok version := by
  have hsub : (o.waiting.eraseIdx k).Sublist o.waiting := List.eraseIdx_sublist o.waiting k
  have hopen : (o.waiting.eraseIdx k ++ o.shaper.queue.queued).Sublist o.open_ :=
    hsub.append_right _
  constructor
  · exact h.sorted
  · exact h.accounted
  · exact h.counter
  · intro r hr
    exact (h.issued r (hopen.mem hr)).mono (Nat.le_refl _)
  · exact h.distinct.sublist (hopen.map _)
  · intro r hr
    exact h.valid r ((hsub.append_right _).mem hr)
  · exact h.inOrder
  · intro sid
    exact (hsub.filter _).length_le.trans (h.single sid)
  · intro sid w hw
    exact h.later sid w ((hsub.filter _).mem hw)
  · exact h.framed
  · exact h.whole

/-- The request that leaves the queue is the first of the data frames queued for its stream, if it is
one of them. -/
theorem InOrder.pop {req : Request} {q' : ShaperQueue RequestBody} {sid : UInt32}
    (h : o.InOrder sid) (hsorted : o.shaper.Sorted)
    (hissued : ∀ r ∈ o.shaper.queue.queued, o.Issued r) (hprompt : o.Prompt)
    (hpop : o.shaper.queue.pop = some (some req, q')) :
    ({ o with shaper := { o.shaper with queue := q', popped := o.shaper.popped ++ [req] } } :
      Outgoing).InOrder sid := by
  obtain ⟨rest, hsplit, hperm, hrest⟩ := h
  obtain ⟨-, hqueued, hfirst⟩ := pop_queued hsorted hpop
  have hall : rest.Perm (pshOf sid [req] ++ pshOf sid q'.queued) := by
    rw [← pshOf_append]
    exact hperm.trans (hqueued.filter _)
  unfold InOrder
  dsimp only
  rw [pshOf_append]
  cases hpsh : isPsh sid req with
  | false =>
    rw [pshOf_singleton_not hpsh] at hall ⊢
    rw [List.append_nil]
    exact ⟨rest, hsplit, hall, hrest⟩
  | true =>
    rw [pshOf_singleton_of hpsh] at hall ⊢
    have hreq := mem_pshOf.mp (pshOf_singleton_of hpsh ▸ List.mem_singleton_self req)
    have hmem : req ∈ o.shaper.queue.queued := hqueued.mem_iff.mpr List.mem_cons_self
    have hless : ∀ r ∈ pshOf sid q'.queued, req.body.no < r.body.no := by
      intro r hr
      obtain ⟨hr, hsid, hcmd⟩ := mem_pshOf.mp hr
      have hold : r ∈ o.shaper.queue.queued := hqueued.mem_iff.mpr (List.mem_cons_of_mem _ hr)
      have hclass : req.class_ = r.class_ :=
        ((hissued req hmem).data hreq.2.2).trans ((hissued r hold).data hcmd).symm
      have hstream : r.sid = req.sid := by
        rw [(hissued r hold).sid, (hissued req hmem).sid, hsid, hreq.2.1]
      exact (hissued req hmem).no_lt (hissued r hold) (hprompt req hmem) (hprompt r hold) hclass
        (hfirst r hr hstream)
    cases rest with
    | nil => exact absurd hall.length_eq (by simp)
    | cons first rest =>
      have hsame : first = req := by
        rcases List.mem_cons.mp (hall.mem_iff.mp List.mem_cons_self) with hsame | hlater
        · exact hsame
        · rcases List.mem_cons.mp (hall.mem_iff.mpr List.mem_cons_self) with hsame | hmem
          · exact hsame.symm
          · have hlt := hless first hlater
            have hgt := (List.pairwise_cons.mp hrest).1 req hmem
            omega
      subst hsame
      refine ⟨rest, ?_, hall.cons_inv, (List.pairwise_cons.mp hrest).2⟩
      rw [hsplit, List.append_assoc]
      rfl

private theorem Ok.pop (h : o.Ok version) (hprompt : o.Prompt) {req : Request}
    {q' : ShaperQueue RequestBody}
    (hpop : o.shaper.queue.pop = some (some req, q')) {wire : Bytes} {sendDone : Bool}
    (hframed : wire <+: (framesOf (o.shaper.popped ++ [req])).flatMap Frame.encode)
    (hwhole : sendDone = false → wire = (framesOf (o.shaper.popped ++ [req])).flatMap Frame.encode) :
    ({ o with
      shaper := { o.shaper with queue := q', popped := o.shaper.popped ++ [req] }
      wire := wire
      sendDone := sendDone } : Outgoing).Ok version := by
  obtain ⟨hok, hqueued, -⟩ := pop_queued h.sorted hpop
  have hqueue : ∀ r ∈ o.shaper.queue.queued, o.Issued r := fun r hr =>
    h.issued r (List.mem_append_right _ hr)
  have hopen : o.open_.Perm (req :: (o.waiting ++ q'.queued)) :=
    (hqueued.append_left o.waiting).trans List.perm_middle
  have hdistinct : ((o.waiting ++ q'.queued).map fun r => r.body.no).Nodup := by
    have hnodup := (hopen.map fun r => r.body.no).nodup_iff.mp h.distinct
    exact (List.nodup_cons.mp hnodup).2
  have hless : ∀ r ∈ q'.queued, r ∈ o.shaper.queue.queued := fun r hr =>
    hqueued.mem_iff.mpr (List.mem_cons_of_mem _ hr)
  constructor
  · refine h.sorted.next ?_ (pop_next hpop)
    intro s hs
    obtain rfl := Option.some.inj ((pop_next hpop).symm.trans hs)
    exact @separated
      { o with shaper := { o.shaper with queue := q', popped := o.shaper.popped ++ [req] } }
      (fun r hr => (hqueue r (hless r hr)).mono (Nat.le_refl _))
      (hdistinct.sublist ((List.sublist_append_right _ _).map _)) fun r hr => hprompt r (hless r hr)
  · exact accounted_next h.accounted (pop_next hpop)
  · exact h.counter
  · intro r hr
    refine (h.issued r ?_).mono (Nat.le_refl _)
    exact hopen.mem_iff.mpr (List.mem_cons_of_mem _ hr)
  · exact hdistinct
  · exact h.valid
  · intro sid
    exact (h.inOrder sid).pop h.sorted hqueue hprompt hpop
  · exact h.single
  · intro sid w hw r hr
    obtain ⟨hr, hmine⟩ := mem_pshOf.mp hr
    exact h.later sid w hw r (mem_pshOf.mpr ⟨hless r hr, hmine⟩)
  · exact hframed
  · exact hwhole

inductive Moves (o o' : Outgoing) : Op → Prop
  | numbered {frame : Frame} {class_ : ClassId} (h : o' = o.number frame class_) :
      Moves o o' (.number frame class_)
  | admitted {k : ℕ} {req : Request} (hwaiting : o.waiting.Perm (req :: o'.waiting))
      (hqueued : o'.shaper.queue.queued.Perm (req :: o.shaper.queue.queued))
      (hpushed : o'.shaper.pushed = o.shaper.pushed ++ [req])
      (hpopped : o'.shaper.popped = o.shaper.popped) : Moves o o' (.enqueue k)
  | abandoned {k : ℕ} (hwaiting : o'.waiting.Sublist o.waiting) (hshaper : o'.shaper = o.shaper) :
      Moves o o' (.abandon k)
  | left {op : Op} {req : Request} (hop : op = .send ∨ ∃ n, op = .cut n)
      (hwaiting : o'.waiting = o.waiting)
      (hqueued : o.shaper.queue.queued.Perm (req :: o'.shaper.queue.queued))
      (hpushed : o'.shaper.pushed = o.shaper.pushed)
      (hpopped : o'.shaper.popped = o.shaper.popped ++ [req]) : Moves o o' op

private theorem pop_cases {write : Bytes → Bytes} (hnext : o.pop write = some o') :
    o.sendDone = false ∧ ∃ req q', o.shaper.queue.pop = some (some req, q') ∧ o' = { o with
      shaper := { o.shaper with queue := q', popped := o.shaper.popped ++ [req] }
      wire := o.wire ++ write req.body.frame.encode } := by
  unfold Outgoing.pop at hnext
  split_ifs at hnext with hdone
  obtain ⟨⟨out, q'⟩, hpop, hout⟩ := Option.bind_eq_some_iff.mp hnext
  obtain ⟨req, rfl, rfl⟩ := Option.map_eq_some_iff.mp hout
  exact ⟨Bool.eq_false_iff.mpr hdone, req, q', hpop, rfl⟩

private theorem flatMap_framesOf_concat (popped : List Request) (req : Request) :
    (framesOf (popped ++ [req])).flatMap Frame.encode =
      (framesOf popped).flatMap Frame.encode ++ req.body.frame.encode := by
  rw [framesOf_append, List.flatMap_append]
  exact congrArg _ (List.append_nil _)

theorem Ok.next (h : o.Ok version) (hprompt : o.Prompt) (hallowed : op.Allowed version o)
    (hnext : o.next op = some o') (hprompt' : o'.Prompt) : o'.Ok version ∧ Moves o o' op := by
  cases op with
  | number frame class_ =>
    cases hnext
    exact ⟨h.number hallowed, .numbered rfl⟩
  | enqueue k =>
    have hnext : o.enqueue k = some o' := hnext
    refine ⟨h.enqueue hnext hprompt', ?_⟩
    unfold Outgoing.enqueue at hnext
    split_ifs at hnext with hslot
    obtain ⟨req, hreq, hnext⟩ := Option.bind_eq_some_iff.mp hnext
    obtain ⟨shaper, hpush, rfl⟩ := Option.map_eq_some_iff.mp hnext
    obtain ⟨hqueued, hpushed, hpopped⟩ := push_queued h.sorted.ok hpush
    exact .admitted (perm_eraseIdx hreq) hqueued hpushed hpopped
  | abandon k =>
    unfold Outgoing.next at hnext
    dsimp only at hnext
    split_ifs at hnext with hk
    cases hnext
    exact ⟨h.abandon k, .abandoned (List.eraseIdx_sublist _ _) rfl⟩
  | send =>
    obtain ⟨hdone, req, q', hpop, rfl⟩ := pop_cases (show o.pop id = some o' from hnext)
    obtain ⟨-, hqueued, -⟩ := pop_queued h.sorted hpop
    have hwire : o.wire ++ req.body.frame.encode =
        (framesOf (o.shaper.popped ++ [req])).flatMap Frame.encode := by
      rw [flatMap_framesOf_concat, h.whole hdone]
    refine ⟨h.pop hprompt hpop ?_ fun _ => hwire, .left (.inl rfl) rfl hqueued rfl rfl⟩
    exact hwire ▸ List.prefix_refl _
  | cut n =>
    obtain ⟨o1, hcut, rfl⟩ :=
      Option.map_eq_some_iff.mp (show (o.pop (List.take n)).map _ = _ from hnext)
    obtain ⟨hdone, req, q', hpop, rfl⟩ := pop_cases hcut
    obtain ⟨-, hqueued, -⟩ := pop_queued h.sorted hpop
    refine ⟨h.pop hprompt hpop ?_ fun hfalse => (by cases hfalse),
      .left (.inr ⟨n, rfl⟩) rfl hqueued rfl rfl⟩
    rw [flatMap_framesOf_concat, h.whole hdone]
    exact (List.prefix_append_right_inj _).mpr (List.take_prefix n _)

def all (o : Outgoing) : List Request := o.shaper.popped ++ o.open_

theorem Moves.all_cases (h : Moves o o' op) :
    (∃ frame class_, op = .number frame class_ ∧ o'.shaper = o.shaper ∧
      o'.all.Perm (⟨class_, frame.sid, o.requestId + 1, ⟨frame, o.numbered + 1⟩⟩ :: o.all)) ∨
      (∃ all, all.Sublist o.all ∧ o'.all.Perm all) := by
  cases h with
  | numbered hnumber =>
    rename_i frame class_
    refine .inl ⟨frame, class_, rfl, by rw [hnumber]; rfl, ?_⟩
    rw [hnumber]
    unfold all open_ Outgoing.number
    dsimp only
    rw [List.append_assoc]
    exact (List.perm_middle.append_left _).trans List.perm_middle
  | admitted hwaiting hqueued hpushed hpopped =>
    rename_i k req
    refine .inr ⟨o.all, .refl _, ?_⟩
    unfold all open_
    rw [hpopped]
    refine List.Perm.append_left _ ((hqueued.append_left _).trans (List.perm_middle.trans ?_))
    exact hwaiting.symm.append_right _
  | abandoned hwaiting hshaper =>
    refine .inr ⟨o'.all, ?_, .refl _⟩
    unfold all open_
    rw [hshaper]
    exact (hwaiting.append_right _).append_left _
  | left hop hwaiting hqueued hpushed hpopped =>
    rename_i req
    refine .inr ⟨o.all, .refl _, ?_⟩
    unfold all open_
    rw [hpopped, hwaiting, List.append_assoc]
    refine List.Perm.append_left _ (List.Perm.trans ?_ (hqueued.symm.append_left _))
    exact (@List.perm_middle _ req o.waiting o'.shaper.queue.queued).symm

end Outgoing

end Kcptun.Smux.Sending
