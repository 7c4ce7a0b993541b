/- Kcptun/Tcpraw/Flow
   source: crates/tcpraw/src/flow.rs (TcpFlow::new, TcpFlow::capture_update)
   digest: The acknowledgement a flow tracks over the segments captured from its peer: in order
     from the first one that consumes sequence space, unless it wraps to 0. -/

import Kcptun.Tcpraw.TcpSegment

set_option autoImplicit false
set_option relaxedAutoImplicit false

namespace Kcptun.Tcpraw.Flow

open Kcptun.Tcpraw.TcpSegment

variable {RealConn Instant : Type*}

structure TcpFlow (RealConn Instant : Type*) where
  conn : Option RealConn
  handle : Option ℕ
  seq : UInt32
  ack : UInt32
  tsEcr : UInt32
  ts : Instant

namespace TcpFlow

def new (now : Instant) : TcpFlow RealConn Instant where
  conn := none
  handle := none
  seq := 0
  ack := 0
  tsEcr := 0
  ts := now

/-- The update of the acknowledgement: from a fresh flow, or by the segment exactly in order. -/
def updateAck (flow : TcpFlow RealConn Instant) (seg : Segment) : TcpFlow RealConn Instant :=
  if seg.nextSeq ≠ seg.header.seq then
    if flow.ack = 0 ∨ flow.ack = seg.header.seq then { flow with ack := seg.nextSeq } else flow
  else flow

def updateTimestamps (flow : TcpFlow RealConn Instant) :
    Option Timestamps → TcpFlow RealConn Instant
  | some ts => { flow with tsEcr := ts.tsVal }
  | none => flow

/-- `capture_update`: the flow afterwards, and whether it was an orphan. -/
def captureUpdate (flow : TcpFlow RealConn Instant) (seg : Segment) (handle : ℕ) (now : Instant) :
    Option (TcpFlow RealConn Instant × Bool) :=
  let orphan := flow.conn.isNone
  let flow := { flow with ts := now }
  let flow := if seg.header.flags.ack then { flow with seq := seg.header.ack } else flow
  seg.timestamps.bind fun timestamps =>
    let flow := (flow.updateTimestamps timestamps).updateAck seg
    some ({ flow with handle := some handle }, orphan)

end TcpFlow

structure Capture (Instant : Type*) where
  seg : Segment
  handle : ℕ
  now : Instant

def captureAll (flow : TcpFlow RealConn Instant) :
    List (Capture Instant) → Option (TcpFlow RealConn Instant)
  | [] => some flow
  | c :: cs =>
    (flow.captureUpdate c.seg c.handle c.now).bind fun updated => captureAll updated.1 cs

def Consumes (seg : Segment) : Prop :=
  seg.payload ≠ [] ∨ seg.header.flags.syn = true ∨ seg.header.flags.fin = true

/-- The acknowledgement moves with the segment exactly in order alone. -/
structure AckLaw (seg : Segment) (ack ack' : UInt32) : Prop where
  only : ack' ≠ ack → Consumes seg ∧ seg.header.seq = ack
  follows : Consumes seg → seg.header.seq = ack → ack' = seg.nextSeq
  stays : seg.header.seq ≠ ack → ack' = ack

/-- A segment out of order finds an acknowledgement that is 0, and moves it. -/
def TakenForFresh (seg : Segment) (ack : UInt32) : Prop :=
  ack = 0 ∧ seg.header.seq ≠ 0 ∧ seg.nextSeq ≠ seg.header.seq ∧ seg.nextSeq ≠ 0

private theorem consumes_of_nextSeq_ne {seg : Segment} (h : seg.nextSeq ≠ seg.header.seq) :
    Consumes seg := by
  by_contra hnot
  obtain ⟨hpayload, hflags⟩ := not_or.mp hnot
  obtain ⟨hsyn, hfin⟩ := not_or.mp hflags
  apply h
  rw [Segment.nextSeq, not_not.mp hpayload, if_neg hsyn, if_neg hfin]
  exact UInt32.add_zero _

/-- Of the segments a captured packet can hold, the ones that take up sequence space end at another
sequence number than they start at. -/
theorem nextSeq_ne_of_consumes {seg : Segment} (hlen : seg.payload.length + 2 < 4294967296)
    (h : Consumes seg) : seg.nextSeq ≠ seg.header.seq := by
  intro heq
  have hnat := congrArg UInt32.toNat heq
  have hseq := seg.header.seq.toNat_lt
  have hone : (1 : UInt32).toNat = 1 := rfl
  have hpayload : seg.payload.length = 0 → seg.payload = [] := List.eq_nil_of_length_eq_zero
  rw [Segment.nextSeq] at hnat
  rcases h with h | h | h
  all_goals
    split_ifs at hnat <;>
      simp only [UInt32.toNat_add, UInt32.toNat_ofNat', hone] at hnat <;>
      first | omega | exact h (hpayload (by omega))

def nextAck (seg : Segment) (ack : UInt32) : UInt32 :=
  if seg.nextSeq ≠ seg.header.seq ∧ (ack = 0 ∨ ack = seg.header.seq) then seg.nextSeq else ack

private theorem updateAck_ack (flow : TcpFlow RealConn Instant) (seg : Segment) :
    (flow.updateAck seg).ack = nextAck seg flow.ack := by
  unfold TcpFlow.updateAck nextAck
  split_ifs <;> simp_all

@[simp] theorem updateTimestamps_ack (flow : TcpFlow RealConn Instant)
    (timestamps : Option Timestamps) : (flow.updateTimestamps timestamps).ack = flow.ack := by
  cases timestamps <;> rfl

/-- No captured segment makes the update fail, and the acknowledgement depends on nothing but
itself and the segment. -/
theorem captureUpdate_ack (flow : TcpFlow RealConn Instant) (c : Capture Instant) :
    ∃ flow' orphan, flow.captureUpdate c.seg c.handle c.now = some (flow', orphan) ∧
      flow'.ack = nextAck c.seg flow.ack := by
  obtain ⟨timestamps, hts⟩ := timestamps_total c.seg
  rw [TcpFlow.captureUpdate, hts]
  refine ⟨_, _, rfl, ?_⟩
  show ((TcpFlow.updateTimestamps _ timestamps).updateAck c.seg).ack = _
  rw [updateAck_ack, updateTimestamps_ack]
  split_ifs <;> rfl

private theorem captureAll_ack (flow : TcpFlow RealConn Instant) (cs : List (Capture Instant)) :
    ∃ flow', captureAll flow cs = some flow' ∧
      flow'.ack = cs.foldl (fun ack c => nextAck c.seg ack) flow.ack := by
  induction cs generalizing flow with
  | nil => exact ⟨flow, rfl, rfl⟩
  | cons c cs ih =>
    obtain ⟨next, orphan, hnext, hack⟩ := captureUpdate_ack flow c
    obtain ⟨flow', hrun, hack'⟩ := ih next
    rw [captureAll, hnext, Option.bind_some, List.foldl_cons, ← hack]
    exact ⟨flow', hrun, hack'⟩

private theorem ackLaw_iff (seg : Segment) (ack : UInt32) :
    AckLaw seg ack (nextAck seg ack) ↔ ¬ TakenForFresh seg ack := by
  constructor
  · rintro hlaw ⟨rfl, hseq, hmoves, hnext⟩
    have hstep : nextAck seg 0 = seg.nextSeq := if_pos ⟨hmoves, Or.inl rfl⟩
    exact hnext (hstep ▸ hlaw.stays hseq)
  · intro hnot
    refine ⟨?_, ?_, ?_⟩
    · intro hchange
      have hmoves : seg.nextSeq ≠ seg.header.seq ∧ (ack = 0 ∨ ack = seg.header.seq) := by
        by_contra hkept
        exact hchange (if_neg hkept)
      refine ⟨consumes_of_nextSeq_ne hmoves.1, ?_⟩
      rcases hmoves.2 with rfl | hack
      · by_contra hseq
        have hstep : nextAck seg 0 = seg.nextSeq := if_pos hmoves
        exact hnot ⟨rfl, hseq, hmoves.1, hstep ▸ hchange⟩
      · exact hack.symm
    · intro hconsumes hseq
      subst hseq
      by_cases hmoves : seg.nextSeq ≠ seg.header.seq
      · exact if_pos ⟨hmoves, Or.inr rfl⟩
      · rw [not_ne_iff] at hmoves
        rw [nextAck, if_neg fun h => h.1 hmoves, hmoves]
    · intro hseq
      by_contra hchange
      have hmoves : seg.nextSeq ≠ seg.header.seq ∧ (ack = 0 ∨ ack = seg.header.seq) := by
        by_contra hkept
        exact hchange (if_neg hkept)
      obtain rfl : ack = 0 := hmoves.2.resolve_right fun h => hseq h.symm
      have hstep : nextAck seg 0 = seg.nextSeq := if_pos hmoves
      exact hnot ⟨rfl, hseq, hmoves.1, hstep ▸ hchange⟩

/-- While no segment ends at the sequence number 0, a flow that has an acknowledgement, or sees a
segment that moves it, never returns to 0. -/
theorem ack_ne_zero {cs : List (Capture Instant)} {ack : UInt32}
    (hends : ∀ c ∈ cs, c.seg.nextSeq ≠ c.seg.header.seq → c.seg.nextSeq ≠ 0)
    (hfirst : ack ≠ 0 ∨ ∃ c ∈ cs, c.seg.nextSeq ≠ c.seg.header.seq) :
    cs.foldl (fun ack c => nextAck c.seg ack) ack ≠ 0 := by
  induction cs generalizing ack with
  | nil =>
    rcases hfirst with h | ⟨c, hc, -⟩
    · exact h
    · cases hc
  | cons c cs ih =>
    rw [List.foldl_cons]
    refine ih (fun e he => hends e (List.mem_cons_of_mem c he)) ?_
    by_cases hmoves : c.seg.nextSeq ≠ c.seg.header.seq ∧ (ack = 0 ∨ ack = c.seg.header.seq)
    · left
      rw [nextAck, if_pos hmoves]
      exact hends c List.mem_cons_self hmoves.1
    · rw [nextAck, if_neg hmoves]
      rcases hfirst with h | ⟨e, he, hnext⟩
      · exact Or.inl h
      · by_cases hack : ack = 0
        · rcases List.mem_cons.mp he with rfl | he
          · exact absurd ⟨hnext, Or.inl hack⟩ hmoves
          · exact Or.inr ⟨e, he, hnext⟩
        · exact Or.inl hack

/-- `P` of every captured segment behind one that consumes sequence space, and of the flow's
acknowledgements before and after it. -/
def AfterFirst (flow : TcpFlow RealConn Instant) (cs : List (Capture Instant))
    (P : Segment → UInt32 → UInt32 → Prop) : Prop :=
  ∀ before c after, cs = before ++ c :: after → (∃ e ∈ before, Consumes e.seg) →
    ∃ flow₁ flow₂ orphan, captureAll flow before = some flow₁ ∧
      flow₁.captureUpdate c.seg c.handle c.now = some (flow₂, orphan) ∧
      P c.seg flow₁.ack flow₂.ack

/-- The acknowledgement of a flow moves with the segments in order alone, from the first captured
one that consumes sequence space on, if and only if no segment out of order finds it wrapped to
0. -/
theorem ack_tracking (flow : TcpFlow RealConn Instant) (cs : List (Capture Instant)) :
    AfterFirst flow cs AckLaw ↔ AfterFirst flow cs fun seg ack _ => ¬ TakenForFresh seg ack := by
  have hstep : ∀ (flow₁ flow₂ : TcpFlow RealConn Instant) (orphan : Bool) (c : Capture Instant),
      flow₁.captureUpdate c.seg c.handle c.now = some (flow₂, orphan) →
      (AckLaw c.seg flow₁.ack flow₂.ack ↔ ¬ TakenForFresh c.seg flow₁.ack) := by
    intro flow₁ flow₂ orphan c hnext
    obtain ⟨flow₂', orphan', hnext', hack⟩ := captureUpdate_ack flow₁ c
    rw [hnext] at hnext'
    cases hnext'
    rw [hack]
    exact ackLaw_iff c.seg flow₁.ack
  constructor
  · intro h before c after hcs hfirst
    obtain ⟨flow₁, flow₂, orphan, hrun, hnext, hlaw⟩ := h before c after hcs hfirst
    exact ⟨flow₁, flow₂, orphan, hrun, hnext, (hstep flow₁ flow₂ orphan c hnext).mp hlaw⟩
  · intro h before c after hcs hfirst
    obtain ⟨flow₁, flow₂, orphan, hrun, hnext, hnot⟩ := h before c after hcs hfirst
    exact ⟨flow₁, flow₂, orphan, hrun, hnext, (hstep flow₁ flow₂ orphan c hnext).mpr hnot⟩

/-- In particular it does in every run in which no segment that consumes sequence space ends at the
sequence number 0. -/
theorem ack_tracking_of_ends {flow : TcpFlow RealConn Instant} {cs : List (Capture Instant)}
    (hlen : ∀ c ∈ cs, c.seg.payload.length + 2 < 4294967296)
    (hends : ∀ c ∈ cs, Consumes c.seg → c.seg.nextSeq ≠ 0) : AfterFirst flow cs AckLaw := by
  intro before c after hcs hfirst
  obtain ⟨flow₁, hrun, hack⟩ := captureAll_ack flow before
  obtain ⟨flow₂, orphan, hnext, hack'⟩ := captureUpdate_ack flow₁ c
  refine ⟨flow₁, flow₂, orphan, hrun, hnext, ?_⟩
  rw [hack']
  refine (ackLaw_iff c.seg flow₁.ack).mpr ?_
  intro hfresh
  have hbefore : ∀ e ∈ before, e ∈ cs := by
    intro e he
    rw [hcs]
    exact List.mem_append_left _ he
  obtain ⟨e, he, hconsumes⟩ := hfirst
  have hne := @ack_ne_zero _ before flow.ack
    (fun e he hmoves => hends e (hbefore e he) (consumes_of_nextSeq_ne hmoves))
    (Or.inr ⟨e, he, nextSeq_ne_of_consumes (hlen e (hbefore e he)) hconsumes⟩)
  exact hne (hack.symm.trans hfresh.1)

def oneByte (seq : UInt32) : Capture Unit :=
  ⟨⟨⟨0, 0, seq, 0, 5, ⟨0, by decide⟩, 0, 0, 0⟩, [], [1]⟩, 0, ()⟩

/-- The first segment ends at the sequence number 0; a segment out of order then moves the
acknowledgement. -/
theorem wrapped_ack_moves :
    ¬ AfterFirst (TcpFlow.new () : TcpFlow Unit Unit) [oneByte 0xffffffff, oneByte 5] AckLaw := by
  intro h
  obtain ⟨flow₁, flow₂, orphan, hrun, hnext, hlaw⟩ := h [oneByte 0xffffffff] (oneByte 5) [] rfl
    ⟨oneByte 0xffffffff, List.mem_singleton_self _, Or.inl (List.cons_ne_nil _ _)⟩
  obtain ⟨flow₁', hrun', hack⟩ :=
    captureAll_ack (TcpFlow.new () : TcpFlow Unit Unit) [oneByte 0xffffffff]
  obtain ⟨flow₂', orphan', hnext', hack'⟩ := captureUpdate_ack flow₁ (oneByte 5)
  rw [hrun] at hrun'
  cases hrun'
  rw [hnext] at hnext'
  cases hnext'
  have hzero : flow₁.ack = 0 := hack.trans (by decide)
  rw [hack', hzero] at hlaw
  exact absurd (hlaw.stays (by decide)) (by decide)

end Kcptun.Tcpraw.Flow
