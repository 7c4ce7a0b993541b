/- Kcptun/Arq/ScanSkip
   source: crates/kcp/src/kcp.rs (flush, snd_buf_offset, parse_ack, parse_fastack, parse_una)
   digest: Skipping the head of the send buffer and computing ring offsets change nothing: a
     connection and its naive twin agree in every field but the summary, in every packet and in
     every returned value, over every run whose timers stay within the horizon. -/

import Kcptun.Arq.ScanView
import Kcptun.Arq.SendWindow

set_option autoImplicit false
set_option relaxedAutoImplicit false

namespace Kcptun.Arq

open Kcptun.Lib Kcptun.Lib.LittleEndian
open Kcptun.Lib.Serial (Consecutive)

namespace Kcp

variable {O C : Type}

@[simps] def withScan (k : Kcp O C) (f : FlushScan) : Kcp O C := { k with flushScan := f }

section Frames

private theorem fillLast_withScan (k : Kcp O C) (f : FlushScan) (buffer : Bytes) :
    (k.withScan f).fillLast buffer = ((k.fillLast buffer).1.withScan f, (k.fillLast buffer).2) := by
  simp only [fillLast, withScan_sndQueue, withScan_mss]
  split
  · rfl
  · split <;> rfl

private theorem queueFragments_withScan (k : Kcp O C) (f : FlushScan) (buffer : Bytes) :
    (k.withScan f).queueFragments buffer =
      ((k.queueFragments buffer).1.withScan f, (k.queueFragments buffer).2) := by
  simp only [queueFragments, withScan_mss, withScan_stream]
  generalize (if buffer.length ≤ k.mss.toNat then 1
    else (buffer.length + k.mss.toNat - 1) / k.mss.toNat) = count
  by_cases hcount : count > 255
  · rw [if_pos hcount, if_pos hcount]
  · rw [if_neg hcount, if_neg hcount]
    rfl

private theorem send_withScan (k : Kcp O C) (f : FlushScan) (buffer : Bytes) :
    (k.withScan f).send buffer = ((k.send buffer).1.withScan f, (k.send buffer).2) := by
  have hstream : (k.withScan f).stream = k.stream := rfl
  simp only [send, fillLast_withScan, queueFragments_withScan, hstream]
  split_ifs <;> rfl

private theorem recv_withScan (k : Kcp O C) (f : FlushScan) (buflen : ℕ) :
    (k.withScan f).recv buflen = ((k.recv buflen).1.withScan f, (k.recv buflen).2) := by
  have hpeek : (k.withScan f).peekSize = k.peekSize := rfl
  have hmove : ∀ q, moveReady { k.withScan f with rcvQueue := q } =
      (moveReady { k with rcvQueue := q }).withScan f := fun _ => rfl
  dsimp only at hmove
  unfold recv
  rw [hpeek]
  split_ifs
  · rfl
  · rfl
  · dsimp only
    rw [hmove]
    rfl

private theorem parseData_withScan (k : Kcp O C) (f : FlushScan) (seg : Segment) (data : Bytes) :
    (k.withScan f).parseData seg data =
      ((k.parseData seg data).1.withScan f, (k.parseData seg data).2) := by
  unfold parseData
  rw [withScan_rcvNxt, withScan_rcvWnd, withScan_rcvBuf]
  dsimp only
  split_ifs <;> rfl

private theorem inputPush_withScan (k : Kcp O C) (f : FlushScan) (h : SegmentHeader)
    (payload : Bytes) :
    (k.withScan f).inputPush h payload = (k.inputPush h payload).withScan f := by
  have hack : (k.withScan f).ackPush h.sn h.ts = (k.ackPush h.sn h.ts).withScan f := rfl
  unfold inputPush
  simp only [hack, parseData_withScan, withScan_rcvNxt, withScan_rcvWnd]
  split_ifs <;> rfl

private theorem updateAck_withScan (k : Kcp O C) (f : FlushScan) (rtt : Int32) :
    (k.withScan f).updateAck rtt = (k.updateAck rtt).withScan f := by
  unfold updateAck
  rw [withScan_rxSrtt, withScan_rxRttvar, withScan_rxMinrto, withScan_interval]
  dsimp only
  generalize (if k.rxSrtt = 0 then (rtt, rtt >>> 1) else _) = averages
  rfl

private theorem inputRtt_withScan [Clock C] (k : Kcp O C) (f : FlushScan) (pktType : PacketType)
    (acc : Parsed) : (k.withScan f).inputRtt pktType acc = (k.inputRtt pktType acc).withScan f := by
  have hack : ∀ rtt,
      updateAck ({ k.withScan f with clock := (Clock.nowMs k.clock).2 } : Kcp O C) rtt =
        (updateAck { k with clock := (Clock.nowMs k.clock).2 } rtt).withScan f :=
    fun rtt => updateAck_withScan { k with clock := (Clock.nowMs k.clock).2 } f rtt
  unfold inputRtt
  simp only [withScan_clock] at hack ⊢
  split_ifs
  · exact hack _
  · rfl
  · rfl

private theorem inputCwnd_withScan (k : Kcp O C) (f : FlushScan) (una : UInt32) :
    (k.withScan f).inputCwnd una = (k.inputCwnd una).withScan f := by
  simp only [inputCwnd, withScan_nocwnd, withScan_sndUna, withScan_cwnd, withScan_rmtWnd,
    withScan_ssthresh, withScan_incr, withScan_mss]
  split_ifs <;> rfl

private theorem updateTimer_withScan [Clock C] (k : Kcp O C) (f : FlushScan) :
    (k.withScan f).updateTimer = (k.updateTimer.1.withScan f, k.updateTimer.2) := by
  simp only [updateTimer, withScan_clock, withScan_updated, withScan_tsFlush, withScan_interval]
  split_ifs <;> rfl

private theorem updateCwnd_withScan (k : Kcp O C) (f : FlushScan) (cwnd resent : UInt32)
    (change lost : ℕ) : (k.withScan f).updateCwnd cwnd resent change lost =
      (k.updateCwnd cwnd resent change lost).withScan f := by
  have hcwnd : (k.withScan f).cwnd < 1 ↔ k.cwnd < 1 := Iff.rfl
  simp only [updateCwnd, withScan_nocwnd]
  by_cases hlost : lost > 0
  · simp only [if_pos hlost]
    split_ifs <;> rfl
  · by_cases hchange : change > 0
    · simp only [if_neg hlost, if_pos hchange, withScan_sndNxt, withScan_sndUna]
      split_ifs <;> rfl
    · simp only [if_neg hlost, if_neg hchange, hcwnd]
      split_ifs <;> rfl

private theorem setNodelay_withScan (k : Kcp O C) (f : FlushScan)
    (nodelay interval resend nc : Int) : (k.withScan f).setNodelay nodelay interval resend nc =
      (k.setNodelay nodelay interval resend nc).withScan f := by
  unfold setNodelay
  split_ifs <;> rfl

private theorem setMtu_withScan (k : Kcp O C) (f : FlushScan) (mtu : Int) :
    (k.withScan f).setMtu mtu = ((k.setMtu mtu).1.withScan f, (k.setMtu mtu).2) := by
  simp only [setMtu]
  split_ifs <;> rfl

private theorem wndSize_withScan (k : Kcp O C) (f : FlushScan) (sndwnd rcvwnd : Int) :
    (k.withScan f).wndSize sndwnd rcvwnd = (k.wndSize sndwnd rcvwnd).withScan f := by
  simp only [wndSize]
  split_ifs <;> rfl

private theorem probeTimer_withScan [Clock C] (k : Kcp O C) (f : FlushScan) :
    (k.withScan f).probeTimer = k.probeTimer.withScan f := by
  simp only [probeTimer, withScan_rmtWnd, withScan_clock, withScan_probeWait, withScan_tsProbe]
  split_ifs <;> rfl

private theorem flushControl_withScan [Output O] [Clock C] (k : Kcp O C) (f : FlushScan) :
    (k.withScan f).flushControl = (k.flushControl.1.withScan f, k.flushControl.2) := by
  have htemplate : (k.withScan f).template = k.template := rfl
  have hacks : ∀ acklist, probeTimer ({ k.withScan f with acklist := acklist } : Kcp O C) =
      withScan (probeTimer { k with acklist := acklist }) f :=
    fun acklist => probeTimer_withScan { k with acklist := acklist } f
  have hctl : flushAcks (k.withScan f).mtu (k.withScan f).rcvNxt k.template (k.withScan f).acklist
      ⟨(k.withScan f).output, []⟩ = flushAcks k.mtu k.rcvNxt k.template k.acklist ⟨k.output, []⟩ := rfl
  unfold flushControl
  rw [htemplate, hctl]
  dsimp only at hacks ⊢
  rw [hacks]
  rfl

end Frames

end Kcp

private theorem bumpScan_consecutive {una sn ts fastresend : UInt32} {items : List Segment}
    (h : Consecutive una (items.map Segment.sn)) (hlen : items.length ≤ 65535) {i : ℕ}
    (hi : i < items.length) (hsn : sn = una + UInt32.ofNat i) :
    bumpScan sn ts fastresend items =
      ((bumpAll ts fastresend (items.take i)).1 ++ items.drop i,
        (bumpAll ts fastresend (items.take i)).2) := by
  induction items generalizing una i with
  | nil => simp at hi
  | cons seg rest ih =>
    obtain ⟨hhead, hrest⟩ := h
    simp only [List.length_cons] at hi hlen
    have hnat : (sn - seg.sn).toNat = i := by
      rw [hsn, hhead, UInt32.add_comm, UInt32.add_sub_cancel, UInt32.toNat_ofNat']
      omega
    have hlt : ¬ itimediff sn seg.sn < 0 := by
      rw [Serial.diff_lt_zero, hnat]
      omega
    cases i with
    | zero =>
      have heq : sn = seg.sn := by
        rw [hsn, hhead]
        simp
      have hstop : bumpScan sn ts fastresend rest = (rest, false, false) := by
        cases rest with
        | nil => rfl
        | cons next rest =>
          have hnext : next.sn = sn + 1 := by rw [hrest.1, heq, hhead]
          have hpast : itimediff sn next.sn < 0 := by
            have hone : sn - (sn + 1) = 0xFFFFFFFF := by grind
            rw [hnext, Serial.diff_lt_zero, hone]
            decide
          rw [bumpScan, if_pos hpast]
      rw [bumpScan, if_neg hlt, if_neg (not_not.mpr heq), hstop]
      rfl
    | succ i =>
      have hsucc : sn = una + 1 + UInt32.ofNat i := by
        rw [hsn, UInt32.ofNat_add]
        grind
      have hne : sn ≠ seg.sn := by
        intro heq
        rw [heq] at hnat
        simp at hnat
      rw [bumpScan, if_neg hlt, if_pos hne, ih hrest (by omega) (by omega) hsucc]
      rfl

namespace Kcp

variable {O C : Type}

section Naive

/-- A connection and its naive twin: the same, but for a summary that is never used. -/
def Twin (k₀ k : Kcp O C) : Prop := ∃ f : FlushScan, f.enabled = false ∧ k₀ = k.withScan f

theorem parseAck_eq (k : Kcp O C) (hk : k.sendView.Ok) (sn : UInt32) :
    k.parseAck sn =
      if itimediff sn k.sndUna < 0 ∨ itimediff sn k.sndNxt ≥ 0 then k else
        match scanForSn sn k.sndBuf.items with
        | none => k
        | some offset =>
          let items := k.sndBuf.items.modify offset fun seg => { seg with acked := true, data := [] }
          { k with sndBuf := k.sndBuf.setItems items } := by
  unfold parseAck
  cases h : k.sndBufOffset sn with
  | none => rfl
  | some offset => rw [scanForSn_of_sndBufOffset hk h]

theorem parseFastack_eq (k : Kcp O C) (hk : k.sendView.Ok) (sn ts : UInt32) :
    k.parseFastack sn ts =
      if itimediff sn k.sndUna < 0 ∨ itimediff sn k.sndNxt ≥ 0 then (k, false) else
        let r := bumpScan sn ts k.fastresend.toUInt32 k.sndBuf.items
        let flushScan := if r.2.2 then { k.flushScan with noFastack := false } else k.flushScan
        ({ k with sndBuf := k.sndBuf.setItems r.1, flushScan := flushScan }, r.2.1) := by
  unfold parseFastack
  cases h : k.sndBufOffset sn with
  | none => rfl
  | some offset =>
    obtain ⟨hlt, hsn⟩ := sndBufOffset_eq_some h
    have hlen := hk.length
    have hcons := hk.consecutive
    simp only [sendView, List.length_map] at hlen hcons
    rw [bumpScan_consecutive hcons hlen hlt hsn]

private theorem parseAck_withScan (k : Kcp O C) (hk : k.sendView.Ok) (f : FlushScan) (sn : UInt32) :
    (k.withScan f).parseAck sn = (k.parseAck sn).withScan f := by
  rw [parseAck_eq k hk, parseAck_eq (k.withScan f) hk]
  simp only [withScan_sndUna, withScan_sndNxt, withScan_sndBuf]
  split_ifs
  · rfl
  · split <;> rfl

private theorem parseFastack_withScan (k : Kcp O C) (hk : k.sendView.Ok) (f : FlushScan)
    (sn ts : UInt32) : ∃ f' : FlushScan, f'.enabled = f.enabled ∧
      (k.withScan f).parseFastack sn ts =
        ((k.parseFastack sn ts).1.withScan f', (k.parseFastack sn ts).2) := by
  rw [parseFastack_eq k hk, parseFastack_eq (k.withScan f) hk, withScan_sndUna, withScan_sndNxt]
  by_cases hout : itimediff sn k.sndUna < 0 ∨ itimediff sn k.sndNxt ≥ 0
  · rw [if_pos hout, if_pos hout]
    exact ⟨f, rfl, rfl⟩
  · rw [if_neg hout, if_neg hout]
    refine ⟨if (bumpScan sn ts k.fastresend.toUInt32 k.sndBuf.items).2.2 then
      { f with noFastack := false } else f, ?_, rfl⟩
    split_ifs <;> rfl

private theorem inputHeader_withScan (k : Kcp O C) (f : FlushScan) (pktType : PacketType)
    (h : SegmentHeader) : ∃ f' : FlushScan, f'.enabled = f.enabled ∧
      (k.withScan f).inputHeader pktType h =
        ((k.inputHeader pktType h).1.withScan f', (k.inputHeader pktType h).2) := by
  refine ⟨{ f with unsent := min f.unsent (k.sndBuf.discard (k.coveredBy h.una)).length }, rfl, ?_⟩
  unfold inputHeader
  split_ifs <;> rfl

private theorem inputSegment_withScan (k : Kcp O C) (hk : k.sendView.Ok) (f : FlushScan)
    (pktType : PacketType) (acc : Parsed) (h : SegmentHeader) (payload : Bytes) :
    ∃ f' : FlushScan, f'.enabled = f.enabled ∧
      (k.withScan f).inputSegment pktType acc h payload =
        ((k.inputSegment pktType acc h payload).1.withScan f',
          (k.inputSegment pktType acc h payload).2) := by
  obtain ⟨d, hd⟩ := k.trim_inputHeader hk pktType h
  obtain ⟨f₁, hf₁, heq₁⟩ := k.inputHeader_withScan f pktType h
  have hok := hk.trim hd
  simp only [inputSegment, heq₁]
  generalize (k.inputHeader pktType h).1 = k₁ at hok ⊢
  generalize (k.inputHeader pktType h).2 = removed
  split_ifs
  · obtain ⟨f₂, hf₂, heq₂⟩ := (k₁.parseAck h.sn).parseFastack_withScan
      (by rwa [sendView_parseAck]) f₁ h.sn h.ts
    rw [parseAck_withScan k₁ hok, heq₂]
    exact ⟨f₂, hf₂.trans hf₁, rfl⟩
  · rw [inputPush_withScan]
    exact ⟨f₁, hf₁, rfl⟩
  · exact ⟨f₁, hf₁, rfl⟩
  · exact ⟨f₁, hf₁, rfl⟩

private theorem inputLoop_withScan (k : Kcp O C) (hk : k.sendView.Ok) (f : FlushScan)
    (pktType : PacketType) (acc : Parsed) (data : Bytes) (fuel : ℕ) :
    ∃ f' : FlushScan, f'.enabled = f.enabled ∧
      inputLoop pktType fuel (k.withScan f) acc data =
        ((inputLoop pktType fuel k acc data).1.withScan f',
          (inputLoop pktType fuel k acc data).2) := by
  induction fuel generalizing k f acc data with
  | zero => exact ⟨f, rfl, rfl⟩
  | succ fuel ih =>
    simp only [inputLoop, withScan_conv]
    split
    · exact ⟨f, rfl, rfl⟩
    · rename_i h rest _
      split_ifs
      · exact ⟨f, rfl, rfl⟩
      · exact ⟨f, rfl, rfl⟩
      · exact ⟨f, rfl, rfl⟩
      · obtain ⟨d, hd⟩ := k.trim_inputSegment hk pktType acc h (rest.take h.len.toNat)
        obtain ⟨f₁, hf₁, heq₁⟩ := k.inputSegment_withScan hk f pktType acc h (rest.take h.len.toNat)
        rw [heq₁]
        obtain ⟨f₂, hf₂, heq₂⟩ := ih (k.inputSegment pktType acc h (rest.take h.len.toNat)).1
          (hk.trim hd) f₁ (k.inputSegment pktType acc h (rest.take h.len.toNat)).2
          (rest.drop h.len.toNat)
        exact ⟨f₂, hf₂.trans hf₁, heq₂⟩

private theorem inputParse_withScan [Clock C] (k : Kcp O C) (hk : k.sendView.Ok) (f : FlushScan)
    (data : Bytes) (pktType : PacketType) : ∃ f' : FlushScan, f'.enabled = f.enabled ∧
      (k.withScan f).inputParse data pktType =
        ((k.inputParse data pktType).1.withScan f', (k.inputParse data pktType).2) := by
  obtain ⟨f', hf', heq⟩ := k.inputLoop_withScan hk f pktType {} data data.length
  unfold inputParse
  split_ifs
  · exact ⟨f, rfl, rfl⟩
  · refine ⟨f', hf', ?_⟩
    rw [heq]
    rcases hloop : inputLoop pktType data.length k {} data with ⟨k', e | acc⟩
    · rfl
    · dsimp only
      rw [inputRtt_withScan, inputCwnd_withScan]
      rfl

end Naive

section Flush

variable [Output O]

/-- The end of a flush: the congestion window and the last packet. -/
def finish (k : Kcp O C) (cwnd : UInt32) (s : Scan O C) : Kcp O C × UInt32 :=
  let k := updateCwnd { k with state := s.state, clock := s.clock } cwnd k.resent s.change s.lostSegs
  ({ k with output := s.packer.flushBuffer }, s.nextUpdate)

private theorem finish_withScan (k : Kcp O C) (f : FlushScan) (cwnd : UInt32) (s : Scan O C) :
    (k.withScan f).finish cwnd s = ((k.finish cwnd s).1.withScan f, (k.finish cwnd s).2) := by
  have hcwnd := updateCwnd_withScan { k with state := s.state, clock := s.clock } f cwnd k.resent
    s.change s.lostSegs
  exact congrArg (fun k' : Kcp O C => (({ k' with output := s.packer.flushBuffer } : Kcp O C),
    s.nextUpdate)) hcwnd

private theorem finish_like (k : Kcp O C) (cwnd : UInt32) {s t : Scan O C} (h : s.Like t) :
    k.finish cwnd t = k.finish cwnd s := by
  obtain ⟨_, _, _, rfl⟩ := h
  rfl

section Prepared

variable [Clock C]

def prepared (k : Kcp O C) : Kcp O C := k.flushControl.1.admitSegments.1

def newSegs (k : Kcp O C) : ℕ := k.flushControl.1.admitSegments.2

def scanVars (k : Kcp O C) : Scan O C := k.prepared.scanStart k.flushControl.2

private theorem prepared_withScan (k : Kcp O C) (f : FlushScan) :
    (k.withScan f).prepared = k.prepared.withScan f := by
  unfold prepared
  rw [flushControl_withScan]
  rfl

private theorem newSegs_withScan (k : Kcp O C) (f : FlushScan) :
    (k.withScan f).newSegs = k.newSegs := by
  unfold newSegs
  rw [flushControl_withScan]
  rfl

private theorem scanVars_withScan (k : Kcp O C) (f : FlushScan) :
    (k.withScan f).scanVars = k.scanVars := by
  unfold scanVars
  rw [prepared_withScan, flushControl_withScan]
  rfl

private theorem flush_full_eq (k : Kcp O C) : k.flush .full =
    finish (k.prepared.scanSegments k.flushControl.2 k.newSegs).1 k.flushControl.1.sendWindow
      (k.prepared.scanSegments k.flushControl.2 k.newSegs).2 := by
  simp only [flush, finish, prepared, newSegs]

private theorem flush_ackOnly_withScan (k : Kcp O C) (f : FlushScan) :
    ∃ f' : FlushScan, f'.enabled = f.enabled ∧ (k.withScan f).flush .ackOnly =
      ((k.flush .ackOnly).1.withScan f', (k.flush .ackOnly).2) := by
  have hflush : ∀ k' : Kcp O C, k'.flush .ackOnly =
      finish (k'.prepared.withScan { k'.prepared.flushScan with
        unsent := k'.prepared.flushScan.unsent + k'.newSegs }) k'.flushControl.1.sendWindow
        k'.scanVars := by
    intro k'
    simp only [flush, finish, prepared, newSegs, scanVars]
    rfl
  have hcwnd : (k.withScan f).flushControl.1.sendWindow = k.flushControl.1.sendWindow := by
    rw [flushControl_withScan]
    rfl
  refine ⟨{ f with unsent := f.unsent + k.newSegs }, rfl, ?_⟩
  rw [hflush k, hflush, prepared_withScan, newSegs_withScan, scanVars_withScan, hcwnd,
    finish_withScan, finish_withScan, finish_withScan]
  rfl

private theorem scanSegments_eq (k : Kcp O C) (p : Packer O) (newSegs : ℕ) : ∃ f : FlushScan,
    k.scanSegments p newSegs =
      let skipped := k.skipCount (k.scanStart p).current (k.flushScan.unsent + newSegs)
      let r := (k.scanStart p).loop (k.scanEnv newSegs) (k.sndBuf.items.drop skipped)
      (withScan { k with sndBuf := k.sndBuf.setItems (k.sndBuf.items.take skipped ++ r.2) } f,
        r.1) := ⟨_, rfl⟩

private theorem scanSegments_naive (k : Kcp O C) {f : FlushScan} (hf : f.enabled = false)
    (p : Packer O) (newSegs : ℕ) : (k.withScan f).scanSegments p newSegs =
      let r := (k.scanStart p).loop (k.scanEnv newSegs) k.sndBuf.items
      (withScan { k with sndBuf := k.sndBuf.setItems r.2 }
        (f.learn 0 (k.scanStart p).current r.1 r.2), r.1) := by
  have hskip : ∀ n, (k.withScan f).skipCount (k.scanStart p).current n = 0 := by
    intro n
    simp [skipCount, FlushScan.canSkip, hf]
  have hstart : (k.withScan f).scanStart p = k.scanStart p := rfl
  unfold scanSegments
  rw [hstart]
  dsimp only
  rw [hskip]
  rfl

end Prepared

variable [TrueClock C]

def scanTime (k : Kcp O C) : ℕ := TrueClock.time k.scanVars.clock

/-- The timing of one full flush: the last one was less than the horizon ago, and the timers of
the transmitted segments stay within the horizon of the clock. -/
structure TimelyFlush (last : Option ℕ) (k : Kcp O C) : Prop where
  gap : ∀ l, last = some l → (k.scanTime : Int) < l + HORIZON
  timers : k.scanVars.Timely (k.prepared.scanEnv k.newSegs) k.prepared.sndBuf.items

private theorem timelyFlush_withScan (k : Kcp O C) (f : FlushScan) {last : Option ℕ}
    (h : (k.withScan f).TimelyFlush last) : k.TimelyFlush last := by
  obtain ⟨hgap, htimers⟩ := h
  rw [scanVars_withScan, prepared_withScan, newSegs_withScan] at htimers
  refine ⟨?_, htimers⟩
  unfold scanTime at hgap ⊢
  rwa [scanVars_withScan] at hgap

private theorem flush_full_naive (k : Kcp O C) {last : Option ℕ} (hk : k.scanView.Ok last)
    (ht : k.TimelyFlush last) {f : FlushScan} (hf : f.enabled = false) :
    (k.flush .full).1.scanView.Ok (some k.scanTime) ∧
    ∃ f' : FlushScan, f'.enabled = false ∧ (k.withScan f).flush .full =
      ((k.flush .full).1.withScan f', (k.flush .full).2) := by
  have hctl := k.scanOk_flushControl hk
  obtain ⟨new, hnew, hview⟩ := k.flushControl.1.scanView_admitSegments
  have hitems : k.prepared.sndBuf.items = k.flushControl.1.sndBuf.items ++ new :=
    congrArg ScanView.items hview
  have hholds := hctl.holds.append new
  rw [hnew] at hholds
  obtain ⟨hlike, hleft, hnext⟩ := k.prepared.scan_skip k.flushControl.2 k.newSegs
    last (by rw [hitems]; exact hholds) hctl.past ht.gap ht.timers
  refine ⟨?_, f.learn 0 k.scanVars.current (k.scanVars.loop (k.prepared.scanEnv k.newSegs)
    k.prepared.sndBuf.items).1 (k.scanVars.loop (k.prepared.scanEnv k.newSegs)
    k.prepared.sndBuf.items).2, ?_, ?_⟩
  · obtain ⟨ssthresh, cwnd, incr, h⟩ := k.flush_full
    rw [h]
    exact hnext
  · unfold FlushScan.learn
    dsimp only
    split_ifs <;> exact hf
  · have hpacker : (k.withScan f).flushControl.2 = k.flushControl.2 := by
      rw [flushControl_withScan]
    have hcwnd : (k.withScan f).flushControl.1.sendWindow = k.flushControl.1.sendWindow := by
      rw [flushControl_withScan]
      rfl
    obtain ⟨f', hscan⟩ := k.prepared.scanSegments_eq k.flushControl.2 k.newSegs
    dsimp only at hscan
    rw [← hleft] at hscan
    rw [flush_full_eq, flush_full_eq, prepared_withScan, newSegs_withScan, hcwnd, hpacker,
      scanSegments_naive _ hf, hscan]
    dsimp only
    rw [finish_like _ _ hlike, finish_withScan, finish_withScan]
    generalize finish (O := O) (C := C) _ _ _ = done
    rfl

end Flush

section Runs

variable [Output O] [TrueClock C]

/-- The connection at the full flush an operation makes, if it makes one. -/
def fullFlushAt (k : Kcp O C) : Op → Option (Kcp O C)
  | .flush .full => some k
  | .update => if k.updateTimer.2 then some k.updateTimer.1 else none
  | .input data pktType ackNoDelay =>
    match k.inputParse data pktType with
    | (_, .error _) => none
    | (k', .ok acc) => if k'.inputFlush acc ackNoDelay = some .full then some k' else none
  | _ => none

/-- The timing of a run: at each of its full flushes. `last` is when the previous one started to
scan. -/
def TimelyRun : Option ℕ → Kcp O C → List Op → Prop
  | _, _, [] => True
  | last, k, op :: ops =>
    match k.fullFlushAt op with
    | none => TimelyRun last (k.step op).1 ops
    | some k' => k'.TimelyFlush last ∧ TimelyRun (some k'.scanTime) (k.step op).1 ops

def lastAfter (k : Kcp O C) (last : Option ℕ) (op : Op) : Option ℕ :=
  match k.fullFlushAt op with
  | none => last
  | some k' => some k'.scanTime

/-- What one operation does to a connection whose summary is right and to its naive twin. -/
structure StepOk (k₀ k : Kcp O C) (last : Option ℕ) (op : Op) : Prop where
  twin : (k₀.step op).1.Twin (k.step op).1
  ret : (k₀.step op).2 = (k.step op).2
  scan : (k.step op).1.scanView.Ok (k₀.lastAfter last op)

private theorem stepOk_flush (k₀ : Kcp O C) {k : Kcp O C} {last : Option ℕ} (htwin : k₀.Twin k)
    (hk : k.scanView.Ok last) (flushType : FlushType)
    (ht : flushType = .full → k₀.TimelyFlush last) :
    (k₀.flush flushType).1.Twin (k.flush flushType).1 ∧
    (k₀.flush flushType).2 = (k.flush flushType).2 ∧
    (k.flush flushType).1.scanView.Ok (if flushType = .full then some k₀.scanTime else last) := by
  obtain ⟨f, hf, rfl⟩ := htwin
  cases flushType with
  | ackOnly =>
    obtain ⟨f', hf', heq⟩ := k.flush_ackOnly_withScan f
    rw [heq]
    exact ⟨⟨f', hf'.trans hf, rfl⟩, rfl, k.scanOk_flush_ackOnly hk⟩
  | full =>
    have htimely := k.timelyFlush_withScan f (ht rfl)
    obtain ⟨hok, f', hf', heq⟩ := k.flush_full_naive hk htimely hf
    have htime : (k.withScan f).scanTime = k.scanTime := by
      unfold scanTime
      rw [scanVars_withScan]
    rw [heq, if_pos rfl, htime]
    exact ⟨⟨f', hf', rfl⟩, rfl, hok⟩

private theorem stepOk_frame {k₀ k : Kcp O C} {last : Option ℕ} {op : Op} (htwin : k₀.Twin k)
    (hk : k.scanView.Ok last)
    (hstep : ∀ f, (k.withScan f).step op = ((k.step op).1.withScan f, (k.step op).2))
    (hview : (k.step op).1.scanView = k.scanView) (hnone : k₀.fullFlushAt op = none) :
    StepOk k₀ k last op := by
  obtain ⟨f, hf, rfl⟩ := htwin
  refine ⟨?_, ?_, ?_⟩
  · rw [hstep]
    exact ⟨f, hf, rfl⟩
  · rw [hstep]
  · rw [hview, lastAfter, hnone]
    exact hk

private theorem stepOk_input {k₀ k : Kcp O C} {last : Option ℕ} (htwin : k₀.Twin k)
    (hv : k.sendView.Ok) (hk : k.scanView.Ok last) (data : Bytes) (pktType : PacketType)
    (ackNoDelay : Bool)
    (ht : ∀ k', k₀.fullFlushAt (.input data pktType ackNoDelay) = some k' → k'.TimelyFlush last) :
    StepOk k₀ k last (.input data pktType ackNoDelay) := by
  obtain ⟨f, hf, rfl⟩ := htwin
  obtain ⟨f', hf', heq⟩ := k.inputParse_withScan hv f data pktType
  have hparse := k.scanOk_inputParse hk data pktType
  have hlast : (k.withScan f).lastAfter last (.input data pktType ackNoDelay) =
      match (k.withScan f).fullFlushAt (.input data pktType ackNoDelay) with
      | none => last
      | some k' => some k'.scanTime := rfl
  rcases hres : k.inputParse data pktType with ⟨k', e | acc⟩
  · rw [hres] at heq hparse
    have hstep : ∀ (k₁ k₂ : Kcp O C), k₁.inputParse data pktType = (k₂, .error e) →
        k₁.step (.input data pktType ackNoDelay) = (k₂, { code := e }) := by
      intro k₁ k₂ h
      simp only [step, input, h]
    have hnone : (k.withScan f).fullFlushAt (.input data pktType ackNoDelay) = none := by
      simp only [fullFlushAt, heq]
    refine ⟨?_, ?_, ?_⟩
    · rw [hstep _ _ heq, hstep _ _ hres]
      exact ⟨f', hf'.trans hf, rfl⟩
    · rw [hstep _ _ heq, hstep _ _ hres]
    · rw [hlast, hnone, hstep _ _ hres]
      exact hparse
  · rw [hres] at heq hparse
    have hdue : (k'.withScan f').inputFlush acc ackNoDelay = k'.inputFlush acc ackNoDelay := rfl
    cases hflush : k'.inputFlush acc ackNoDelay with
    | none =>
      have hstep : ∀ (k₁ k₂ : Kcp O C), k₁.inputParse data pktType = (k₂, .ok acc) →
          k₂.inputFlush acc ackNoDelay = none →
          k₁.step (.input data pktType ackNoDelay) = (k₂, { code := 0 }) := by
        intro k₁ k₂ h h'
        simp only [step, input, h, h']
      have hnone : (k.withScan f).fullFlushAt (.input data pktType ackNoDelay) = none := by
        simp [fullFlushAt, heq, hdue, hflush]
      refine ⟨?_, ?_, ?_⟩
      · rw [hstep _ _ heq (hdue.trans hflush), hstep _ _ hres hflush]
        exact ⟨f', hf'.trans hf, rfl⟩
      · rw [hstep _ _ heq (hdue.trans hflush), hstep _ _ hres hflush]
      · rw [hlast, hnone, hstep _ _ hres hflush]
        exact hparse
    | some flushType =>
      have hstep : ∀ (k₁ k₂ : Kcp O C), k₁.inputParse data pktType = (k₂, .ok acc) →
          k₂.inputFlush acc ackNoDelay = some flushType →
          k₁.step (.input data pktType ackNoDelay) = ((k₂.flush flushType).1, { code := 0 }) := by
        intro k₁ k₂ h h'
        simp only [step, input, h, h']
      have hat : (k.withScan f).fullFlushAt (.input data pktType ackNoDelay) =
          if flushType = .full then some (k'.withScan f') else none := by
        simp [fullFlushAt, heq, hdue, hflush]
      obtain ⟨htwin, -, hok⟩ := stepOk_flush (k'.withScan f') ⟨f', hf'.trans hf, rfl⟩ hparse
        flushType fun hfull => ht _ (by rw [hat, if_pos hfull])
      refine ⟨?_, ?_, ?_⟩
      · rw [hstep _ _ heq (hdue.trans hflush), hstep _ _ hres hflush]
        exact htwin
      · rw [hstep _ _ heq (hdue.trans hflush), hstep _ _ hres hflush]
      · rw [hlast, hat, hstep _ _ hres hflush]
        split_ifs at hok ⊢ <;> exact hok

private theorem stepOk_update {k₀ k : Kcp O C} {last : Option ℕ} (htwin : k₀.Twin k)
    (hk : k.scanView.Ok last)
    (ht : ∀ k', k₀.fullFlushAt .update = some k' → k'.TimelyFlush last) :
    StepOk k₀ k last .update := by
  obtain ⟨f, hf, rfl⟩ := htwin
  have htimer := k.updateTimer_withScan f
  have hok := k.scanOk_updateTimer hk
  have hat : (k.withScan f).fullFlushAt .update =
      if k.updateTimer.2 then some (k.updateTimer.1.withScan f) else none := by
    simp only [fullFlushAt, htimer]
  have hupdate : ∀ k₁ : Kcp O C, k₁.step .update =
      (if k₁.updateTimer.2 then (k₁.updateTimer.1.flush .full).1 else k₁.updateTimer.1, {}) := by
    intro k₁
    simp only [step, update]
  have hlast : (k.withScan f).lastAfter last .update =
      match (k.withScan f).fullFlushAt .update with
      | none => last
      | some k' => some k'.scanTime := rfl
  by_cases hdue : k.updateTimer.2 = true
  · rw [if_pos hdue] at hat
    obtain ⟨htwin, -, hscan⟩ := stepOk_flush (k.updateTimer.1.withScan f) ⟨f, hf, rfl⟩ hok
      .full fun _ => ht _ hat
    refine ⟨?_, ?_, ?_⟩
    · rw [hupdate, hupdate, htimer, if_pos hdue, if_pos hdue]
      dsimp only
      exact htwin
    · rw [hupdate, hupdate]
    · rw [hlast, hat, hupdate, if_pos hdue]
      exact hscan
  · rw [if_neg hdue] at hat
    refine ⟨?_, ?_, ?_⟩
    · rw [hupdate, hupdate, htimer, if_neg hdue, if_neg hdue]
      exact ⟨f, hf, rfl⟩
    · rw [hupdate, hupdate]
    · rw [hlast, hat, hupdate, if_neg hdue]
      exact hok

private theorem stepOk {k₀ k : Kcp O C} {last : Option ℕ} (htwin : k₀.Twin k) (hv : k.sendView.Ok)
    (hk : k.scanView.Ok last) (op : Op)
    (ht : ∀ k', k₀.fullFlushAt op = some k' → k'.TimelyFlush last) : StepOk k₀ k last op := by
  cases op with
  | send buffer =>
    refine stepOk_frame htwin hk ?_ (k.scanView_send buffer) rfl
    intro f
    simp only [step, send_withScan]
  | recv buflen =>
    refine stepOk_frame htwin hk ?_ (k.scanView_recv buflen) rfl
    intro f
    simp only [step, recv_withScan]
  | input data pktType ackNoDelay => exact stepOk_input htwin hv hk data pktType ackNoDelay ht
  | flush flushType =>
    obtain ⟨htwin', hret, hscan⟩ := stepOk_flush k₀ htwin hk flushType fun hfull => ht k₀ (by
      rw [hfull]
      rfl)
    refine ⟨htwin', by simp only [step, hret], ?_⟩
    cases flushType <;> exact hscan
  | update => exact stepOk_update htwin hk ht
  | nodelay nodelay interval resend nc =>
    refine stepOk_frame htwin hk ?_ ?_ rfl
    · intro f
      simp only [step, setNodelay_withScan]
    · obtain ⟨_, _, _, _, _, h⟩ := k.setNodelay_frame nodelay interval resend nc
      rw [step, h]
      rfl
  | setMtu mtu =>
    refine stepOk_frame htwin hk ?_ ?_ rfl
    · intro f
      simp only [step, setMtu_withScan]
    · obtain ⟨_, _, h⟩ := k.setMtu_frame mtu
      rw [step, h]
      rfl
  | wndSize sndwnd rcvwnd =>
    refine stepOk_frame htwin hk ?_ ?_ rfl
    · intro f
      simp only [step, wndSize_withScan]
    · obtain ⟨_, _, h⟩ := k.wndSize_frame sndwnd rcvwnd
      rw [step, h]
      rfl
  | setStream stream => exact stepOk_frame htwin hk (fun _ => rfl) rfl rfl
  | shrinkIdleBuffers heapReleased ackReleased =>
    exact stepOk_frame htwin hk (fun _ => rfl)
      (k.scanView_shrinkIdleBuffers heapReleased ackReleased) rfl

instance (last : Option ℕ) (k : Kcp O C) : Decidable (k.TimelyFlush last) :=
  decidable_of_iff ((∀ l ∈ last, (k.scanTime : Int) < l + HORIZON) ∧
      k.scanVars.Timely (k.prepared.scanEnv k.newSegs) k.prepared.sndBuf.items)
    ⟨fun h => ⟨fun l hl => h.1 l hl, h.2⟩, fun h => ⟨fun l hl => h.gap l hl, h.timers⟩⟩

instance decidableTimelyRun : (last : Option ℕ) → (k : Kcp O C) → (ops : List Op) →
    Decidable (TimelyRun last k ops)
  | _, _, [] => isTrue trivial
  | last, k, op :: ops =>
    match h : k.fullFlushAt op with
    | none =>
      have := decidableTimelyRun last (k.step op).1 ops
      decidable_of_iff (TimelyRun last (k.step op).1 ops) (by rw [TimelyRun, h])
    | some k' =>
      have := decidableTimelyRun (some k'.scanTime) (k.step op).1 ops
      decidable_of_iff (k'.TimelyFlush last ∧ TimelyRun (some k'.scanTime) (k.step op).1 ops)
        (by rw [TimelyRun, h])

private theorem TimelyRun.cons {k : Kcp O C} {last : Option ℕ} {op : Op} {ops : List Op}
    (h : TimelyRun last k (op :: ops)) :
    (∀ k', k.fullFlushAt op = some k' → k'.TimelyFlush last) ∧
      TimelyRun (k.lastAfter last op) (k.step op).1 ops := by
  unfold lastAfter
  unfold TimelyRun at h
  split at h
  · rename_i hnone
    rw [hnone]
    exact ⟨fun k' h' => (by cases h'), h⟩
  · rename_i k₁ hsome
    rw [hsome]
    exact ⟨fun k' h' => (by cases h'; exact h.1), h.2⟩

private theorem twin_run (k₀ : Kcp O C) {k : Kcp O C} {last : Option ℕ} (htwin : k₀.Twin k)
    (hv : k.sendView.Ok) (hk : k.scanView.Ok last) {ops : List Op} (ht : TimelyRun last k₀ ops) :
    (run step k₀ ops).1.Twin (run step k ops).1 ∧ (run step k₀ ops).2 = (run step k ops).2 := by
  induction ops generalizing k₀ k last with
  | nil => exact ⟨htwin, rfl⟩
  | cons op ops ih =>
    obtain ⟨hflush, hrest⟩ := ht.cons
    have hstep := stepOk htwin hv hk op hflush
    obtain ⟨htwin', hrets⟩ := ih _ hstep.twin (k.ok_step hv op) hstep.scan hrest
    rw [run_cons, run_cons]
    exact ⟨htwin', by rw [hstep.ret, hrets]⟩

def naive (conv : UInt32) (output : O) (clock : C) : Kcp O C :=
  (withClock conv output clock).withScan { enabled := false }

/-- Skipping and computing offsets is invisible: over every run whose clock is timely, a
connection and its naive twin return the same values and end equal in every field except the
summary, the packets handed to the output included. -/
theorem skip_refines_naive (conv : UInt32) (output : O) (clock : C) (ops : List Op)
    (h : TimelyRun none (naive conv output clock) ops) :
    let fast := run step (withClock conv output clock : Kcp O C) ops
    let slow := run step (naive conv output clock : Kcp O C) ops
    fast.2 = slow.2 ∧ fast.1.output.sent = slow.1.output.sent ∧
      slow.1 = fast.1.withScan slow.1.flushScan := by
  intro fast slow
  have hscan : (withClock conv output clock : Kcp O C).scanView.Ok none := by
    refine ⟨⟨fun hdue => absurd rfl hdue, trivial, ?_⟩, ?_⟩
    · intro hfast
      cases hfast
    · intro l hl
      cases hl
  obtain ⟨⟨f, -, heq⟩, hrets⟩ := twin_run (naive conv output clock) ⟨_, rfl, rfl⟩
    (ok_withClock conv output clock) hscan h
  have hslow : slow.1 = fast.1.withScan f := heq
  refine ⟨hrets.symm, ?_, ?_⟩
  · rw [hslow]
    rfl
  · rw [hslow]
    rfl

/-- Two full flushes in a row, an acknowledgement and a timer, over the wrap of the clock. -/
theorem skip_refines_naive_wrapping :
    let ops : List Op := [.nodelay 1 10 2 1, .send [1, 2, 3], .flush .full, .flush .full,
      .input ([7, 0, 0, 0, 82, 0, 32, 0] ++ List.replicate 16 0) .regular false, .update]
    TimelyRun none (naive 7 (⟨⟩ : Unbounded) (⟨4294967290⟩ : Ticking)) ops ∧
    let fast := run step (withClock 7 (⟨⟩ : Unbounded) (⟨4294967290⟩ : Ticking)) ops
    let slow := run step (naive 7 (⟨⟩ : Unbounded) (⟨4294967290⟩ : Ticking)) ops
    fast.2 = slow.2 ∧ fast.1.output.sent = slow.1.output.sent ∧
      slow.1 = fast.1.withScan slow.1.flushScan :=
  ⟨by decide +kernel, skip_refines_naive _ _ _ _ (by decide +kernel)⟩

end Runs

end Kcp

end Kcptun.Arq
