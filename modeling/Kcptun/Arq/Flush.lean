/- Kcptun/Arq/Flush
   source: crates/kcp/src/kcp.rs (flush)
   digest: One flush: acknowledgements, probes, admission to the window, the segment scan. -/

import Kcptun.Arq.AckPath
import Kcptun.Arq.Queues

set_option autoImplicit false
set_option relaxedAutoImplicit false

namespace Kcptun.Arq

open Kcptun.Lib Kcptun.Lib.LittleEndian

/-- The packet being assembled: the sink and the bytes written to the flush buffer so far. -/
structure Packer (O : Type) where
  sink : Sink O
  buf : Bytes

namespace Packer

variable {O : Type} [Output O]

/-- `make_space!`: closes the packet when `space` more bytes would exceed `mtu`. -/
def makeSpace (p : Packer O) (mtu : UInt32) (space : ℕ) : Packer O :=
  if p.buf.length + space > mtu.toNat then ⟨p.sink.output p.buf, []⟩ else p

/-- `encode!` of a header, followed by the payload. -/
def write (p : Packer O) (seg : Segment) : Packer O := { p with buf := p.buf ++ seg.wire }

def hasRoom (p : Packer O) : Bool × Packer O :=
  (p.sink.capacity.1 ≥ OUTPUT_ROOM, { p with sink := p.sink.capacity.2 })

def flushBuffer (p : Packer O) : Sink O :=
  if p.buf.length > 0 then p.sink.output p.buf else p.sink

end Packer

section Loops

variable {O C : Type} [Output O] [Clock C]

/-- The acknowledgement loop: the template segment as it was last written, the acknowledgements
kept for the next flush, and the packet. An acknowledgement before `rcvNxt` is written only when
it is the last one. -/
def flushAcks (mtu rcvNxt : UInt32) :
    Segment → List AckItem → Packer O → Segment × List AckItem × Packer O
  | seg, [], p => (seg, [], p)
  | seg, ack :: rest, p =>
    let (room, p) := p.hasRoom
    if !room then (seg, ack :: rest, p) else
      let p := p.makeSpace mtu IKCP_OVERHEAD
      if itimediff ack.sn rcvNxt ≥ 0 ∨ rest.isEmpty then
        let seg := { seg with sn := ack.sn, ts := ack.ts }
        flushAcks mtu rcvNxt seg rest (p.write seg)
      else flushAcks mtu rcvNxt seg rest p

/-- One window probing command: the probe bit it wrote out, if any. -/
def sendProbe (mtu probe bit : UInt32) (cmd : UInt8) (seg : Segment) (p : Packer O) :
    UInt32 × Segment × Packer O :=
  if probe &&& bit = 0 then (0, seg, p) else
    let (room, p) := p.hasRoom
    if !room then (0, seg, p) else
      let seg := { seg with cmd := cmd }
      (bit, seg, (p.makeSpace mtu IKCP_OVERHEAD).write seg)

structure Admitted where
  queue : Fifo Segment
  buf : Fifo Segment
  nxt : UInt32
  count : ℕ

/-- Moves segments from `sndQueue` into the send window `sndUna + cwnd`. The loop runs at most
once per queued segment. -/
def admitLoop (conv sndUna cwnd : UInt32) : ℕ → Admitted → Admitted
  | 0, a => a
  | fuel + 1, a =>
    if itimediff a.nxt (sndUna + cwnd) ≥ 0 then a else
      match a.queue.pop with
      | none => a
      | some (newseg, queue) =>
        let newseg := { newseg with conv := conv, cmd := IKCP_CMD_PUSH, sn := a.nxt }
        admitLoop conv sndUna cwnd fuel ⟨queue, a.buf.push newseg, a.nxt + 1, a.count + 1⟩

structure ScanEnv where
  mtu : UInt32
  rxRto : UInt32
  nodelay : UInt32
  deadLink : UInt32
  resent : UInt32
  newSegs : ℕ
  wnd : UInt16
  una : UInt32

structure Scan (O C : Type) where
  packer : Packer O
  clock : C
  current : UInt32
  state : UInt32
  change : ℕ := 0
  lostSegs : ℕ := 0
  nextUpdate : UInt32
  backpressured : Bool := false
  minRto : Int
  scanFastack : Bool := false
  scanUnsent : ℕ := 0

/-- `i32::MAX`. -/
def I32_MAX : Int := 2147483647

/-- Which of the four branches (re)transmits a segment. -/
inductive Resend where
  | initial
  | fast
  | early
  | timeout
  deriving DecidableEq, Repr

/-- The backpressure predicate, decided before anything is written to the segment. -/
def wouldSend (env : ScanEnv) (current : UInt32) (seg : Segment) : Bool :=
  seg.xmit = 0
    ∨ (seg.fastack ≥ env.resent ∧ seg.fastack ≠ 0xFFFFFFFF)
    ∨ (seg.fastack > 0 ∧ seg.fastack ≠ 0xFFFFFFFF ∧ env.newSegs = 0)
    ∨ itimediff current seg.resendts ≥ 0

/-- The retransmit branches: the segment with its new timer, and the branch that fired. -/
def mark (env : ScanEnv) (current : UInt32) (seg : Segment) : Option (Segment × Resend) :=
  if seg.xmit = 0 then
    some ({ seg with rto := env.rxRto, resendts := current + env.rxRto }, .initial)
  else if seg.fastack ≥ env.resent ∧ seg.fastack ≠ 0xFFFFFFFF then
    some ({ seg with fastack := 0xFFFFFFFF, rto := env.rxRto,
                     resendts := current + env.rxRto }, .fast)
  else if seg.fastack > 0 ∧ seg.fastack ≠ 0xFFFFFFFF ∧ env.newSegs = 0 then
    some ({ seg with fastack := 0xFFFFFFFF, rto := env.rxRto,
                     resendts := current + env.rxRto }, .early)
  else if itimediff current seg.resendts ≥ 0 then
    let rto := seg.rto + (if env.nodelay = 0 then env.rxRto else env.rxRto / 2)
    some ({ seg with rto := rto, fastack := 0, resendts := current + rto }, .timeout)
  else none

namespace Scan

def nearest (s : Scan O C) (rto : Int) : Scan O C :=
  if rto > 0 ∧ rto < s.nextUpdate.toNat then { s with nextUpdate := UInt32.ofNat rto.toNat } else s

def noteTail (s : Scan O C) (seg : Segment) : Scan O C :=
  { s with scanUnsent := s.scanUnsent + if seg.xmit = 0 then 1 else 0 }

def noteScanned (s : Scan O C) (seg : Segment) (rto : Int) : Scan O C :=
  { s.noteTail seg with
    scanFastack := s.scanFastack || (seg.fastack - 1 < 0xFFFFFFFE)
    minRto := min s.minRto rto }

def transmit (env : ScanEnv) (s : Scan O C) (seg : Segment) (why : Resend) :
    Scan O C × Segment :=
  let (current, clock) := Clock.nowMs s.clock
  let seg := { seg with xmit := seg.xmit + 1, ts := current, wnd := env.wnd, una := env.una }
  let packer := (s.packer.makeSpace env.mtu (IKCP_OVERHEAD + seg.data.length)).write seg
  ({ s with
      packer := packer
      clock := clock
      current := current
      state := if seg.xmit ≥ env.deadLink then 0xFFFFFFFF else s.state
      change := s.change + if why = .fast ∨ why = .early then 1 else 0
      lostSegs := s.lostSegs + if why = .timeout then 1 else 0 }, seg)

def askRoom (env : ScanEnv) (s : Scan O C) (seg : Segment) : Scan O C :=
  if !s.backpressured && wouldSend env s.current seg then
    { s with packer := s.packer.hasRoom.2, backpressured := !s.packer.hasRoom.1 }
  else s

def segment (env : ScanEnv) (s : Scan O C) (seg : Segment) : Scan O C × Segment :=
  if seg.acked then (s.noteTail seg, seg) else
    let s := s.askRoom env seg
    if s.backpressured then
      let rto := itimediff seg.resendts s.current
      ((s.nearest rto).noteScanned seg (if seg.xmit = 0 then I32_MAX else rto), seg)
    else
      let (s, seg) := match mark env s.current seg with
        | none => (s, seg)
        | some (seg, why) => s.transmit env seg why
      let rto := itimediff seg.resendts s.current
      ((s.nearest rto).noteScanned seg rto, seg)

def loop (env : ScanEnv) : Scan O C → List Segment → Scan O C × List Segment
  | s, [] => (s, [])
  | s, seg :: rest =>
    let (s, seg) := s.segment env seg
    let (s, rest) := loop env s rest
    (s, seg :: rest)

omit [Clock C] in
@[simp] theorem askRoom_current (env : ScanEnv) (s : Scan O C) (seg : Segment) :
    (s.askRoom env seg).current = s.current := by
  unfold askRoom
  split_ifs <;> rfl

theorem segment_acked (env : ScanEnv) (s : Scan O C) {seg : Segment} (h : seg.acked = true) :
    s.segment env seg = (s.noteTail seg, seg) := by
  rw [segment, if_pos h]

theorem segment_held (env : ScanEnv) (s : Scan O C) {seg : Segment} (h : seg.acked = false)
    (hb : (s.askRoom env seg).backpressured = true) :
    s.segment env seg =
      (((s.askRoom env seg).nearest (itimediff seg.resendts s.current)).noteScanned seg
        (if seg.xmit = 0 then I32_MAX else itimediff seg.resendts s.current), seg) := by
  simp [segment, h, hb]

theorem segment_idle (env : ScanEnv) (s : Scan O C) {seg : Segment} (h : seg.acked = false)
    (hb : (s.askRoom env seg).backpressured = false) (hm : mark env s.current seg = none) :
    s.segment env seg =
      (((s.askRoom env seg).nearest (itimediff seg.resendts s.current)).noteScanned seg
        (itimediff seg.resendts s.current), seg) := by
  simp [segment, h, hb, hm]

theorem segment_sent (env : ScanEnv) (s : Scan O C) {seg marked : Segment} {why : Resend}
    (h : seg.acked = false) (hb : (s.askRoom env seg).backpressured = false)
    (hm : mark env s.current seg = some (marked, why)) :
    s.segment env seg =
      let t := (s.askRoom env seg).transmit env marked why
      ((t.1.nearest (itimediff t.2.resendts t.1.current)).noteScanned t.2
        (itimediff t.2.resendts t.1.current), t.2) := by
  simp [segment, h, hb, hm]

omit [Clock C] in
theorem segment_cases (env : ScanEnv) (s : Scan O C) (seg : Segment) :
    seg.acked = true ∨
    (seg.acked = false ∧ (s.askRoom env seg).backpressured = true) ∨
    (seg.acked = false ∧ (s.askRoom env seg).backpressured = false ∧
      mark env s.current seg = none) ∨
    ∃ marked why, seg.acked = false ∧ (s.askRoom env seg).backpressured = false ∧
      mark env s.current seg = some (marked, why) := by
  cases seg.acked <;> cases (s.askRoom env seg).backpressured <;>
    rcases mark env s.current seg with _ | ⟨marked, why⟩ <;> simp

end Scan

theorem mark_eq_some {env : ScanEnv} {current : UInt32} {seg marked : Segment} {why : Resend}
    (h : mark env current seg = some (marked, why)) :
    marked = { seg with rto := marked.rto, resendts := marked.resendts,
                        fastack := marked.fastack } := by
  simp only [mark] at h
  split_ifs at h <;> cases h <;> rfl

theorem wouldSend_of_mark {env : ScanEnv} {current : UInt32} {seg marked : Segment}
    {why : Resend} (h : mark env current seg = some (marked, why)) :
    wouldSend env current seg = true := by
  simp only [mark] at h
  simp only [wouldSend, decide_eq_true_eq]
  split_ifs at h with h1 h2 h3 h4
  · exact .inl h1
  · exact .inr (.inl h2)
  · exact .inr (.inr (.inl h3))
  all_goals exact .inr (.inr (.inr h4))

end Loops

def unsentTail (items : List Segment) : ℕ :=
  (items.reverse.takeWhile fun seg => seg.xmit = 0).length

/-- What a full flush learnt from the segments it scanned and the bound it kept for the rest. -/
def FlushScan.learn {O C : Type} (f : FlushScan) (skipped : ℕ) (scanBase : UInt32)
    (s : Scan O C) (items : List Segment) : FlushScan :=
  let head := if skipped > 0 then f.due else .nothing
  let scanDue :=
    if s.minRto = I32_MAX then .nothing else .notBefore (scanBase + (Int32.ofInt s.minRto).toUInt32)
  let tail := unsentTail items
  if s.scanUnsent ≠ tail then
    { f with due := .unknown, noFastack := !s.scanFastack, unsent := 0 }
  else { f with due := head.merge scanDue, noFastack := !s.scanFastack, unsent := tail }

namespace Kcp

variable {O C : Type} [Output O] [Clock C]

def probeTimer (k : Kcp O C) : Kcp O C :=
  if k.rmtWnd = 0 then
    let (current, clock) := Clock.nowMs k.clock
    if k.probeWait = 0 then
      { k with clock := clock, probeWait := IKCP_PROBE_INIT, tsProbe := current + IKCP_PROBE_INIT }
    else if itimediff current k.tsProbe ≥ 0 then
      let wait := if k.probeWait < IKCP_PROBE_INIT then IKCP_PROBE_INIT else k.probeWait
      let wait := wait + wait / 2
      let wait := if wait > IKCP_PROBE_LIMIT then IKCP_PROBE_LIMIT else wait
      { k with clock := clock, probeWait := wait, tsProbe := current + wait,
               probe := k.probe ||| IKCP_ASK_SEND }
    else { k with clock := clock }
  else { k with tsProbe := 0, probeWait := 0 }

def template (k : Kcp O C) : Segment :=
  { conv := k.conv, cmd := IKCP_CMD_ACK, wnd := k.wndUnused, una := k.rcvNxt }

/-- Writes the acknowledgements and the window probes. The packet under construction holds the
sink until the end of the flush. -/
def flushControl (k : Kcp O C) : Kcp O C × Packer O :=
  let (seg, acklist, p) := flushAcks k.mtu k.rcvNxt k.template k.acklist ⟨k.output, []⟩
  let k := probeTimer { k with acklist := acklist }
  let (askDone, seg, p) := sendProbe k.mtu k.probe IKCP_ASK_SEND IKCP_CMD_WASK seg p
  let (tellDone, _, p) := sendProbe k.mtu k.probe IKCP_ASK_TELL IKCP_CMD_WINS seg p
  ({ k with probe := k.probe &&& ~~~(askDone ||| tellDone) }, p)

def sendWindow (k : Kcp O C) : UInt32 :=
  let cwnd := imin k.sndWnd k.rmtWnd
  if k.nocwnd = 0 then imin k.cwnd cwnd else cwnd

/-- The admission loop, and how many segments it moved. -/
def admitSegments (k : Kcp O C) : Kcp O C × ℕ :=
  let a := admitLoop k.conv k.sndUna k.sendWindow k.sndQueue.length ⟨k.sndQueue, k.sndBuf, k.sndNxt, 0⟩
  ({ k with sndQueue := a.queue, sndBuf := a.buf, sndNxt := a.nxt }, a.count)

/-- The fast-retransmit threshold; a non-positive `fastresend` disables it. -/
def resent (k : Kcp O C) : UInt32 :=
  if k.fastresend ≤ 0 then 0xFFFFFFFF else k.fastresend.toUInt32

def scanEnv (k : Kcp O C) (newSegs : ℕ) : ScanEnv where
  mtu := k.mtu
  rxRto := k.rxRto
  nodelay := k.nodelay
  deadLink := k.deadLink
  resent := k.resent
  newSegs := newSegs
  wnd := k.wndUnused
  una := k.rcvNxt

/-- The local variables before the segment loop; reads the clock. -/
def scanStart (k : Kcp O C) (p : Packer O) : Scan O C where
  packer := p
  clock := (Clock.nowMs k.clock).2
  current := (Clock.nowMs k.clock).1
  state := k.state
  nextUpdate := k.interval
  minRto := I32_MAX

def skipCount (k : Kcp O C) (current : UInt32) (unsentNow : ℕ) : ℕ :=
  if k.flushScan.canSkip current k.interval then k.sndBuf.length - unsentNow else 0

/-- The segment loop of a full flush, and what it learns for the next one. -/
def scanSegments (k : Kcp O C) (p : Packer O) (newSegs : ℕ) : Kcp O C × Scan O C :=
  let s := k.scanStart p
  let skipped := k.skipCount s.current (k.flushScan.unsent + newSegs)
  let r := s.loop (k.scanEnv newSegs) (k.sndBuf.items.drop skipped)
  let items := k.sndBuf.items.take skipped ++ r.2
  ({ k with
      sndBuf := k.sndBuf.setItems items
      flushScan := k.flushScan.learn skipped s.current r.1 items }, r.1)

def updateCwnd (k : Kcp O C) (cwnd resent : UInt32) (change lostSegs : ℕ) : Kcp O C :=
  if k.nocwnd ≠ 0 then k else
    let k :=
      if change > 0 then
        let ssthresh := imax ((k.sndNxt - k.sndUna) / 2) IKCP_THRESH_MIN
        let cwnd := ssthresh + resent
        { k with ssthresh := ssthresh, cwnd := cwnd, incr := cwnd * k.mss }
      else k
    let k :=
      if lostSegs > 0 then
        { k with ssthresh := imax (cwnd / 2) IKCP_THRESH_MIN, cwnd := 1, incr := k.mss }
      else k
    if k.cwnd < 1 then { k with cwnd := 1, incr := k.mss } else k

/-- Sends pending acknowledgements, window probes and, for a full flush, data segments. Returns
the time until the nearest retransmission, at most `interval`. -/
def flush (k : Kcp O C) (flushType : FlushType) : Kcp O C × UInt32 :=
  let (k, p) := k.flushControl
  let cwnd := k.sendWindow
  let (k, newSegs) := k.admitSegments
  let (k, s) := match flushType with
    | .full => k.scanSegments p newSegs
    | .ackOnly =>
      ({ k with flushScan := { k.flushScan with unsent := k.flushScan.unsent + newSegs } },
        k.scanStart p)
  let k := updateCwnd { k with state := s.state, clock := s.clock } cwnd k.resent s.change s.lostSegs
  ({ k with output := s.packer.flushBuffer }, s.nextUpdate)

omit [Output O] [Clock C] in
private theorem updateCwnd_eq (k : Kcp O C) (cwnd resent : UInt32) (change lostSegs : ℕ) :
    ∃ ssthresh cwnd' incr, k.updateCwnd cwnd resent change lostSegs =
      { k with ssthresh := ssthresh, cwnd := cwnd', incr := incr } := by
  simp only [updateCwnd]
  split_ifs <;> exact ⟨_, _, _, rfl⟩

theorem flush_full (k : Kcp O C) :
    let k₁ := k.flushControl.1.admitSegments.1
    let r := k₁.scanSegments k.flushControl.2 k.flushControl.1.admitSegments.2
    ∃ ssthresh cwnd incr, (k.flush .full).1 =
      { r.1 with state := r.2.state, clock := r.2.clock, output := r.2.packer.flushBuffer,
                 ssthresh := ssthresh, cwnd := cwnd, incr := incr } := by
  intro k₁ r
  obtain ⟨ssthresh, cwnd, incr, h⟩ := updateCwnd_eq
    { r.1 with state := r.2.state, clock := r.2.clock } k.flushControl.1.sendWindow
      r.1.resent r.2.change r.2.lostSegs
  refine ⟨ssthresh, cwnd, incr, ?_⟩
  simp only [flush]
  rw [h]

theorem flush_ackOnly (k : Kcp O C) :
    let k₁ := k.flushControl.1.admitSegments.1
    let s := k₁.scanStart k.flushControl.2
    let flushScan := { k₁.flushScan with
      unsent := k₁.flushScan.unsent + k.flushControl.1.admitSegments.2 }
    ∃ ssthresh cwnd incr, (k.flush .ackOnly).1 =
      { k₁ with state := s.state, clock := s.clock, output := s.packer.flushBuffer,
                flushScan := flushScan, ssthresh := ssthresh, cwnd := cwnd, incr := incr } := by
  intro k₁ s flushScan
  obtain ⟨ssthresh, cwnd, incr, h⟩ := updateCwnd_eq
    { k₁ with state := s.state, clock := s.clock, flushScan := flushScan }
    k.flushControl.1.sendWindow (resent { k₁ with flushScan := flushScan }) s.change s.lostSegs
  refine ⟨ssthresh, cwnd, incr, ?_⟩
  simp only [flush]
  rw [h]

end Kcp

end Kcptun.Arq
