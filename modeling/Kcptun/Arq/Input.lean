/- Kcptun/Arq/Input
   source: crates/kcp/src/kcp.rs (input, update, set_mtu, nodelay, wnd_size), session.rs (stream)
   digest: Feeding packets, the timer and the parameter setters; runs of all operations. -/

import Kcptun.Lib.Run
import Kcptun.Arq.Flush

set_option autoImplicit false
set_option relaxedAutoImplicit false

namespace Kcptun.Arq

open Kcptun.Lib Kcptun.Lib.LittleEndian

/-- The local variables of the parse loop of `input`. -/
structure Parsed where
  latest : UInt32 := 0
  updateRtt : Bool := false
  flushSegments : Bool := false

namespace Kcp

variable {O C : Type} [Output O] [Clock C]

/-- A PUSH segment: acknowledged when it is before the end of the receive window, stored when it
is not before its start. -/
def inputPush (k : Kcp O C) (h : SegmentHeader) (payload : Bytes) : Kcp O C :=
  if itimediff h.sn (k.rcvNxt + k.rcvWnd) < 0 then
    let k := k.ackPush h.sn h.ts
    if itimediff h.sn k.rcvNxt ≥ 0 then
      let seg : Segment :=
        { conv := h.conv, cmd := h.cmd, frg := h.frg, wnd := h.wnd, ts := h.ts, sn := h.sn,
          una := h.una }
      (k.parseData seg payload).1
    else k
  else k

def inputHeader (k : Kcp O C) (pktType : PacketType) (h : SegmentHeader) : Kcp O C × ℕ :=
  let k := if pktType = .regular then { k with rmtWnd := h.wnd.toUInt32 } else k
  let (k, removed) := k.parseUna h.una
  (k.shrinkBuf, removed)

def inputSegment (k : Kcp O C) (pktType : PacketType) (acc : Parsed) (h : SegmentHeader)
    (payload : Bytes) : Kcp O C × Parsed :=
  let (k, removed) := k.inputHeader pktType h
  let acc := { acc with flushSegments := acc.flushSegments || removed > 0 }
  if h.cmd = IKCP_CMD_ACK then
    let (k, reached) := (k.parseAck h.sn).parseFastack h.sn h.ts
    (k, { latest := h.ts, updateRtt := true, flushSegments := acc.flushSegments || reached })
  else if h.cmd = IKCP_CMD_PUSH then (k.inputPush h payload, acc)
  else if h.cmd = IKCP_CMD_WASK then ({ k with probe := k.probe ||| IKCP_ASK_TELL }, acc)
  else (k, acc)

/-- The parse loop: the error code of the first malformed segment, or the local variables at the
end of the packet. Each turn consumes at least 24 bytes. -/
def inputLoop (pktType : PacketType) : ℕ → Kcp O C → Parsed → Bytes → Kcp O C × Except Int Parsed
  | 0, k, acc, _ => (k, .ok acc)
  | fuel + 1, k, acc, data =>
    match SegmentHeader.decode data with
    | none => (k, .ok acc)
    | some (h, rest) =>
      if h.conv ≠ k.conv then (k, .error (-1))
      else if rest.length < h.len.toNat then (k, .error (-2))
      else if h.cmd ≠ IKCP_CMD_PUSH ∧ h.cmd ≠ IKCP_CMD_ACK ∧ h.cmd ≠ IKCP_CMD_WASK ∧
          h.cmd ≠ IKCP_CMD_WINS then (k, .error (-3))
      else
        let (k, acc) := k.inputSegment pktType acc h (rest.take h.len.toNat)
        inputLoop pktType fuel k acc (rest.drop h.len.toNat)

def inputRtt (k : Kcp O C) (pktType : PacketType) (acc : Parsed) : Kcp O C :=
  if acc.updateRtt ∧ pktType = .regular then
    let (current, clock) := Clock.nowMs k.clock
    let k := { k with clock := clock }
    if itimediff current acc.latest ≥ 0 then
      k.updateAck (Int32.ofInt (itimediff current acc.latest))
    else k
  else k

def inputCwnd (k : Kcp O C) (una : UInt32) : Kcp O C :=
  if k.nocwnd = 0 ∧ itimediff k.sndUna una > 0 ∧ k.cwnd < k.rmtWnd then
    let mss := k.mss
    let k : Kcp O C :=
      if k.cwnd < k.ssthresh then { k with cwnd := k.cwnd + 1, incr := k.incr + mss }
      else
        let incr := if k.incr < mss then mss else k.incr
        let incr := incr + (mss * mss / incr + mss / 16)
        if (k.cwnd + 1) * mss ≤ incr then
          let cwnd := if mss > 0 then (incr + mss - 1) / mss else incr + mss - 1
          { k with incr := incr, cwnd := cwnd }
        else { k with incr := incr }
    if k.cwnd > k.rmtWnd then { k with cwnd := k.rmtWnd, incr := k.rmtWnd * mss } else k
  else k

/-- The flush at the end of `input`, if one is due. -/
def inputFlush (k : Kcp O C) (acc : Parsed) (ackNoDelay : Bool) : Option FlushType :=
  if acc.flushSegments then some .full
  else if k.acklist.length ≥ (k.mtu / UInt32.ofNat IKCP_OVERHEAD).toNat then some .ackOnly
  else if ackNoDelay ∧ !k.acklist.isEmpty then some .ackOnly
  else none

def inputParse (k : Kcp O C) (data : Bytes) (pktType : PacketType) :
    Kcp O C × Except Int Parsed :=
  if data.length < IKCP_OVERHEAD then (k, .error (-1)) else
    match inputLoop pktType data.length k {} data with
    | (k', .error e) => (k', .error e)
    | (k', .ok acc) => ((k'.inputRtt pktType acc).inputCwnd k.sndUna, .ok acc)

def input (k : Kcp O C) (data : Bytes) (pktType : PacketType) (ackNoDelay : Bool) :
    Kcp O C × Int :=
  match k.inputParse data pktType with
  | (k, .error e) => (k, e)
  | (k, .ok acc) =>
    match k.inputFlush acc ackNoDelay with
    | some flushType => ((k.flush flushType).1, 0)
    | none => (k, 0)

theorem input_cases (k : Kcp O C) (data : Bytes) (pktType : PacketType) (ackNoDelay : Bool) :
    (k.input data pktType ackNoDelay).1 = (k.inputParse data pktType).1 ∨
    ∃ flushType,
      (k.input data pktType ackNoDelay).1 = ((k.inputParse data pktType).1.flush flushType).1 := by
  simp only [input]
  split
  · rename_i heq
    simp [heq]
  · rename_i heq
    rw [heq]
    split
    · exact .inr ⟨_, rfl⟩
    · exact .inl rfl

/-- The timer part of `update`: whether a full flush is due. -/
def updateTimer (k : Kcp O C) : Kcp O C × Bool :=
  let (current, clock) := Clock.nowMs k.clock
  let k := { k with clock := clock }
  let k := if k.updated = 0 then { k with updated := 1, tsFlush := current } else k
  let slap := itimediff current k.tsFlush
  let late := slap < -10000 ∨ 10000 ≤ slap
  let k := if late then { k with tsFlush := current } else k
  let slap := if late then 0 else slap
  if slap ≥ 0 then
    let tsFlush := k.tsFlush + k.interval
    let tsFlush := if itimediff current tsFlush ≥ 0 then current + k.interval else tsFlush
    ({ k with tsFlush := tsFlush }, true)
  else (k, false)

def update (k : Kcp O C) : Kcp O C :=
  let (k, due) := k.updateTimer
  if due then (k.flush .full).1 else k

/-- Changes the MTU; an `mtu` above `u32::MAX` truncates. -/
def setMtu (k : Kcp O C) (mtu : Int) : Kcp O C × Int :=
  if mtu < 50 ∨ mtu < IKCP_OVERHEAD then (k, -1) else
    let mtu := UInt32.ofNat mtu.toNat
    ({ k with mtu := mtu, mss := mtu - UInt32.ofNat IKCP_OVERHEAD }, 0)

/-- Sets the no-delay options; a negative argument leaves that option unchanged. -/
def setNodelay (k : Kcp O C) (nodelay interval resend nc : Int) : Kcp O C :=
  let k :=
    if nodelay ≥ 0 then
      { k with
        nodelay := UInt32.ofNat nodelay.toNat
        rxMinrto := if nodelay ≠ 0 then IKCP_RTO_NDL else IKCP_RTO_MIN }
    else k
  let k :=
    if interval ≥ 0 then { k with interval := UInt32.ofNat (min (max interval 10) 5000).toNat }
    else k
  let k := if resend ≥ 0 then { k with fastresend := Int32.ofInt resend } else k
  if nc ≥ 0 then { k with nocwnd := Int32.ofInt nc } else k

/-- Sets the maximum send and receive windows; values that are not positive change nothing. -/
def wndSize (k : Kcp O C) (sndwnd rcvwnd : Int) : Kcp O C :=
  let k := if sndwnd > 0 then { k with sndWnd := UInt32.ofNat sndwnd.toNat } else k
  if rcvwnd > 0 then { k with rcvWnd := UInt32.ofNat rcvwnd.toNat } else k

omit [Output O] in
theorem updateTimer_frame (k : Kcp O C) : ∃ clock updated tsFlush,
    k.updateTimer.1 = { k with clock, updated, tsFlush } := by
  simp only [updateTimer]
  split_ifs <;> exact ⟨_, _, _, rfl⟩

omit [Output O] [Clock C]

theorem setMtu_frame (k : Kcp O C) (mtu : Int) : ∃ mtu' mss,
    (k.setMtu mtu).1 = { k with mtu := mtu', mss } := by
  simp only [setMtu]
  split_ifs
  · exact ⟨k.mtu, k.mss, rfl⟩
  · exact ⟨_, _, rfl⟩

theorem setNodelay_frame (k : Kcp O C) (nodelay interval resend nc : Int) :
    ∃ nodelay' rxMinrto interval' fastresend nocwnd, k.setNodelay nodelay interval resend nc =
      { k with nodelay := nodelay', rxMinrto, interval := interval', fastresend, nocwnd } := by
  unfold setNodelay
  split_ifs <;> exact ⟨_, _, _, _, _, rfl⟩

theorem wndSize_frame (k : Kcp O C) (sndwnd rcvwnd : Int) : ∃ sndWnd rcvWnd,
    k.wndSize sndwnd rcvwnd = { k with sndWnd, rcvWnd } := by
  simp only [wndSize]
  split_ifs <;> exact ⟨_, _, rfl⟩

end Kcp

inductive Op where
  | send (buffer : Bytes)
  | recv (buflen : ℕ)
  | input (data : Bytes) (pktType : PacketType) (ackNoDelay : Bool)
  | flush (flushType : FlushType)
  | update
  | nodelay (nodelay interval resend nc : Int)
  | setMtu (mtu : Int)
  | wndSize (sndwnd rcvwnd : Int)
  | setStream (stream : Int32)
  | shrinkIdleBuffers (heapReleased ackReleased : Bool)
  deriving DecidableEq

/-- What an operation returns: a status code, and the bytes `recv` wrote. -/
structure Ret where
  code : Int := 0
  bytes : Bytes := []
  deriving DecidableEq, Repr

variable {O C : Type} [Output O] [Clock C]

def Kcp.step (k : Kcp O C) : Op → Kcp O C × Ret
  | .send buffer => ((k.send buffer).1, { code := (k.send buffer).2 })
  | .recv buflen =>
    ((k.recv buflen).1, { code := (k.recv buflen).2.1, bytes := (k.recv buflen).2.2 })
  | .input data pktType ackNoDelay =>
    ((k.input data pktType ackNoDelay).1, { code := (k.input data pktType ackNoDelay).2 })
  | .flush flushType => ((k.flush flushType).1, { code := (k.flush flushType).2.toNat })
  | .update => (k.update, {})
  | .nodelay nodelay interval resend nc => (k.setNodelay nodelay interval resend nc, {})
  | .setMtu mtu => ((k.setMtu mtu).1, { code := (k.setMtu mtu).2 })
  | .wndSize sndwnd rcvwnd => (k.wndSize sndwnd rcvwnd, {})
  | .setStream stream => ({ k with stream := stream }, {})
  | .shrinkIdleBuffers heapReleased ackReleased =>
    ((k.shrinkIdleBuffers heapReleased ackReleased).1,
      { code := if (k.shrinkIdleBuffers heapReleased ackReleased).2 then 1 else 0 })

def Kcp.Reachable (k : Kcp O C) : Prop :=
  ∃ (conv : UInt32) (output : O) (clock : C) (ops : List Op),
    k = (run Kcp.step (Kcp.withClock conv output clock) ops).1

end Kcptun.Arq
