/- Kcptun/Arq/State
   source: crates/kcp/src/kcp.rs (Kcp, FlushScan, ScanBound, Output, with_clock), clock.rs
   digest: The state of one KCP connection and the environment it sends to and reads time from. -/

import Kcptun.Lib.Fifo
import Kcptun.Arq.SegmentHeap

set_option autoImplicit false
set_option relaxedAutoImplicit false

namespace Kcptun.Arq

open Kcptun.Lib Kcptun.Lib.LittleEndian

/-- A packet sink. `capacity` may answer differently each time it is asked, so it returns the
sink as it is afterwards. -/
class Output (O : Type) where
  output : O → Bytes → O
  capacity : O → ℕ × O

/-- A source of wrapping millisecond timestamps; each reading may move it on. -/
class Clock (C : Type) where
  nowMs : C → UInt32 × C

/-- A sink that never drops a packet; its `capacity` is the trait's default, `usize::MAX`. -/
structure Unbounded where
  deriving DecidableEq, Repr

instance : Output Unbounded where
  output o _ := o
  capacity o := (18446744073709551615, o)

/-- A clock that stands still while a connection reads it. -/
structure VirtualClock where
  now : UInt32
  deriving DecidableEq, Repr

instance : Clock VirtualClock where
  nowMs c := (c.now, c)

/-- The sink of a connection together with every packet handed to it, oldest first. -/
structure Sink (O : Type) where
  chan : O
  sent : List Bytes := []

namespace Sink

variable {O : Type} [Output O]

def output (s : Sink O) (buf : Bytes) : Sink O :=
  ⟨Output.output s.chan buf, s.sent ++ [buf]⟩

def capacity (s : Sink O) : ℕ × Sink O :=
  ((Output.capacity s.chan).1, { s with chan := (Output.capacity s.chan).2 })

@[simp] theorem sent_output (s : Sink O) (buf : Bytes) : (s.output buf).sent = s.sent ++ [buf] := rfl

@[simp] theorem sent_capacity (s : Sink O) : s.capacity.2.sent = s.sent := rfl

end Sink

/-- Origin of an input packet: received directly, or recovered by FEC. -/
inductive PacketType where
  | regular
  | fec
  deriving DecidableEq, Repr

/-- What `flush` sends: only pending ACKs, or ACKs, probes and data. -/
inductive FlushType where
  | ackOnly
  | full
  deriving DecidableEq, Repr

structure AckItem where
  sn : UInt32
  ts : UInt32
  deriving DecidableEq, Repr

/-- A lower bound on the retransmission times of the segments a `FlushScan` covers. -/
inductive ScanBound where
  | unknown
  | nothing
  | notBefore (ts : UInt32)
  deriving DecidableEq, Repr

/-- What `flush` knows about `sndBuf` from the last time it scanned it. -/
structure FlushScan where
  due : ScanBound := .unknown
  noFastack : Bool := false
  unsent : ℕ := 0
  enabled : Bool := true
  deriving DecidableEq, Repr

def ScanBound.merge : ScanBound → ScanBound → ScanBound
  | .unknown, _ => .unknown
  | _, .unknown => .unknown
  | .nothing, b => b
  | a, .nothing => a
  | .notBefore a, .notBefore b => .notBefore (if itimediff b a < 0 then b else a)

/-- Whether the covered segments are a no-op for a flush at `current` with this `interval`. -/
def FlushScan.canSkip (f : FlushScan) (current interval : UInt32) : Bool :=
  if !f.enabled || !f.noFastack then false else
    match f.due with
    | .unknown => false
    | .nothing => true
    | .notBefore ts => itimediff ts current > 0 && itimediff ts current ≥ interval.toNat

/-- One KCP connection. The trace logger, the counters kept for tests and the bytes of the flush
buffer beyond those of the packet being assembled are left out. -/
structure Kcp (O C : Type) where
  conv : UInt32
  mtu : UInt32
  mss : UInt32
  state : UInt32
  sndUna : UInt32
  sndNxt : UInt32
  rcvNxt : UInt32
  ssthresh : UInt32
  rxRttvar : Int32
  rxSrtt : Int32
  rxRto : UInt32
  rxMinrto : UInt32
  sndWnd : UInt32
  rcvWnd : UInt32
  rmtWnd : UInt32
  cwnd : UInt32
  probe : UInt32
  interval : UInt32
  tsFlush : UInt32
  nodelay : UInt32
  updated : UInt32
  tsProbe : UInt32
  probeWait : UInt32
  deadLink : UInt32
  incr : UInt32
  fastresend : Int32
  nocwnd : Int32
  stream : Int32
  sndQueue : Fifo Segment
  rcvQueue : Fifo Segment
  sndBuf : Fifo Segment
  rcvBuf : SegmentHeap
  acklist : List AckItem
  output : Sink O
  clock : C
  flushScan : FlushScan

/-- A connection reading time from `clock`, with the default parameters. -/
def Kcp.withClock {O C : Type} (conv : UInt32) (output : O) (clock : C) : Kcp O C where
  conv := conv
  mtu := IKCP_MTU_DEF
  mss := IKCP_MTU_DEF - UInt32.ofNat IKCP_OVERHEAD
  state := 0
  sndUna := 0
  sndNxt := 0
  rcvNxt := 0
  ssthresh := IKCP_THRESH_INIT
  rxRttvar := 0
  rxSrtt := 0
  rxRto := IKCP_RTO_DEF
  rxMinrto := IKCP_RTO_MIN
  sndWnd := IKCP_WND_SND
  rcvWnd := IKCP_WND_RCV
  rmtWnd := IKCP_WND_RCV
  cwnd := 0
  probe := 0
  interval := IKCP_INTERVAL
  tsFlush := IKCP_INTERVAL
  nodelay := 0
  updated := 0
  tsProbe := 0
  probeWait := 0
  deadLink := IKCP_DEADLINK
  incr := 0
  fastresend := 0
  nocwnd := 0
  stream := 0
  sndQueue := .new (IKCP_WND_SND.toNat * 2)
  rcvQueue := .new (IKCP_WND_RCV.toNat * 2)
  sndBuf := .new (IKCP_WND_SND.toNat * 2)
  rcvBuf := {}
  acklist := []
  output := { chan := output }
  clock := clock
  flushScan := {}

end Kcptun.Arq
