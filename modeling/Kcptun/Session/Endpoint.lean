/- Kcptun/Session/Endpoint
   source: crates/kcp/src/session.rs (new, KcpOutput, try_write, packet_input, kcp_input, set_kcp_mtu,
     send_oob, shrink_idle), crates/kcp/src/tx.rs (process)
   digest: A session end to end: the operations on its KCP connection, the requests it queues, what
     the tx task makes of a request, and what a received datagram is fed to. -/

import Kcptun.Fec.Decoder
import Kcptun.Lib.Interleaving
import Kcptun.Session.Crypt
import Kcptun.Session.Reader

set_option autoImplicit false
set_option relaxedAutoImplicit false

namespace Kcptun.Session

open Kcptun.Arq Kcptun.Lib Kcptun.Lib.LittleEndian
open Kcptun.Fec (MTU_LIMIT FecEncoder FecDecoder TYPE_DATA TYPE_PARITY TYPE_OOB fecFlag)

def CONV_SIZE : ℕ := 4
def FEC_HEADER_SIZE_PLUS2 : ℕ := 8
def MIN_PACKET_SIZE : ℕ := min IKCP_OVERHEAD (FEC_HEADER_SIZE_PLUS2 + CONV_SIZE)
def MAX_FEC_ENCODE_LATENCY : UInt32 := 500
def ISIZE_MAX : Int := 9223372036854775807

def isize (x : Int) : Int := x.bmod 18446744073709551616

structure SessionConfig where
  conv : UInt32
  dataShards : Int
  parityShards : Int
  crypt : Option PacketCrypt

inductive SessionError where
  | fec (e : Fec.Error)
  | overheadTooLarge

/-- A session; the part `try_read` works on comes first. -/
structure Endpoint (O C : Type) where
  reader : Reader O C
  fecDecoder : Option FecDecoder
  crypt : Option PacketCrypt
  headerSize : ℕ
  fecEnabled : Bool
  ackNoDelay : Bool := false
  writeDelay : Bool := false

/-- The part of the tx task that packets go through. -/
structure TxPipeline where
  crypt : Option PacketCrypt
  fecEncoder : Option FecEncoder

/-- A packet for the tx task, with room for the headers in front. -/
structure SendRequest where
  buffer : Bytes
  oob : Bool
deriving DecidableEq, Repr

/-- `Kcp::set_mtu` for what is left of `mtu`, and whether it took. The arithmetic wraps, and no
allocator has `isize::MAX` bytes for the flush buffer: the process aborts there. -/
def setKcpMtu {O C : Type} (k : Kcp O C) (mtu : Int64) (headerSize : ℕ) (crypt : Option PacketCrypt) :
    Option (Kcp O C × Bool) :=
  let mtu := isize (isize (min mtu.toInt MTU_LIMIT - headerSize) - cryptOverhead crypt)
  let bufferSize := min (min (mtu + IKCP_OVERHEAD) ISIZE_MAX * 3) ISIZE_MAX
  if mtu ≥ 50 ∧ bufferSize = ISIZE_MAX then none
  else some ((k.setMtu mtu).1, (k.setMtu mtu).2 = 0)

/-- The KCP output callback: the buffer it queues, if the size is right. The header bytes still hold
what the pooled buffer was used for before. -/
def output (headerSize : ℕ) (stale : ℕ → UInt8) (buf : Bytes) : Option SendRequest :=
  if buf.length < IKCP_OVERHEAD then none
  else if headerSize + buf.length > MTU_LIMIT then none
  else some ⟨(List.range headerSize).map stale ++ buf, false⟩

/-- What a received packet sets off: a call of `Kcp::input`, or of the out-of-band handler. -/
inductive Effect where
  | input (data : Bytes) (pktType : PacketType)
  | oob (payload : Bytes)
deriving DecidableEq, Repr

/-- A shard recovered by the decoder: the payload that its size field delimits. -/
def recovered (r : Bytes) : Option Effect :=
  if r.length < 2 then none
  else
    let sz := (ofLe16 (r.getD 0 0) (r.getD 1 0)).toNat
    if sz ≤ r.length ∧ sz ≥ 2 then some (.input ((r.take sz).drop 2) .fec) else none

namespace Endpoint

variable {O C : Type} [Output O] [Clock C]

def kcp (s : Endpoint O C) : Kcp O C := s.reader.kcp

def setKcp (s : Endpoint O C) (k : Kcp O C) : Endpoint O C :=
  { s with reader := { s.reader with kcp := k } }

def new (config : SessionConfig) (channel : O) (clock : C) :
    Except SessionError (Endpoint O C × TxPipeline) :=
  let cryptHeader := cryptHeaderSize config.crypt
  match FecEncoder.new config.dataShards config.parityShards cryptHeader with
  | .error e => .error (.fec e)
  | .ok fecEncoder =>
    let headerSize := cryptHeader + if fecEncoder.isSome then FEC_HEADER_SIZE_PLUS2 else 0
    match setKcpMtu (Kcp.withClock config.conv channel clock) 1400 headerSize config.crypt with
    | some (k, true) =>
      .ok ({
          reader := .new k
          fecDecoder := FecDecoder.new config.dataShards config.parityShards
          crypt := config.crypt
          headerSize := headerSize
          fecEnabled := fecEncoder.isSome },
        ⟨config.crypt, fecEncoder⟩)
    | _ => .error .overheadTooLarge

def waitSnd (k : Kcp O C) : ℕ := k.sndBuf.length + k.sndQueue.length

/-- Queues one slice in pieces of `mss`; each turn takes at least one byte off it. -/
def writeSlice : ℕ → Kcp O C → Bytes → Kcp O C
  | 0, k, _ => k
  | fuel + 1, k, b =>
    if b.length ≤ k.mss.toNat then (k.send b).1
    else writeSlice fuel (k.send (b.take k.mss.toNat)).1 (b.drop k.mss.toNat)

/-- One pass of `write_buffers`: the bytes it took, or nothing while the send window is full. -/
def tryWrite (s : Endpoint O C) (v : List Bytes) : Endpoint O C × Option ℕ :=
  if waitSnd s.kcp ≥ s.kcp.sndWnd.toNat then (s, none)
  else
    let k := v.foldl (fun k b => writeSlice (b.length + 1) k b) s.kcp
    let k := if waitSnd k ≥ k.sndWnd.toNat ∨ s.writeDelay = false then (k.flush .full).1 else k
    (s.setKcp k, some (v.map List.length).sum)

def feed (s : Endpoint O C) (effects : List Effect) : Endpoint O C :=
  effects.foldl (fun s effect =>
    match effect with
    | .input data pktType => s.setKcp (s.kcp.input data pktType s.ackNoDelay).1
    | .oob _ => s) s

/-- Feeds a decrypted packet into KCP, handling FEC and out-of-band packets. -/
def kcpInput (s : Endpoint O C) (data : Bytes) : Endpoint O C × List Effect :=
  if data.length < 6 then (s, [])
  else if fecFlag data = TYPE_DATA ∨ fecFlag data = TYPE_PARITY then
    if data.length < FEC_HEADER_SIZE_PLUS2 then (s, [])
    else
      let direct := if fecFlag data = TYPE_DATA then
          [Effect.input (data.drop FEC_HEADER_SIZE_PLUS2) .regular] else []
      match s.fecDecoder.or (FecDecoder.new 1 1) with
      | none => (s.feed direct, direct)
      | some decoder =>
        let effects := direct ++ (decoder.decode data).2.filterMap recovered
        (({ s with fecDecoder := some (decoder.decode data).1 } : Endpoint O C).feed effects, effects)
  else if fecFlag data = TYPE_OOB then
    (s, if data.length < FEC_HEADER_SIZE_PLUS2 + CONV_SIZE then []
      else [.oob (data.drop (FEC_HEADER_SIZE_PLUS2 + CONV_SIZE))])
  else (s.feed [.input data .regular], [.input data .regular])

def packetInput (s : Endpoint O C) (data : Bytes) : Endpoint O C × List Effect :=
  match decrypt s.crypt data with
  | none => (s, [])
  | some data => if data.length < MIN_PACKET_SIZE then (s, []) else s.kcpInput data

theorem packetInput_eq_feed (s : Endpoint O C) (data : Bytes) : ∃ decoder effects,
    (s.packetInput data).1 =
      ({ s with fecDecoder := decoder } : Endpoint O C).feed effects := by
  have hunchanged : s = ({ s with fecDecoder := s.fecDecoder } : Endpoint O C).feed [] := rfl
  unfold packetInput
  split
  next => exact ⟨_, _, hunchanged⟩
  next data =>
    split_ifs
    · exact ⟨_, _, hunchanged⟩
    · unfold kcpInput
      split_ifs
      · exact ⟨_, _, hunchanged⟩
      · exact ⟨_, _, hunchanged⟩
      · split
        next => exact ⟨s.fecDecoder, _, rfl⟩
        next decoder _ => exact ⟨_, _, rfl⟩
      · split
        next => exact ⟨s.fecDecoder, _, rfl⟩
        next decoder _ => exact ⟨_, _, rfl⟩
      · exact ⟨_, _, hunchanged⟩
      · exact ⟨_, _, hunchanged⟩
      · exact ⟨s.fecDecoder, _, rfl⟩

/-- The request `send_oob` queues, if FEC is on and the payload fits. -/
def sendOob (s : Endpoint O C) (stale : ℕ → UInt8) (payload : Bytes) : Option SendRequest :=
  if s.fecEnabled = false then none
  else if CONV_SIZE + payload.length > s.kcp.mtu.toNat then none
  else if CONV_SIZE + payload.length + s.headerSize > MTU_LIMIT then none
  else some ⟨(List.range s.headerSize).map stale ++ (le32 s.kcp.conv ++ payload), true⟩

inductive Op where
  | write (v : List Bytes)
  | read (size : ℕ)
  | packetInput (data : Bytes)
  | update
  | close
  | setMtu (mtu : Int64)
  | setStreamMode (enable : Bool)
  | setAckNoDelay (nodelay : Bool)
  | setWriteDelay (delay : Bool)
  | setWindowSize (sndwnd rcvwnd : Int)
  | setNoDelay (nodelay interval resend nc : Int)
  | shrinkIdle (heapReleased ackReleased recvbufGrown : Bool)

/-- One operation; nothing when the process aborts. -/
def step (s : Endpoint O C) : Op → Option (Endpoint O C)
  | .write v => some (s.tryWrite v).1
  | .read size => some { s with reader := (s.reader.tryRead size).1 }
  | .packetInput data => some (s.packetInput data).1
  | .update | .close => some (s.setKcp (s.kcp.flush .full).1)
  | .setMtu mtu => (setKcpMtu s.kcp mtu s.headerSize s.crypt).map fun r => s.setKcp r.1
  | .setStreamMode enable => some (s.setKcp { s.kcp with stream := if enable then 1 else 0 })
  | .setAckNoDelay nodelay => some { s with ackNoDelay := nodelay }
  | .setWriteDelay delay => some { s with writeDelay := delay }
  | .setWindowSize sndwnd rcvwnd => some (s.setKcp (s.kcp.wndSize sndwnd rcvwnd))
  | .setNoDelay nodelay interval resend nc =>
    some (s.setKcp (s.kcp.setNodelay nodelay interval resend nc))
  | .shrinkIdle heapReleased ackReleased recvbufGrown =>
    let s := s.setKcp (s.kcp.shrinkIdleBuffers heapReleased ackReleased).1
    some (if s.reader.bufptr ≥ s.reader.recvbuf.length ∧ recvbufGrown then
      { s with reader := { s.reader with recvbuf := [], bufptr := 0 } } else s)

end Endpoint

namespace TxPipeline

inductive Drop where
  | fec (e : Fec.Error)
  | crypt
deriving DecidableEq

/-- Seals the packet and its parity shards, each with a nonce of its own; nothing when one of them
fails. -/
def sealAll (crypt : Option PacketCrypt) (entropy : ℕ → ℕ → UInt8) :
    ℕ → List Bytes → Option (List Bytes)
  | _, [] => some []
  | i, packet :: rest => do
    let first ← sealPacket crypt (entropy i) packet
    let rest ← sealAll crypt entropy (i + 1) rest
    some (first :: rest)

/-- The order of a batch: the packet, its copies, the parity shards. -/
def queueAll (dup : ℕ) : List Bytes → List Bytes
  | [] => []
  | packet :: parity => packet :: (List.replicate dup packet ++ parity)

/-- FEC-encodes, encrypts and queues one request: the datagrams for `txqueue`, or why there are
none. -/
def process (p : TxPipeline) (request : SendRequest) (now : Int) (dup : ℕ) (entropy : ℕ → ℕ → UInt8) :
    TxPipeline × Except Drop (List Bytes) :=
  let sealed (p : TxPipeline) (packets : List Bytes) : TxPipeline × Except Drop (List Bytes) :=
    match sealAll p.crypt entropy 0 packets with
    | none => (p, .error .crypt)
    | some packets => (p, .ok (queueAll dup packets))
  match p.fecEncoder with
  | none => sealed p [request.buffer]
  | some encoder =>
    if request.oob then
      match encoder.encodeOob request.buffer with
      | .error e => (p, .error (.fec e))
      | .ok packet => sealed p [packet]
    else
      match encoder.encode request.buffer MAX_FEC_ENCODE_LATENCY now with
      | .error e => (p, .error (.fec e))
      | .ok (encoder, packet, parity) =>
        sealed { p with fecEncoder := some encoder } (packet :: parity)

end TxPipeline

end Kcptun.Session
