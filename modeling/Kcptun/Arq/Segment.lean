/- Kcptun/Arq/Segment
   source: crates/kcp/src/segment.rs, crates/kcp/src/kcp.rs (constants and byte helpers)
   digest: KCP segments, their 24-byte header codec and packets as runs of encoded segments. -/

import Kcptun.Lib.LittleEndian
import Kcptun.Lib.Serial

set_option autoImplicit false
set_option relaxedAutoImplicit false

namespace Kcptun.Arq

open Kcptun.Lib.LittleEndian
open Kcptun.Lib

def IKCP_RTO_NDL : UInt32 := 30
def IKCP_RTO_MIN : UInt32 := 100
def IKCP_RTO_DEF : UInt32 := 200
def IKCP_RTO_MAX : UInt32 := 60000
def IKCP_CMD_PUSH : UInt8 := 81
def IKCP_CMD_ACK : UInt8 := 82
def IKCP_CMD_WASK : UInt8 := 83
def IKCP_CMD_WINS : UInt8 := 84
def IKCP_ASK_SEND : UInt32 := 1
def IKCP_ASK_TELL : UInt32 := 2
def IKCP_WND_SND : UInt32 := 32
def IKCP_WND_RCV : UInt32 := 32
def IKCP_MTU_DEF : UInt32 := 1400
def IKCP_INTERVAL : UInt32 := 100
def IKCP_OVERHEAD : ℕ := 24
def IKCP_DEADLINK : UInt32 := 20
def IKCP_THRESH_INIT : UInt32 := 2
def IKCP_THRESH_MIN : UInt32 := 2
def IKCP_PROBE_INIT : UInt32 := 500
def IKCP_PROBE_LIMIT : UInt32 := 120000

def OUTPUT_ROOM : ℕ := 2

/-- Signed distance of two wrapping timestamps or sequence numbers. -/
abbrev itimediff (later earlier : UInt32) : Int := Serial.diff later earlier

/-- The decoded value and the rest of the bytes; the source panics on a short slice, and every
caller checks the length first. -/
def ikcpDecode8u : Bytes → UInt8 × Bytes
  | c :: p => (c, p)
  | _ => (0, [])

def ikcpDecode16u : Bytes → UInt16 × Bytes
  | a :: b :: p => (ofLe16 a b, p)
  | _ => (0, [])

def ikcpDecode32u : Bytes → UInt32 × Bytes
  | a :: b :: c :: d :: p => (ofLe32 a b c d, p)
  | _ => (0, [])

/-- One KCP segment: the header fields and the sender's retransmission state. The source's
`acked` is a `u32` that only ever holds 0 or 1. -/
structure Segment where
  conv : UInt32 := 0
  cmd : UInt8 := 0
  frg : UInt8 := 0
  wnd : UInt16 := 0
  ts : UInt32 := 0
  sn : UInt32 := 0
  una : UInt32 := 0
  rto : UInt32 := 0
  xmit : UInt32 := 0
  resendts : UInt32 := 0
  fastack : UInt32 := 0
  acked : Bool := false
  data : Bytes := []
  deriving DecidableEq, Repr

/-- `Segment::encode`: the header only. The length field truncates to 32 bits. -/
def Segment.encode (seg : Segment) : Bytes :=
  le32 seg.conv ++ [seg.cmd] ++ [seg.frg] ++ le16 seg.wnd ++ le32 seg.ts ++ le32 seg.sn ++
    le32 seg.una ++ le32 (UInt32.ofNat seg.data.length)

/-- A decoded header; `len` is the announced payload length. -/
structure SegmentHeader where
  conv : UInt32 := 0
  cmd : UInt8 := 0
  frg : UInt8 := 0
  wnd : UInt16 := 0
  ts : UInt32 := 0
  sn : UInt32 := 0
  una : UInt32 := 0
  len : UInt32 := 0
  deriving DecidableEq, Repr

/-- `SegmentHeader::decode`. -/
def SegmentHeader.decode (data : Bytes) : Option (SegmentHeader × Bytes) :=
  if data.length < IKCP_OVERHEAD then none else
    let (conv, data) := ikcpDecode32u data
    let (cmd, data) := ikcpDecode8u data
    let (frg, data) := ikcpDecode8u data
    let (wnd, data) := ikcpDecode16u data
    let (ts, data) := ikcpDecode32u data
    let (sn, data) := ikcpDecode32u data
    let (una, data) := ikcpDecode32u data
    let (len, data) := ikcpDecode32u data
    some ({ conv, cmd, frg, wnd, ts, sn, una, len }, data)

def Segment.header (seg : Segment) : SegmentHeader where
  conv := seg.conv
  cmd := seg.cmd
  frg := seg.frg
  wnd := seg.wnd
  ts := seg.ts
  sn := seg.sn
  una := seg.una
  len := UInt32.ofNat seg.data.length

/-- What a segment looks like on the wire: its header followed by its payload. -/
def Segment.wire (seg : Segment) : Bytes := seg.encode ++ seg.data

@[simp] theorem length_encode (seg : Segment) : seg.encode.length = IKCP_OVERHEAD := by
  simp [Segment.encode, IKCP_OVERHEAD]

@[simp] theorem length_wire (seg : Segment) :
    seg.wire.length = IKCP_OVERHEAD + seg.data.length := by
  simp [Segment.wire]

@[simp] private theorem decode32u_le32 (l : UInt32) (p : Bytes) :
    ikcpDecode32u (le32 l ++ p) = (l, p) := by
  simp only [le32, List.cons_append, List.nil_append, ikcpDecode32u, ofLe32_le32]

@[simp] private theorem decode16u_le16 (w : UInt16) (p : Bytes) :
    ikcpDecode16u (le16 w ++ p) = (w, p) := by
  simp only [le16, List.cons_append, List.nil_append, ikcpDecode16u, ofLe16_le16]

theorem decode_encode (seg : Segment) (rest : Bytes) :
    SegmentHeader.decode (seg.encode ++ rest) = some (seg.header, rest) := by
  have hlen : ¬ (seg.encode ++ rest).length < IKCP_OVERHEAD := by
    rw [List.length_append, length_encode]
    omega
  rw [SegmentHeader.decode, if_neg hlen]
  simp [Segment.encode, Segment.header, List.append_assoc, ikcpDecode8u]

@[simp] theorem length_decode8u (p : Bytes) :
    (ikcpDecode8u p).2.length = p.length - 1 := by
  rcases p with _ | ⟨_, _⟩ <;> simp [ikcpDecode8u]

@[simp] theorem length_decode16u (p : Bytes) :
    (ikcpDecode16u p).2.length = p.length - 2 := by
  rcases p with _ | ⟨_, _ | ⟨_, _⟩⟩ <;> simp [ikcpDecode16u]

@[simp] theorem length_decode32u (p : Bytes) :
    (ikcpDecode32u p).2.length = p.length - 4 := by
  rcases p with _ | ⟨_, _ | ⟨_, _ | ⟨_, _ | ⟨_, _⟩⟩⟩⟩ <;> simp [ikcpDecode32u]

theorem decode_length {data rest : Bytes} {h : SegmentHeader}
    (hd : SegmentHeader.decode data = some (h, rest)) :
    data.length = IKCP_OVERHEAD + rest.length := by
  unfold SegmentHeader.decode at hd
  split_ifs at hd with hlen
  simp only [Option.some.injEq, Prod.mk.injEq] at hd
  obtain ⟨-, rfl⟩ := hd
  simp only [IKCP_OVERHEAD, length_decode8u, length_decode16u, length_decode32u] at hlen ⊢
  omega

end Kcptun.Arq
