/- Kcptun/Arq/FlushCalls
   source: crates/kcp/src/kcp.rs (flush: make_space, encode, has_room, flush_buffer), segment.rs
   digest: The writes of a flush one after the other, and that the shared buffer with its size
     cursor holds what the flush model says it holds. -/

import Kcptun.Lib.Splice
import Kcptun.Arq.Grammar

set_option autoImplicit false
set_option relaxedAutoImplicit false

namespace Kcptun.Arq

open Kcptun.Lib Kcptun.Lib.LittleEndian

/-- What a flush does with its buffer and its output, one step after the other. -/
inductive Call where
  | hasRoom
  | makeSpace
  | header (seg : Segment)
  | data (seg : Segment)
  deriving DecidableEq

def written (calls : List Call) : List Segment :=
  calls.filterMap fun
    | .header seg => some seg
    | .data seg => some seg
    | _ => none

@[simp] theorem written_append (a b : List Call) : written (a ++ b) = written a ++ written b :=
  List.filterMap_append

section Packer

variable {O : Type} [Output O]

def Packer.call (mtu : UInt32) (p : Packer O) : Call → Packer O
  | .hasRoom => p.hasRoom.2
  | .makeSpace => p.makeSpace mtu IKCP_OVERHEAD
  | .header seg => (p.makeSpace mtu IKCP_OVERHEAD).write seg
  | .data seg => (p.makeSpace mtu (IKCP_OVERHEAD + seg.data.length)).write seg

def Packer.calls (mtu : UInt32) (p : Packer O) (cs : List Call) : Packer O :=
  cs.foldl (Packer.call mtu) p

private theorem Packer.calls_append (mtu : UInt32) (p : Packer O) (a b : List Call) :
    p.calls mtu (a ++ b) = (p.calls mtu a).calls mtu b := List.foldl_append

theorem Packer.Wrote.calls {base : List Bytes} {p : Packer O} {segs : List Segment}
    (h : p.Wrote base segs) (mtu : UInt32) (cs : List Call) :
    (p.calls mtu cs).Wrote base (segs ++ written cs) := by
  induction cs generalizing p segs with
  | nil => simpa [Packer.calls, written] using h
  | cons c cs ih =>
    have hcons : written (c :: cs) = written [c] ++ written cs := written_append [c] cs
    rw [hcons, ← List.append_assoc]
    apply ih
    cases c with
    | hasRoom =>
      rw [show written [Call.hasRoom] = [] from rfl, List.append_nil]
      exact h.hasRoom
    | makeSpace =>
      rw [show written [Call.makeSpace] = [] from rfl, List.append_nil]
      exact h.makeSpace mtu IKCP_OVERHEAD
    | header seg => exact (h.makeSpace mtu IKCP_OVERHEAD).write seg
    | data seg => exact (h.makeSpace mtu (IKCP_OVERHEAD + seg.data.length)).write seg

end Packer

/-- The flush buffer with its size cursor, and the output; `none` below is an index out of
range. -/
structure Scratch (O : Type) where
  sink : Sink O
  buffer : Bytes
  size : ℕ

namespace Scratch

section Calls

variable {O : Type} [Output O]

def makeSpace (mtu : UInt32) (c : Scratch O) (space : ℕ) : Option (Scratch O) :=
  if c.size + space > mtu.toNat then
    (slice c.buffer 0 c.size).map fun pkt => { c with sink := c.sink.output pkt, size := 0 }
  else some c

/-- `encode!`: the header at the cursor, which moves to the start of the unwritten rest. -/
def encode (c : Scratch O) (seg : Segment) : Option (Scratch O) :=
  (splice c.buffer c.size seg.encode).map fun buffer =>
    let rest := buffer.drop (c.size + seg.encode.length)
    { c with buffer := buffer, size := buffer.length - rest.length }

def reserve (c : Scratch O) (need : ℕ) : Scratch O :=
  if c.size + need > c.buffer.length then
    { c with buffer := c.buffer ++ List.replicate (c.size + need - c.buffer.length) 0 }
  else c

def copy (c : Scratch O) (data : Bytes) : Option (Scratch O) :=
  (splice c.buffer c.size data).map fun buffer =>
    { c with buffer := buffer, size := c.size + data.length }

def call (mtu : UInt32) (c : Scratch O) : Call → Option (Scratch O)
  | .hasRoom => some { c with sink := c.sink.capacity.2 }
  | .makeSpace => c.makeSpace mtu IKCP_OVERHEAD
  | .header seg => do
    let c ← c.makeSpace mtu IKCP_OVERHEAD
    c.encode seg
  | .data seg => do
    let c ← c.makeSpace mtu (IKCP_OVERHEAD + seg.data.length)
    let c ← (c.reserve (IKCP_OVERHEAD + seg.data.length)).encode seg
    c.copy seg.data

def calls (mtu : UInt32) (c : Scratch O) (cs : List Call) : Option (Scratch O) :=
  cs.foldlM (call mtu) c

def flushBuffer (c : Scratch O) : Option (Sink O) :=
  if c.size > 0 then (slice c.buffer 0 c.size).map c.sink.output else some c.sink

end Calls

/-- The bytes before the cursor are the packet being assembled, and the buffer is as long as the
mtu and as a header. -/
structure Holds {O : Type} (mtu : UInt32) (c : Scratch O) (p : Packer O) : Prop where
  sink : c.sink = p.sink
  size : c.size = p.buf.length
  buffer : p.buf <+: c.buffer
  mtu : mtu.toNat ≤ c.buffer.length
  header : IKCP_OVERHEAD ≤ c.buffer.length

namespace Holds

variable {O : Type} [Output O] {mtu : UInt32} {c : Scratch O} {p : Packer O}

omit [Output O] in
private theorem slice_eq (h : c.Holds mtu p) : slice c.buffer 0 c.size = some p.buf := by
  obtain ⟨tail, htail⟩ := h.buffer
  rw [h.size, ← htail]
  exact @slice_mid _ [] tail p.buf 0 p.buf.length rfl (Nat.zero_add _)

theorem makeSpace (h : c.Holds mtu p) (space : ℕ) :
    ∃ c', c.makeSpace mtu space = some c' ∧ c'.Holds mtu (p.makeSpace mtu space) ∧
      ((p.makeSpace mtu space).buf.length + space ≤ mtu.toNat ∨
        (p.makeSpace mtu space).buf = []) := by
  simp only [Scratch.makeSpace, Packer.makeSpace, h.size]
  split_ifs with hfull
  · rw [← h.size, h.slice_eq]
    exact ⟨_, rfl, ⟨by rw [h.sink], rfl, List.nil_prefix, h.mtu, h.header⟩, .inr rfl⟩
  · exact ⟨c, rfl, h, .inl (not_lt.mp hfull)⟩

omit [Output O] in
private theorem splice_eq (h : c.Holds mtu p) (bytes : Bytes)
    (hroom : p.buf.length + bytes.length ≤ c.buffer.length) :
    ∃ buffer, splice c.buffer c.size bytes = some buffer ∧ p.buf ++ bytes <+: buffer ∧
      buffer.length = c.buffer.length := by
  obtain ⟨tail, htail⟩ := h.buffer
  rw [← htail, List.length_append] at hroom
  have hle : bytes.length ≤ tail.length := by omega
  have hsplice := @splice_append _ p.buf tail bytes c.size h.size.symm hle
  rw [htail] at hsplice
  refine ⟨_, hsplice, ⟨tail.drop bytes.length, by rw [List.append_assoc]⟩, length_splice hsplice⟩

omit [Output O] in
theorem encode (h : c.Holds mtu p) (seg : Segment)
    (hroom : p.buf.length + IKCP_OVERHEAD ≤ c.buffer.length) :
    ∃ c', c.encode seg = some c' ∧ c'.Holds mtu { p with buf := p.buf ++ seg.encode } ∧
      c'.buffer.length = c.buffer.length := by
  obtain ⟨buffer, hsplice, hpre, hlen⟩ := h.splice_eq seg.encode (by rwa [length_encode])
  refine ⟨_, Option.map_eq_some_iff.mpr ⟨buffer, hsplice, rfl⟩, ⟨h.sink, ?_, hpre, ?_, ?_⟩, hlen⟩
  · have hle := hpre.length_le
    simp only [List.length_append, length_encode] at hle
    simp only [List.length_drop, List.length_append, h.size, length_encode]
    omega
  · exact hlen ▸ h.mtu
  · exact hlen ▸ h.header

omit [Output O] in
theorem copy (h : c.Holds mtu p) (data : Bytes)
    (hroom : p.buf.length + data.length ≤ c.buffer.length) :
    ∃ c', c.copy data = some c' ∧ c'.Holds mtu { p with buf := p.buf ++ data } := by
  obtain ⟨buffer, hsplice, hpre, hlen⟩ := h.splice_eq data hroom
  refine ⟨_, Option.map_eq_some_iff.mpr ⟨buffer, hsplice, rfl⟩, ⟨h.sink, ?_, hpre, ?_, ?_⟩⟩
  · simp only [List.length_append, h.size]
  · exact hlen ▸ h.mtu
  · exact hlen ▸ h.header

omit [Output O] in
theorem reserve (h : c.Holds mtu p) (need : ℕ) :
    (c.reserve need).Holds mtu p ∧ p.buf.length + need ≤ (c.reserve need).buffer.length := by
  have hpre := h.buffer.length_le
  have hmtu := h.mtu
  have hheader := h.header
  have hsize := h.size
  unfold Scratch.reserve
  split_ifs with hgrow
  · refine ⟨⟨h.sink, h.size, h.buffer.trans (List.prefix_append _ _), ?_, ?_⟩, ?_⟩ <;>
    · simp only [List.length_append, List.length_replicate]
      omega
  · exact ⟨h, by omega⟩

theorem call (h : c.Holds mtu p) {x : Call} (hx : ∀ seg, x = .header seg → seg.data = []) :
    ∃ c', c.call mtu x = some c' ∧ c'.Holds mtu (p.call mtu x) := by
  cases x with
  | hasRoom =>
    exact ⟨_, rfl, ⟨by rw [h.sink]; rfl, h.size, h.buffer, h.mtu, h.header⟩⟩
  | makeSpace =>
    obtain ⟨c', hspace, hc', -⟩ := h.makeSpace IKCP_OVERHEAD
    exact ⟨c', hspace, hc'⟩
  | header seg =>
    obtain ⟨c₁, hspace, h₁, hfits⟩ := h.makeSpace IKCP_OVERHEAD
    obtain ⟨c₂, hencode, h₂, -⟩ := h₁.encode seg <| by
      have hmtu := h₁.mtu
      have hheader := h₁.header
      rcases hfits with hfits | hfits
      · omega
      · rw [hfits, List.length_nil]
        omega
    refine ⟨c₂, by rw [Scratch.call, hspace]; exact hencode, ?_⟩
    have hwire : seg.wire = seg.encode := by rw [Segment.wire, hx seg rfl, List.append_nil]
    rw [Packer.call, Packer.write, hwire]
    exact h₂
  | data seg =>
    obtain ⟨c₁, hspace, h₁, -⟩ := h.makeSpace (IKCP_OVERHEAD + seg.data.length)
    obtain ⟨h₂, hroom⟩ := h₁.reserve (IKCP_OVERHEAD + seg.data.length)
    obtain ⟨c₃, hencode, h₃, hlen⟩ := h₂.encode seg (by omega)
    obtain ⟨c₄, hcopy, h₄⟩ := h₃.copy seg.data <| by
      rw [hlen, List.length_append, length_encode]
      omega
    refine ⟨c₄, ?_, ?_⟩
    · simp only [Scratch.call, hspace, Option.bind_eq_bind, Option.bind_some, hencode, hcopy]
    · rw [Packer.call, Packer.write, Segment.wire, ← List.append_assoc]
      exact h₄

theorem calls (h : c.Holds mtu p) {cs : List Call}
    (hcs : ∀ seg, Call.header seg ∈ cs → seg.data = []) :
    ∃ c', c.calls mtu cs = some c' ∧ c'.Holds mtu (p.calls mtu cs) := by
  induction cs generalizing c p with
  | nil => exact ⟨c, rfl, h⟩
  | cons x cs ih =>
    obtain ⟨c₁, hcall, h₁⟩ := h.call (x := x) fun seg hx => hcs seg (hx ▸ List.mem_cons_self)
    obtain ⟨c₂, hcalls, h₂⟩ := ih h₁ fun seg hmem => hcs seg (List.mem_cons_of_mem x hmem)
    refine ⟨c₂, ?_, h₂⟩
    rw [Scratch.calls, List.foldlM_cons, hcall]
    exact hcalls

theorem flushBuffer (h : c.Holds mtu p) : c.flushBuffer = some p.flushBuffer := by
  rw [Scratch.flushBuffer, Packer.flushBuffer, h.slice_eq, h.size, h.sink]
  split_ifs <;> rfl

end Holds

end Scratch

section Loops

variable {O C : Type} [Output O] [Clock C]

def ackCalls (mtu rcvNxt : UInt32) : Segment → List AckItem → Packer O → List Call
  | _, [], _ => []
  | seg, ack :: rest, p =>
    let (room, p) := p.hasRoom
    if !room then [.hasRoom] else
      if itimediff ack.sn rcvNxt ≥ 0 ∨ rest.isEmpty then
        let seg := { seg with sn := ack.sn, ts := ack.ts }
        .hasRoom :: .header seg ::
          ackCalls mtu rcvNxt seg rest ((p.makeSpace mtu IKCP_OVERHEAD).write seg)
      else .hasRoom :: .makeSpace :: ackCalls mtu rcvNxt seg rest (p.makeSpace mtu IKCP_OVERHEAD)

private theorem calls_ackCalls (mtu rcvNxt : UInt32) (seg : Segment) (acks : List AckItem)
    (p : Packer O) :
    (flushAcks mtu rcvNxt seg acks p).2.2 = p.calls mtu (ackCalls mtu rcvNxt seg acks p) := by
  induction acks generalizing seg p with
  | nil => rfl
  | cons ack acks ih =>
    simp only [flushAcks, ackCalls]
    split_ifs with hroom hwrite
    · rfl
    · exact ih _ _
    · exact ih _ _

def probeCalls (probe bit : UInt32) (cmd : UInt8) (seg : Segment) (p : Packer O) : List Call :=
  if probe &&& bit = 0 then [] else
    if !p.hasRoom.1 then [.hasRoom] else [.hasRoom, .header { seg with cmd := cmd }]

omit [Clock C] in
private theorem calls_probeCalls (mtu probe bit : UInt32) (cmd : UInt8) (seg : Segment)
    (p : Packer O) :
    (sendProbe mtu probe bit cmd seg p).2.2 = p.calls mtu (probeCalls probe bit cmd seg p) := by
  simp only [sendProbe, probeCalls]
  split_ifs <;> rfl

namespace Scan

/-- The question for room before the first segment that would be sent without it. -/
def askCalls (env : ScanEnv) (s : Scan O C) (seg : Segment) : List Call :=
  if !s.backpressured && wouldSend env s.current seg then [.hasRoom] else []

def segmentCalls (env : ScanEnv) (s : Scan O C) (seg : Segment) : List Call :=
  if seg.acked then [] else
    s.askCalls env seg ++
      if (s.askRoom env seg).backpressured then [] else
        match mark env s.current seg with
        | none => []
        | some (seg', why) => [.data ((s.askRoom env seg).transmit env seg' why).2]

def loopCalls (env : ScanEnv) : Scan O C → List Segment → List Call
  | _, [] => []
  | s, seg :: rest => s.segmentCalls env seg ++ loopCalls env (s.segment env seg).1 rest

theorem segmentCalls_acked (env : ScanEnv) (s : Scan O C) {seg : Segment}
    (h : seg.acked = true) : s.segmentCalls env seg = [] := by
  rw [segmentCalls, if_pos h]

theorem segmentCalls_held (env : ScanEnv) (s : Scan O C) {seg : Segment} (h : seg.acked = false)
    (hb : (s.askRoom env seg).backpressured = true) :
    s.segmentCalls env seg = s.askCalls env seg := by
  simp [segmentCalls, h, hb]

theorem segmentCalls_idle (env : ScanEnv) (s : Scan O C) {seg : Segment} (h : seg.acked = false)
    (hb : (s.askRoom env seg).backpressured = false) (hm : mark env s.current seg = none) :
    s.segmentCalls env seg = s.askCalls env seg := by
  simp [segmentCalls, h, hb, hm]

theorem segmentCalls_sent (env : ScanEnv) (s : Scan O C) {seg marked : Segment} {why : Resend}
    (h : seg.acked = false) (hb : (s.askRoom env seg).backpressured = false)
    (hm : mark env s.current seg = some (marked, why)) :
    s.segmentCalls env seg =
      s.askCalls env seg ++ [.data ((s.askRoom env seg).transmit env marked why).2] := by
  simp [segmentCalls, h, hb, hm]

omit [Clock C] in
private theorem packer_askRoom (env : ScanEnv) (s : Scan O C) (seg : Segment) (mtu : UInt32) :
    (s.askRoom env seg).packer = s.packer.calls mtu (s.askCalls env seg) := by
  unfold askRoom askCalls
  split_ifs <;> rfl

private theorem calls_segment (env : ScanEnv) (s : Scan O C) (seg : Segment) :
    (s.segment env seg).1.packer = s.packer.calls env.mtu (s.segmentCalls env seg) := by
  rcases s.segment_cases env seg with ha | ⟨ha, hb⟩ | ⟨ha, hb, hm⟩ | ⟨marked, why, ha, hb, hm⟩
  · rw [segment_acked env s ha, segmentCalls_acked env s ha]
    rfl
  · rw [segmentCalls_held env s ha hb, ← packer_askRoom, segment_held env s ha hb,
      packer_noteScanned, packer_nearest]
  · rw [segmentCalls_idle env s ha hb hm, ← packer_askRoom, segment_idle env s ha hb hm,
      packer_noteScanned, packer_nearest]
  · rw [segmentCalls_sent env s ha hb hm, Packer.calls_append, ← packer_askRoom,
      segment_sent env s ha hb hm]
    simp only [packer_noteScanned, packer_nearest]
    rfl

private theorem calls_loop (env : ScanEnv) (s : Scan O C) (items : List Segment) :
    (s.loop env items).1.packer = s.packer.calls env.mtu (s.loopCalls env items) := by
  induction items generalizing s with
  | nil => rfl
  | cons seg rest ih =>
    rw [loopCalls, Packer.calls_append, ← calls_segment, ← ih]
    rfl

end Scan

end Loops

namespace Kcp

variable {O C : Type} [Output O] [Clock C]

def flushAckCalls (k : Kcp O C) : List Call :=
  ackCalls k.mtu k.rcvNxt k.template k.acklist ⟨k.output, []⟩

def flushProbeCalls (k : Kcp O C) : List Call :=
  let (seg, acklist, p) := flushAcks k.mtu k.rcvNxt k.template k.acklist ⟨k.output, []⟩
  let k := probeTimer { k with acklist := acklist }
  let (_, seg', p') := sendProbe k.mtu k.probe IKCP_ASK_SEND IKCP_CMD_WASK seg p
  probeCalls k.probe IKCP_ASK_SEND IKCP_CMD_WASK seg p ++
    probeCalls k.probe IKCP_ASK_TELL IKCP_CMD_WINS seg' p'

def flushDataCalls (k : Kcp O C) (flushType : FlushType) : List Call :=
  let (k, p) := k.flushControl
  let (k, newSegs) := k.admitSegments
  match flushType with
  | .ackOnly => []
  | .full =>
    let s := k.scanStart p
    let skipped := k.skipCount s.current (k.flushScan.unsent + newSegs)
    s.loopCalls (k.scanEnv newSegs) (k.sndBuf.items.drop skipped)

def flushCalls (k : Kcp O C) (flushType : FlushType) : List Call :=
  k.flushAckCalls ++ k.flushProbeCalls ++ k.flushDataCalls flushType

omit [Output O] in
private theorem probeTimer_mtu (k : Kcp O C) : k.probeTimer.mtu = k.mtu := by
  simp only [probeTimer]
  split_ifs <;> rfl

private theorem calls_flushControl (k : Kcp O C) :
    k.flushControl.2 =
      (⟨k.output, []⟩ : Packer O).calls k.mtu (k.flushAckCalls ++ k.flushProbeCalls) := by
  rw [Packer.calls_append, flushAckCalls, ← calls_ackCalls]
  simp only [flushControl, flushProbeCalls]
  rw [Packer.calls_append]
  have hmtu := probeTimer_mtu
    { k with acklist := (flushAcks k.mtu k.rcvNxt k.template k.acklist ⟨k.output, []⟩).2.1 }
  simp only at hmtu
  rw [calls_probeCalls, calls_probeCalls, hmtu]

theorem calls_flush (k : Kcp O C) (flushType : FlushType) :
    (k.flush flushType).1.output =
      ((⟨k.output, []⟩ : Packer O).calls k.mtu (k.flushCalls flushType)).flushBuffer := by
  obtain ⟨acklist, clock, tsProbe, probeWait, probe, hframe⟩ := k.flushControl_eq
  rw [flushCalls, Packer.calls_append, ← calls_flushControl]
  cases flushType with
  | ackOnly =>
    obtain ⟨ssthresh, cwnd, incr, h⟩ := k.flush_ackOnly
    rw [h]
    rfl
  | full =>
    obtain ⟨ssthresh, cwnd, incr, h⟩ := k.flush_full
    rw [h]
    simp only [flushDataCalls, scanSegments]
    rw [Scan.calls_loop]
    have hmtu : k.flushControl.1.admitSegments.1.mtu = k.mtu := by
      rw [hframe]
      rfl
    rw [← hmtu]
    rfl

end Kcp

end Kcptun.Arq
