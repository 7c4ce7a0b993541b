/- Kcptun/Arq/WireTrip
   source: crates/kcp/src/kcp.rs (flush, input), segment.rs (encode, decode)
   digest: Every packet of a flush reads back as the segments the flush wrote into it. -/

import Kcptun.Arq.FlushCalls

set_option autoImplicit false
set_option relaxedAutoImplicit false

namespace Kcptun.Arq

open Kcptun.Lib Kcptun.Lib.LittleEndian

def Segment.piece (seg : Segment) : Piece := (seg.header, seg.data)

/-- Segments of one conversation, each with a known command and a length that fits its header
field. -/
def Segment.Encodable (conv : UInt32) (seg : Segment) : Prop :=
  seg.conv = conv ∧ IsCommand seg.cmd ∧ seg.data.length < 4294967296

theorem reads_packet {conv : UInt32} {segs : List Segment}
    (hsegs : ∀ seg ∈ segs, seg.Encodable conv) :
    Reads conv (packet segs) (segs.map Segment.piece) 0 := by
  induction segs with
  | nil => exact .done (by decide)
  | cons seg segs ih =>
    obtain ⟨hconv, hcmd, hlen⟩ := hsegs seg List.mem_cons_self
    have hrest := ih fun s hs => hsegs s (List.mem_cons_of_mem seg hs)
    have hpacket : packet (seg :: segs) = seg.encode ++ (seg.data ++ packet segs) := by
      rw [packet, List.flatMap_cons, Segment.wire, List.append_assoc]
      rfl
    refine @Reads.segment _ _ _ (packet segs) _ _ _ ?_ hconv ?_ hcmd hrest
    · rw [hpacket, decode_encode]
    · rw [Segment.header, UInt32.toNat_ofNat']
      omega

private theorem packet_eq_nil {segs : List Segment} (h : (packet segs).length < IKCP_OVERHEAD) :
    packet segs = [] := by
  cases segs with
  | nil => rfl
  | cons seg segs =>
    rw [packet, List.flatMap_cons, List.length_append, length_wire] at h
    omega

private theorem input_packet {O C : Type} [Output O] [Clock C] (peer : Kcp O C)
    {segs : List Segment} (hsegs : ∀ seg ∈ segs, seg.Encodable peer.conv) (hne : packet segs ≠ [])
    (pktType : PacketType) (ackNoDelay : Bool) :
    (peer.input (packet segs) pktType ackNoDelay).2 = 0 := by
  obtain ⟨pieces, code, -, hunique, -, hcode, -⟩ := peer.input_reads (packet segs) pktType ackNoDelay
  have hverdict : Verdict peer.conv (packet segs) (segs.map Segment.piece) 0 := by
    rw [Verdict, if_neg (mt packet_eq_nil hne)]
    exact reads_packet hsegs
  rw [hcode, (hunique _ _ hverdict).2]

private theorem mem_written {cs : List Call} {seg : Segment} (h : Call.header seg ∈ cs) :
    seg ∈ written cs := List.mem_filterMap.mpr ⟨_, h, rfl⟩

section Loops

variable {O C : Type} [Output O] [Clock C]

omit [Clock C] in
/-- The acknowledgement loop writes the template with the numbers of acknowledgements of the list,
in the order of the list. -/
theorem ackCalls_spec (mtu rcvNxt : UInt32) (seg : Segment) (acks : List AckItem) (p : Packer O) :
    (∀ s ∈ written (ackCalls mtu rcvNxt seg acks p), s = { seg with sn := s.sn, ts := s.ts }) ∧
      ((written (ackCalls mtu rcvNxt seg acks p)).map fun s => (⟨s.sn, s.ts⟩ : AckItem)).Sublist
        acks := by
  induction acks generalizing seg p with
  | nil => exact ⟨fun _ hs => absurd hs List.not_mem_nil, .slnil⟩
  | cons ack acks ih =>
    simp only [ackCalls]
    split_ifs
    · exact ⟨fun _ hs => absurd hs List.not_mem_nil, List.nil_sublist _⟩
    · obtain ⟨htemplate, hsub⟩ := ih { seg with sn := ack.sn, ts := ack.ts }
        ((p.hasRoom.2.makeSpace mtu IKCP_OVERHEAD).write { seg with sn := ack.sn, ts := ack.ts })
      refine ⟨?_, hsub.cons_cons ack⟩
      intro s hs
      rcases List.mem_cons.mp hs with rfl | hs
      · rfl
      · exact htemplate s hs
    · obtain ⟨htemplate, hsub⟩ := ih seg (p.hasRoom.2.makeSpace mtu IKCP_OVERHEAD)
      exact ⟨htemplate, hsub.cons ack⟩

omit [Clock C] in
private theorem probeCalls_spec (probe bit : UInt32) (cmd : UInt8) (seg : Segment) (p : Packer O) :
    (written (probeCalls probe bit cmd seg p)).Sublist [{ seg with cmd := cmd }] := by
  simp only [probeCalls]
  split_ifs
  · exact List.nil_sublist _
  · exact List.nil_sublist _
  · exact List.Sublist.refl _

namespace Scan

private theorem segmentCalls_spec (env : ScanEnv) (s : Scan O C) (seg : Segment) :
    (written (s.segmentCalls env seg)).Sublist [(s.segment env seg).2] ∧
      (∀ w ∈ written (s.segmentCalls env seg), w.wnd = env.wnd ∧ w.una = env.una ∧
        w.acked = false) ∧ ∀ w, Call.header w ∉ s.segmentCalls env seg := by
  have hask : written (s.askCalls env seg) = [] ∧ ∀ w, Call.header w ∉ s.askCalls env seg := by
    unfold askCalls
    split_ifs
    · exact ⟨rfl, fun w hw => by simp at hw⟩
    · exact ⟨rfl, fun w hw => by simp at hw⟩
  rcases s.segment_cases env seg with ha | ⟨ha, hb⟩ | ⟨ha, hb, hm⟩ | ⟨marked, why, ha, hb, hm⟩
  · rw [segmentCalls_acked env s ha]
    exact ⟨List.nil_sublist _, fun _ hw => absurd hw List.not_mem_nil, fun w hw => by simp at hw⟩
  · rw [segmentCalls_held env s ha hb, hask.1]
    exact ⟨List.nil_sublist _, fun _ hw => absurd hw List.not_mem_nil, hask.2⟩
  · rw [segmentCalls_idle env s ha hb hm, hask.1]
    exact ⟨List.nil_sublist _, fun _ hw => absurd hw List.not_mem_nil, hask.2⟩
  · rw [segmentCalls_sent env s ha hb hm, written_append, hask.1, segment_sent env s ha hb hm]
    refine ⟨List.Sublist.refl _, ?_, ?_⟩
    · intro w hw
      rw [List.nil_append] at hw
      rw [List.mem_singleton.mp hw]
      refine ⟨rfl, rfl, ?_⟩
      rw [mark_eq_some hm]
      exact ha
    · intro w hw
      rcases List.mem_append.mp hw with hw | hw
      · exact hask.2 w hw
      · simp at hw

private theorem loopCalls_spec (env : ScanEnv) (s : Scan O C) (items : List Segment) :
    (written (s.loopCalls env items)).Sublist (s.loop env items).2 ∧
      (∀ w ∈ written (s.loopCalls env items), w.wnd = env.wnd ∧ w.una = env.una ∧
        w.acked = false) ∧ ∀ w, Call.header w ∉ s.loopCalls env items := by
  induction items generalizing s with
  | nil => exact ⟨.slnil, nofun, nofun⟩
  | cons seg rest ih =>
    obtain ⟨hsub, hfields, hheader⟩ := segmentCalls_spec env s seg
    obtain ⟨hsub', hfields', hheader'⟩ := ih (s.segment env seg).1
    rw [loopCalls, written_append]
    refine ⟨hsub.append hsub', ?_, ?_⟩
    · intro w hw
      rcases List.mem_append.mp hw with hw | hw
      · exact hfields w hw
      · exact hfields' w hw
    · intro w hw
      rcases List.mem_append.mp hw with hw | hw
      · exact hheader w hw
      · exact hheader' w hw

end Scan

end Loops

namespace Kcp

variable {O C : Type}

/-- What is queued or stored for sending can be encoded: an unacknowledged segment of `sndBuf` as
it stands, a queued one once it is numbered. -/
structure Sendable (k : Kcp O C) : Prop where
  queue : ∀ seg ∈ k.sndQueue.items, seg.data.length < 4294967296
  buf : ∀ seg ∈ k.sndBuf.items, seg.data.length < 4294967296 ∧ seg.cmd = IKCP_CMD_PUSH
  conv : ∀ seg ∈ k.sndBuf.items, seg.acked = false → seg.conv = k.conv

variable {k k' : Kcp O C}

theorem Sendable.of_eq (h : k.Sendable) (hqueue : k'.sndQueue.items = k.sndQueue.items)
    (hbuf : k'.sndBuf.items = k.sndBuf.items) (hconv : k'.conv = k.conv) : k'.Sendable :=
  ⟨hqueue ▸ h.queue, hbuf ▸ h.buf, hbuf ▸ hconv ▸ h.conv⟩

private theorem Sendable.fillLast (h : k.Sendable) (buffer : Bytes) :
    (k.fillLast buffer).1.Sendable := by
  unfold Kcp.fillLast
  split
  next => exact h
  next seg hlast =>
    split
    next hroom =>
      refine ⟨?_, h.buf, h.conv⟩
      intro s hs
      rw [Fifo.items_setItems, List.mem_append, List.mem_singleton] at hs
      rcases hs with hs | rfl
      · exact h.queue s (List.mem_of_mem_dropLast hs)
      · have hmss := k.mss.toNat_lt
        simp only [List.length_append, List.length_take]
        omega
    next => exact h

private theorem Sendable.queueFragments (h : k.Sendable) (buffer : Bytes) :
    (k.queueFragments buffer).1.Sendable := by
  simp only [Kcp.queueFragments]
  generalize (if buffer.length ≤ k.mss.toNat then 1
    else (buffer.length + k.mss.toNat - 1) / k.mss.toNat) = count
  split
  · exact h
  · refine ⟨?_, h.buf, h.conv⟩
    intro s hs
    rw [items_foldl_push, List.mem_append] at hs
    rcases hs with hs | hs
    · exact h.queue s hs
    · exact (mem_fragments hs).1.trans_lt k.mss.toNat_lt

private theorem Sendable.send (h : k.Sendable) (buffer : Bytes) : (k.send buffer).1.Sendable := by
  simp only [Kcp.send]
  split_ifs
  · exact h
  · exact h.fillLast buffer
  · exact (h.fillLast buffer).queueFragments _
  · exact h.queueFragments buffer

theorem Sendable.inputParse [Clock C] (h : k.Sendable) (data : Bytes) (pktType : PacketType) :
    (k.inputParse data pktType).1.Sendable := by
  have hrel := k.releases_inputParse data pktType
  have hack := k.acknowledges_inputParse data pktType
  have hqueue : (k.inputParse data pktType).1.sndQueue.items = k.sndQueue.items :=
    congrArg OutView.queue hrel.view
  have hconv : (k.inputParse data pktType).1.conv = k.conv := congrArg OutView.conv hrel.view
  refine ⟨hqueue ▸ h.queue, ?_, ?_⟩
  · intro seg hseg
    obtain ⟨old, hold, hlen, hcmd⟩ := hrel.buf seg hseg
    exact ⟨hlen.trans_lt (h.buf old hold).1, hcmd.trans (h.buf old hold).2⟩
  · intro seg hseg ha
    obtain ⟨old, hold, hacked, -, -, hc⟩ := hack.buf seg hseg ha
    rw [hc, hconv]
    exact h.conv old hold hacked

section Flush

variable [Output O] [Clock C]

theorem Sendable.flush (h : k.Sendable) (flushType : FlushType) :
    (k.flush flushType).1.Sendable := by
  obtain ⟨groups, control, data, -, -, -, hbuffer⟩ := k.flush_spec flushType
  obtain ⟨n, -, hqueue, -, hout⟩ := hbuffer.admitted
  obtain ⟨hconv, -, -⟩ := k.flush_config flushType
  have hold : ∀ old ∈ k.sndBuf.items ++ number k.conv k.sndNxt (k.sndQueue.items.take n),
      (old.data.length < 4294967296 ∧ old.cmd = IKCP_CMD_PUSH) ∧
        (old.acked = false → old.conv = k.conv) := by
    intro old hmem
    rcases List.mem_append.mp hmem with hmem | hmem
    · exact ⟨h.buf old hmem, h.conv old hmem⟩
    · obtain ⟨queued, hqueued, hdata, hcmd⟩ := mem_number hmem
      refine ⟨⟨hdata ▸ h.queue queued (List.mem_of_mem_take hqueued), hcmd⟩, ?_⟩
      intro _
      obtain ⟨i, hi, hget⟩ := List.getElem_of_mem hmem
      have hnum := getElem?_number k.conv k.sndNxt (k.sndQueue.items.take n) i
      rw [List.getElem?_eq_getElem hi, hget] at hnum
      obtain ⟨old', -, rfl⟩ := Option.map_eq_some_iff.mp hnum.symm
      rfl
  have hnew : ∀ seg ∈ (k.flush flushType).1.sndBuf.items,
      (seg.data.length < 4294967296 ∧ seg.cmd = IKCP_CMD_PUSH) ∧
        (seg.acked = false → seg.conv = k.conv) := by
    intro seg hseg
    obtain ⟨i, hi, hget⟩ := List.getElem_of_mem hseg
    have hi' := hout.length_eq ▸ hi
    have hrel := hout.get hi' hi
    rw [List.get_eq_getElem, List.get_eq_getElem, hget] at hrel
    rcases hrel with heq | ⟨-, hretimed, hacked, -⟩
    · exact hold seg (heq ▸ List.getElem_mem hi')
    · obtain ⟨hstored, hc⟩ := hold _ (List.getElem_mem hi')
      rw [hretimed]
      exact ⟨hstored, hc⟩
  refine ⟨?_, fun seg hseg => (hnew seg hseg).1, ?_⟩
  · intro seg hseg
    rw [hqueue] at hseg
    exact h.queue seg (List.mem_of_mem_drop hseg)
  · intro seg hseg ha
    exact ((hnew seg hseg).2 ha).trans hconv.symm

theorem Sendable.step (h : k.Sendable) (op : Op) : (k.step op).1.Sendable := by
  cases op with
  | send buffer => exact h.send buffer
  | recv buflen =>
    obtain ⟨_, _, _, _, heq⟩ := k.recv_frame buflen
    rw [Kcp.step, heq]
    exact h.of_eq rfl rfl rfl
  | input data pktType ackNoDelay =>
    obtain heq | ⟨flushType, heq⟩ := k.input_cases data pktType ackNoDelay
    · exact heq ▸ h.inputParse data pktType
    · exact heq ▸ (h.inputParse data pktType).flush flushType
  | flush flushType => exact h.flush flushType
  | update =>
    have htimer : k.updateTimer.1.Sendable := by
      obtain ⟨clock, updated, tsFlush, heq⟩ := k.updateTimer_frame
      rw [heq]
      exact h.of_eq rfl rfl rfl
    simp only [Kcp.step, Kcp.update]
    split_ifs
    · exact htimer.flush .full
    · exact htimer
  | nodelay nodelay interval resend nc =>
    obtain ⟨_, _, _, _, _, heq⟩ := k.setNodelay_frame nodelay interval resend nc
    rw [Kcp.step, heq]
    exact h.of_eq rfl rfl rfl
  | setMtu mtu =>
    obtain ⟨_, _, heq⟩ := k.setMtu_frame mtu
    rw [Kcp.step, heq]
    exact h.of_eq rfl rfl rfl
  | wndSize sndwnd rcvwnd =>
    obtain ⟨_, _, heq⟩ := k.wndSize_frame sndwnd rcvwnd
    rw [Kcp.step, heq]
    exact h.of_eq rfl rfl rfl
  | setStream stream => exact h.of_eq rfl rfl rfl
  | shrinkIdleBuffers heapReleased ackReleased =>
    refine h.of_eq ?_ ?_ (World.conv_step k (.shrinkIdleBuffers heapReleased ackReleased)) <;>
    · simp only [Kcp.step, shrinkIdleBuffers]
      split_ifs <;> simp

omit [Output O] [Clock C] in
private theorem sendable_withClock (conv : UInt32) (output : O) (clock : C) :
    (Kcp.withClock conv output clock).Sendable := ⟨nofun, nofun, nofun⟩

theorem Reachable.sendable (hk : k.Reachable) : k.Sendable := by
  obtain ⟨conv, output, clock, ops, rfl⟩ := hk
  exact run_invariant Sendable (fun _ => True) (fun s op _ hs => hs.step op)
    (fun _ _ => trivial) (sendable_withClock conv output clock)

/-- What a flush writes: acknowledgements, then probes, then segments of `sndBuf` as it leaves
them, each phase in the order of its list and with the window and the cumulative acknowledgement of
the start of the flush. -/
structure FlushWrites (k k' : Kcp O C) (acks probes data : List Segment) : Prop where
  ackForm : ∀ s ∈ acks, s = { k.template with sn := s.sn, ts := s.ts }
  ackItems : (acks.map fun s => (⟨s.sn, s.ts⟩ : AckItem)).Sublist k.acklist
  probeForm : ∀ s ∈ probes, s = { k.template with cmd := s.cmd, sn := s.sn, ts := s.ts }
  probeCmds : (probes.map Segment.cmd).Sublist [IKCP_CMD_WASK, IKCP_CMD_WINS]
  dataStored : data.Sublist k'.sndBuf.items
  dataFields : ∀ s ∈ data, s.cmd = IKCP_CMD_PUSH ∧ s.conv = k.conv ∧ s.wnd = k.wndUnused ∧
    s.una = k.rcvNxt ∧ s.data.length < 4294967296

private theorem flushProbeCalls_spec (k : Kcp O C) :
    (∀ s ∈ written k.flushProbeCalls,
      s = { k.template with cmd := s.cmd, sn := s.sn, ts := s.ts }) ∧
    ((written k.flushProbeCalls).map Segment.cmd).Sublist [IKCP_CMD_WASK, IKCP_CMD_WINS] := by
  obtain ⟨-, -, -, hseg⟩ := flushAcks_spec k.mtu k.rcvNxt k.template k.acklist
    ⟨k.output, []⟩ [] (.start k.output)
  simp only [flushProbeCalls]
  generalize flushAcks k.mtu k.rcvNxt k.template k.acklist ⟨k.output, []⟩ = r at hseg ⊢
  generalize probeTimer { k with acklist := r.2.1 } = k₁
  have hseg' : (sendProbe k₁.mtu k₁.probe IKCP_ASK_SEND IKCP_CMD_WASK r.1 r.2.2).2.1 =
      { r.1 with cmd :=
        (sendProbe k₁.mtu k₁.probe IKCP_ASK_SEND IKCP_CMD_WASK r.1 r.2.2).2.1.cmd } := by
    simp only [sendProbe]
    split_ifs <;> rfl
  generalize sendProbe k₁.mtu k₁.probe IKCP_ASK_SEND IKCP_CMD_WASK r.1 r.2.2 = ra at hseg' ⊢
  have hsub := (probeCalls_spec k₁.probe IKCP_ASK_SEND IKCP_CMD_WASK r.1 r.2.2).append
    (probeCalls_spec k₁.probe IKCP_ASK_TELL IKCP_CMD_WINS ra.2.1 ra.2.2)
  rw [← written_append] at hsub
  refine ⟨?_, hsub.map Segment.cmd⟩
  intro s hs
  rcases List.mem_cons.mp (hsub.subset hs) with rfl | hs
  · rw [hseg]
  · rw [List.mem_singleton.mp hs, hseg', hseg]

private theorem flushDataCalls_spec (k : Kcp O C) (flushType : FlushType) :
    (written (k.flushDataCalls flushType)).Sublist (k.flush flushType).1.sndBuf.items ∧
      (∀ w ∈ written (k.flushDataCalls flushType), w.wnd = k.wndUnused ∧ w.una = k.rcvNxt ∧
        w.acked = false) ∧ ∀ w, Call.header w ∉ k.flushDataCalls flushType := by
  obtain ⟨acklist, clock, tsProbe, probeWait, probe, hframe⟩ := k.flushControl_eq
  cases flushType with
  | ackOnly => exact ⟨List.nil_sublist _, nofun, nofun⟩
  | full =>
    obtain ⟨ssthresh, cwnd, incr, h⟩ := k.flush_full
    set k₁ := k.flushControl.1.admitSegments.1 with hk₁
    set newSegs := k.flushControl.1.admitSegments.2
    have hwnd : k₁.wndUnused = k.wndUnused := by
      rw [hk₁, hframe]
      rfl
    have huna : k₁.rcvNxt = k.rcvNxt := by
      rw [hk₁, hframe]
      rfl
    obtain ⟨hsub, hfields, hheader⟩ := Scan.loopCalls_spec (k₁.scanEnv newSegs)
      (k₁.scanStart k.flushControl.2) (k₁.sndBuf.items.drop
        (k₁.skipCount (k₁.scanStart k.flushControl.2).current (k₁.flushScan.unsent + newSegs)))
    refine ⟨?_, ?_, hheader⟩
    · rw [h]
      exact hsub.trans (List.sublist_append_right _ _)
    · intro w hw
      obtain ⟨hw₁, hw₂, hw₃⟩ := hfields w hw
      exact ⟨hw₁.trans hwnd, hw₂.trans huna, hw₃⟩

theorem flushWrites (h : k.Sendable) (flushType : FlushType) :
    k.FlushWrites (k.flush flushType).1 (written k.flushAckCalls) (written k.flushProbeCalls)
      (written (k.flushDataCalls flushType)) := by
  obtain ⟨hacks, hitems⟩ := ackCalls_spec k.mtu k.rcvNxt k.template k.acklist ⟨k.output, []⟩
  obtain ⟨hprobes, hcmds⟩ := k.flushProbeCalls_spec
  obtain ⟨hsub, hfields, -⟩ := k.flushDataCalls_spec flushType
  have hstored := h.flush flushType
  obtain ⟨hconv, -, -⟩ := k.flush_config flushType
  refine ⟨hacks, hitems, hprobes, hcmds, hsub, ?_⟩
  intro s hs
  obtain ⟨hwnd, huna, hacked⟩ := hfields s hs
  have hmem := hsub.subset hs
  exact ⟨(hstored.buf s hmem).2, (hstored.conv s hmem hacked).trans hconv, hwnd, huna,
    (hstored.buf s hmem).1⟩

omit [Output O] [Clock C] in
theorem FlushWrites.encodable {acks probes data : List Segment}
    (h : k.FlushWrites k' acks probes data) :
    ∀ seg ∈ acks ++ probes ++ data, seg.Encodable k.conv := by
  intro seg hseg
  rcases List.mem_append.mp hseg with hseg | hseg
  · rcases List.mem_append.mp hseg with hseg | hseg
    · rw [h.ackForm seg hseg]
      exact ⟨rfl, .inr (.inl rfl), Nat.zero_lt_succ _⟩
    · have hcmd := h.probeCmds.subset (List.mem_map_of_mem hseg)
      rw [h.probeForm seg hseg]
      refine ⟨rfl, ?_, Nat.zero_lt_succ _⟩
      rcases List.mem_cons.mp hcmd with hcmd | hcmd
      · exact .inr (.inr (.inl hcmd))
      · exact .inr (.inr (.inr (List.mem_singleton.mp hcmd)))
  · obtain ⟨hcmd, hconv, -, -, hlen⟩ := h.dataFields seg hseg
    exact ⟨hconv, .inl hcmd, hlen⟩

/-- The flush buffer, as long as the mtu and as a header, runs through a flush without an index out
of range and hands over what the flush hands over. -/
theorem flush_buffer (h : k.Sendable) (flushType : FlushType) {buffer : Bytes}
    (hmtu : k.mtu.toNat ≤ buffer.length) (hheader : IKCP_OVERHEAD ≤ buffer.length) :
    ((⟨k.output, buffer, 0⟩ : Scratch O).calls k.mtu (k.flushCalls flushType)).bind
      Scratch.flushBuffer = some (k.flush flushType).1.output := by
  have hwrites := k.flushWrites h flushType
  have hdata : ∀ seg, Call.header seg ∈ k.flushCalls flushType → seg.data = [] := by
    intro seg hseg
    rw [flushCalls, List.mem_append, List.mem_append] at hseg
    rcases hseg with (hseg | hseg) | hseg
    · rw [hwrites.ackForm seg (mem_written hseg)]
      rfl
    · rw [hwrites.probeForm seg (mem_written hseg)]
      rfl
    · exact absurd hseg ((k.flushDataCalls_spec flushType).2.2 seg)
  have hstart : (⟨k.output, buffer, 0⟩ : Scratch O).Holds k.mtu ⟨k.output, []⟩ :=
    ⟨rfl, rfl, List.nil_prefix, hmtu, hheader⟩
  obtain ⟨c, hcalls, hholds⟩ := hstart.calls hdata
  rw [hcalls, Option.bind_some, hholds.flushBuffer, ← k.calls_flush flushType]

theorem flush_groups (k : Kcp O C) (flushType : FlushType) :
    ∃ groups : List (List Segment),
      (k.flush flushType).1.output.sent = k.output.sent ++ groups.map packet ∧
      groups.flatten = written k.flushAckCalls ++ written k.flushProbeCalls ++
        written (k.flushDataCalls flushType) := by
  obtain ⟨groups, hsent, hflat⟩ := ((Packer.Wrote.start k.output).calls k.mtu
    (k.flushCalls flushType)).flushBuffer
  rw [← k.calls_flush flushType] at hsent
  rw [List.nil_append, flushCalls, written_append, written_append] at hflat
  exact ⟨groups, hsent, hflat.symm⟩

/-- Every non-empty packet of a flush reads back as the segments the flush wrote into it, which are
acknowledgements, then probes, then data, and a peer of the same conversation accepts it. The
shared flush buffer hands over the same packets. -/
theorem flush_packets_read {O C : Type} [Output O] [Clock C] {k : Kcp O C} (hk : k.Reachable)
    (flushType : FlushType) :
    ∃ groups : List (List Segment),
      (k.flush flushType).1.output.sent = k.output.sent ++ groups.map packet ∧
      groups.flatten = written k.flushAckCalls ++ written k.flushProbeCalls ++
        written (k.flushDataCalls flushType) ∧
      k.FlushWrites (k.flush flushType).1 (written k.flushAckCalls) (written k.flushProbeCalls)
        (written (k.flushDataCalls flushType)) ∧
      (∀ group ∈ groups, packet group ≠ [] →
        Reads k.conv (packet group) (group.map Segment.piece) 0 ∧
        ∀ (P D : Type) [Output P] [Clock D] (peer : Kcp P D) (pktType : PacketType)
          (ackNoDelay : Bool), peer.conv = k.conv →
          (peer.input (packet group) pktType ackNoDelay).2 = 0) ∧
      ∀ buffer : Bytes, k.mtu.toNat ≤ buffer.length → IKCP_OVERHEAD ≤ buffer.length →
        ((⟨k.output, buffer, 0⟩ : Scratch O).calls k.mtu (k.flushCalls flushType)).bind
          Scratch.flushBuffer = some (k.flush flushType).1.output := by
  have hwrites := k.flushWrites hk.sendable flushType
  obtain ⟨groups, hsent, hflat⟩ := k.flush_groups flushType
  refine ⟨groups, hsent, hflat, hwrites, ?_,
    fun buffer hmtu hheader => k.flush_buffer hk.sendable flushType hmtu hheader⟩
  intro group hgroup hne
  have hencodable : ∀ seg ∈ group, seg.Encodable k.conv := fun seg hseg =>
    hwrites.encodable seg (hflat ▸ List.mem_flatten.mpr ⟨group, hgroup, hseg⟩)
  refine ⟨reads_packet hencodable, ?_⟩
  intro P D _ _ peer pktType ackNoDelay hconv
  exact input_packet peer (hconv ▸ hencodable) hne pktType ackNoDelay

/-- A connection with a short message queued that is asked for its window and sent some data. -/
def greeting : Kcp Unbounded VirtualClock :=
  (run Kcp.step (Kcp.withClock 7 {} ⟨0⟩) [.nodelay 1 10 2 1, .send [1, 2, 3],
    .input (packet [{ conv := 7, cmd := IKCP_CMD_WASK, wnd := 32 },
      { conv := 7, cmd := IKCP_CMD_PUSH, wnd := 32, data := [4, 5] }]) .regular false]).1

/-- An acknowledgement, the answer to the probe and the message leave in one packet. -/
theorem flush_packets_read_greeting : ∃ group : List Segment,
    (greeting.flush .full).1.output.sent = [packet group] ∧
    group.map (fun seg => (seg.cmd, seg.data)) =
      [(IKCP_CMD_ACK, []), (IKCP_CMD_WINS, []), (IKCP_CMD_PUSH, [1, 2, 3])] ∧
    Reads 7 (packet group) (group.map Segment.piece) 0 := by
  have hreach : greeting.Reachable := ⟨7, {}, ⟨0⟩, _, rfl⟩
  obtain ⟨groups, hsent, hflat, -, hreads, -⟩ := flush_packets_read hreach .full
  have hone : (greeting.flush .full).1.output.sent.length = 1 := by decide
  have hconv : greeting.conv = 7 := by decide
  have hempty : greeting.output.sent = [] := by decide
  rw [hempty, List.nil_append] at hsent
  rw [hsent, List.length_map] at hone
  obtain ⟨group, rfl⟩ := List.length_eq_one_iff.mp hone
  rw [List.flatten_singleton] at hflat
  have hkinds : group.map (fun seg => (seg.cmd, seg.data)) =
      [(IKCP_CMD_ACK, []), (IKCP_CMD_WINS, []), (IKCP_CMD_PUSH, [1, 2, 3])] := by
    rw [hflat]
    decide
  have hne : packet group ≠ [] := by
    intro hnil
    have hsome : (greeting.flush .full).1.output.sent ≠ [[]] := by decide
    rw [hsent, List.map_singleton, hnil] at hsome
    exact hsome rfl
  obtain ⟨hread, -⟩ := hreads group (List.mem_singleton_self group) hne
  rw [hconv] at hread
  exact ⟨group, hsent, hkinds, hread⟩

end Flush

end Kcp

end Kcptun.Arq
