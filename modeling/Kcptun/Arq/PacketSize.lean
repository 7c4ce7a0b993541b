/- Kcptun/Arq/PacketSize
   source: crates/kcp/src/kcp.rs (make_space, flush_buffer, flush, send, set_mtu)
   digest: How long the packets of a connection get while its mtu goes up and down, and which command
     they start with. -/

import Kcptun.Arq.Delivery

set_option autoImplicit false
set_option relaxedAutoImplicit false

namespace Kcptun.Arq

open Kcptun.Lib Kcptun.Lib.LittleEndian

def IsCommand (cmd : UInt8) : Prop :=
  cmd = IKCP_CMD_PUSH ∨ cmd = IKCP_CMD_ACK ∨ cmd = IKCP_CMD_WASK ∨ cmd = IKCP_CMD_WINS

/-- Segments one after the other, each with a known command. -/
def IsPacket (b : Bytes) : Prop := ∃ segs, b = packet segs ∧ ∀ seg ∈ segs, IsCommand seg.cmd

/-- The packet under construction and everything handed over is within `limit`. -/
structure Packer.Fits {O : Type} (limit : ℕ) (p : Packer O) : Prop where
  sent : ∀ b ∈ p.sink.sent, b.length ≤ limit
  buf : p.buf.length ≤ limit

namespace Packer.Fits

variable {O : Type} [Output O] {limit : ℕ} {p : Packer O}

private theorem makeSpace (h : p.Fits limit) {mtu : UInt32} (hmtu : mtu.toNat ≤ limit) {space : ℕ}
    (hspace : space ≤ limit) :
    (p.makeSpace mtu space).Fits limit ∧ (p.makeSpace mtu space).buf.length + space ≤ limit := by
  unfold Packer.makeSpace
  split_ifs with hfull
  · refine ⟨⟨?_, Nat.zero_le limit⟩, by simpa using hspace⟩
    intro b hb
    rw [Sink.sent_output, List.mem_append, List.mem_singleton] at hb
    rcases hb with hb | rfl
    · exact h.sent b hb
    · exact h.buf
  · exact ⟨h, by omega⟩

omit [Output O] in
private theorem write (h : p.Fits limit) {seg : Segment}
    (hroom : p.buf.length + (IKCP_OVERHEAD + seg.data.length) ≤ limit) : (p.write seg).Fits limit := by
  refine ⟨h.sent, ?_⟩
  rw [Packer.write, List.length_append, length_wire]
  exact hroom

private theorem hasRoom (h : p.Fits limit) : p.hasRoom.2.Fits limit := ⟨h.sent, h.buf⟩

private theorem flushBuffer (h : p.Fits limit) : ∀ b ∈ p.flushBuffer.sent, b.length ≤ limit := by
  unfold Packer.flushBuffer
  split_ifs
  · intro b hb
    rw [Sink.sent_output, List.mem_append, List.mem_singleton] at hb
    rcases hb with hb | rfl
    · exact h.sent b hb
    · exact h.buf
  · exact h.sent

end Packer.Fits

section Loops

variable {O C : Type} [Output O] [Clock C] {limit : ℕ}

omit [Clock C] in
private theorem fits_flushAcks {mtu : UInt32} (hmtu : mtu.toNat ≤ limit)
    (hlimit : IKCP_OVERHEAD ≤ limit)
    (rcvNxt : UInt32) {seg : Segment} (hseg : seg.data = []) (acks : List AckItem) {p : Packer O}
    (h : p.Fits limit) :
    (flushAcks mtu rcvNxt seg acks p).2.2.Fits limit ∧
      (flushAcks mtu rcvNxt seg acks p).1.data = [] := by
  induction acks generalizing seg p with
  | nil => exact ⟨h, hseg⟩
  | cons ack acks ih =>
    obtain ⟨hspace, hroom⟩ := h.hasRoom.makeSpace hmtu hlimit
    simp only [flushAcks]
    split_ifs
    · exact ⟨h.hasRoom, hseg⟩
    · refine ih ?_ (hspace.write ?_)
      · exact hseg
      · dsimp only
        rw [hseg, List.length_nil, Nat.add_zero]
        exact hroom
    · exact ih hseg hspace

omit [Clock C] in
private theorem fits_sendProbe {mtu : UInt32} (hmtu : mtu.toNat ≤ limit)
    (hlimit : IKCP_OVERHEAD ≤ limit)
    (probe bit : UInt32) (cmd : UInt8) {seg : Segment} (hseg : seg.data = []) {p : Packer O}
    (h : p.Fits limit) :
    (sendProbe mtu probe bit cmd seg p).2.2.Fits limit ∧
      (sendProbe mtu probe bit cmd seg p).2.1.data = [] := by
  obtain ⟨hspace, hroom⟩ := h.hasRoom.makeSpace hmtu hlimit
  simp only [sendProbe]
  split_ifs
  · exact ⟨h, hseg⟩
  · exact ⟨h.hasRoom, hseg⟩
  · refine ⟨hspace.write ?_, hseg⟩
    dsimp only
    rw [hseg, List.length_nil, Nat.add_zero]
    exact hroom

namespace Scan

omit [Clock C] in
private theorem fits_askRoom (env : ScanEnv) {s : Scan O C} (seg : Segment)
    (h : s.packer.Fits limit) : (s.askRoom env seg).packer.Fits limit := by
  unfold askRoom
  split_ifs
  · exact h.hasRoom
  · exact h

private theorem fits_segment (env : ScanEnv) (hmtu : env.mtu.toNat ≤ limit) {s : Scan O C}
    {seg : Segment} (hseg : IKCP_OVERHEAD + seg.data.length ≤ limit) (h : s.packer.Fits limit) :
    (s.segment env seg).1.packer.Fits limit := by
  have hask := fits_askRoom env seg h
  apply packer_segment env s seg h hask
  intro marked why _ hm
  have hdata : marked.data = seg.data := by rw [mark_eq_some hm]
  obtain ⟨hspace, hroom⟩ := hask.makeSpace hmtu (hdata ▸ hseg)
  exact hspace.write hroom

private theorem fits_loop (env : ScanEnv) (hmtu : env.mtu.toNat ≤ limit) {items : List Segment}
    (hitems : ∀ seg ∈ items, IKCP_OVERHEAD + seg.data.length ≤ limit) {s : Scan O C}
    (h : s.packer.Fits limit) : (s.loop env items).1.packer.Fits limit := by
  induction items generalizing s with
  | nil => exact h
  | cons seg rest ih =>
    rw [List.forall_mem_cons] at hitems
    exact ih hitems.2 (fits_segment env hmtu hitems.1 h)

end Scan

end Loops

theorem mem_number {conv nxt : UInt32} {items : List Segment} {seg : Segment}
    (h : seg ∈ number conv nxt items) :
    ∃ old ∈ items, seg.data = old.data ∧ seg.cmd = IKCP_CMD_PUSH := by
  induction items generalizing nxt with
  | nil => cases h
  | cons old rest ih =>
    rcases List.mem_cons.mp h with rfl | h
    · exact ⟨old, List.mem_cons_self, rfl, rfl⟩
    · obtain ⟨old', hold', hdata, hcmd⟩ := ih h
      exact ⟨old', List.mem_cons_of_mem old hold', hdata, hcmd⟩

namespace Kcp

variable {O C : Type}

/-- Everything a connection holds and has handed over stays within `limit`: the mtu in force does,
and every segment does with its header, under whichever mss it was cut. -/
structure Sized (limit : ℕ) (k : Kcp O C) : Prop where
  low : 50 ≤ k.mtu.toNat
  mtu : k.mtu.toNat ≤ limit
  mss : k.mss.toNat + IKCP_OVERHEAD = k.mtu.toNat
  queue : ∀ seg ∈ k.sndQueue.items, IKCP_OVERHEAD + seg.data.length ≤ limit
  buf : ∀ seg ∈ k.sndBuf.items, IKCP_OVERHEAD + seg.data.length ≤ limit ∧ seg.cmd = IKCP_CMD_PUSH
  sent : ∀ b ∈ k.output.sent, b.length ≤ limit ∧ IsPacket b

variable {limit : ℕ} {k k' : Kcp O C}

private theorem Sized.overhead_le (h : k.Sized limit) : IKCP_OVERHEAD ≤ limit := by
  have := h.low
  have := h.mtu
  unfold IKCP_OVERHEAD
  omega

section Flush

variable [Output O] [Clock C]

private theorem fits_flushControl (h : k.Sized limit) : k.flushControl.2.Fits limit := by
  have hstart : Packer.Fits limit ⟨k.output, []⟩ := ⟨fun b hb => (h.sent b hb).1, Nat.zero_le limit⟩
  have hempty : k.template.data = [] := rfl
  obtain ⟨hacks, htemplate⟩ := fits_flushAcks h.mtu h.overhead_le k.rcvNxt hempty k.acklist hstart
  have hmtu (acklist : List AckItem) : (probeTimer { k with acklist := acklist }).mtu = k.mtu := by
    simp only [probeTimer]
    split_ifs <;> rfl
  simp only [flushControl, hmtu]
  obtain ⟨hask, hseg⟩ := fits_sendProbe h.mtu h.overhead_le
    (probeTimer { k with
      acklist := (flushAcks k.mtu k.rcvNxt k.template k.acklist ⟨k.output, []⟩).2.1 }).probe
    IKCP_ASK_SEND IKCP_CMD_WASK htemplate hacks
  exact (fits_sendProbe h.mtu h.overhead_le _ IKCP_ASK_TELL IKCP_CMD_WINS hseg hask).1

private theorem fits_flush (h : k.Sized limit) (flushType : FlushType) :
    ∀ b ∈ (k.flush flushType).1.output.sent, b.length ≤ limit := by
  have hcontrol := fits_flushControl h
  cases flushType with
  | ackOnly =>
    obtain ⟨ssthresh, cwnd, incr, heq⟩ := k.flush_ackOnly
    rw [heq]
    exact hcontrol.flushBuffer
  | full =>
    obtain ⟨ssthresh, cwnd, incr, heq⟩ := k.flush_full
    obtain ⟨acklist, clock, tsProbe, probeWait, probe, hframe⟩ := k.flushControl_eq
    obtain ⟨n, -, -, -, hbuf, -⟩ := k.flushControl.1.admitSegments_spec
    have hmtu : k.flushControl.1.admitSegments.1.mtu.toNat ≤ limit := by
      rw [hframe]
      exact h.mtu
    have hqueue : k.flushControl.1.sndQueue = k.sndQueue := by rw [hframe]
    have hold : k.flushControl.1.sndBuf = k.sndBuf := by rw [hframe]
    rw [heq]
    refine (Scan.fits_loop _ hmtu ?_ hcontrol).flushBuffer
    intro seg hseg
    have hmem := List.mem_of_mem_drop hseg
    rw [hbuf, hqueue, hold, List.mem_append] at hmem
    rcases hmem with hmem | hmem
    · exact (h.buf seg hmem).1
    · obtain ⟨old, hold, hdata, -⟩ := mem_number hmem
      rw [hdata]
      exact h.queue old (List.mem_of_mem_take hold)

private theorem mtu_flush (k : Kcp O C) (flushType : FlushType) :
    (k.flush flushType).1.mtu = k.mtu := by
  obtain ⟨acklist, clock, tsProbe, probeWait, probe, hframe⟩ := k.flushControl_eq
  have hconfig : k.flushControl.1.admitSegments.1.mtu = k.mtu := by
    rw [hframe]
    rfl
  cases flushType with
  | ackOnly =>
    obtain ⟨ssthresh, cwnd, incr, heq⟩ := k.flush_ackOnly
    rw [heq]
    exact hconfig
  | full =>
    obtain ⟨ssthresh, cwnd, incr, heq⟩ := k.flush_full
    rw [heq]
    exact hconfig

theorem Sized.flush (h : k.Sized limit) (flushType : FlushType) :
    (k.flush flushType).1.Sized limit := by
  obtain ⟨groups, control, data, hsent, hflat, hcontrol, hbuffer⟩ := k.flush_spec flushType
  obtain ⟨n, -, hqueue, -, hout⟩ := hbuffer.admitted
  obtain ⟨-, hmss, -⟩ := k.flush_config flushType
  have hmtu := k.mtu_flush flushType
  have hfits := fits_flush h flushType
  have hbuf : ∀ seg ∈ (k.flush flushType).1.sndBuf.items,
      IKCP_OVERHEAD + seg.data.length ≤ limit ∧ seg.cmd = IKCP_CMD_PUSH := by
    intro seg hseg
    obtain ⟨i, hi, hget⟩ := List.getElem_of_mem hseg
    have hi' := hout.length_eq ▸ hi
    have hrel := hout.get hi' hi
    rw [List.get_eq_getElem, List.get_eq_getElem, hget] at hrel
    have hold : ∀ old ∈ k.sndBuf.items ++ number k.conv k.sndNxt (k.sndQueue.items.take n),
        IKCP_OVERHEAD + old.data.length ≤ limit ∧ old.cmd = IKCP_CMD_PUSH := by
      intro old hmem
      rcases List.mem_append.mp hmem with hmem | hmem
      · exact h.buf old hmem
      · obtain ⟨queued, hqueued, hdata, hcmd⟩ := mem_number hmem
        rw [hdata]
        exact ⟨h.queue queued (List.mem_of_mem_take hqueued), hcmd⟩
    rcases hrel with heq | ⟨-, hretimed, -, -⟩
    · exact hold seg (heq ▸ List.getElem_mem hi')
    · have := hold _ (List.getElem_mem hi')
      rw [hretimed]
      exact this
  refine ⟨by rw [hmtu]; exact h.low, by rw [hmtu]; exact h.mtu, by rw [hmtu, hmss]; exact h.mss, ?_,
    hbuf, fun b hb => ⟨hfits b hb, ?_⟩⟩
  · intro seg hseg
    rw [hqueue] at hseg
    exact h.queue seg (List.mem_of_mem_drop hseg)
  · rw [hsent, List.mem_append, List.mem_map] at hb
    rcases hb with hb | ⟨segs, hsegs, rfl⟩
    · exact (h.sent b hb).2
    · refine ⟨segs, rfl, ?_⟩
      intro seg hseg
      have hmem : seg ∈ control ++ data := hflat ▸ List.mem_flatten.mpr ⟨segs, hsegs, hseg⟩
      rcases List.mem_append.mp hmem with hmem | hmem
      · exact Or.inr (hcontrol.control seg hmem).1
      · exact Or.inl (hbuf seg (hbuffer.stored seg hmem).1).2

end Flush

/-- What the input of a packet may do to the sending half before its flush: drop segments and
payloads. -/
structure Releases (k k' : Kcp O C) : Prop where
  mtu : k'.mtu = k.mtu
  view : k'.outView = k.outView
  buf : ∀ seg' ∈ k'.sndBuf.items, ∃ seg ∈ k.sndBuf.items,
    seg'.data.length ≤ seg.data.length ∧ seg'.cmd = seg.cmd

theorem Releases.of_eq (hmtu : k'.mtu = k.mtu) (hview : k'.outView = k.outView)
    (hbuf : k'.sndBuf.items = k.sndBuf.items) : k.Releases k' :=
  ⟨hmtu, hview, fun seg hseg => ⟨seg, hbuf ▸ hseg, le_rfl, rfl⟩⟩

private theorem Releases.trans {k'' : Kcp O C} (h : k.Releases k') (h' : k'.Releases k'') :
    k.Releases k'' := by
  refine ⟨h'.mtu.trans h.mtu, h'.view.trans h.view, ?_⟩
  intro seg'' hseg''
  obtain ⟨seg', hseg', hlen', hcmd'⟩ := h'.buf seg'' hseg''
  obtain ⟨seg, hseg, hlen, hcmd⟩ := h.buf seg' hseg'
  exact ⟨seg, hseg, hlen'.trans hlen, hcmd'.trans hcmd⟩

private theorem releases_inputHeader (k : Kcp O C) (pktType : PacketType) (h : SegmentHeader) :
    k.Releases (k.inputHeader pktType h).1 := by
  refine ⟨?_, (k.acknowledges_inputHeader pktType h).view, ?_⟩
  · simp only [inputHeader]
    split_ifs <;> rfl
  · intro seg hseg
    rw [items_inputHeader] at hseg
    exact ⟨seg, List.mem_of_mem_drop hseg, le_rfl, rfl⟩

private theorem releases_parseAck (k : Kcp O C) (sn : UInt32) : k.Releases (k.parseAck sn) := by
  simp only [parseAck]
  split
  · exact .of_eq rfl rfl rfl
  · split
    · exact .of_eq rfl rfl rfl
    · refine ⟨rfl, rfl, ?_⟩
      intro seg' hseg'
      obtain ⟨i, hi, hget⟩ := List.getElem_of_mem hseg'
      simp only [Fifo.items_setItems] at hi hget
      rw [List.getElem_modify] at hget
      split_ifs at hget
      · exact ⟨_, List.getElem_mem _, by rw [← hget]; exact Nat.zero_le _, by rw [← hget]⟩
      · exact ⟨seg', hget ▸ List.getElem_mem _, le_rfl, rfl⟩

private theorem releases_parseFastack (k : Kcp O C) (sn ts : UInt32) :
    k.Releases (k.parseFastack sn ts).1 := by
  refine ⟨?_, (k.acknowledges_parseFastack sn ts).view, ?_⟩
  · simp only [parseFastack]
    split <;> rfl
  · intro seg' hseg'
    obtain ⟨seg, hseg, heq⟩ := mem_parseFastack hseg'
    exact ⟨seg, hseg, by rw [heq], by rw [heq]⟩

theorem releases_inputSegment (k : Kcp O C) (pktType : PacketType) (acc : Parsed)
    (h : SegmentHeader) (payload : Bytes) : k.Releases (k.inputSegment pktType acc h payload).1 := by
  have hheader := k.releases_inputHeader pktType h
  simp only [inputSegment]
  split_ifs
  · exact (hheader.trans (releases_parseAck _ h.sn)).trans (releases_parseFastack _ h.sn h.ts)
  · apply hheader.trans
    simp only [inputPush, parseData]
    split_ifs <;> exact .of_eq rfl rfl rfl
  · exact hheader.trans (.of_eq rfl rfl rfl)
  · exact hheader

private theorem releases_inputLoop (pktType : PacketType) (fuel : ℕ) (k : Kcp O C) (acc : Parsed)
    (data : Bytes) : k.Releases (inputLoop pktType fuel k acc data).1 := by
  induction fuel generalizing k acc data with
  | zero => exact .of_eq rfl rfl rfl
  | succ fuel ih =>
    simp only [inputLoop]
    split
    · exact .of_eq rfl rfl rfl
    · split_ifs
      · exact .of_eq rfl rfl rfl
      · exact .of_eq rfl rfl rfl
      · exact .of_eq rfl rfl rfl
      · exact (k.releases_inputSegment pktType acc _ _).trans (ih _ _ _)

theorem releases_inputParse [Clock C] (k : Kcp O C) (data : Bytes) (pktType : PacketType) :
    k.Releases (k.inputParse data pktType).1 := by
  have hloop := releases_inputLoop pktType data.length k {} data
  simp only [inputParse]
  split_ifs
  · exact .of_eq rfl rfl rfl
  · split
    · rename_i heq
      rwa [heq] at hloop
    · rename_i k' acc heq
      rw [heq] at hloop
      have hrtt : k'.Releases (k'.inputRtt pktType acc) := by
        simp only [inputRtt]
        split_ifs <;> exact .of_eq rfl rfl rfl
      have hcwnd : (k'.inputRtt pktType acc).Releases
          ((k'.inputRtt pktType acc).inputCwnd k.sndUna) := by
        simp only [inputCwnd]
        split_ifs <;> exact .of_eq rfl rfl rfl
      exact (hloop.trans hrtt).trans hcwnd

theorem Sized.releases (h : k.Sized limit) (hrel : k.Releases k') : k'.Sized limit := by
  obtain ⟨hmtu, hview, hbuf⟩ := hrel
  simp only [outView, OutView.mk.injEq] at hview
  obtain ⟨-, -, hqueue, hsent, hmss, -⟩ := hview
  refine ⟨hmtu ▸ h.low, hmtu ▸ h.mtu, by rw [hmtu, hmss]; exact h.mss, hqueue ▸ h.queue,
    ?_, hsent ▸ h.sent⟩
  intro seg' hseg'
  obtain ⟨seg, hseg, hlen, hcmd⟩ := hbuf seg' hseg'
  obtain ⟨hle, hpush⟩ := h.buf seg hseg
  exact ⟨by omega, hcmd.trans hpush⟩

theorem Sized.input [Output O] [Clock C] (h : k.Sized limit) (data : Bytes) (pktType : PacketType)
    (ackNoDelay : Bool) : (k.input data pktType ackNoDelay).1.Sized limit := by
  have hparse := h.releases (k.releases_inputParse data pktType)
  obtain heq | ⟨flushType, heq⟩ := k.input_cases data pktType ackNoDelay
  · rwa [heq]
  · rw [heq]
    exact hparse.flush flushType

private theorem Sized.fillLast (h : k.Sized limit) (buffer : Bytes) :
    (k.fillLast buffer).1.Sized limit := by
  unfold Kcp.fillLast
  split
  next => exact h
  next seg hlast =>
    split
    next hroom =>
      refine ⟨h.low, h.mtu, h.mss, ?_, h.buf, h.sent⟩
      intro s hs
      simp only [Fifo.items_setItems, List.mem_append, List.mem_singleton] at hs
      rcases hs with hs | rfl
      · exact h.queue s (List.mem_of_mem_dropLast hs)
      · have hmss := h.mss
        have hmtu := h.mtu
        simp only [List.length_append, List.length_take]
        omega
    next => exact h

private theorem Sized.queueFragments (h : k.Sized limit) (buffer : Bytes) :
    (k.queueFragments buffer).1.Sized limit := by
  have hmss := h.mss
  have hlow := h.low
  have hmtu := h.mtu
  have hne : k.mss ≠ 0 := by
    intro hzero
    rw [hzero, UInt32.toNat_zero] at hmss
    unfold IKCP_OVERHEAD at hmss
    omega
  have hqueues := k.queues_queueFragments buffer hne
  obtain ⟨-, -, hsent, hmss', -, hbuf, -⟩ := hqueues.rest
  have hmtu' : (k.queueFragments buffer).1.mtu = k.mtu := by
    simp only [Kcp.queueFragments]
    split_ifs <;> rfl
  refine ⟨hmtu' ▸ hlow, hmtu' ▸ hmtu, by rw [hmtu', hmss']; exact hmss, ?_,
    hbuf ▸ h.buf, hsent ▸ h.sent⟩
  intro seg hseg
  rcases k.queueFragments_spec buffer hne with ⟨-, heq⟩ | ⟨count, -, -, -, hitems⟩
  · rw [heq] at hseg
    exact h.queue seg hseg
  · rw [hitems, List.mem_append] at hseg
    rcases hseg with hseg | hseg
    · exact h.queue seg hseg
    · have := (mem_fragments hseg).1
      omega

theorem Sized.send (h : k.Sized limit) (buffer : Bytes) : (k.send buffer).1.Sized limit := by
  simp only [Kcp.send]
  split_ifs
  · exact h
  · exact h.fillLast buffer
  · exact (h.fillLast buffer).queueFragments _
  · exact h.queueFragments buffer

theorem Sized.setMtu (h : k.Sized limit) {mtu : Int} (hle : mtu ≤ limit) (hlimit : limit ≤ 1500) :
    (k.setMtu mtu).1.Sized limit := by
  simp only [Kcp.setMtu]
  split_ifs with hlow
  · exact h
  · have hmtu : (UInt32.ofNat mtu.toNat).toNat = mtu.toNat := by
      rw [UInt32.toNat_ofNat']
      omega
    refine ⟨?_, ?_, ?_, h.queue, h.buf, h.sent⟩
    · rw [hmtu]
      omega
    · rw [hmtu]
      omega
    · have hsub : (UInt32.ofNat mtu.toNat - UInt32.ofNat IKCP_OVERHEAD).toNat = mtu.toNat - 24 := by
        rw [UInt32.toNat_sub_of_le, hmtu]
        · rfl
        · rw [UInt32.le_iff_toNat_le, hmtu]
          show 24 ≤ mtu.toNat
          omega
      rw [hsub, hmtu, IKCP_OVERHEAD]
      omega

end Kcp

end Kcptun.Arq
