/- Kcptun/Arq/Vouched
   source: crates/kcp/src/kcp.rs (parse_data, ack_push, flush, recv, input)
   digest: What the receiver acknowledges has arrived there and stays, whatever comes in between. -/

import Kcptun.Arq.Pending

set_option autoImplicit false
set_option relaxedAutoImplicit false

namespace Kcptun.Arq

open Kcptun.Lib Kcptun.Lib.LittleEndian

/-- The set of the heap holds the numbers of the heap, and none of them twice. -/
structure SegmentHeap.Marked (h : SegmentHeap) : Prop where
  nodup : h.sns.Nodup
  marks : ∀ sn, sn ∈ h.marks ↔ sn ∈ h.sns

private theorem SegmentHeap.Marked.push {h : SegmentHeap} (hh : h.Marked) {seg : Segment}
    (hnew : seg.sn ∉ h.sns) : (h.push seg).Marked := by
  have hperm := h.sns_push seg
  constructor
  · rw [hperm.nodup_iff, List.nodup_cons]
    exact ⟨hnew, hh.nodup⟩
  · intro sn
    rw [hperm.mem_iff, List.mem_cons, ← hh.marks sn]
    exact Finset.mem_insert

private theorem SegmentHeap.Marked.pop {h h' : SegmentHeap} (hh : h.Marked) {x : Segment}
    (hpop : h.pop = some (x, h')) : h'.Marked ∧ x.sn ∉ h'.sns := by
  have hperm := sns_of_pop hpop
  have hnodup := hperm.nodup_iff.mp hh.nodup
  rw [List.nodup_cons] at hnodup
  refine ⟨⟨hnodup.2, ?_⟩, hnodup.1⟩
  intro sn
  rw [(pop_eq_some hpop).2, Finset.mem_erase, hh.marks sn, hperm.mem_iff, List.mem_cons]
  constructor
  · rintro ⟨hne, rfl | hmem⟩
    · exact absurd rfl hne
    · exact hmem
  · intro hmem
    exact ⟨fun heq => hnodup.1 (heq ▸ hmem), .inr hmem⟩

namespace RecvView

/-- The segment has arrived: it was moved to the queue, or it waits in the heap. -/
def Received (v : RecvView) (sn : UInt32) : Prop := sn.toNat < v.nxt.toNat ∨ sn ∈ v.buf.sns

structure Gains (v v' : RecvView) : Prop where
  received : ∀ sn, v.Received sn → v'.Received sn
  nxt : v.nxt.toNat ≤ v'.nxt.toNat

private theorem Gains.refl (v : RecvView) : v.Gains v := ⟨fun _ => id, le_rfl⟩

private theorem Gains.trans {u v w : RecvView} (h : u.Gains v) (h' : v.Gains w) : u.Gains w :=
  ⟨fun sn hsn => h'.received sn (h.received sn hsn), h.nxt.trans h'.nxt⟩

/-- The heap holds numbers from `nxt` up to `limit`, so the numbers do not wrap. -/
structure Below (v : RecvView) (limit : ℕ) : Prop where
  marked : v.buf.Marked
  heap : ∀ sn ∈ v.buf.sns, v.nxt.toNat ≤ sn.toNat ∧ sn.toNat < limit
  nxt : v.nxt.toNat ≤ limit

end RecvView

section Receiver

variable {limit : ℕ}

private theorem gains_drain (hlimit : limit < 4294967296) (wnd : UInt32) (fuel : ℕ) (r : Ready)
    (h : RecvView.Below ⟨r.buf, r.queue.items, r.nxt, wnd⟩ limit) :
    RecvView.Gains ⟨r.buf, r.queue.items, r.nxt, wnd⟩ ⟨(drain wnd fuel r).buf,
      (drain wnd fuel r).queue.items, (drain wnd fuel r).nxt, wnd⟩ ∧
    RecvView.Below ⟨(drain wnd fuel r).buf, (drain wnd fuel r).queue.items,
      (drain wnd fuel r).nxt, wnd⟩ limit := by
  induction fuel generalizing r with
  | zero => exact ⟨.refl _, h⟩
  | succ fuel ih =>
    unfold drain
    split
    · exact ⟨.refl _, h⟩
    next seg buf hpop =>
      have hperm := SegmentHeap.sns_of_pop hpop
      have hmem : ∀ sn, sn ∈ r.buf.sns ↔ sn = seg.sn ∨ sn ∈ buf.sns := by
        intro sn
        rw [hperm.mem_iff, List.mem_cons]
      obtain ⟨hmarked, hout⟩ := h.marked.pop hpop
      have hseg : seg.sn.toNat < limit := (h.heap seg.sn ((hmem seg.sn).mpr (.inl rfl))).2
      split_ifs with hready
      · have hnxt : r.nxt.toNat < limit := hready.1 ▸ hseg
        have hsucc : (r.nxt + 1).toNat = r.nxt.toNat + 1 := by
          rw [UInt32.toNat_add]
          have hone : (1 : UInt32).toNat = 1 := rfl
          omega
        have hbelow : RecvView.Below ⟨buf, (r.queue.push seg).items, r.nxt + 1, wnd⟩ limit := by
          refine ⟨hmarked, ?_, by rw [hsucc]; omega⟩
          intro sn hsn
          obtain ⟨hahead, hlt⟩ := h.heap sn ((hmem sn).mpr (.inr hsn))
          have hne : r.nxt.toNat ≠ sn.toNat := by
            intro heq
            rw [← hready.1] at heq
            exact hout (UInt32.toNat_inj.mp heq ▸ hsn)
          rw [hsucc]
          change r.nxt.toNat ≤ sn.toNat at hahead
          omega
        obtain ⟨hgains, hafter⟩ := ih ⟨buf, r.queue.push seg, r.nxt + 1⟩ hbelow
        refine ⟨RecvView.Gains.trans ⟨?_, hsucc ▸ Nat.le_succ _⟩ hgains, hafter⟩
        rintro sn (hlt | hsn)
        · exact .inl (by rw [hsucc]; exact Nat.lt_succ_of_lt hlt)
        · rcases (hmem sn).mp hsn with rfl | hsn
          · exact .inl (by rw [hsucc, hready.1]; exact Nat.lt_succ_self _)
          · exact .inr hsn
      · have hpush : ∀ sn, sn ∈ (buf.push seg).sns ↔ sn ∈ r.buf.sns := by
          intro sn
          rw [(buf.sns_push seg).mem_iff, List.mem_cons, hmem sn]
        refine ⟨⟨fun sn hsn => hsn.imp_right (hpush sn).mpr, le_rfl⟩, hmarked.push hout, ?_, h.nxt⟩
        intro sn hsn
        exact h.heap sn ((hpush sn).mp hsn)

namespace Kcp

variable {O C : Type} {k : Kcp O C}

private theorem gains_moveReady (hlimit : limit < 4294967296) (h : k.recvView.Below limit) :
    k.recvView.Gains k.moveReady.recvView ∧ k.moveReady.recvView.Below limit :=
  gains_drain hlimit k.rcvWnd _ ⟨k.rcvBuf, k.rcvQueue, k.rcvNxt⟩ h

private theorem gains_inputPush (hlimit : limit ≤ 2147483648) (h : k.recvView.Below limit)
    (header : SegmentHeader) (payload : Bytes) (hsn : header.sn.toNat < limit) :
    k.recvView.Gains (k.inputPush header payload).recvView ∧
      (k.inputPush header payload).recvView.Below limit ∧
      (itimediff header.sn (k.rcvNxt + k.rcvWnd) < 0 →
        (k.inputPush header payload).recvView.Received header.sn) := by
  have hlimit' : limit < 4294967296 := by omega
  simp only [inputPush, parseData]
  split_ifs with hwindow hlate hin hhas
  · exact ⟨.refl _, h, fun _ => absurd hin (not_or.mpr ⟨not_le.mpr hwindow, not_lt.mpr hlate⟩)⟩
  · have hmem : header.sn ∈ k.recvView.buf.sns :=
      (h.marked.marks header.sn).mp (of_decide_eq_true hhas)
    obtain ⟨hgains, hafter⟩ := gains_moveReady (k := k.ackPush header.sn header.ts) hlimit' h
    exact ⟨hgains, hafter, fun _ => hgains.received header.sn (.inr hmem)⟩
  · have hnew : header.sn ∉ k.rcvBuf.sns := fun hmem =>
      hhas (decide_eq_true ((h.marked.marks header.sn).mpr hmem))
    set seg : Segment :=
      { conv := header.conv, cmd := header.cmd, frg := header.frg, wnd := header.wnd,
        ts := header.ts, sn := header.sn, una := header.una, data := payload }
    have hpush : ∀ sn, sn ∈ (k.rcvBuf.push seg).sns ↔ sn = header.sn ∨ sn ∈ k.rcvBuf.sns := by
      intro sn
      rw [(k.rcvBuf.sns_push seg).mem_iff, List.mem_cons]
    have hbelow : RecvView.Below ⟨k.rcvBuf.push seg, k.rcvQueue.items, k.rcvNxt, k.rcvWnd⟩
        limit := by
      refine ⟨h.marked.push hnew, ?_, h.nxt⟩
      intro sn hmem
      rcases (hpush sn).mp hmem with rfl | hmem
      · change itimediff header.sn k.rcvNxt ≥ 0 at hlate
        rw [itimediff, Serial.diff_eq] at hlate
        have hnxt : k.rcvNxt.toNat ≤ limit := h.nxt
        change k.rcvNxt.toNat ≤ header.sn.toNat ∧ _
        omega
      · exact h.heap sn hmem
    have hstored : k.recvView.Gains ⟨k.rcvBuf.push seg, k.rcvQueue.items, k.rcvNxt, k.rcvWnd⟩ :=
      ⟨fun sn hsn => hsn.imp_right fun hmem => (hpush sn).mpr (.inr hmem), le_rfl⟩
    obtain ⟨hgains, hafter⟩ := gains_moveReady
      (k := { k.ackPush header.sn header.ts with rcvBuf := k.rcvBuf.push seg }) hlimit' hbelow
    refine ⟨hstored.trans hgains, hafter, ?_⟩
    intro _
    exact hgains.received header.sn (.inr ((hpush header.sn).mpr (.inl rfl)))
  · -- an old number: it was moved to the queue before
    refine ⟨.refl _, h, fun _ => .inl ?_⟩
    have hold : itimediff header.sn k.rcvNxt < 0 := not_le.mp hlate
    rw [itimediff, Serial.diff_lt_zero, UInt32.toNat_sub] at hold
    have hnxt : k.rcvNxt.toNat ≤ limit := h.nxt
    change header.sn.toNat < k.rcvNxt.toNat
    omega
  · exact ⟨.refl _, h, fun hin => absurd hin hwindow⟩

/-- Whatever is acknowledged, in a packet or on the list for the next one, has arrived. -/
structure Vouches (k : Kcp O C) : Prop where
  acks : ∀ ack ∈ k.acklist, k.recvView.Received ack.sn
  sent : ∀ pkt ∈ k.output.sent, ∃ segs, pkt = packet segs ∧ ∀ seg ∈ segs,
    seg.Encodable k.conv ∧ seg.una.toNat ≤ k.rcvNxt.toNat ∧
      (seg.cmd = IKCP_CMD_ACK → k.recvView.Received seg.sn)

private theorem Vouches.gains {k' : Kcp O C} (h : k.Vouches) (hconv : k'.conv = k.conv)
    (hsent : k'.output.sent = k.output.sent) (hgains : k.recvView.Gains k'.recvView)
    (hacks : ∀ ack ∈ k'.acklist, ack ∈ k.acklist ∨ k'.recvView.Received ack.sn) : k'.Vouches := by
  constructor
  · intro ack hack
    rcases hacks ack hack with hold | hnew
    · exact hgains.received ack.sn (h.acks ack hold)
    · exact hnew
  · intro pkt hpkt
    rw [hsent] at hpkt
    obtain ⟨segs, hsegs, hall⟩ := h.sent pkt hpkt
    refine ⟨segs, hsegs, ?_⟩
    intro seg hseg
    obtain ⟨hencodable, huna, hack⟩ := hall seg hseg
    rw [hconv]
    exact ⟨hencodable, huna.trans hgains.nxt, fun hcmd => hgains.received seg.sn (hack hcmd)⟩

private theorem Vouches.flush [Output O] [Clock C] (h : k.Vouches) (hk : k.Sendable)
    (flushType : FlushType) : (k.flush flushType).1.Vouches := by
  obtain ⟨groups, hsent, hflat⟩ := k.flush_groups flushType
  have hwrites := k.flushWrites hk flushType
  have hview := k.recvView_flush flushType
  have hnxt : (k.flush flushType).1.rcvNxt = k.rcvNxt := congrArg RecvView.nxt hview
  obtain ⟨_, _, _, -, -, hcontrol, -⟩ := k.flush_spec flushType
  obtain ⟨new, hacks, -⟩ := hcontrol.acks
  obtain ⟨gone, hgone, -⟩ := hacks.removed
  constructor
  · intro ack hack
    rw [hview]
    apply h.acks ack
    rw [hgone]
    exact List.mem_append_right gone hack
  · intro pkt hpkt
    rw [hview, hnxt, (k.flush_config flushType).1]
    rw [hsent, List.mem_append] at hpkt
    rcases hpkt with hold | hnew
    · exact h.sent pkt hold
    · obtain ⟨group, hgroup, rfl⟩ := List.mem_map.mp hnew
      refine ⟨group, rfl, ?_⟩
      intro seg hseg
      have hmem : seg ∈ written k.flushAckCalls ++ written k.flushProbeCalls ++
          written (k.flushDataCalls flushType) :=
        hflat ▸ List.mem_flatten.mpr ⟨group, hgroup, hseg⟩
      refine ⟨hwrites.encodable seg hmem, ?_⟩
      rw [List.mem_append, List.mem_append] at hmem
      rcases hmem with (hmem | hmem) | hmem
      · have hitem := hwrites.ackItems.subset (List.mem_map_of_mem
          (f := fun s : Segment => (⟨s.sn, s.ts⟩ : AckItem)) hmem)
        refine ⟨?_, fun _ => h.acks _ hitem⟩
        rw [hwrites.ackForm seg hmem]
        exact le_rfl
      · have hcmd := hwrites.probeCmds.subset (List.mem_map_of_mem hmem)
        constructor
        · rw [hwrites.probeForm seg hmem]
          exact le_rfl
        · intro hack
          rw [hack] at hcmd
          exact absurd hcmd (by decide)
      · obtain ⟨hcmd, -, -, huna, -⟩ := hwrites.dataFields seg hmem
        refine ⟨huna ▸ le_rfl, ?_⟩
        intro hack
        rw [hack] at hcmd
        exact absurd hcmd (by decide)

private theorem acklist_inputPush (k : Kcp O C) (h : SegmentHeader) (payload : Bytes) :
    (k.inputPush h payload).acklist =
      if itimediff h.sn (k.rcvNxt + k.rcvWnd) < 0 then k.acklist ++ [⟨h.sn, h.ts⟩]
      else k.acklist := by
  simp only [inputPush, parseData]
  split_ifs <;> rfl

private theorem acklist_inputHeader (k : Kcp O C) (pktType : PacketType) (h : SegmentHeader) :
    (k.inputHeader pktType h).1.acklist = k.acklist := by
  simp only [inputHeader]
  split_ifs <;> rfl

private theorem acklist_inputSegment (k : Kcp O C) (pktType : PacketType) (acc : Parsed)
    (h : SegmentHeader) (payload : Bytes) :
    (k.inputSegment pktType acc h payload).1.acklist =
      if h.cmd = IKCP_CMD_PUSH ∧ itimediff h.sn (k.rcvNxt + k.rcvWnd) < 0 then
        k.acklist ++ [⟨h.sn, h.ts⟩]
      else k.acklist := by
  have hheader := k.acklist_inputHeader pktType h
  have hview := k.recvView_inputHeader pktType h
  have hnxt : (k.inputHeader pktType h).1.rcvNxt = k.rcvNxt := congrArg RecvView.nxt hview
  have hwnd : (k.inputHeader pktType h).1.rcvWnd = k.rcvWnd := congrArg RecvView.wnd hview
  unfold inputSegment
  dsimp only
  by_cases hack : h.cmd = IKCP_CMD_ACK
  · have hpush : h.cmd ≠ IKCP_CMD_PUSH := by
      rw [hack]
      decide
    rw [if_pos hack, if_neg fun hboth => hpush hboth.1]
    unfold parseFastack parseAck
    dsimp only
    repeat' split
    all_goals exact hheader
  · rw [if_neg hack]
    by_cases hpush : h.cmd = IKCP_CMD_PUSH
    · rw [if_pos hpush]
      dsimp only
      rw [acklist_inputPush, hheader, hnxt, hwnd]
      simp only [hpush, true_and]
    · have hnot : ¬ (h.cmd = IKCP_CMD_PUSH ∧ itimediff h.sn (k.rcvNxt + k.rcvWnd) < 0) :=
        fun hboth => hpush hboth.1
      rw [if_neg hpush, if_neg hnot]
      split_ifs <;> exact hheader

/-- What has arrived stays, and whatever is acknowledged has arrived. -/
structure Honours (k : Kcp O C) (limit : ℕ) : Prop where
  below : k.recvView.Below limit
  vouches : k.Vouches

theorem Honours.mono {limit' : ℕ} (h : k.Honours limit) (hle : limit ≤ limit') :
    k.Honours limit' :=
  ⟨⟨h.below.marked, fun sn hsn => (h.below.heap sn hsn).imp_right hle.trans_lt', h.below.nxt.trans hle⟩,
    h.vouches⟩

private theorem Honours.inputSegment (hlimit : limit ≤ 2147483648) (h : k.Honours limit)
    (pktType : PacketType) (acc : Parsed) (header : SegmentHeader) (payload : Bytes)
    (hsn : header.cmd = IKCP_CMD_PUSH → header.sn.toNat < limit) :
    (k.inputSegment pktType acc header payload).1.Honours limit ∧
      k.recvView.Gains (k.inputSegment pktType acc header payload).1.recvView := by
  have hview := k.recvView_inputSegment pktType acc header payload
  have hacklist := k.acklist_inputSegment pktType acc header payload
  have hconv : (k.inputSegment pktType acc header payload).1.conv = k.conv :=
    congrArg OutView.conv (k.acknowledges_inputSegment pktType acc header payload).view
  have hsent : (k.inputSegment pktType acc header payload).1.output.sent = k.output.sent :=
    congrArg OutView.sent (k.acknowledges_inputSegment pktType acc header payload).view
  by_cases hpush : header.cmd = IKCP_CMD_PUSH
  · rw [if_pos hpush] at hview
    have hheader := k.recvView_inputHeader pktType header
    have hnxt : (k.inputHeader pktType header).1.rcvNxt = k.rcvNxt :=
      congrArg RecvView.nxt hheader
    have hwnd : (k.inputHeader pktType header).1.rcvWnd = k.rcvWnd :=
      congrArg RecvView.wnd hheader
    have hbelow : (k.inputHeader pktType header).1.recvView.Below limit := hheader ▸ h.below
    obtain ⟨hgains, hafter, harrived⟩ :=
      gains_inputPush hlimit hbelow header payload (hsn hpush)
    rw [hheader, ← hview] at hgains
    rw [← hview] at hafter harrived
    refine ⟨⟨hafter, h.vouches.gains hconv hsent hgains ?_⟩, hgains⟩
    intro ack hack
    rw [hacklist] at hack
    split_ifs at hack with hin
    · rcases List.mem_append.mp hack with hold | hnew
      · exact .inl hold
      · rw [List.mem_singleton.mp hnew]
        right
        apply harrived
        rw [hnxt, hwnd]
        exact hin.2
    · exact .inl hack
  · rw [if_neg hpush] at hview
    rw [if_neg fun hboth => hpush hboth.1] at hacklist
    have hgains : k.recvView.Gains (k.inputSegment pktType acc header payload).1.recvView := by
      rw [hview]
      exact .refl _
    refine ⟨⟨hview ▸ h.below, h.vouches.gains hconv hsent hgains ?_⟩, hgains⟩
    intro ack hack
    exact .inl (hacklist ▸ hack)

private theorem Honours.absorb (hlimit : limit ≤ 2147483648) (h : k.Honours limit)
    (pktType : PacketType) {pieces : List Piece}
    (hsns : ∀ piece ∈ pieces, piece.1.cmd = IKCP_CMD_PUSH → piece.1.sn.toNat < limit) :
    (k.absorb pktType pieces).Honours limit ∧
      k.recvView.Gains (k.absorb pktType pieces).recvView := by
  induction pieces generalizing k with
  | nil => exact ⟨h, .refl _⟩
  | cons piece pieces ih =>
    obtain ⟨hstep, hgains⟩ := h.inputSegment hlimit pktType {} piece.1 piece.2
      (hsns piece List.mem_cons_self)
    obtain ⟨hrest, hgains'⟩ := ih hstep fun p hp => hsns p (List.mem_cons_of_mem piece hp)
    exact ⟨hrest, hgains.trans hgains'⟩

section Steps

variable [Output O] [Clock C]

private theorem Honours.flush (h : k.Honours limit) (hk : k.Sendable) (flushType : FlushType) :
    (k.flush flushType).1.Honours limit :=
  ⟨k.recvView_flush flushType ▸ h.below, h.vouches.flush hk flushType⟩

theorem Honours.input (hlimit : limit ≤ 2147483648) (h : k.Honours limit) (hk : k.Sendable)
    {data : Bytes} {pieces : List Piece} {code : Int} (hreads : Reads k.conv data pieces code)
    (hsns : ∀ piece ∈ pieces, piece.1.cmd = IKCP_CMD_PUSH → piece.1.sn.toNat < limit)
    (pktType : PacketType) (ackNoDelay : Bool) :
    (k.input data pktType ackNoDelay).1.Honours limit ∧
      k.recvView.Gains (k.input data pktType ackNoDelay).1.recvView := by
  obtain ⟨habsorb, hgains⟩ := h.absorb hlimit pktType hsns
  obtain ⟨_, _, _, _, _, _, hparse⟩ := k.inputParse_absorb hreads pktType
  have hparsed : (k.inputParse data pktType).1.Honours limit ∧
      k.recvView.Gains (k.inputParse data pktType).1.recvView := by
    rw [hparse]
    exact ⟨⟨habsorb.below, habsorb.vouches.gains rfl rfl (.refl _) fun ack hack => .inl hack⟩,
      hgains⟩
  rcases k.input_cases data pktType ackNoDelay with heq | ⟨flushType, heq⟩
  · rw [heq]
    exact hparsed
  · rw [heq, recvView_flush]
    exact ⟨hparsed.1.flush (hk.inputParse data pktType) flushType, hparsed.2⟩

omit [Output O] [Clock C] in
private theorem Honours.recv (hlimit : limit ≤ 2147483648) (h : k.Honours limit) (buflen : ℕ) :
    (k.recv buflen).1.Honours limit ∧ k.recvView.Gains (k.recv buflen).1.recvView := by
  have hframe : (k.recv buflen).1.conv = k.conv ∧
      (k.recv buflen).1.output.sent = k.output.sent ∧
      (k.recv buflen).1.acklist = k.acklist := by
    obtain ⟨_, _, _, _, heq⟩ := k.recv_frame buflen
    rw [heq]
    exact ⟨rfl, rfl, rfl⟩
  have hview : k.recvView.Gains (k.recv buflen).1.recvView ∧
      (k.recv buflen).1.recvView.Below limit := by
    rcases k.recv_cases buflen with ⟨-, heq⟩ | ⟨-, -, -, heq⟩
    · rw [heq]
      exact ⟨.refl _, h.below⟩
    · have hpopped : (recvView { k with
          rcvQueue := k.rcvQueue.setItems (popRun k.rcvQueue.items).2 }).Below limit :=
        ⟨h.below.marked, h.below.heap, h.below.nxt⟩
      obtain ⟨hgains, hafter⟩ := gains_moveReady (by omega) hpopped
      rw [heq]
      exact ⟨⟨hgains.received, hgains.nxt⟩, hafter⟩
  refine ⟨⟨hview.2, h.vouches.gains hframe.1 hframe.2.1 hview.1 ?_⟩, hview.1⟩
  intro ack hack
  exact .inl (hframe.2.2 ▸ hack)

theorem Honours.local (hlimit : limit ≤ 2147483648) (h : k.Honours limit) (hk : k.Sendable)
    {op : Op} (hop : op.Local) : (k.step op).1.Honours limit ∧
      k.recvView.Gains (k.step op).1.recvView := by
  have hkeep : ∀ {k' : Kcp O C}, k'.recvView.buf = k.recvView.buf → k'.rcvNxt = k.rcvNxt →
      k'.conv = k.conv → k'.output.sent = k.output.sent → k'.acklist = k.acklist →
      k'.Honours limit ∧ k.recvView.Gains k'.recvView := by
    intro k' hbuf hnxt hconv hsent hacks
    have hgains : k.recvView.Gains k'.recvView := by
      refine ⟨?_, le_of_eq (congrArg UInt32.toNat hnxt.symm)⟩
      intro sn hsn
      unfold RecvView.Received at hsn ⊢
      rw [hbuf]
      change sn.toNat < k'.rcvNxt.toNat ∨ _
      rw [hnxt]
      exact hsn
    have hbelow : k'.recvView.Below limit := by
      constructor
      · exact hbuf ▸ h.below.marked
      · change ∀ sn ∈ k'.recvView.buf.sns, k'.rcvNxt.toNat ≤ sn.toNat ∧ sn.toNat < limit
        rw [hbuf, hnxt]
        exact h.below.heap
      · change k'.rcvNxt.toNat ≤ limit
        rw [hnxt]
        exact h.below.nxt
    exact ⟨⟨hbelow, h.vouches.gains hconv hsent hgains fun ack hack => .inl (hacks ▸ hack)⟩,
      hgains⟩
  cases op with
  | send buffer =>
    obtain ⟨_, heq⟩ := k.send_frame buffer
    rw [step, heq]
    exact hkeep rfl rfl rfl rfl rfl
  | recv buflen => exact h.recv hlimit buflen
  | input data pktType ackNoDelay => exact hop.elim
  | flush flushType =>
    refine ⟨h.flush hk flushType, ?_⟩
    show k.recvView.Gains (k.flush flushType).1.recvView
    rw [recvView_flush]
    exact .refl _
  | update =>
    obtain ⟨_, _, _, htimer⟩ := k.updateTimer_frame
    have hstart : k.updateTimer.1.Honours limit ∧ k.updateTimer.1.Sendable ∧
        k.updateTimer.1.recvView = k.recvView := by
      rw [htimer]
      exact ⟨⟨h.below, h.vouches.gains rfl rfl (.refl _) fun ack hack => .inl hack⟩,
        hk.of_eq rfl rfl rfl, rfl⟩
    simp only [step, update]
    split_ifs
    · rw [recvView_flush, hstart.2.2]
      exact ⟨hstart.1.flush hstart.2.1 .full, .refl _⟩
    · rw [hstart.2.2]
      exact ⟨hstart.1, .refl _⟩
  | nodelay nodelay interval resend nc =>
    obtain ⟨_, _, _, _, _, heq⟩ := k.setNodelay_frame nodelay interval resend nc
    rw [step, heq]
    exact hkeep rfl rfl rfl rfl rfl
  | setMtu mtu =>
    obtain ⟨_, _, heq⟩ := k.setMtu_frame mtu
    rw [step, heq]
    exact hkeep rfl rfl rfl rfl rfl
  | wndSize sndwnd rcvwnd =>
    obtain ⟨_, _, heq⟩ := k.wndSize_frame sndwnd rcvwnd
    rw [step, heq]
    exact hkeep rfl rfl rfl rfl rfl
  | setStream stream => exact hop.elim
  | shrinkIdleBuffers heapReleased ackReleased =>
    simp only [step, shrinkIdleBuffers]
    split_ifs <;> exact hkeep rfl rfl rfl rfl rfl

end Steps

end Kcp

end Receiver

theorem sn_lt_of_genuine {log : List Entry} {conv : UInt32} {segs : List Segment}
    (hsegs : ∀ seg ∈ segs, Genuine log conv seg) {pieces : List Piece} {code : Int}
    (hreads : Reads conv (packet segs) pieces code) :
    ∀ piece ∈ pieces, piece.1.cmd = IKCP_CMD_PUSH → piece.1.sn.toNat < log.length := by
  induction segs generalizing pieces with
  | nil =>
    have hnil := (hreads.unique (.done (by decide))).1
    rw [hnil]
    intro piece hpiece
    cases hpiece
  | cons seg rest ih =>
    obtain ⟨hconv, hlen, hpush⟩ := hsegs seg List.mem_cons_self
    have hpacket : packet (seg :: rest) = seg.encode ++ (seg.data ++ packet rest) := by
      simp [packet, Segment.wire]
    have hlen' : seg.header.len.toNat = seg.data.length := by
      simp only [Segment.header, UInt32.toNat_ofNat']
      omega
    have hdecode := decode_encode seg (seg.data ++ packet rest)
    rw [← hpacket] at hdecode
    cases hreads with
    | segment hdecode' _ hpayload _ hrest =>
      rw [hdecode] at hdecode'
      injection hdecode' with hpair
      injection hpair with hheader htail
      subst hheader
      obtain ⟨rfl, rfl⟩ := List.append_inj htail (hlen'.symm.trans hpayload.symm)
      intro piece hpiece hcmd
      rcases List.mem_cons.mp hpiece with rfl | hpiece
      · obtain ⟨hlt, -⟩ := List.getElem?_eq_some_iff.mp (hpush hcmd)
        exact hlt
      · exact ih (fun s hs => hsegs s (List.mem_cons_of_mem seg hs)) hrest piece hpiece hcmd
    | _ =>
      intro piece hpiece
      cases hpiece

end Kcptun.Arq
