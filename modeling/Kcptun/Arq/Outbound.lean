/- Kcptun/Arq/Outbound
   source: crates/kcp/src/kcp.rs (send, flush, input)
   digest: The sending half: one log of numbered segments explains the send buffer and every packet
     ever handed to the output, whatever the peer acknowledges. -/

import Kcptun.Arq.Packets
import Kcptun.Arq.SendWindow

set_option autoImplicit false
set_option relaxedAutoImplicit false

namespace Kcptun.Arq

open Kcptun.Lib Kcptun.Lib.LittleEndian

/-- What a number stands for on the wire: the fragment count and the payload. -/
abbrev Entry := UInt8 × Bytes

def Segment.entry (seg : Segment) : Entry := (seg.frg, seg.data)

def Matches (log : List Entry) (seg : Segment) : Prop := log[seg.sn.toNat]? = some seg.entry

theorem Matches.mono {log log' : List Entry} (h : log <+: log') {seg : Segment}
    (hm : Matches log seg) : Matches log' seg := by
  obtain ⟨rest, rfl⟩ := h
  obtain ⟨hlt, -⟩ := List.getElem?_eq_some_iff.mp hm
  rw [Matches, List.getElem?_append_left hlt]
  exact hm

structure Genuine (log : List Entry) (conv : UInt32) (seg : Segment) : Prop where
  conv : seg.conv = conv
  length : seg.data.length < 4294967296
  push : seg.cmd = IKCP_CMD_PUSH → Matches log seg

private theorem Genuine.mono {log log' : List Entry} (h : log <+: log') {conv : UInt32}
    {seg : Segment} (hg : Genuine log conv seg) : Genuine log' conv seg :=
  ⟨hg.conv, hg.length, fun hcmd => (hg.push hcmd).mono h⟩

/-- The sending half of a connection agrees with a log of everything it has numbered. -/
structure Kcp.Outbound {O C : Type} (k : Kcp O C) (log : List Entry) : Prop where
  nxt : k.sndNxt = UInt32.ofNat log.length
  window : k.sendView.Ok
  short : ∀ e ∈ log ++ k.sndQueue.items.map Segment.entry, e.2.length < 4294967296
  buf : ∀ seg ∈ k.sndBuf.items, seg.acked = false → Matches log seg ∧ seg.conv = k.conv
  sent : ∀ pkt ∈ k.output.sent, ∃ segs, pkt = packet segs ∧ ∀ seg ∈ segs, Genuine log k.conv seg

/-- What of the sending half only `send`, `flush` and the setters change. -/
structure OutView where
  nxt : UInt32
  conv : UInt32
  queue : List Segment
  sent : List Bytes
  mss : UInt32
  stream : Int32

def Kcp.outView {O C : Type} (k : Kcp O C) : OutView where
  nxt := k.sndNxt
  conv := k.conv
  queue := k.sndQueue.items
  sent := k.output.sent
  mss := k.mss
  stream := k.stream

/-- An operation that only acknowledges: what stays unacknowledged in the buffer is unchanged in
number and content. -/
structure Kcp.Acknowledges {O C : Type} (k k' : Kcp O C) : Prop where
  view : k'.outView = k.outView
  buf : ∀ seg' ∈ k'.sndBuf.items, seg'.acked = false → ∃ seg ∈ k.sndBuf.items,
    seg.acked = false ∧ seg'.sn = seg.sn ∧ seg'.entry = seg.entry ∧ seg'.conv = seg.conv

namespace Kcp

variable {O C : Type}

theorem Acknowledges.of_eq {k k' : Kcp O C} (hview : k'.outView = k.outView)
    (hbuf : k'.sndBuf.items = k.sndBuf.items) : k.Acknowledges k' :=
  ⟨hview, fun seg hseg ha => ⟨seg, hbuf ▸ hseg, ha, rfl, rfl, rfl⟩⟩

private theorem Acknowledges.trans {k k' k'' : Kcp O C} (h : k.Acknowledges k')
    (h' : k'.Acknowledges k'') : k.Acknowledges k'' := by
  refine ⟨h'.view.trans h.view, ?_⟩
  intro seg'' hseg'' ha''
  obtain ⟨seg', hseg', ha', hsn', he', hc'⟩ := h'.buf seg'' hseg'' ha''
  obtain ⟨seg, hseg, ha, hsn, he, hc⟩ := h.buf seg' hseg' ha'
  exact ⟨seg, hseg, ha, hsn'.trans hsn, he'.trans he, hc'.trans hc⟩

theorem items_inputHeader (k : Kcp O C) (pktType : PacketType) (h : SegmentHeader) :
    (k.inputHeader pktType h).1.sndBuf.items = k.sndBuf.items.drop (k.coveredBy h.una) := by
  simp only [inputHeader]
  split_ifs <;> rfl

theorem acknowledges_inputHeader (k : Kcp O C) (pktType : PacketType) (h : SegmentHeader) :
    k.Acknowledges (k.inputHeader pktType h).1 := by
  constructor
  · simp only [inputHeader]
    split_ifs <;> rfl
  · intro seg' hseg' ha
    rw [items_inputHeader] at hseg'
    exact ⟨seg', List.mem_of_mem_drop hseg', ha, rfl, rfl, rfl⟩

private theorem acknowledges_parseAck (k : Kcp O C) (sn : UInt32) :
    k.Acknowledges (k.parseAck sn) := by
  simp only [parseAck]
  split
  · exact .of_eq rfl rfl
  · split
    · exact .of_eq rfl rfl
    · rename_i offset _
      refine ⟨rfl, ?_⟩
      intro seg' hseg' ha
      obtain ⟨i, hi, hget⟩ := List.getElem_of_mem hseg'
      simp only [Fifo.items_setItems] at hi hget
      rw [List.getElem_modify] at hget
      split_ifs at hget
      · rw [← hget] at ha
        cases ha
      · exact ⟨seg', hget ▸ List.getElem_mem _, ha, rfl, rfl, rfl⟩

private theorem bumpFastack_fst (ts fastresend : UInt32) (seg : Segment) :
    (bumpFastack ts fastresend seg).1 =
      { seg with fastack := (bumpFastack ts fastresend seg).1.fastack } := by
  simp only [bumpFastack]
  split <;> rfl

private theorem mem_bumpAll {ts fastresend : UInt32} {items : List Segment} {seg' : Segment}
    (h : seg' ∈ (bumpAll ts fastresend items).1) :
    ∃ seg ∈ items, seg' = { seg with fastack := seg'.fastack } := by
  induction items with
  | nil => cases h
  | cons seg rest ih =>
    rcases List.mem_cons.mp h with rfl | h
    · exact ⟨seg, List.mem_cons_self, bumpFastack_fst ts fastresend seg⟩
    · obtain ⟨s, hs, heq⟩ := ih h
      exact ⟨s, List.mem_cons_of_mem _ hs, heq⟩

private theorem mem_bumpScan {sn ts fastresend : UInt32} {items : List Segment} {seg' : Segment}
    (h : seg' ∈ (bumpScan sn ts fastresend items).1) :
    ∃ seg ∈ items, seg' = { seg with fastack := seg'.fastack } := by
  induction items with
  | nil => cases h
  | cons seg rest ih =>
    simp only [bumpScan] at h
    split_ifs at h
    · exact ⟨seg', h, rfl⟩
    · rcases List.mem_cons.mp h with rfl | h
      · exact ⟨seg, List.mem_cons_self, bumpFastack_fst ts fastresend seg⟩
      · obtain ⟨s, hs, heq⟩ := ih h
        exact ⟨s, List.mem_cons_of_mem _ hs, heq⟩
    · rcases List.mem_cons.mp h with rfl | h
      · exact ⟨_, List.mem_cons_self, rfl⟩
      · obtain ⟨s, hs, heq⟩ := ih h
        exact ⟨s, List.mem_cons_of_mem _ hs, heq⟩

theorem mem_parseFastack {k : Kcp O C} {sn ts : UInt32} {seg' : Segment}
    (hseg' : seg' ∈ (k.parseFastack sn ts).1.sndBuf.items) :
    ∃ seg ∈ k.sndBuf.items, seg' = { seg with fastack := seg'.fastack } := by
  simp only [parseFastack] at hseg'
  split at hseg'
  · exact ⟨seg', hseg', rfl⟩
  · split at hseg'
    · simp only [Fifo.items_setItems, List.mem_append] at hseg'
      rcases hseg' with h | h
      · obtain ⟨seg, hseg, heq⟩ := mem_bumpAll h
        exact ⟨seg, List.mem_of_mem_take hseg, heq⟩
      · exact ⟨seg', List.mem_of_mem_drop h, rfl⟩
    · exact mem_bumpScan hseg'

theorem acknowledges_parseFastack (k : Kcp O C) (sn ts : UInt32) :
    k.Acknowledges (k.parseFastack sn ts).1 := by
  constructor
  · simp only [parseFastack]
    split <;> rfl
  · intro seg' hseg' ha
    obtain ⟨seg, hseg, heq⟩ := mem_parseFastack hseg'
    refine ⟨seg, hseg, ?_, by rw [heq], by rw [heq]; rfl, by rw [heq]⟩
    rw [heq] at ha
    exact ha

private theorem acknowledges_inputPush (k : Kcp O C) (h : SegmentHeader) (payload : Bytes) :
    k.Acknowledges (k.inputPush h payload) := by
  simp only [inputPush, parseData]
  split_ifs <;> exact .of_eq rfl rfl

theorem acknowledges_inputSegment (k : Kcp O C) (pktType : PacketType) (acc : Parsed)
    (h : SegmentHeader) (payload : Bytes) :
    k.Acknowledges (k.inputSegment pktType acc h payload).1 := by
  have hheader := k.acknowledges_inputHeader pktType h
  simp only [inputSegment]
  split_ifs
  · exact (hheader.trans (acknowledges_parseAck _ h.sn)).trans (acknowledges_parseFastack _ h.sn h.ts)
  · exact hheader.trans (acknowledges_inputPush _ h payload)
  · exact hheader.trans (.of_eq rfl rfl)
  · exact hheader

private theorem acknowledges_inputLoop (k : Kcp O C) (pktType : PacketType) (acc : Parsed)
    (data : Bytes) (fuel : ℕ) : k.Acknowledges (inputLoop pktType fuel k acc data).1 := by
  induction fuel generalizing k acc data with
  | zero => exact .of_eq rfl rfl
  | succ fuel ih =>
    simp only [inputLoop]
    split
    · exact .of_eq rfl rfl
    · split_ifs
      · exact .of_eq rfl rfl
      · exact .of_eq rfl rfl
      · exact .of_eq rfl rfl
      · exact (k.acknowledges_inputSegment pktType acc _ _).trans (ih _ _ _)

theorem acknowledges_inputParse [Clock C] (k : Kcp O C) (data : Bytes) (pktType : PacketType) :
    k.Acknowledges (k.inputParse data pktType).1 := by
  have hloop := k.acknowledges_inputLoop pktType {} data data.length
  simp only [inputParse]
  split_ifs
  · exact .of_eq rfl rfl
  · split
    · rename_i heq
      rwa [heq] at hloop
    · rename_i k' acc heq
      rw [heq] at hloop
      have hrtt : k'.Acknowledges (k'.inputRtt pktType acc) := by
        simp only [inputRtt]
        split_ifs <;> exact .of_eq rfl rfl
      have hcwnd : (k'.inputRtt pktType acc).Acknowledges
          ((k'.inputRtt pktType acc).inputCwnd k.sndUna) := by
        simp only [inputCwnd]
        split_ifs <;> exact .of_eq rfl rfl
      exact (hloop.trans hrtt).trans hcwnd

theorem Outbound.acknowledges {k k' : Kcp O C} {log : List Entry} (h : k.Outbound log)
    (hack : k.Acknowledges k') (hok : k'.sendView.Ok) : k'.Outbound log := by
  obtain ⟨hview, hbuf⟩ := hack
  simp only [outView, OutView.mk.injEq] at hview
  obtain ⟨hnxt, hconv, hqueue, hsent, -, -⟩ := hview
  refine ⟨hnxt.trans h.nxt, hok, hqueue ▸ h.short, ?_, ?_⟩
  · intro seg' hseg' ha'
    obtain ⟨seg, hseg, ha, hsn, he, hc⟩ := hbuf seg' hseg' ha'
    obtain ⟨hm, hconv'⟩ := h.buf seg hseg ha
    refine ⟨?_, by rw [hc, hconv', hconv]⟩
    rw [Matches, hsn, he]
    exact hm
  · rw [hsent, hconv]
    exact h.sent

private theorem matches_number {log : List Entry} {conv : UInt32} {items : List Segment}
    (hlen : log.length + items.length ≤ 4294967296) {seg : Segment}
    (h : seg ∈ number conv (UInt32.ofNat log.length) items) :
    Matches (log ++ items.map Segment.entry) seg ∧ seg.conv = conv := by
  obtain ⟨i, hi, hget⟩ := List.getElem_of_mem h
  have hnum := getElem?_number conv (UInt32.ofNat log.length) items i
  rw [List.getElem?_eq_getElem hi, hget] at hnum
  rw [length_number] at hi
  rw [List.getElem?_eq_getElem hi, Option.map_some, Option.some.injEq] at hnum
  have hsn : seg.sn.toNat = log.length + i := by
    rw [hnum, ← UInt32.ofNat_add, UInt32.toNat_ofNat']
    omega
  refine ⟨?_, by rw [hnum]⟩
  rw [Matches, hsn, List.getElem?_append_right (by omega), Nat.add_sub_cancel_left,
    List.getElem?_map, List.getElem?_eq_getElem hi, hnum]
  rfl

section Flush

variable [Output O] [Clock C]

theorem flush_config (k : Kcp O C) (flushType : FlushType) :
    (k.flush flushType).1.conv = k.conv ∧ (k.flush flushType).1.mss = k.mss ∧
      (k.flush flushType).1.stream = k.stream := by
  obtain ⟨acklist, clock, tsProbe, probeWait, probe, hframe⟩ := k.flushControl_eq
  have hconfig : k.flushControl.1.admitSegments.1.conv = k.conv ∧
      k.flushControl.1.admitSegments.1.mss = k.mss ∧
      k.flushControl.1.admitSegments.1.stream = k.stream := by
    rw [hframe]
    exact ⟨rfl, rfl, rfl⟩
  cases flushType with
  | ackOnly =>
    obtain ⟨ssthresh, cwnd, incr, h⟩ := k.flush_ackOnly
    rw [h]
    exact hconfig
  | full =>
    obtain ⟨ssthresh, cwnd, incr, h⟩ := k.flush_full
    rw [h]
    exact hconfig

omit [Output O] [Clock C] in
private theorem count_admitted {k k' : Kcp O C} (hok : k'.sendView.Ok) {una : UInt32} {n : ℕ}
    {new : List Segment} (hn : n ≤ k.sndQueue.length) (hnxt : k'.sndNxt = k.sndNxt + UInt32.ofNat n)
    (hout : List.Forall₂ (Scan.Outcome una new)
      (k.sndBuf.items ++ number k.conv k.sndNxt (k.sndQueue.items.take n)) k'.sndBuf.items) :
    (k'.sndNxt - k.sndNxt).toNat = n := by
  have hlen := hout.length_eq
  have hwindow := hok.length
  simp only [sendView, List.length_map] at hwindow
  rw [List.length_append, length_number, List.length_take] at hlen
  rw [Fifo.length] at hn
  rw [hnxt, UInt32.add_comm, UInt32.add_sub_cancel, UInt32.toNat_ofNat']
  omega

/-- A flush moves the front of the queue to the end of the log, and everything it hands to the
output is genuine. -/
theorem Outbound.flush {k : Kcp O C} {log : List Entry} (h : k.Outbound log)
    (flushType : FlushType)
    (hnum : log.length + ((k.flush flushType).1.sndNxt - k.sndNxt).toNat < 4294967296) :
    ∃ n, ((k.flush flushType).1.sndNxt - k.sndNxt).toNat = n ∧ n ≤ k.sndQueue.length ∧
      (k.flush flushType).1.sndQueue.items = k.sndQueue.items.drop n ∧
      (k.flush flushType).1.Outbound (log ++ (k.sndQueue.items.take n).map Segment.entry) := by
  obtain ⟨groups, control, data, hsent, hflat, hcontrol, hbuffer⟩ := k.flush_spec flushType
  obtain ⟨n, hn, hqueue, hnxt, hout⟩ := hbuffer.admitted
  have hok := k.ok_flush h.window flushType
  have hcount := count_admitted hok hn hnxt hout
  obtain ⟨hconv, -, -⟩ := k.flush_config flushType
  generalize (k.flush flushType).1 = k' at *
  rw [hcount] at hnum
  have hlen : (k.sndQueue.items.take n).length = n := List.length_take_of_le hn
  set new := (k.sndQueue.items.take n).map Segment.entry with hnew
  have hpre : log <+: log ++ new := List.prefix_append log new
  have hshort : ∀ e ∈ log ++ new ++ k'.sndQueue.items.map Segment.entry,
      e.2.length < 4294967296 := by
    rw [hqueue, hnew, List.append_assoc, ← List.map_append, List.take_append_drop]
    exact h.short
  -- what an outcome of the segment loop carries is what the segment carried before
  have hbuf : ∀ seg ∈ k'.sndBuf.items, seg.acked = false →
      Matches (log ++ new) seg ∧ seg.conv = k.conv := by
    intro seg hseg ha
    obtain ⟨i, hi, hget⟩ := List.getElem_of_mem hseg
    have hi' := hout.length_eq ▸ hi
    have hrel := hout.get hi' hi
    rw [List.get_eq_getElem, List.get_eq_getElem, hget] at hrel
    have hold : ∀ old ∈ k.sndBuf.items ++ number k.conv k.sndNxt (k.sndQueue.items.take n),
        old.acked = false → Matches (log ++ new) old ∧ old.conv = k.conv := by
      intro old hmem hacked
      rcases List.mem_append.mp hmem with hmem | hmem
      · obtain ⟨hm, hc⟩ := h.buf old hmem hacked
        exact ⟨hm.mono hpre, hc⟩
      · rw [h.nxt] at hmem
        exact matches_number (by omega) hmem
    rcases hrel with heq | ⟨-, hretimed, hacked, -⟩
    · exact hold seg (heq ▸ List.getElem_mem hi') ha
    · obtain ⟨hm, hc⟩ := hold _ (List.getElem_mem hi') hacked
      rw [hretimed]
      exact ⟨hm, hc⟩
  refine ⟨n, hcount, hn, hqueue, ?_, hok, hshort, ?_, ?_⟩
  · rw [hnxt, h.nxt, List.length_append, List.length_map, hlen, UInt32.ofNat_add]
  · intro seg hseg ha
    obtain ⟨hm, hc⟩ := hbuf seg hseg ha
    exact ⟨hm, hc.trans hconv.symm⟩
  · intro pkt hpkt
    rw [hsent, List.mem_append] at hpkt
    rw [hconv]
    rcases hpkt with hpkt | hpkt
    · obtain ⟨segs, hsegs, hgen⟩ := h.sent pkt hpkt
      exact ⟨segs, hsegs, fun seg hseg => (hgen seg hseg).mono hpre⟩
    · obtain ⟨group, hgroup, rfl⟩ := List.mem_map.mp hpkt
      refine ⟨group, rfl, ?_⟩
      intro seg hseg
      have hmem : seg ∈ control ++ data := hflat ▸ List.mem_flatten.mpr ⟨group, hgroup, hseg⟩
      rcases List.mem_append.mp hmem with hmem | hmem
      · obtain ⟨hcmd, hc, -, hdata⟩ := hcontrol.control seg hmem
        refine ⟨hc, by simp [hdata], ?_⟩
        intro hpush
        rw [hpush] at hcmd
        exact absurd hcmd (by decide)
      · obtain ⟨hstored, hacked⟩ := hbuffer.stored seg hmem
        obtain ⟨hm, hc⟩ := hbuf seg hstored hacked
        refine ⟨hc, ?_, fun _ => hm⟩
        have hentry := List.mem_of_getElem? hm
        exact hshort seg.entry (List.mem_append_left _ hentry)

end Flush

end Kcp

end Kcptun.Arq
