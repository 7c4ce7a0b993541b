/- Kcptun/Arq/Inbound
   source: crates/kcp/src/kcp.rs (input, parse_data, recv)
   digest: The receiving half: fed with genuine packets in any order and any number of times, the
     receive queue is always the next stretch of the sender's log. -/

import Kcptun.Arq.Outbound
import Kcptun.Arq.ReceiveWindow

set_option autoImplicit false
set_option relaxedAutoImplicit false

namespace Kcptun.Arq

open Kcptun.Lib Kcptun.Lib.LittleEndian

/-- The receiving half agrees with the sender's log: `c` entries were consumed, the queue holds the
ones from `c` up to `n`, and the heap holds later ones. -/
structure RecvView.Inbound (v : RecvView) (log : List Entry) (c n : ℕ) : Prop where
  nxt : v.nxt = UInt32.ofNat n
  consumed : c ≤ n
  known : n ≤ log.length
  heap : ∀ seg ∈ v.buf.segments, Matches log seg
  queue : v.queue.map Segment.entry = (log.take n).drop c

theorem RecvView.Inbound.mono {v : RecvView} {log log' : List Entry} {c n : ℕ}
    (h : v.Inbound log c n) (hpre : log <+: log') : v.Inbound log' c n := by
  refine ⟨h.nxt, h.consumed, h.known.trans hpre.length_le, fun seg hseg => (h.heap seg hseg).mono hpre,
    ?_⟩
  obtain ⟨rest, rfl⟩ := hpre
  rw [List.take_append_of_le_length h.known]
  exact h.queue

private theorem stretch_succ {log : List Entry} {c n : ℕ} (hc : c ≤ n) {e : Entry}
    (he : log[n]? = some e) : (log.take (n + 1)).drop c = (log.take n).drop c ++ [e] := by
  obtain ⟨hlt, hget⟩ := List.getElem?_eq_some_iff.mp he
  rw [List.take_succ_eq_append_getElem hlt, hget, List.drop_append_of_le_length]
  rw [List.length_take]
  omega

private theorem inbound_drain {log : List Entry} (hlog : log.length < 4294967296) (wnd : UInt32)
    {c : ℕ}
    (fuel n : ℕ) (r : Ready) (h : RecvView.Inbound ⟨r.buf, r.queue.items, r.nxt, wnd⟩ log c n) :
    ∃ n', n ≤ n' ∧ RecvView.Inbound ⟨(drain wnd fuel r).buf, (drain wnd fuel r).queue.items,
      (drain wnd fuel r).nxt, wnd⟩ log c n' := by
  induction fuel generalizing r n with
  | zero => exact ⟨n, le_rfl, h⟩
  | succ fuel ih =>
    simp only [drain]
    split
    · exact ⟨n, le_rfl, h⟩
    · rename_i seg buf hpop
      have hmem := SegmentHeap.mem_of_pop hpop
      have hseg : Matches log seg := h.heap seg ((hmem seg).mpr (.inr rfl))
      have hrest : ∀ s ∈ buf.segments, Matches log s := fun s hs =>
        h.heap s ((hmem s).mpr (.inl hs))
      split_ifs with hready
      · have hnxt : r.nxt = UInt32.ofNat n := h.nxt
        have hn : seg.sn.toNat = n := by
          have := h.known
          rw [hready.1, hnxt, UInt32.toNat_ofNat']
          omega
        rw [Matches, hn] at hseg
        obtain ⟨hlt, -⟩ := List.getElem?_eq_some_iff.mp hseg
        have hc := h.consumed
        obtain ⟨n', hle, hin⟩ := ih (n + 1) ⟨buf, r.queue.push seg, r.nxt + 1⟩
          ⟨by simp only [hnxt]; rw [UInt32.ofNat_add]; rfl, by omega, hlt, hrest, by
            rw [Fifo.items_push, List.map_append, stretch_succ hc hseg]
            exact congrArg (· ++ [seg.entry]) h.queue⟩
        exact ⟨n', by omega, hin⟩
      · refine ⟨n, le_rfl, h.nxt, h.consumed, h.known, ?_, h.queue⟩
        intro s hs
        rcases SegmentHeap.mem_push.mp hs with hs | rfl
        · exact hrest s hs
        · exact hseg

namespace Kcp

variable {O C : Type} {log : List Entry} {c n : ℕ}

theorem inbound_moveReady {k : Kcp O C} (hlog : log.length < 4294967296)
    (h : k.recvView.Inbound log c n) : ∃ n', n ≤ n' ∧ k.moveReady.recvView.Inbound log c n' :=
  inbound_drain hlog k.rcvWnd _ n ⟨k.rcvBuf, k.rcvQueue, k.rcvNxt⟩ h

private theorem inbound_inputPush {k : Kcp O C} (hlog : log.length < 4294967296)
    (h : k.recvView.Inbound log c n) (seg : Segment) (hseg : Matches log seg) :
    ∃ n', n ≤ n' ∧ (k.inputPush seg.header seg.data).recvView.Inbound log c n' := by
  simp only [inputPush, parseData]
  split_ifs
  · exact ⟨n, le_rfl, h⟩
  · exact inbound_moveReady hlog h
  · refine inbound_moveReady hlog ⟨h.nxt, h.consumed, h.known, ?_, h.queue⟩
    intro s hs
    rcases SegmentHeap.mem_push.mp hs with hs | rfl
    · exact h.heap s hs
    · exact hseg
  · exact ⟨n, le_rfl, h⟩
  · exact ⟨n, le_rfl, h⟩

private theorem inbound_inputSegment {k : Kcp O C} (hlog : log.length < 4294967296)
    (h : k.recvView.Inbound log c n) (pktType : PacketType) (acc : Parsed) (seg : Segment)
    (hseg : seg.cmd = IKCP_CMD_PUSH → Matches log seg) :
    ∃ n', n ≤ n' ∧
      (k.inputSegment pktType acc seg.header seg.data).1.recvView.Inbound log c n' := by
  rw [recvView_inputSegment]
  split_ifs with hcmd
  · have hheader : (k.inputHeader pktType seg.header).1.recvView.Inbound log c n := by
      rwa [recvView_inputHeader]
    exact inbound_inputPush hlog hheader seg (hseg hcmd)
  · exact ⟨n, le_rfl, h⟩

private theorem inbound_inputLoop {k : Kcp O C} (hlog : log.length < 4294967296)
    (h : k.recvView.Inbound log c n) (pktType : PacketType) (acc : Parsed) (segs : List Segment)
    (hsegs : ∀ seg ∈ segs, Genuine log k.conv seg) (fuel : ℕ) :
    ∃ n', n ≤ n' ∧
      (inputLoop pktType fuel k acc (packet segs)).1.recvView.Inbound log c n' := by
  induction fuel generalizing k acc segs n with
  | zero => exact ⟨n, le_rfl, h⟩
  | succ fuel ih =>
    cases segs with
    | nil => exact ⟨n, le_rfl, h⟩
    | cons seg rest =>
      obtain ⟨hconv, hlen, hpush⟩ := hsegs seg List.mem_cons_self
      have hpacket : packet (seg :: rest) = seg.encode ++ (seg.data ++ packet rest) := by
        simp [packet, Segment.wire]
      have hlen' : seg.header.len.toNat = seg.data.length := by
        simp only [Segment.header, UInt32.toNat_ofNat']
        omega
      simp only [inputLoop, hpacket, decode_encode]
      split_ifs
      · exact ⟨n, le_rfl, h⟩
      · exact ⟨n, le_rfl, h⟩
      · exact ⟨n, le_rfl, h⟩
      · rw [hlen', List.take_left, List.drop_left]
        obtain ⟨n₁, hle₁, h₁⟩ := inbound_inputSegment hlog h pktType acc seg hpush
        have hkeep : (k.inputSegment pktType acc seg.header seg.data).1.conv = k.conv :=
          congrArg OutView.conv (k.acknowledges_inputSegment pktType acc seg.header seg.data).view
        obtain ⟨n₂, hle₂, h₂⟩ := ih h₁ _ rest fun s hs => by
          rw [hkeep]
          exact hsegs s (List.mem_cons_of_mem _ hs)
        exact ⟨n₂, hle₁.trans hle₂, h₂⟩

theorem inbound_input [Output O] [Clock C] {k : Kcp O C} (hlog : log.length < 4294967296)
    (h : k.recvView.Inbound log c n) (segs : List Segment)
    (hsegs : ∀ seg ∈ segs, Genuine log k.conv seg) (pktType : PacketType) (ackNoDelay : Bool) :
    ∃ n', n ≤ n' ∧ (k.input (packet segs) pktType ackNoDelay).1.recvView.Inbound log c n' := by
  have hparse : ∃ n', n ≤ n' ∧
      (k.inputParse (packet segs) pktType).1.recvView.Inbound log c n' := by
    obtain ⟨n', hle, hloop⟩ := inbound_inputLoop hlog h pktType {} segs hsegs (packet segs).length
    simp only [inputParse]
    split_ifs
    · exact ⟨n, le_rfl, h⟩
    · refine ⟨n', hle, ?_⟩
      split
      · rename_i heq
        rwa [heq] at hloop
      · rename_i heq
        rw [heq] at hloop
        simpa using hloop
  obtain heq | ⟨flushType, heq⟩ := k.input_cases (packet segs) pktType ackNoDelay
  · rwa [heq]
  · rw [heq, recvView_flush]
    exact hparse

end Kcp

end Kcptun.Arq
