/- Kcptun/Arq/Advertise
   source: crates/kcp/src/kcp.rs (wnd_unused, wnd_size, flush, input)
   digest: The window every emitted segment advertises, against the free slots of `rcv_queue`. -/

import Kcptun.Arq.WireTrip

set_option autoImplicit false
set_option relaxedAutoImplicit false

namespace Kcptun.Arq

open Kcptun.Lib Kcptun.Lib.LittleEndian

namespace Kcp

variable {O C : Type}

def freeSlots (k : Kcp O C) : ℕ := k.rcvWnd.toNat - k.rcvQueue.length

private theorem toNat_wndUnused (k : Kcp O C) : k.wndUnused.toNat = k.freeSlots % 65536 := by
  unfold wndUnused freeSlots
  split_ifs with hroom
  · rw [UInt16.toNat_ofNat']
  · rw [Nat.sub_eq_zero_of_le (not_lt.mp hroom)]
    rfl

/-- The receive queue is full, or what is free does not show in 16 bits. -/
def Closed (k : Kcp O C) : Prop :=
  k.rcvWnd.toNat ≤ k.rcvQueue.length ∨ 0 < k.freeSlots ∧ 65536 ∣ k.freeSlots

/-- A window value that promises no more than is free, and nothing at all only in a closed
state. -/
structure Honest (k : Kcp O C) (wnd : UInt16) : Prop where
  bound : wnd.toNat ≤ k.freeSlots
  zero : wnd = 0 ↔ k.Closed

private theorem honest_wndUnused (k : Kcp O C) : k.Honest k.wndUnused := by
  have hvalue := k.toNat_wndUnused
  refine ⟨hvalue ▸ Nat.mod_le _ _, ?_⟩
  rw [← UInt16.toNat_inj, hvalue]
  unfold Closed freeSlots
  constructor
  · intro hzero
    by_cases hfull : k.rcvWnd.toNat ≤ k.rcvQueue.length
    · exact .inl hfull
    · exact .inr ⟨by omega, Nat.dvd_of_mod_eq_zero hzero⟩
  · rintro (hfull | ⟨-, hdvd⟩)
    · rw [Nat.sub_eq_zero_of_le hfull]
      rfl
    · exact Nat.mod_eq_zero_of_dvd hdvd

private theorem FlushWrites.wnd {k k' : Kcp O C} {acks probes data : List Segment}
    (h : k.FlushWrites k' acks probes data) :
    ∀ seg ∈ acks ++ probes ++ data, seg.wnd = k.wndUnused := by
  intro seg hseg
  rcases List.mem_append.mp hseg with hseg | hseg
  · rcases List.mem_append.mp hseg with hseg | hseg
    · rw [h.ackForm seg hseg]
      rfl
    · rw [h.probeForm seg hseg]
      rfl
  · exact (h.dataFields seg hseg).2.2.1

private theorem rmtWnd_inputSegment (k : Kcp O C) (acc : Parsed) (h : SegmentHeader)
    (payload : Bytes) : (k.inputSegment .regular acc h payload).1.rmtWnd = h.wnd.toUInt32 := by
  have hheader : (k.inputHeader .regular h).1.rmtWnd = h.wnd.toUInt32 := rfl
  rw [← hheader]
  simp only [inputSegment]
  split_ifs
  · simp only [parseFastack, parseAck]
    repeat' split
    all_goals rfl
  · simp only [inputPush, parseData]
    split_ifs <;> rfl
  · rfl
  · rfl

private theorem rmtWnd_inputRtt [Clock C] (k : Kcp O C) (acc : Parsed) :
    (k.inputRtt .regular acc).rmtWnd = k.rmtWnd := by
  unfold inputRtt
  split
  · dsimp only
    split <;> rfl
  · rfl

private theorem rmtWnd_inputCwnd (k : Kcp O C) (una : UInt32) :
    (k.inputCwnd una).rmtWnd = k.rmtWnd := by
  have hgrow : ∀ k' : Kcp O C, (if k'.cwnd > k'.rmtWnd then
      { k' with cwnd := k'.rmtWnd, incr := k'.rmtWnd * k.mss } else k').rmtWnd = k'.rmtWnd := by
    intro k'
    split <;> rfl
  unfold inputCwnd
  split
  · refine (hgrow _).trans ?_
    split
    · rfl
    · dsimp only
      split_ifs <;> rfl
  · rfl

private theorem rmtWnd_absorb (k : Kcp O C) {pieces : List Piece} {wnd : UInt16} (hne : pieces ≠ [])
    (hwnd : ∀ piece ∈ pieces, piece.1.wnd = wnd) :
    (k.absorb .regular pieces).rmtWnd = wnd.toUInt32 := by
  induction pieces generalizing k with
  | nil => exact absurd rfl hne
  | cons piece pieces ih =>
    rcases pieces with _ | ⟨next, pieces⟩
    · exact (rmtWnd_inputSegment k {} piece.1 piece.2).trans
        (congrArg _ (hwnd piece List.mem_cons_self))
    · exact ih _ (List.cons_ne_nil _ _) fun p hp => hwnd p (List.mem_cons_of_mem piece hp)

section Run

variable [Output O] [Clock C]

private theorem rmtWnd_flush (k : Kcp O C) (flushType : FlushType) :
    (k.flush flushType).1.rmtWnd = k.rmtWnd := by
  obtain ⟨acklist, clock, tsProbe, probeWait, probe, hframe⟩ := k.flushControl_eq
  cases flushType with
  | ackOnly =>
    obtain ⟨ssthresh, cwnd, incr, h⟩ := k.flush_ackOnly
    rw [h, hframe]
    rfl
  | full =>
    obtain ⟨ssthresh, cwnd, incr, h⟩ := k.flush_full
    rw [h]
    simp only [scanSegments]
    rw [hframe]
    rfl

private theorem rmtWnd_input (k : Kcp O C) {data : Bytes} {pieces : List Piece} {wnd : UInt16}
    (hreads : Reads k.conv data pieces 0) (hne : pieces ≠ [])
    (hwnd : ∀ piece ∈ pieces, piece.1.wnd = wnd) (ackNoDelay : Bool) :
    (k.input data .regular ackNoDelay).1.rmtWnd = wnd.toUInt32 := by
  have hlong : ¬ data.length < IKCP_OVERHEAD := by
    intro hshort
    exact hne (hreads.unique (.done hshort)).1
  have hparse : (k.inputParse data .regular).1.rmtWnd = wnd.toUInt32 := by
    obtain ⟨pieces', hreads', hstate⟩ := inputLoop_reads .regular k {} (le_refl data.length)
    rw [(hreads'.unique hreads).1] at hstate
    rw [← k.rmtWnd_absorb hne hwnd, ← hstate, inputParse, if_neg hlong]
    rcases inputLoop .regular data.length k {} data with ⟨k', code | acc⟩
    · rfl
    · exact (rmtWnd_inputCwnd _ _).trans (rmtWnd_inputRtt k' acc)
  obtain heq | ⟨flushType, heq⟩ := k.input_cases data .regular ackNoDelay
  · rw [heq, hparse]
  · rw [heq, rmtWnd_flush, hparse]

/-- Every segment of a flush, and every header a peer reads in its packets, advertises no more than
is free, and 0 only in a closed state; so a peer that such a packet leaves with a zero window faces
a closed receiver. -/
theorem advertised_window {O C : Type} [Output O] [Clock C] {k : Kcp O C} (hk : k.Reachable)
    (flushType : FlushType) :
    (∀ seg ∈ written (k.flushCalls flushType), k.Honest seg.wnd) ∧
    ∃ packets : List Bytes,
      (k.flush flushType).1.output.sent = k.output.sent ++ packets ∧
      ∀ pkt ∈ packets, pkt ≠ [] →
        (∀ pieces code, Reads k.conv pkt pieces code → ∀ piece ∈ pieces, k.Honest piece.1.wnd) ∧
        ∀ (P D : Type) [Output P] [Clock D] (peer : Kcp P D) (ackNoDelay : Bool),
          peer.conv = k.conv → (peer.input pkt .regular ackNoDelay).1.rmtWnd = 0 → k.Closed := by
  have hwrites := k.flushWrites hk.sendable flushType
  have hwnd := hwrites.wnd
  obtain ⟨groups, hsent, hflat⟩ := k.flush_groups flushType
  have hhonest := k.honest_wndUnused
  refine ⟨?_, groups.map packet, hsent, ?_⟩
  · intro seg hseg
    rw [flushCalls, written_append, written_append] at hseg
    rw [hwnd seg hseg]
    exact hhonest
  intro pkt hpkt hne
  obtain ⟨group, hgroup, rfl⟩ := List.mem_map.mp hpkt
  have hmem : ∀ seg ∈ group, seg ∈ written k.flushAckCalls ++ written k.flushProbeCalls ++
      written (k.flushDataCalls flushType) := fun seg hseg =>
    hflat ▸ List.mem_flatten.mpr ⟨group, hgroup, hseg⟩
  have hreads := reads_packet fun seg hseg => hwrites.encodable seg (hmem seg hseg)
  have hpieces : ∀ piece ∈ group.map Segment.piece, piece.1.wnd = k.wndUnused := by
    intro piece hpiece
    obtain ⟨seg, hseg, rfl⟩ := List.mem_map.mp hpiece
    exact hwnd seg (hmem seg hseg)
  constructor
  · intro pieces code h piece hpiece
    rw [(h.unique hreads).1] at hpiece
    rw [hpieces piece hpiece]
    exact hhonest
  · intro P D _ _ peer ackNoDelay hconv hzero
    have hne' : group.map Segment.piece ≠ [] := by
      rintro hnil
      rw [List.map_eq_nil_iff.mp hnil] at hne
      exact hne rfl
    rw [peer.rmtWnd_input (hconv ▸ hreads) hne' hpieces ackNoDelay] at hzero
    refine hhonest.zero.mp (UInt16.toNat_inj.mp ?_)
    rw [← UInt16.toNat_toUInt32, hzero]
    rfl

/-- A connection with a receive window of 65536 segments and one message to send. -/
def wideOpen : Kcp Unbounded VirtualClock :=
  (run Kcp.step (Kcp.withClock 7 {} ⟨0⟩)
    [.nodelay 1 10 2 1, .wndSize 128 65536, .send [1]]).1

theorem advertised_window_wideOpen :
    (∀ seg ∈ written (wideOpen.flushCalls .full), wideOpen.Honest seg.wnd) ∧
      (written (wideOpen.flushCalls .full)).length = 1 :=
  ⟨(advertised_window (k := wideOpen) ⟨7, {}, ⟨0⟩, _, rfl⟩ .full).1, by decide⟩

/-- With nothing in the queue the window of 65536 segments is advertised as 0. -/
theorem empty_queue_advertised_closed :
    wideOpen.Reachable ∧ wideOpen.rcvQueue.length = 0 ∧ wideOpen.rcvWnd = 65536 ∧
      (∃ seg ∈ written (wideOpen.flushCalls .full), seg.wnd = 0) ∧
      (((Kcp.withClock 7 {} ⟨0⟩ : Kcp Unbounded VirtualClock).input
        ((wideOpen.flush .full).1.output.sent.headD []) .regular false).1.rmtWnd = 0) := by
  refine ⟨⟨7, {}, ⟨0⟩, _, rfl⟩, ?_⟩
  decide

end Run

end Kcp

end Kcptun.Arq
