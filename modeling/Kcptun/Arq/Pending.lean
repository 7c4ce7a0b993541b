/- Kcptun/Arq/Pending
   source: crates/kcp/src/kcp.rs (input, parse_una, parse_ack, parse_fastack, send, flush)
   digest: The numbers a sender waits for: a flush adds those it assigns, and a packet takes off only
     those it confirms. -/

import Kcptun.Arq.ScanSkip
import Kcptun.Arq.WireTrip

set_option autoImplicit false
set_option relaxedAutoImplicit false

namespace Kcptun.Arq

open Kcptun.Lib Kcptun.Lib.LittleEndian

/-- The segment acknowledges the number, by itself or by what it says has arrived so far. -/
def SegmentHeader.Confirms (h : SegmentHeader) (sn : UInt32) : Prop :=
  (h.cmd = IKCP_CMD_ACK ∧ h.sn = sn) ∨ itimediff h.una sn > 0

private theorem acked_fragments {stream : Bool} {mss count : ℕ} {buffer : Bytes} {seg : Segment}
    (h : seg ∈ fragments stream mss count buffer) : seg.acked = false := by
  induction count generalizing buffer with
  | zero => cases h
  | succ count ih =>
    rcases List.mem_cons.mp h with rfl | h
    · rfl
    · exact ih h

namespace Kcp

variable {O C : Type}

def pending (k : Kcp O C) : List UInt32 :=
  (k.sndBuf.items.filter fun seg => !seg.acked).map Segment.sn

private theorem mem_pending {k : Kcp O C} {sn : UInt32} :
    sn ∈ k.pending ↔ ∃ seg ∈ k.sndBuf.items, seg.acked = false ∧ seg.sn = sn := by
  simp only [pending, List.mem_map, List.mem_filter, Bool.not_eq_true', and_assoc]

private theorem pending_of_items {k k' : Kcp O C} (h : k'.sndBuf.items = k.sndBuf.items) :
    k'.pending = k.pending := by
  unfold pending
  rw [h]

private theorem holds_or_mem_drop {α : Type} (p : α → Bool) {l : List α} {a : α} (h : a ∈ l) :
    p a = true ∨ a ∈ l.drop (l.takeWhile p).length := by
  induction l with
  | nil => cases h
  | cons b l ih =>
    by_cases hb : p b = true
    · rw [List.takeWhile_cons_of_pos hb, List.length_cons, List.drop_succ_cons]
      rcases List.mem_cons.mp h with rfl | h
      · exact .inl hb
      · exact ih h
    · right
      rw [List.takeWhile_cons_of_neg hb]
      exact h

private theorem pending_inputHeader (k : Kcp O C) (pktType : PacketType) (h : SegmentHeader)
    {sn : UInt32} (hsn : sn ∈ k.pending) :
    sn ∈ (k.inputHeader pktType h).1.pending ∨ itimediff h.una sn > 0 := by
  obtain ⟨seg, hseg, ha, rfl⟩ := mem_pending.mp hsn
  rcases holds_or_mem_drop (fun seg => itimediff h.una seg.sn > 0) hseg with hcovered | hleft
  · exact .inr (of_decide_eq_true hcovered)
  · left
    refine mem_pending.mpr ⟨seg, ?_, ha, rfl⟩
    rw [items_inputHeader]
    exact hleft

private theorem scanForSn_spec {sn : UInt32} {items : List Segment} {offset : ℕ}
    (h : scanForSn sn items = some offset) : ∃ seg, items[offset]? = some seg ∧ seg.sn = sn := by
  induction items generalizing offset with
  | nil => cases h
  | cons seg rest ih =>
    unfold scanForSn at h
    split_ifs at h with heq
    · cases h
      exact ⟨seg, rfl, heq.symm⟩
    · obtain ⟨o, ho, rfl⟩ := Option.map_eq_some_iff.mp h
      exact ih ho

private theorem pending_parseAck (k : Kcp O C) (hk : k.sendView.Ok) (sn : UInt32) {other : UInt32}
    (hother : other ∈ k.pending) : other ∈ (k.parseAck sn).pending ∨ other = sn := by
  rw [parseAck_eq k hk]
  split_ifs
  · exact .inl hother
  · split
    next => exact .inl hother
    next offset hoffset =>
      obtain ⟨seg, hseg, ha, rfl⟩ := mem_pending.mp hother
      obtain ⟨found, hfound, hsn⟩ := scanForSn_spec hoffset
      obtain ⟨i, hi, hget⟩ := List.getElem_of_mem hseg
      by_cases heq : offset = i
      · right
        subst heq
        rw [List.getElem?_eq_getElem hi, hget] at hfound
        cases hfound
        exact hsn
      · left
        refine mem_pending.mpr ⟨seg, ?_, ha, rfl⟩
        rw [Fifo.items_setItems]
        refine List.mem_of_getElem? (i := i) ?_
        rw [List.getElem?_modify_ne _ _ heq, List.getElem?_eq_getElem hi, hget]

private theorem pendingOf_bumpScan (sn ts fastresend : UInt32) (items : List Segment) :
    ((bumpScan sn ts fastresend items).1.filter fun seg => !seg.acked).map Segment.sn =
      (items.filter fun seg => !seg.acked).map Segment.sn := by
  have hbump : ∀ seg : Segment, (bumpFastack ts fastresend seg).1.acked = seg.acked ∧
      (bumpFastack ts fastresend seg).1.sn = seg.sn := by
    intro seg
    unfold bumpFastack
    split_ifs <;> exact ⟨rfl, rfl⟩
  induction items with
  | nil => rfl
  | cons seg rest ih =>
    unfold bumpScan
    split_ifs
    · rfl
    · obtain ⟨hacked, hsn⟩ := hbump seg
      simp only [List.filter_cons, hacked]
      split_ifs
      · rw [List.map_cons, List.map_cons, hsn, ih]
      · exact ih
    · simp only [List.filter_cons]
      split_ifs
      · rw [List.map_cons, List.map_cons, ih]
      · exact ih

private theorem pending_parseFastack (k : Kcp O C) (hk : k.sendView.Ok) (sn ts : UInt32) :
    (k.parseFastack sn ts).1.pending = k.pending := by
  rw [parseFastack_eq k hk]
  split_ifs
  · rfl
  · exact pendingOf_bumpScan sn ts k.fastresend.toUInt32 k.sndBuf.items

private theorem pending_inputPush (k : Kcp O C) (h : SegmentHeader) (payload : Bytes) :
    (k.inputPush h payload).pending = k.pending := by
  unfold inputPush parseData
  dsimp only
  split_ifs <;> rfl

private theorem pending_inputSegment (k : Kcp O C) (hk : k.sendView.Ok) (pktType : PacketType)
    (acc : Parsed) (h : SegmentHeader) (payload : Bytes) {sn : UInt32} (hsn : sn ∈ k.pending) :
    sn ∈ (k.inputSegment pktType acc h payload).1.pending ∨ h.Confirms sn := by
  obtain ⟨d, hd⟩ := k.trim_inputHeader hk pktType h
  have hmid : (k.inputHeader pktType h).1.sendView.Ok := hk.trim hd
  rcases k.pending_inputHeader pktType h hsn with hleft | huna
  · unfold inputSegment
    dsimp only
    split_ifs with hack
    · rcases pending_parseAck _ hmid h.sn hleft with hleft | rfl
      · left
        rw [pending_parseFastack _ (by rwa [sendView_parseAck])]
        exact hleft
      · exact .inr (.inl ⟨hack, rfl⟩)
    · left
      rw [pending_inputPush]
      exact hleft
    · exact .inl hleft
    · exact .inl hleft
  · exact .inr (.inr huna)

theorem pending_absorb (k : Kcp O C) (hk : k.sendView.Ok) (pktType : PacketType)
    (pieces : List Piece) {sn : UInt32} (hsn : sn ∈ k.pending) :
    sn ∈ (k.absorb pktType pieces).pending ∨ ∃ piece ∈ pieces, piece.1.Confirms sn := by
  induction pieces generalizing k with
  | nil => exact .inl hsn
  | cons piece pieces ih =>
    rcases k.pending_inputSegment hk pktType {} piece.1 piece.2 hsn with hleft | hconf
    · obtain ⟨d, hd⟩ := k.trim_inputSegment hk pktType {} piece.1 piece.2
      rcases ih _ (hk.trim hd) hleft with hleft | ⟨p, hp, hconf⟩
      · exact .inl hleft
      · exact .inr ⟨p, List.mem_cons_of_mem piece hp, hconf⟩
    · exact .inr ⟨piece, List.mem_cons_self, hconf⟩

/-- What `input` does before its flush is to absorb the segments of the packet; the round-trip
estimate and the congestion window follow. -/
theorem inputParse_absorb [Clock C] (k : Kcp O C) {data : Bytes} {pieces : List Piece} {code : Int}
    (hreads : Reads k.conv data pieces code) (pktType : PacketType) :
    ∃ clock rxSrtt rxRttvar rxRto cwnd incr, (k.inputParse data pktType).1 =
      { k.absorb pktType pieces with clock, rxSrtt, rxRttvar, rxRto, cwnd, incr } := by
  unfold inputParse
  split_ifs with hshort
  · rw [(hreads.unique (.done hshort)).1]
    exact ⟨_, _, _, _, _, _, rfl⟩
  · obtain ⟨pieces', hreads', hstate⟩ := inputLoop_reads pktType k {} (le_refl data.length)
    rw [(hreads'.unique hreads).1] at hstate
    rw [← hstate]
    rcases inputLoop pktType data.length k {} data with ⟨k', code | acc⟩
    · exact ⟨_, _, _, _, _, _, rfl⟩
    · dsimp only
      have hrtt : ∃ clock rxSrtt rxRttvar rxRto, k'.inputRtt pktType acc =
          { k' with clock, rxSrtt, rxRttvar, rxRto } := by
        unfold inputRtt updateAck
        dsimp only
        split_ifs <;> exact ⟨_, _, _, _, rfl⟩
      obtain ⟨clock, rxSrtt, rxRttvar, rxRto, hrtt⟩ := hrtt
      rw [hrtt]
      unfold inputCwnd
      dsimp only
      split_ifs <;> exact ⟨_, _, _, _, _, _, rfl⟩

private theorem pendingOf_outcome {una : UInt32} {new xs ys : List Segment}
    (h : List.Forall₂ (Scan.Outcome una new) xs ys) :
    (ys.filter fun seg => !seg.acked).map Segment.sn =
      (xs.filter fun seg => !seg.acked).map Segment.sn := by
  induction h with
  | nil => rfl
  | @cons old cur xs ys hout _ ih =>
    have hkept : cur.acked = old.acked ∧ cur.sn = old.sn := by
      rcases hout with rfl | ⟨-, hretimed, -, -⟩
      · exact ⟨rfl, rfl⟩
      · rw [hretimed]
        exact ⟨rfl, rfl⟩
    simp only [List.filter_cons, hkept.1]
    split_ifs
    · rw [List.map_cons, List.map_cons, hkept.2, ih]
    · exact ih

private theorem pendingOf_number (conv nxt : UInt32) {items : List Segment}
    (hfresh : ∀ seg ∈ items, seg.acked = false) :
    ((number conv nxt items).filter fun seg => !seg.acked).map Segment.sn =
      (List.range items.length).map fun i => nxt + UInt32.ofNat i := by
  induction items generalizing nxt with
  | nil => rfl
  | cons seg rest ih =>
    have hacked : seg.acked = false := hfresh seg List.mem_cons_self
    have hrest := ih (nxt + 1) fun s hs => hfresh s (List.mem_cons_of_mem seg hs)
    have hsucc : ∀ i, nxt + 1 + UInt32.ofNat i = nxt + UInt32.ofNat (i + 1) := by
      intro i
      rw [UInt32.ofNat_add]
      grind
    simp only [hsucc] at hrest
    rw [List.length_cons, List.range_succ_eq_map, List.map_cons, List.map_map, number,
      List.filter_cons_of_pos (by simp [hacked]), List.map_cons, hrest]
    simp

private theorem pending_flush [Output O] [Clock C] (k : Kcp O C)
    (hfresh : ∀ seg ∈ k.sndQueue.items, seg.acked = false) (flushType : FlushType) :
    ∃ n ≤ k.sndQueue.length, (k.flush flushType).1.sndQueue.items = k.sndQueue.items.drop n ∧
      (k.flush flushType).1.pending =
        k.pending ++ (List.range n).map fun i => k.sndNxt + UInt32.ofNat i := by
  obtain ⟨_, _, data, -, -, -, hbuffer⟩ := k.flush_spec flushType
  obtain ⟨n, hn, hqueue, -, hout⟩ := hbuffer.admitted
  refine ⟨n, hn, hqueue, ?_⟩
  have hnew := @pendingOf_number k.conv k.sndNxt (k.sndQueue.items.take n)
    fun seg hseg => hfresh seg (List.mem_of_mem_take hseg)
  rw [List.length_take_of_le hn] at hnew
  unfold pending
  rw [pendingOf_outcome hout, List.filter_append, List.map_append, hnew]

def Fresh (k : Kcp O C) : Prop := ∀ seg ∈ k.sndQueue.items, seg.acked = false

private theorem Fresh.send {k : Kcp O C} (h : k.Fresh) (buffer : Bytes) :
    (k.send buffer).1.Fresh := by
  have hfill : (k.fillLast buffer).1.Fresh := by
    unfold fillLast
    split
    next => exact h
    next seg hlast =>
      split
      next =>
        intro s hs
        rw [Fifo.items_setItems, List.mem_append, List.mem_singleton] at hs
        rcases hs with hs | rfl
        · exact h s (List.mem_of_mem_dropLast hs)
        · exact h seg (List.mem_of_getLast? hlast)
      next => exact h
  have hfragment : ∀ {k : Kcp O C}, k.Fresh → ∀ buffer, (k.queueFragments buffer).1.Fresh := by
    intro k h buffer
    simp only [queueFragments]
    generalize (if buffer.length ≤ k.mss.toNat then 1
      else (buffer.length + k.mss.toNat - 1) / k.mss.toNat) = count
    split
    · exact h
    · intro s hs
      rw [items_foldl_push, List.mem_append] at hs
      rcases hs with hs | hs
      · exact h s hs
      · exact acked_fragments hs
  simp only [Kcp.send]
  split_ifs
  · exact h
  · exact hfill
  · exact hfragment hfill _
  · exact hfragment h buffer

end Kcp

namespace Kcp

variable {O C : Type} [Output O] [Clock C] {k : Kcp O C} {log : List Entry}

/-- An operation that takes nothing off the list of pending numbers and puts on it those it
assigns. -/
structure Numbers (k k' : Kcp O C) : Prop where
  fresh : k'.Fresh
  kept : ∀ sn ∈ k.pending, sn ∈ k'.pending
  new : ∀ i < (k'.sndNxt - k.sndNxt).toNat, k.sndNxt + UInt32.ofNat i ∈ k'.pending

omit [Output O] [Clock C] in
private theorem Numbers.of_eq {k' : Kcp O C} (hfresh : k'.Fresh)
    (hbuf : k'.sndBuf.items = k.sndBuf.items) (hnxt : k'.sndNxt = k.sndNxt) : k.Numbers k' := by
  refine ⟨hfresh, fun sn hsn => pending_of_items hbuf ▸ hsn, ?_⟩
  intro i hi
  rw [hnxt, UInt32.sub_self] at hi
  exact absurd hi (Nat.not_lt_zero i)

theorem numbers_flush (hk : k.Outbound log) (hfresh : k.Fresh) (flushType : FlushType)
    (hnum : log.length + ((k.flush flushType).1.sndNxt - k.sndNxt).toNat < 4294967296) :
    k.Numbers (k.flush flushType).1 := by
  obtain ⟨n, hn, hqueue, hpending⟩ := k.pending_flush hfresh flushType
  obtain ⟨m, hcount, hm, hqueue', -⟩ := hk.flush flushType hnum
  have hsame : n = m := by
    have hlen := congrArg List.length (hqueue.symm.trans hqueue')
    rw [List.length_drop, List.length_drop] at hlen
    unfold Fifo.length at hn hm
    omega
  refine ⟨?_, ?_, ?_⟩
  · intro seg hseg
    rw [hqueue] at hseg
    exact hfresh seg (List.mem_of_mem_drop hseg)
  · intro sn hsn
    rw [hpending]
    exact List.mem_append_left _ hsn
  · intro i hi
    rw [hcount, ← hsame] at hi
    rw [hpending]
    exact List.mem_append_right _ (List.mem_map.mpr ⟨i, List.mem_range.mpr hi, rfl⟩)

theorem numbers_local (hk : k.Outbound log) (hfresh : k.Fresh) {op : Op} (hop : op.Local)
    (hnum : log.length + ((k.step op).1.sndNxt - k.sndNxt).toNat < 4294967296) :
    k.Numbers (k.step op).1 := by
  cases op with
  | send buffer =>
    have hsent := hfresh.send buffer
    obtain ⟨_, heq⟩ := k.send_frame buffer
    rw [step]
    rw [heq] at hsent ⊢
    exact .of_eq hsent rfl rfl
  | recv buflen =>
    obtain ⟨_, _, _, _, heq⟩ := k.recv_frame buflen
    rw [step, heq]
    exact .of_eq hfresh rfl rfl
  | input data pktType ackNoDelay => exact hop.elim
  | flush flushType => exact numbers_flush hk hfresh flushType hnum
  | update =>
    have hstart : k.updateTimer.1.Outbound log ∧ k.updateTimer.1.Fresh ∧
        k.updateTimer.1.pending = k.pending ∧ k.updateTimer.1.sndNxt = k.sndNxt := by
      obtain ⟨_, _, _, htimer⟩ := k.updateTimer_frame
      rw [htimer]
      exact ⟨⟨hk.nxt, hk.window, hk.short, hk.buf, hk.sent⟩, hfresh, rfl, rfl⟩
    obtain ⟨hout, hfresh', hpending, hnxt⟩ := hstart
    simp only [step, update] at hnum ⊢
    split_ifs at hnum ⊢
    · rw [← hnxt] at hnum
      obtain ⟨hfresh', hkept, hnew⟩ := numbers_flush hout hfresh' .full hnum
      rw [hpending] at hkept
      rw [hnxt] at hnew
      exact ⟨hfresh', hkept, hnew⟩
    · refine ⟨hfresh', fun sn hsn => hpending ▸ hsn, ?_⟩
      intro i hi
      rw [hnxt, UInt32.sub_self] at hi
      exact absurd hi (Nat.not_lt_zero i)
  | nodelay nodelay interval resend nc =>
    obtain ⟨_, _, _, _, _, heq⟩ := k.setNodelay_frame nodelay interval resend nc
    rw [step, heq]
    exact .of_eq hfresh rfl rfl
  | setMtu mtu =>
    obtain ⟨_, _, heq⟩ := k.setMtu_frame mtu
    rw [step, heq]
    exact .of_eq hfresh rfl rfl
  | wndSize sndwnd rcvwnd =>
    obtain ⟨_, _, heq⟩ := k.wndSize_frame sndwnd rcvwnd
    rw [step, heq]
    exact .of_eq hfresh rfl rfl
  | setStream stream => exact hop.elim
  | shrinkIdleBuffers heapReleased ackReleased =>
    have hitems : (k.shrinkIdleBuffers heapReleased ackReleased).1.sndBuf.items = k.sndBuf.items ∧
        (k.shrinkIdleBuffers heapReleased ackReleased).1.sndQueue.items = k.sndQueue.items ∧
        (k.shrinkIdleBuffers heapReleased ackReleased).1.sndNxt = k.sndNxt := by
      simp only [shrinkIdleBuffers]
      split_ifs <;> simp
    exact .of_eq (fun seg hseg => hfresh seg (hitems.2.1 ▸ hseg)) hitems.1 hitems.2.2

end Kcp

end Kcptun.Arq
