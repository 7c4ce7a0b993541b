/- Kcptun/Arq/ReceiveWindow
   source: crates/kcp/src/kcp.rs (parse_data, recv, input), heap.rs
   digest: In every reachable state the heap holds distinct numbers of the receive window under the
     heap order, and the queue the consecutive numbers before it. -/

import Kcptun.Arq.Input

set_option autoImplicit false
set_option relaxedAutoImplicit false

namespace Kcptun.Arq

open Kcptun.Lib Kcptun.Lib.LittleEndian
open Kcptun.Lib.Serial (Consecutive)

structure RecvView where
  buf : SegmentHeap
  queue : List Segment
  nxt : UInt32
  wnd : UInt32

/-- The heap part of the invariant: distinct numbers of the window `[nxt, nxt + wnd)`, with `marks`
their set. The comparison is an order only because the window spans less than half the space. -/
structure HeapOk (h : SegmentHeap) (nxt : UInt32) (wnd : ℕ) : Prop where
  nodup : h.sns.Nodup
  window : ∀ seg ∈ h.segments, (seg.sn - nxt).toNat < wnd
  marks : ∀ sn, sn ∈ h.marks ↔ sn ∈ h.sns
  ordered : BinaryHeap.Ordered SegmentHeap.less h.segments h.segments.size

/-- The queue holds the numbers that end just before `nxt`. -/
structure QueueOk (queue : List Segment) (nxt : UInt32) (wnd : ℕ) : Prop where
  length : queue.length ≤ wnd
  consecutive : Consecutive (nxt - UInt32.ofNat queue.length) (queue.map Segment.sn)

/-- The receive window between two operations: the next number waits in the heap only when the
queue has no room for it. -/
structure RecvView.Ok (v : RecvView) : Prop where
  heap : HeapOk v.buf v.nxt v.wnd.toNat
  queue : QueueOk v.queue v.nxt v.wnd.toNat
  tip : v.nxt ∈ v.buf.sns → v.queue.length = v.wnd.toNat

private theorem less_orderOn (nxt : UInt32) {wnd : ℕ} (hwnd : wnd < 2147483648) :
    BinaryHeap.OrderOn SegmentHeap.less (fun seg => (seg.sn - nxt).toNat < wnd) := by
  constructor
  · intro a b ha hb hless
    simp only [SegmentHeap.less, itimediff, Serial.diff_eq, UInt32.toNat_sub, decide_eq_true_eq,
      decide_eq_false_iff_not] at *
    have := a.sn.toNat_lt
    have := b.sn.toNat_lt
    have := nxt.toNat_lt
    omega
  · intro a b c ha hb hc hab hbc
    simp only [SegmentHeap.less, itimediff, Serial.diff_eq, UInt32.toNat_sub,
      decide_eq_false_iff_not] at *
    have := a.sn.toNat_lt
    have := b.sn.toNat_lt
    have := c.sn.toNat_lt
    have := nxt.toNat_lt
    omega

section Heap

variable {h h' : SegmentHeap} {nxt : UInt32} {wnd : ℕ}

private theorem HeapOk.push (hh : HeapOk h nxt wnd) (hwnd : wnd < 2147483648) {seg : Segment}
    (hnew : seg.sn ∉ h.sns) (hin : (seg.sn - nxt).toNat < wnd) : HeapOk (h.push seg) nxt wnd := by
  have hperm := h.sns_push seg
  constructor
  · rw [hperm.nodup_iff, List.nodup_cons]
    exact ⟨hnew, hh.nodup⟩
  · intro s hs
    rcases SegmentHeap.mem_push.mp hs with hs | rfl
    · exact hh.window s hs
    · exact hin
  · intro sn
    rw [hperm.mem_iff, List.mem_cons, ← hh.marks sn]
    exact Finset.mem_insert
  · have hpush := BinaryHeap.push_ordered (less_orderOn nxt hwnd) hh.window hin hh.ordered
    simpa [SegmentHeap.push] using hpush

private theorem HeapOk.pop (hh : HeapOk h nxt wnd) (hwnd : wnd < 2147483648) {x : Segment}
    (hp : h.pop = some (x, h')) : HeapOk h' nxt wnd := by
  have hperm := SegmentHeap.sns_of_pop hp
  have hnodup := hperm.nodup_iff.mp hh.nodup
  rw [List.nodup_cons] at hnodup
  constructor
  · exact hnodup.2
  · intro s hs
    exact hh.window s ((SegmentHeap.mem_of_pop hp s).mpr (.inl hs))
  · intro sn
    rw [(SegmentHeap.pop_eq_some hp).2, Finset.mem_erase, hh.marks sn, hperm.mem_iff, List.mem_cons]
    constructor
    · rintro ⟨hne, rfl | hmem⟩
      · exact absurd rfl hne
      · exact hmem
    · intro hmem
      exact ⟨fun heq => hnodup.1 (heq ▸ hmem), .inr hmem⟩
  · exact (BinaryHeap.pop_ordered (less_orderOn nxt hwnd) hh.window hh.ordered
      (SegmentHeap.pop_eq_some hp).1).1

private theorem HeapOk.pop_first (hh : HeapOk h nxt wnd) (hwnd : wnd < 2147483648) {x : Segment}
    (hp : h.pop = some (x, h')) (hmem : nxt ∈ h.sns) : x.sn = nxt := by
  obtain ⟨seg, hseg, hsn⟩ := SegmentHeap.mem_sns.mp hmem
  have hxw := hh.window x ((SegmentHeap.mem_of_pop hp x).mpr (.inr rfl))
  rcases (SegmentHeap.mem_of_pop hp seg).mp hseg with hseg | rfl
  · have hless := (BinaryHeap.pop_ordered (less_orderOn nxt hwnd) hh.window hh.ordered
      (SegmentHeap.pop_eq_some hp).1).2 seg hseg
    simp only [SegmentHeap.less, hsn, itimediff, Serial.diff_eq, UInt32.toNat_sub,
      decide_eq_false_iff_not] at hless hxw
    have := x.sn.toNat_lt
    have := nxt.toNat_lt
    apply UInt32.toNat_inj.mp
    omega
  · exact hsn

private theorem HeapOk.advance (hh : HeapOk h nxt wnd) (hout : nxt ∉ h.sns) :
    HeapOk h (nxt + 1) wnd := by
  refine ⟨hh.nodup, ?_, hh.marks, hh.ordered⟩
  intro s hs
  have hw := hh.window s hs
  have hne : s.sn ≠ nxt := fun heq => hout (SegmentHeap.mem_sns.mpr ⟨s, hs, heq⟩)
  have hne' : s.sn.toNat ≠ nxt.toNat := fun heq => hne (UInt32.toNat_inj.mp heq)
  simp only [UInt32.toNat_sub, UInt32.toNat_add] at hw ⊢
  have := s.sn.toNat_lt
  have := nxt.toNat_lt
  have h1 : (1 : UInt32).toNat = 1 := rfl
  omega

end Heap

private theorem QueueOk.drop {queue : List Segment} {nxt : UInt32} {wnd : ℕ}
    (hq : QueueOk queue nxt wnd)
    (n : ℕ) (hn : n ≤ queue.length) : QueueOk (queue.drop n) nxt wnd := by
  have hlen := hq.length
  have hdrop := hq.consecutive.drop n (by simpa using hn)
  refine ⟨by rw [List.length_drop]; omega, ?_⟩
  have hfirst : nxt - UInt32.ofNat (queue.drop n).length =
      nxt - UInt32.ofNat queue.length + UInt32.ofNat n := by
    have hsum : UInt32.ofNat queue.length =
        UInt32.ofNat (queue.drop n).length + UInt32.ofNat n := by
      rw [← UInt32.ofNat_add, List.length_drop, Nat.sub_add_cancel hn]
    rw [hsum]
    grind
  rw [hfirst, List.map_drop]
  exact hdrop

private theorem QueueOk.push {queue : List Segment} {nxt : UInt32} {wnd : ℕ}
    (hq : QueueOk queue nxt wnd) {seg : Segment} (hsn : seg.sn = nxt) (hroom : queue.length < wnd) :
    QueueOk (queue ++ [seg]) (nxt + 1) wnd := by
  refine ⟨by rw [List.length_append]; exact hroom, ?_⟩
  have happ := hq.consecutive.append
  have hfirst : nxt + 1 - UInt32.ofNat (queue ++ [seg]).length =
      nxt - UInt32.ofNat queue.length := by
    rw [List.length_append, UInt32.ofNat_add]
    simp only [List.length_cons, List.length_nil]
    grind
  rw [hfirst, List.map_append, List.map_singleton, hsn]
  simpa using happ

/-- The drain loop keeps the invariant and ends with the next number out of the heap or the queue
full. -/
theorem ok_drain (wnd : UInt32) (hwnd : wnd.toNat < 2147483648) (fuel : ℕ) (r : Ready)
    (hh : HeapOk r.buf r.nxt wnd.toNat) (hq : QueueOk r.queue.items r.nxt wnd.toNat)
    (hfuel : r.buf.len ≤ fuel) :
    RecvView.Ok ⟨(drain wnd fuel r).buf, (drain wnd fuel r).queue.items, (drain wnd fuel r).nxt,
      wnd⟩ := by
  induction fuel generalizing r with
  | zero =>
    have hempty : r.buf.segments = #[] := by
      simpa [SegmentHeap.len] using hfuel
    refine ⟨hh, hq, ?_⟩
    simp [drain, SegmentHeap.sns, hempty]
  | succ fuel ih =>
    simp only [drain]
    split
    · rename_i hnone
      refine ⟨hh, hq, ?_⟩
      simp [SegmentHeap.sns, SegmentHeap.pop_eq_none.mp hnone]
    · rename_i seg buf hpop
      have hlen := SegmentHeap.len_of_pop hpop
      have hperm := SegmentHeap.sns_of_pop hpop
      have hrest := hh.pop hwnd hpop
      have hout : seg.sn ∉ buf.sns := (List.nodup_cons.mp (hperm.nodup_iff.mp hh.nodup)).1
      have hin := hh.window seg ((SegmentHeap.mem_of_pop hpop seg).mpr (.inr rfl))
      split_ifs with hready
      · obtain ⟨hsn, hroom⟩ := hready
        refine ih _ ?_ (hq.push hsn hroom) (by simp only; omega)
        rw [hsn] at hout
        exact hrest.advance hout
      · refine ⟨hrest.push hwnd hout hin, hq, ?_⟩
        intro hmem
        have hsn := hh.pop_first hwnd hpop (hperm.symm.mem_iff.mp ((buf.sns_push seg).mem_iff.mp hmem))
        have hfull : ¬ r.queue.length < wnd.toNat := fun hroom => hready ⟨hsn, hroom⟩
        have hle := hq.length
        simp only [Fifo.length] at hfull ⊢
        omega

private theorem popRun_drop (items : List Segment) :
    ∃ n ≤ items.length, (popRun items).2 = items.drop n := by
  induction items with
  | nil => exact ⟨0, le_rfl, rfl⟩
  | cons seg rest ih =>
    obtain ⟨n, hn, heq⟩ := ih
    simp only [popRun]
    split_ifs
    · exact ⟨1, by simp, rfl⟩
    · exact ⟨n + 1, by simpa using hn, heq⟩

namespace Kcp

variable {O C : Type}

def recvView (k : Kcp O C) : RecvView where
  buf := k.rcvBuf
  queue := k.rcvQueue.items
  nxt := k.rcvNxt
  wnd := k.rcvWnd

private theorem recv_ok_moveReady (k : Kcp O C) (hwnd : k.rcvWnd.toNat < 2147483648)
    (hh : HeapOk k.rcvBuf k.rcvNxt k.rcvWnd.toNat)
    (hq : QueueOk k.rcvQueue.items k.rcvNxt k.rcvWnd.toNat) : k.moveReady.recvView.Ok :=
  ok_drain k.rcvWnd hwnd _ _ hh hq le_rfl

private theorem recv_ok_recv (k : Kcp O C) (hwnd : k.rcvWnd.toNat < 2147483648) (hk : k.recvView.Ok)
    (buflen : ℕ) : (k.recv buflen).1.recvView.Ok := by
  obtain ⟨n, hn, hrest⟩ := popRun_drop k.rcvQueue.items
  have hq : QueueOk (popRun k.rcvQueue.items).2 k.rcvNxt k.rcvWnd.toNat :=
    hrest ▸ hk.queue.drop n hn
  simp only [recv]
  split_ifs
  · exact hk
  · exact hk
  · exact recv_ok_moveReady _ hwnd hk.heap hq
  · exact recv_ok_moveReady _ hwnd hk.heap hq

private theorem recv_ok_inputPush (k : Kcp O C) (hwnd : k.rcvWnd.toNat < 2147483648)
    (hk : k.recvView.Ok)
    (h : SegmentHeader) (payload : Bytes) : (k.inputPush h payload).recvView.Ok := by
  simp only [inputPush, parseData]
  split_ifs with h1 h2 h3 h4
  · exact hk
  · exact recv_ok_moveReady _ hwnd hk.heap hk.queue
  · have hnew : h.sn ∉ k.rcvBuf.sns := by
      intro hmem
      exact h4 (decide_eq_true ((hk.heap.marks h.sn).mpr hmem))
    have hin : (h.sn - k.rcvNxt).toNat < k.rcvWnd.toNat := by
      simp only [ackPush, itimediff, Serial.diff_eq, UInt32.toNat_add, not_or] at h1 h2 h3
      rw [UInt32.toNat_sub]
      have := h.sn.toNat_lt
      have := k.rcvNxt.toNat_lt
      omega
    exact recv_ok_moveReady _ hwnd (hk.heap.push hwnd hnew hin) hk.queue
  · exact hk
  · exact hk

@[simp] theorem recvView_fillLast (k : Kcp O C) (buffer : Bytes) :
    (k.fillLast buffer).1.recvView = k.recvView := by
  unfold fillLast
  split
  · rfl
  · split <;> rfl

@[simp] theorem recvView_queueFragments (k : Kcp O C) (buffer : Bytes) :
    (k.queueFragments buffer).1.recvView = k.recvView := by
  simp only [queueFragments]
  split_ifs <;> rfl

@[simp] theorem recvView_send (k : Kcp O C) (buffer : Bytes) :
    (k.send buffer).1.recvView = k.recvView := by
  simp only [send]
  split_ifs <;> simp

@[simp] theorem recvView_shrinkIdleBuffers (k : Kcp O C) (a b : Bool) :
    (k.shrinkIdleBuffers a b).1.recvView = k.recvView := by
  simp only [shrinkIdleBuffers, recvView]
  split_ifs <;> simp

@[simp] theorem recvView_inputHeader (k : Kcp O C) (pktType : PacketType) (h : SegmentHeader) :
    (k.inputHeader pktType h).1.recvView = k.recvView := by
  simp only [inputHeader]
  split_ifs <;> rfl

@[simp] theorem recvView_parseAck (k : Kcp O C) (sn : UInt32) :
    (k.parseAck sn).recvView = k.recvView := by
  simp only [parseAck]
  split
  · rfl
  · split <;> rfl

@[simp] theorem recvView_parseFastack (k : Kcp O C) (sn ts : UInt32) :
    (k.parseFastack sn ts).1.recvView = k.recvView := by
  simp only [parseFastack]
  split <;> rfl

@[simp] theorem recvView_inputRtt [Clock C] (k : Kcp O C) (pktType : PacketType) (acc : Parsed) :
    (k.inputRtt pktType acc).recvView = k.recvView := by
  simp only [inputRtt]
  split_ifs <;> rfl

@[simp] theorem recvView_inputCwnd (k : Kcp O C) (una : UInt32) :
    (k.inputCwnd una).recvView = k.recvView := by
  simp only [inputCwnd]
  split_ifs <;> rfl

theorem recvView_inputSegment (k : Kcp O C) (pktType : PacketType) (acc : Parsed)
    (h : SegmentHeader) (payload : Bytes) :
    (k.inputSegment pktType acc h payload).1.recvView =
      if h.cmd = IKCP_CMD_PUSH then ((k.inputHeader pktType h).1.inputPush h payload).recvView
      else k.recvView := by
  simp only [inputSegment]
  split_ifs with h1 h2 h3
  · rw [h1] at h2
    exact absurd h2 (by decide)
  · simp
  · rfl
  · exact recvView_inputHeader k pktType h
  · exact recvView_inputHeader k pktType h

private theorem recvView_inputPush_wnd (k : Kcp O C) (h : SegmentHeader) (payload : Bytes) :
    (k.inputPush h payload).recvView.wnd = k.recvView.wnd := by
  simp only [inputPush, parseData]
  split_ifs <;> rfl

section Steps

variable [Output O] [Clock C]

@[simp] theorem recvView_flushControl (k : Kcp O C) :
    k.flushControl.1.recvView = k.recvView := by
  simp only [flushControl, probeTimer]
  split_ifs <;> rfl

omit [Output O] [Clock C] in
@[simp] theorem recvView_admitSegments (k : Kcp O C) :
    k.admitSegments.1.recvView = k.recvView := rfl

@[simp] theorem recvView_flush (k : Kcp O C) (flushType : FlushType) :
    (k.flush flushType).1.recvView = k.recvView := by
  have hview : k.flushControl.1.admitSegments.1.recvView = k.recvView := by simp
  cases flushType
  · obtain ⟨ssthresh, cwnd, incr, h⟩ := k.flush_ackOnly
    rw [h]
    exact hview
  · obtain ⟨ssthresh, cwnd, incr, h⟩ := k.flush_full
    rw [h]
    exact hview

omit [Output O] in
@[simp] theorem recvView_updateTimer (k : Kcp O C) : k.updateTimer.1.recvView = k.recvView := by
  obtain ⟨clock, updated, tsFlush, h⟩ := k.updateTimer_frame
  rw [h]
  rfl

@[simp] theorem recvView_update (k : Kcp O C) : k.update.recvView = k.recvView := by
  simp only [update]
  split_ifs <;> simp

end Steps

/-- The invariant together with the fixed window it is about. -/
structure RecvOk (k : Kcp O C) (wnd : UInt32) : Prop where
  wnd : k.rcvWnd = wnd
  ok : k.recvView.Ok

private theorem RecvOk.of_view {k k' : Kcp O C} {wnd : UInt32} (hk : k.RecvOk wnd)
    (h : k'.recvView = k.recvView) : k'.RecvOk wnd :=
  ⟨(congrArg RecvView.wnd h).trans hk.wnd, h ▸ hk.ok⟩

private theorem RecvOk.inputSegment {k : Kcp O C} {wnd : UInt32} (hwnd : wnd.toNat < 2147483648)
    (hk : k.RecvOk wnd) (pktType : PacketType) (acc : Parsed) (h : SegmentHeader)
    (payload : Bytes) : (k.inputSegment pktType acc h payload).1.RecvOk wnd := by
  have hview := k.recvView_inputSegment pktType acc h payload
  split_ifs at hview
  · have hheader := hk.of_view (k.recvView_inputHeader pktType h)
    constructor
    · exact (congrArg RecvView.wnd hview).trans
        ((recvView_inputPush_wnd _ h payload).trans hheader.wnd)
    · rw [hview]
      exact recv_ok_inputPush _ (hheader.wnd ▸ hwnd) hheader.ok h payload
  · exact hk.of_view hview

private theorem RecvOk.inputLoop {k : Kcp O C} {wnd : UInt32} (hwnd : wnd.toNat < 2147483648)
    (hk : k.RecvOk wnd) (pktType : PacketType) (acc : Parsed) (data : Bytes) (fuel : ℕ) :
    (inputLoop pktType fuel k acc data).1.RecvOk wnd := by
  induction fuel generalizing k acc data with
  | zero => exact hk
  | succ fuel ih =>
    simp only [Kcp.inputLoop]
    split
    · exact hk
    · split_ifs
      · exact hk
      · exact hk
      · exact hk
      · exact ih (hk.inputSegment hwnd pktType acc _ _) _ _

private theorem RecvOk.inputParse [Clock C] {k : Kcp O C} {wnd : UInt32}
    (hwnd : wnd.toNat < 2147483648) (hk : k.RecvOk wnd) (data : Bytes) (pktType : PacketType) :
    (k.inputParse data pktType).1.RecvOk wnd := by
  have hloop := hk.inputLoop hwnd pktType {} data data.length
  simp only [Kcp.inputParse]
  split_ifs
  · exact hk
  · split
    · rename_i heq
      rwa [heq] at hloop
    · rename_i heq
      rw [heq] at hloop
      exact hloop.of_view (by simp)

section Run

variable [Output O] [Clock C]

private theorem RecvOk.input {k : Kcp O C} {wnd : UInt32} (hwnd : wnd.toNat < 2147483648)
    (hk : k.RecvOk wnd) (data : Bytes) (pktType : PacketType) (ackNoDelay : Bool) :
    (k.input data pktType ackNoDelay).1.RecvOk wnd := by
  have hparse := hk.inputParse hwnd data pktType
  obtain heq | ⟨flushType, heq⟩ := k.input_cases data pktType ackNoDelay
  · rwa [heq]
  · rw [heq]
    exact hparse.of_view (recvView_flush _ flushType)

end Run

end Kcp

def Op.KeepsRcvWnd (wnd : UInt32) : Op → Prop
  | .wndSize _ rcvwnd => rcvwnd ≤ 0 ∨ UInt32.ofNat rcvwnd.toNat = wnd
  | _ => True

section Run

variable {O C : Type} [Output O] [Clock C]

private theorem Kcp.RecvOk.step {k : Kcp O C} {wnd : UInt32} (hwnd : wnd.toNat < 2147483648)
    (hk : k.RecvOk wnd) {op : Op} (hop : op.KeepsRcvWnd wnd) : (k.step op).1.RecvOk wnd := by
  cases op with
  | send buffer => exact hk.of_view (k.recvView_send buffer)
  | recv buflen =>
    refine ⟨?_, k.recv_ok_recv (hk.wnd ▸ hwnd) hk.ok buflen⟩
    refine Eq.trans ?_ hk.wnd
    obtain ⟨rcvBuf, rcvQueue, rcvNxt, probe, h⟩ := k.recv_frame buflen
    rw [Kcp.step, h]
  | input data pktType ackNoDelay => exact hk.input hwnd data pktType ackNoDelay
  | flush flushType => exact hk.of_view (k.recvView_flush flushType)
  | update => exact hk.of_view k.recvView_update
  | nodelay nodelay interval resend nc =>
    obtain ⟨_, _, _, _, _, h⟩ := k.setNodelay_frame nodelay interval resend nc
    exact hk.of_view (by rw [Kcp.step, h]; rfl)
  | setMtu mtu =>
    obtain ⟨_, _, h⟩ := k.setMtu_frame mtu
    exact hk.of_view (by rw [Kcp.step, h]; rfl)
  | wndSize sndwnd rcvwnd =>
    apply hk.of_view
    have hsame : rcvwnd > 0 → UInt32.ofNat rcvwnd.toNat = k.rcvWnd := by
      intro hpos
      rcases hop with hle | heq
      · omega
      · rw [heq, hk.wnd]
    simp only [Kcp.step, Kcp.wndSize]
    split_ifs with h1 h2 h2
    · simp [Kcp.recvView, hsame h1]
    · simp [Kcp.recvView, hsame h1]
    · rfl
    · rfl
  | setStream stream => exact hk.of_view rfl
  | shrinkIdleBuffers heapReleased ackReleased =>
    exact hk.of_view (k.recvView_shrinkIdleBuffers heapReleased ackReleased)

omit [Output O] [Clock C] in
private theorem Kcp.recvOk_wndSize (conv : UInt32) (output : O) (clock : C) (sndwnd rcvwnd : Int)
    (hpos : 0 < rcvwnd) :
    ((Kcp.withClock conv output clock).wndSize sndwnd rcvwnd).RecvOk
      (UInt32.ofNat rcvwnd.toNat) := by
  have hwnd : ((Kcp.withClock conv output clock).wndSize sndwnd rcvwnd).recvView =
      ⟨{}, [], 0, UInt32.ofNat rcvwnd.toNat⟩ := by
    simp only [Kcp.wndSize, if_pos hpos]
    split_ifs <;> rfl
  refine ⟨congrArg RecvView.wnd hwnd, ?_⟩
  rw [hwnd]
  refine ⟨⟨by simp [SegmentHeap.sns], by simp, by simp [SegmentHeap.sns], ?_⟩, ⟨by simp, trivial⟩,
    by simp [SegmentHeap.sns]⟩
  intro j _ hj
  simp at hj

/-- The receive window as the code relies on it. -/
structure Kcp.ReceiveWindow (k : Kcp O C) : Prop where
  distinct : k.rcvBuf.sns.Nodup
  window : ∀ sn ∈ k.rcvBuf.sns, ∃ i < k.rcvWnd.toNat, sn = k.rcvNxt + UInt32.ofNat i
  marks : k.rcvBuf.marks = k.rcvBuf.sns.toFinset
  ordered : BinaryHeap.Ordered SegmentHeap.less k.rcvBuf.segments k.rcvBuf.len
  queueLength : k.rcvQueue.length ≤ k.rcvWnd.toNat
  queueSn : ∀ i seg, k.rcvQueue.get i = some seg →
    seg.sn + UInt32.ofNat (k.rcvQueue.length - i) = k.rcvNxt
  queueDistinct : (k.rcvQueue.items.map Segment.sn).Nodup
  smallest : ∀ seg, k.rcvBuf.peek = some seg →
    (∀ other ∈ k.rcvBuf.segments,
      (seg.sn - k.rcvNxt).toNat ≤ (other.sn - k.rcvNxt).toNat) ∧
    (seg.sn = k.rcvNxt → k.rcvQueue.length = k.rcvWnd.toNat)

omit [Output O] [Clock C] in
private theorem peek_first {k : Kcp O C} (hwnd : k.rcvWnd.toNat < 2147483648)
    (hk : k.recvView.Ok) {seg : Segment} (hpeek : k.rcvBuf.peek = some seg) {other : Segment}
    (hother : other ∈ k.rcvBuf.segments) :
    (seg.sn - k.rcvNxt).toNat ≤ (other.sn - k.rcvNxt).toNat := by
  obtain ⟨h0, hseg⟩ := Array.getElem?_eq_some_iff.mp hpeek
  obtain ⟨i, hi, hget⟩ := Array.getElem_of_mem hother
  have hfirst := hk.heap.ordered.root_first (less_orderOn k.rcvNxt hwnd) hk.heap.window le_rfl i hi
  have hw := hk.heap.window seg (hseg ▸ Array.getElem_mem h0)
  have hw' := hk.heap.window other hother
  simp only [BinaryHeap.lessAt, Kcp.recvView, hi, h0, dif_pos, hseg, hget, SegmentHeap.less,
    itimediff, Serial.diff_eq, decide_eq_false_iff_not, UInt32.toNat_sub] at hfirst hw hw' ⊢
  have := seg.sn.toNat_lt
  have := other.sn.toNat_lt
  have := k.rcvNxt.toNat_lt
  omega

omit [Output O] [Clock C] in
private theorem Kcp.RecvOk.receiveWindow {k : Kcp O C} {wnd : UInt32}
    (hwnd : wnd.toNat < 2147483648) (hk : k.RecvOk wnd) : k.ReceiveWindow := by
  obtain ⟨rfl, hok⟩ := hk
  obtain ⟨hlen, hcons⟩ := hok.queue
  simp only [Kcp.recvView] at hlen hcons
  refine
    { distinct := hok.heap.nodup
      window := ?_
      marks := ?_
      ordered := hok.heap.ordered
      queueLength := hlen
      queueSn := ?_
      queueDistinct := hcons.nodup (by rw [List.length_map]; omega)
      smallest := fun seg hpeek => ⟨fun other => peek_first hwnd hok hpeek, ?_⟩ }
  · intro sn hmem
    obtain ⟨seg, hseg, rfl⟩ := SegmentHeap.mem_sns.mp hmem
    refine ⟨_, hok.heap.window seg hseg, ?_⟩
    simp only [Kcp.recvView, UInt32.ofNat_toNat]
    grind
  · ext sn
    rw [List.mem_toFinset]
    exact hok.heap.marks sn
  · intro i seg hget
    obtain ⟨hlt, hseg⟩ := List.getElem?_eq_some_iff.mp hget
    have hsn : (k.rcvQueue.items.map Segment.sn)[i]? = some seg.sn := by
      rw [List.getElem?_map, ← Fifo.get, hget]
      rfl
    rw [hcons.getElem hsn, Fifo.length]
    have hsum : UInt32.ofNat k.rcvQueue.items.length =
        UInt32.ofNat i + UInt32.ofNat (k.rcvQueue.items.length - i) := by
      rw [← UInt32.ofNat_add, Nat.add_sub_cancel' hlt.le]
    rw [hsum]
    grind
  · intro hsn
    obtain ⟨h0, hseg⟩ := Array.getElem?_eq_some_iff.mp hpeek
    exact hok.tip (SegmentHeap.mem_sns.mpr ⟨seg, hseg ▸ Array.getElem_mem h0, hsn⟩)

/-- With a fixed receive window below half the sequence space, every reachable state has a
consistent receive window. -/
theorem receive_window_reachable (conv : UInt32) (output : O) (clock : C) (sndwnd rcvwnd : Int)
    (hpos : 0 < rcvwnd) (hwnd : (UInt32.ofNat rcvwnd.toNat).toNat < 2147483648) (ops : List Op)
    (hops : ∀ op ∈ ops, op.KeepsRcvWnd (UInt32.ofNat rcvwnd.toNat)) :
    let k := (run Kcp.step ((Kcp.withClock conv output clock).wndSize sndwnd rcvwnd) ops).1
    k.rcvWnd = UInt32.ofNat rcvwnd.toNat ∧ k.ReceiveWindow := by
  have hrun := run_invariant (fun k : Kcp O C => k.RecvOk (UInt32.ofNat rcvwnd.toNat))
    (Op.KeepsRcvWnd (UInt32.ofNat rcvwnd.toNat))
    (fun k op hop hk => hk.step hwnd hop) hops
    (Kcp.recvOk_wndSize conv output clock sndwnd rcvwnd hpos)
  exact ⟨hrun.wnd, hrun.receiveWindow hwnd⟩

/-- A window of two that gets its second segment first. -/
theorem receive_window_reordered :
    let ops := [Op.input (Segment.wire { conv := 7, cmd := 81, sn := 1, data := [9] }) .regular
      false, .recv 10]
    let k := (run Kcp.step ((Kcp.withClock 7 ⟨⟩ ⟨0⟩ : Kcp Unbounded VirtualClock).wndSize 8 2)
      ops).1
    (∀ op ∈ ops, op.KeepsRcvWnd 2) ∧ k.rcvBuf.len = 1 ∧ k.rcvWnd = 2 ∧ k.ReceiveWindow := by
  intro ops k
  have hops : ∀ op ∈ ops, op.KeepsRcvWnd 2 := by simp [ops, Op.KeepsRcvWnd]
  have hrun := receive_window_reachable 7 (⟨⟩ : Unbounded) (⟨0⟩ : VirtualClock) 8 2 (by decide)
    (by decide) ops hops
  exact ⟨hops, by decide, hrun.1, hrun.2⟩

end Run

end Kcptun.Arq
