/- Kcptun/Session/Reader
   source: crates/kcp/src/session.rs (try_read, bufptr_len), crates/kcp/src/kcp.rs (peek_size, recv)
   digest: Reads of a session over everything a peer can send, when a read is served, and the
     receive queues that no read gets past. -/

import Kcptun.Arq.ReceiveWindow
import Kcptun.Fec.Encoder

set_option autoImplicit false
set_option relaxedAutoImplicit false

namespace Kcptun.Session

open Kcptun.Arq Kcptun.Lib Kcptun.Lib.LittleEndian
open Kcptun.Fec (MTU_LIMIT)

/-- The state `try_read` works on: `recvbuf` from `bufptr` on is what is left of a message that did
not fit the caller's buffer. -/
structure Reader (O C : Type) where
  kcp : Kcp O C
  recvbuf : Bytes
  bufptr : ℕ

namespace Reader

variable {O C : Type}

def new (kcp : Kcp O C) : Reader O C := ⟨kcp, List.replicate MTU_LIMIT 0, MTU_LIMIT⟩

def bufptrLen (r : Reader O C) : ℕ := r.recvbuf.length - r.bufptr

/-- One pass of `read` with a buffer of `size` bytes: the returned count and the bytes written to the
buffer, or nothing when the call has to block. -/
def tryRead (r : Reader O C) (size : ℕ) : Reader O C × Option (ℕ × Bytes) :=
  if r.bufptrLen > 0 then
    let n := min size r.bufptrLen
    ({ r with bufptr := r.bufptr + n }, some (n, (r.recvbuf.drop r.bufptr).take n))
  else if r.kcp.peekSize > 0 then
    let peeked := r.kcp.peekSize.toNat
    if size ≥ peeked then
      ({ r with kcp := (r.kcp.recv size).1 }, some (peeked, (r.kcp.recv size).2.2))
    else
      let recvbuf := (r.kcp.recv peeked).2.2
      let n := min size recvbuf.length
      (⟨(r.kcp.recv peeked).1, recvbuf, n⟩, some (n, recvbuf.take n))
  else (r, none)

/-- What reaches a session from outside: a packet for `Kcp::input`, or a read. -/
inductive Op where
  | input (data : Bytes) (pktType : PacketType) (ackNoDelay : Bool)
  | tryRead (size : ℕ)
deriving DecidableEq

def step [Output O] [Clock C] (r : Reader O C) : Op → Reader O C × Option (ℕ × Bytes)
  | .input data pktType ackNoDelay =>
    ({ r with kcp := (r.kcp.input data pktType ackNoDelay).1 }, none)
  | .tryRead size => r.tryRead size

def firstRun : List Segment → List Segment
  | [] => []
  | seg :: rest => if seg.frg = 0 then [seg] else seg :: firstRun rest

/-- A complete run of segments, from the head or from after another one, with a payload byte in it
or after it. -/
def HoldsMessage (items : List Segment) : Prop :=
  ∃ before run last after, items = before ++ run ++ last :: after ∧
    (∀ seg, before.getLast? = some seg → seg.frg = 0) ∧ (∀ seg ∈ run, seg.frg ≠ 0) ∧
    last.frg = 0 ∧ ∃ seg ∈ run ++ last :: after, seg.data ≠ []

def Drainable (r : Reader O C) : Prop :=
  r.kcp.rcvQueue.length ≥ r.kcp.rcvWnd.toNat ∨ HoldsMessage r.kcp.rcvQueue.items

def Serves (r : Reader O C) : Prop :=
  ∀ size > 0, ∃ n bytes, (r.tryRead size).2 = some (n, bytes) ∧ n ≥ 1

/-- The first run of the queue has no payload byte, or its first segment announces more fragments
than are queued; `frg = 255` announces none. -/
def Blocked (items : List Segment) : Prop :=
  (∀ seg ∈ firstRun items, seg.data = []) ∨
    ∃ head ∈ items.head?, head.frg ≠ 0 ∧ items.length < (head.frg + 1).toNat

instance (items : List Segment) : Decidable (Blocked items) := by
  unfold Blocked
  cases items.head? <;> infer_instance

/-- Nothing is left over from an earlier message, and the queue is blocked. -/
def Wedged (r : Reader O C) : Prop := r.bufptrLen = 0 ∧ Blocked r.kcp.rcvQueue.items

private theorem runBytes_eq_zero_iff (items : List Segment) :
    runBytes items = 0 ↔ ∀ seg ∈ firstRun items, seg.data = [] := by
  induction items with
  | nil => simp [runBytes, firstRun]
  | cons seg rest ih =>
    unfold runBytes firstRun
    split_ifs
    · simp
    · rw [Nat.add_eq_zero_iff, List.length_eq_zero_iff, ih, List.forall_mem_cons]

private theorem peekSize_pos_iff {k : Kcp O C} (hne : k.rcvQueue.items ≠ []) :
    k.peekSize > 0 ↔ ¬Blocked k.rcvQueue.items := by
  unfold Kcp.peekSize Blocked Fifo.length
  cases hitems : k.rcvQueue.items with
  | nil => exact absurd hitems hne
  | cons head rest =>
    have hzero := runBytes_eq_zero_iff (head :: rest)
    dsimp only
    split_ifs with hfrg hshort
    · have hrun : firstRun (head :: rest) = [head] := by rw [firstRun, if_pos hfrg]
      rw [hrun]
      simp [hfrg, List.length_pos_iff]
    · exact iff_of_false (by omega) (not_not_intro (Or.inr ⟨head, rfl, hfrg, hshort⟩))
    · rw [← hzero, not_or]
      constructor
      · intro hpos
        refine ⟨by omega, ?_⟩
        rintro ⟨seg, hseg, -, hlt⟩
        cases hseg
        exact hshort hlt
      · rintro ⟨hne, -⟩
        exact Int.natCast_pos.mpr (Nat.pos_of_ne_zero hne)

theorem length_popRun (items : List Segment) : (popRun items).1.length = runBytes items := by
  induction items with
  | nil => rfl
  | cons seg rest ih =>
    unfold popRun runBytes
    split_ifs
    · simp
    · rw [List.length_append, ih]

theorem peekSize_eq_runBytes {k : Kcp O C} (hsome : 0 ≤ k.peekSize) :
    k.peekSize = runBytes k.rcvQueue.items := by
  unfold Kcp.peekSize at hsome ⊢
  cases hitems : k.rcvQueue.items with
  | nil =>
    rw [hitems] at hsome
    change (0 : ℤ) ≤ -1 at hsome
    omega
  | cons head rest =>
    rw [hitems] at hsome
    dsimp only at hsome ⊢
    split_ifs at hsome ⊢ with hfrg hshort
    · rw [runBytes, if_pos hfrg, Nat.add_zero]
    · exact absurd hsome (by decide)
    · rfl

theorem length_recv {k : Kcp O C} (hpos : k.peekSize > 0) {buflen : ℕ} (hfits : k.peekSize ≤ buflen) :
    (k.recv buflen).2.2.length = k.peekSize.toNat := by
  have hrun := peekSize_eq_runBytes hpos.le
  unfold Kcp.recv
  rw [if_neg (by omega), if_neg (by omega), hrun]
  dsimp only
  rw [length_popRun, Int.toNat_natCast]

private theorem serves_iff {r : Reader O C} (hne : r.kcp.rcvQueue.items ≠ []) :
    r.Serves ↔ ¬r.Wedged := by
  have hpeek := peekSize_pos_iff hne
  unfold Serves Wedged
  constructor
  · rintro hserves ⟨hleft, hblocked⟩
    obtain ⟨n, bytes, hread, -⟩ := hserves 1 one_pos
    rw [tryRead, if_neg (by omega), if_neg (fun hpos => hpeek.mp hpos hblocked)] at hread
    cases hread
  · intro hfree size hsize
    rw [tryRead]
    by_cases hleft : r.bufptrLen > 0
    · rw [if_pos hleft]
      exact ⟨_, _, rfl, Nat.le_min.mpr ⟨hsize, hleft⟩⟩
    · have hpos := hpeek.mpr (fun hblocked => hfree ⟨by omega, hblocked⟩)
      have hone : r.kcp.peekSize.toNat ≥ 1 := by omega
      rw [if_neg hleft, if_pos hpos]
      dsimp only
      split_ifs
      · exact ⟨_, _, rfl, hone⟩
      · refine ⟨_, _, rfl, Nat.le_min.mpr ⟨hsize, ?_⟩⟩
        rwa [length_recv hpos (Int.self_le_toNat _)]

/-- What `Kcp::input` may do to the receive queue: append to it while there is room. -/
structure Grows (k k' : Kcp O C) : Prop where
  wnd : k'.rcvWnd = k.rcvWnd
  queue : ∃ tail, k'.rcvQueue.items = k.rcvQueue.items ++ tail ∧
    (k.rcvWnd.toNat ≤ k.rcvQueue.length → tail = [])

private theorem Grows.of_view {k k' : Kcp O C} (h : k'.recvView = k.recvView) : Grows k k' :=
  ⟨congrArg RecvView.wnd h, [], (congrArg RecvView.queue h).trans (List.append_nil _).symm,
    fun _ => rfl⟩

private theorem Grows.trans {k k' k'' : Kcp O C} (h : Grows k k') (h' : Grows k' k'') :
    Grows k k'' := by
  obtain ⟨tail, hitems, hfull⟩ := h.queue
  obtain ⟨tail', hitems', hfull'⟩ := h'.queue
  refine ⟨h'.wnd.trans h.wnd, tail ++ tail', ?_, ?_⟩
  · rw [hitems', hitems, List.append_assoc]
  · intro hlen
    have hnil := hfull hlen
    rw [hnil, List.append_nil] at hitems
    rw [hnil, List.nil_append]
    apply hfull'
    rwa [h.wnd, Fifo.length, hitems]

private theorem drain_grows (wnd : UInt32) (fuel : ℕ) (r : Ready) :
    ∃ tail, (drain wnd fuel r).queue.items = r.queue.items ++ tail ∧
      (wnd.toNat ≤ r.queue.length → tail = []) := by
  induction fuel generalizing r with
  | zero => exact ⟨[], (List.append_nil _).symm, fun _ => rfl⟩
  | succ fuel ih =>
    unfold drain
    split
    next => exact ⟨[], (List.append_nil _).symm, fun _ => rfl⟩
    next seg buf hpop =>
      split_ifs with hfits
      · obtain ⟨tail, hitems, -⟩ := ih ⟨buf, r.queue.push seg, r.nxt + 1⟩
        refine ⟨seg :: tail, ?_, fun hfull => absurd hfits.2 (not_lt.mpr hfull)⟩
        rw [hitems, Fifo.items_push, List.append_assoc, List.singleton_append]
      · exact ⟨[], (List.append_nil _).symm, fun _ => rfl⟩

theorem grows_moveReady (k : Kcp O C) : Grows k k.moveReady := ⟨rfl, drain_grows _ _ _⟩

private theorem grows_inputPush (k : Kcp O C) (h : SegmentHeader) (payload : Bytes) :
    Grows k (k.inputPush h payload) := by
  have hpushed (buf : SegmentHeap) (acklist : List AckItem) :
      Grows k ({ k with rcvBuf := buf, acklist := acklist } : Kcp O C).moveReady :=
    ⟨rfl, drain_grows _ _ _⟩
  simp only [Kcp.inputPush, Kcp.parseData]
  split_ifs
  · exact ⟨rfl, [], (List.append_nil _).symm, fun _ => rfl⟩
  · exact hpushed _ _
  · exact hpushed _ _
  · exact ⟨rfl, [], (List.append_nil _).symm, fun _ => rfl⟩
  · exact Grows.of_view rfl

private theorem grows_inputSegment (k : Kcp O C) (pktType : PacketType) (acc : Parsed)
    (h : SegmentHeader) (payload : Bytes) : Grows k (k.inputSegment pktType acc h payload).1 := by
  have hview := k.recvView_inputSegment pktType acc h payload
  split_ifs at hview
  · exact ((Grows.of_view (k.recvView_inputHeader pktType h)).trans
      (grows_inputPush _ h payload)).trans (Grows.of_view hview)
  · exact Grows.of_view hview

private theorem grows_inputLoop (pktType : PacketType) (fuel : ℕ) (k : Kcp O C) (acc : Parsed)
    (data : Bytes) : Grows k (Kcp.inputLoop pktType fuel k acc data).1 := by
  induction fuel generalizing k acc data with
  | zero => exact Grows.of_view rfl
  | succ fuel ih =>
    simp only [Kcp.inputLoop]
    split
    next => exact Grows.of_view rfl
    next h rest hdecode =>
      split_ifs
      · exact Grows.of_view rfl
      · exact Grows.of_view rfl
      · exact Grows.of_view rfl
      · exact (grows_inputSegment k pktType acc _ _).trans (ih _ _ _)

section Run

variable [Output O] [Clock C]

omit [Output O] in
private theorem grows_inputParse (k : Kcp O C) (data : Bytes) (pktType : PacketType) :
    Grows k (k.inputParse data pktType).1 := by
  have hloop := grows_inputLoop pktType data.length k {} data
  simp only [Kcp.inputParse]
  split_ifs
  · exact Grows.of_view rfl
  · split
    next heq => rwa [heq] at hloop
    next heq =>
      rw [heq] at hloop
      exact hloop.trans (Grows.of_view (by simp))

theorem grows_input (k : Kcp O C) (data : Bytes) (pktType : PacketType) (ackNoDelay : Bool) :
    Grows k (k.input data pktType ackNoDelay).1 := by
  have hparse := grows_inputParse k data pktType
  obtain heq | ⟨flushType, heq⟩ := k.input_cases data pktType ackNoDelay
  · rwa [heq]
  · rw [heq]
    exact hparse.trans (Grows.of_view (Kcp.recvView_flush _ flushType))

omit [Output O] [Clock C] in
private theorem rcvWnd_recv (k : Kcp O C) (buflen : ℕ) : (k.recv buflen).1.rcvWnd = k.rcvWnd := by
  obtain ⟨_, _, _, _, h⟩ := k.recv_frame buflen
  rw [h]

private theorem rcvWnd_step (r : Reader O C) (op : Op) :
    (r.step op).1.kcp.rcvWnd = r.kcp.rcvWnd := by
  cases op with
  | input data pktType ackNoDelay => exact (grows_input r.kcp data pktType ackNoDelay).wnd
  | tryRead size =>
    simp only [step, tryRead]
    split_ifs
    · rfl
    · exact rcvWnd_recv r.kcp size
    · exact rcvWnd_recv r.kcp _
    · rfl

private theorem rcvWnd_run (r : Reader O C) (ops : List Op) :
    (run step r ops).1.kcp.rcvWnd = r.kcp.rcvWnd :=
  run_invariant (fun r' : Reader O C => r'.kcp.rcvWnd = r.kcp.rcvWnd) (fun _ => True)
    (fun r' op _ hwnd => (rcvWnd_step r' op).trans hwnd) (fun _ _ => trivial) rfl

omit [Output O] [Clock C] in
private theorem Drainable.items_ne_nil {r : Reader O C} (h : r.Drainable)
    (hwnd : 1 ≤ r.kcp.rcvWnd.toNat) : r.kcp.rcvQueue.items ≠ [] := by
  rcases h with hfull | ⟨before, run, last, after, hitems, -⟩
  · exact List.ne_nil_of_length_pos (hwnd.trans hfull)
  · rw [hitems]
    simp

/-- In every run of a new session with a receive window, every state whose receive queue is full or
holds a message serves reads, exactly when no such state is wedged. -/
theorem reads_served_iff (conv : UInt32) (output : O) (clock : C) (sndwnd rcvwnd : Int)
    (hwnd : 1 ≤ ((Kcp.withClock conv output clock).wndSize sndwnd rcvwnd).rcvWnd.toNat)
    (ops : List Op) :
    let after := fun pre =>
      (run step (new ((Kcp.withClock conv output clock).wndSize sndwnd rcvwnd)) pre).1
    (∀ pre, pre <+: ops → (after pre).Drainable → (after pre).Serves) ↔
      ∀ pre, pre <+: ops → (after pre).Drainable → ¬(after pre).Wedged := by
  intro after
  have hiff (pre : List Op) (hdrain : (after pre).Drainable) :
      (after pre).Serves ↔ ¬(after pre).Wedged := by
    refine serves_iff (hdrain.items_ne_nil ?_)
    rw [rcvWnd_run]
    exact hwnd
  constructor
  · intro hserves pre hpre hdrain
    exact (hiff pre hdrain).mp (hserves pre hpre hdrain)
  · intro hfree pre hpre hdrain
    exact (hiff pre hdrain).mpr (hfree pre hpre hdrain)

/-- A reader that nothing can free: the first run is complete and empty, or the queue is blocked and
full. -/
def Frozen (r : Reader O C) : Prop :=
  r.bufptrLen = 0 ∧
    (((∃ seg ∈ r.kcp.rcvQueue.items, seg.frg = 0) ∧
        ∀ seg ∈ firstRun r.kcp.rcvQueue.items, seg.data = []) ∨
      (r.kcp.rcvQueue.items ≠ [] ∧ r.kcp.rcvWnd.toNat ≤ r.kcp.rcvQueue.length ∧
        Blocked r.kcp.rcvQueue.items))

omit [Output O] [Clock C] in
private theorem firstRun_append {items : List Segment} (h : ∃ seg ∈ items, seg.frg = 0)
    (tail : List Segment) : firstRun (items ++ tail) = firstRun items := by
  induction items with
  | nil => simp at h
  | cons seg rest ih =>
    rw [List.cons_append, firstRun, firstRun]
    split_ifs with hfrg
    · rfl
    · rw [ih]
      obtain ⟨last, hlast, hzero⟩ := h
      rcases List.mem_cons.mp hlast with rfl | hmem
      · exact absurd hzero hfrg
      · exact ⟨last, hmem, hzero⟩

omit [Output O] [Clock C] in
private theorem Frozen.wedged {r : Reader O C} (h : r.Frozen) :
    r.kcp.rcvQueue.items ≠ [] ∧ r.Wedged := by
  obtain ⟨hleft, ⟨⟨seg, hmem, -⟩, hempty⟩ | ⟨hne, -, hblocked⟩⟩ := h
  · exact ⟨List.ne_nil_of_mem hmem, hleft, Or.inl hempty⟩
  · exact ⟨hne, hleft, hblocked⟩

omit [Output O] [Clock C] in
private theorem Frozen.tryRead {r : Reader O C} (h : r.Frozen) (size : ℕ) :
    r.tryRead size = (r, none) := by
  obtain ⟨hne, hleft, hblocked⟩ := h.wedged
  have hpeek : ¬r.kcp.peekSize > 0 := fun hpos => (peekSize_pos_iff hne).mp hpos hblocked
  rw [Reader.tryRead, if_neg (by omega), if_neg hpeek]

omit [Output O] [Clock C] in
private theorem Frozen.grows {r : Reader O C} (h : r.Frozen) {k : Kcp O C}
    (hgrows : Grows r.kcp k) : ({ r with kcp := k } : Reader O C).Frozen := by
  obtain ⟨hwnd, tail, hitems, hroom⟩ := hgrows
  refine ⟨h.1, ?_⟩
  rcases h.2 with ⟨hlast, hempty⟩ | ⟨hne, hfull, hblocked⟩
  · left
    rw [hitems, firstRun_append hlast]
    obtain ⟨seg, hmem, hzero⟩ := hlast
    exact ⟨⟨seg, List.mem_append_left tail hmem, hzero⟩, hempty⟩
  · right
    rw [hroom hfull, List.append_nil] at hitems
    rw [Fifo.length, hitems, hwnd]
    exact ⟨hne, hfull, hblocked⟩

private theorem frozen_run {r : Reader O C} (h : r.Frozen) (ops : List Op) :
    (run step r ops).1.Frozen ∧ ∀ ret ∈ (run step r ops).2, ret = none := by
  induction ops generalizing r with
  | nil => exact ⟨h, by simp⟩
  | cons op ops ih =>
    have hstep : (r.step op).1.Frozen ∧ (r.step op).2 = none := by
      cases op with
      | input data pktType ackNoDelay => exact ⟨h.grows (grows_input _ _ _ _), rfl⟩
      | tryRead size =>
        rw [step, h.tryRead size]
        exact ⟨h, rfl⟩
    obtain ⟨hfrozen, hnone⟩ := ih hstep.1
    rw [run_cons]
    exact ⟨hfrozen, List.forall_mem_cons.mpr ⟨hstep.2, hnone⟩⟩

end Run

def windowOfOne : Kcp Unbounded VirtualClock := (Kcp.withClock 7 ⟨⟩ ⟨0⟩).wndSize 8 1

/-- One PUSH segment with the given payload, the last of its message. -/
def onePush (data : Bytes) : List Op :=
  [.input (Segment.wire { conv := 7, cmd := 81, sn := 0, data := data }) .regular false]

/-- A window of one filled by one byte of payload is served. -/
theorem reads_served_one_byte :
    (run step (new windowOfOne) (onePush [9])).1.Drainable ∧
      (run step (new windowOfOne) (onePush [9])).1.Serves := by
  have hserved := (reads_served_iff 7 (⟨⟩ : Unbounded) (⟨0⟩ : VirtualClock) 8 1 (by decide)
    (onePush [9])).mpr ?_
  · have hdrain : (run step (new windowOfOne) (onePush [9])).1.Drainable :=
      Or.inl (by decide +kernel)
    exact ⟨hdrain, hserved _ (List.prefix_refl _) hdrain⟩
  · rintro pre hpre hdrain ⟨-, hblocked⟩
    rcases List.prefix_cons_iff.mp hpre with rfl | ⟨rest, rfl, hrest⟩
    · exact hdrain.items_ne_nil (by decide) (by decide)
    · obtain rfl := List.prefix_nil.mp hrest
      revert hblocked
      decide +kernel

/-- A window of one filled by one empty segment serves no read, then or ever after. -/
theorem full_window_not_served :
    let r := (run step (new windowOfOne) (onePush [])).1
    r.Drainable ∧ ¬r.Serves ∧ ∀ ops, ∀ ret ∈ (run step r ops).2, ret = none := by
  intro r
  have hfull : r.kcp.rcvQueue.length ≥ r.kcp.rcvWnd.toNat := by decide +kernel
  have hfrozen : r.Frozen := by
    refine ⟨by decide +kernel, Or.inr ⟨?_, hfull, by decide +kernel⟩⟩
    exact List.ne_nil_of_length_pos (show 0 < r.kcp.rcvQueue.length by decide +kernel)
  refine ⟨Or.inl hfull, ?_, fun ops => (frozen_run hfrozen ops).2⟩
  rw [serves_iff hfrozen.wedged.1]
  exact not_not_intro hfrozen.wedged.2

end Reader

end Kcptun.Session
