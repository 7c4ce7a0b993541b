/- Kcptun/Arq/SendWindow
   source: crates/kcp/src/kcp.rs
   digest: In every reachable state `sndBuf` holds exactly the sequence numbers from `sndUna` up to
     `sndNxt`, so the computed ring offset is the one the linear scan finds. -/

import Kcptun.Arq.Input

set_option autoImplicit false
set_option relaxedAutoImplicit false

namespace Kcptun.Arq

open Kcptun.Lib Kcptun.Lib.LittleEndian
open Kcptun.Lib.Serial (Consecutive)

structure SendView where
  una : UInt32
  nxt : UInt32
  sns : List UInt32
  rmtWnd : UInt32

/-- The representation invariant of the send window. The peer's window is a 16-bit number, which
is what bounds the length. -/
structure SendView.Ok (v : SendView) : Prop where
  consecutive : Consecutive v.una v.sns
  nxt : v.nxt = v.una + UInt32.ofNat v.sns.length
  length : v.sns.length ≤ 65535
  rmtWnd : v.rmtWnd.toNat ≤ 65535

/-- An acknowledgement cuts segments off the front and may replace the peer's window. -/
structure SendView.Trim (v w : SendView) (d : ℕ) : Prop where
  le : d ≤ v.sns.length
  una : w.una = v.una + UInt32.ofNat d
  nxt : w.nxt = v.nxt
  sns : w.sns = v.sns.drop d
  rmtWnd : v.rmtWnd.toNat ≤ 65535 → w.rmtWnd.toNat ≤ 65535

private theorem SendView.Trim.refl (v : SendView) : v.Trim v 0 :=
  ⟨Nat.zero_le _, by simp, rfl, rfl, id⟩

private theorem SendView.Trim.trans {u v w : SendView} {d e : ℕ} (h : u.Trim v d)
    (h' : v.Trim w e) : u.Trim w (d + e) := by
  have hlen := congrArg List.length h.sns
  have hle := h'.le
  have hd := h.le
  rw [List.length_drop] at hlen
  refine ⟨by omega, ?_, h'.nxt.trans h.nxt, ?_, fun hw => h'.rmtWnd (h.rmtWnd hw)⟩
  · rw [h'.una, h.una, UInt32.ofNat_add, UInt32.add_assoc]
  · rw [h'.sns, h.sns, List.drop_drop]

private theorem ofNat_sub_add {n d : ℕ} (h : d ≤ n) :
    UInt32.ofNat d + UInt32.ofNat (n - d) = UInt32.ofNat n := by
  rw [← UInt32.ofNat_add, Nat.add_sub_cancel' h]

theorem SendView.Ok.trim {v w : SendView} {d : ℕ} (hv : v.Ok) (h : v.Trim w d) : w.Ok := by
  have hle := h.le
  have hlen := hv.length
  constructor
  · rw [h.una, h.sns]
    exact hv.consecutive.drop d hle
  · rw [h.nxt, h.una, h.sns, hv.nxt, List.length_drop, UInt32.add_assoc, ofNat_sub_add hle]
  · rw [h.sns, List.length_drop]
    omega
  · exact h.rmtWnd hv.rmtWnd

private theorem scanForSn_consecutive {una sn : UInt32} {items : List Segment}
    (h : Consecutive una (items.map Segment.sn)) (hlen : items.length ≤ 65535) {i : ℕ}
    (hi : i < items.length) (hsn : sn = una + UInt32.ofNat i) :
    scanForSn sn items = some i := by
  induction items generalizing una i with
  | nil => simp at hi
  | cons seg rest ih =>
    obtain ⟨hhead, hrest⟩ := h
    simp only [List.length_cons] at hi hlen
    cases i with
    | zero =>
      have : sn = seg.sn := by rw [hsn, hhead]; simp
      simp [scanForSn, this]
    | succ i =>
      have hsucc : sn = una + 1 + UInt32.ofNat i := by
        rw [hsn, UInt32.ofNat_add, UInt32.add_assoc, UInt32.add_comm (UInt32.ofNat i)]
        rfl
      have hnat : (sn - seg.sn).toNat = i + 1 := by
        rw [hsn, hhead, UInt32.add_comm, UInt32.add_sub_cancel, UInt32.toNat_ofNat']
        omega
      have hne : sn ≠ seg.sn := by
        intro heq
        rw [heq] at hnat
        simp at hnat
      have hlt : ¬ itimediff sn seg.sn < 0 := by
        rw [Serial.diff_lt_zero, hnat]
        omega
      rw [scanForSn, if_neg hne, if_neg hlt, ih hrest (by omega) (by omega) hsucc]
      rfl

namespace Kcp

variable {O C : Type}

def sendView (k : Kcp O C) : SendView where
  una := k.sndUna
  nxt := k.sndNxt
  sns := k.sndBuf.items.map Segment.sn
  rmtWnd := k.rmtWnd

@[simp] theorem sendView_fillLast (k : Kcp O C) (buffer : Bytes) :
    (k.fillLast buffer).1.sendView = k.sendView := by
  unfold fillLast
  split
  · rfl
  · split <;> rfl

@[simp] theorem sendView_queueFragments (k : Kcp O C) (buffer : Bytes) :
    (k.queueFragments buffer).1.sendView = k.sendView := by
  simp only [queueFragments]
  split_ifs <;> rfl

@[simp] theorem sendView_send (k : Kcp O C) (buffer : Bytes) :
    (k.send buffer).1.sendView = k.sendView := by
  simp only [send]
  split_ifs <;> simp

@[simp] theorem sendView_recv (k : Kcp O C) (buflen : ℕ) :
    (k.recv buflen).1.sendView = k.sendView := by
  obtain ⟨_, _, _, _, h⟩ := k.recv_frame buflen
  rw [h]
  rfl

@[simp] theorem sendView_shrinkIdleBuffers (k : Kcp O C) (a b : Bool) :
    (k.shrinkIdleBuffers a b).1.sendView = k.sendView := by
  simp only [shrinkIdleBuffers, sendView]
  split_ifs <;> simp

@[simp] theorem sendView_updateAck (k : Kcp O C) (rtt : Int32) :
    (k.updateAck rtt).sendView = k.sendView := rfl

@[simp] theorem sendView_moveReady (k : Kcp O C) : k.moveReady.sendView = k.sendView := rfl

@[simp] theorem sendView_inputPush (k : Kcp O C) (h : SegmentHeader) (payload : Bytes) :
    (k.inputPush h payload).sendView = k.sendView := by
  simp only [inputPush, parseData]
  split_ifs <;> rfl

private theorem map_sn_modify (items : List Segment) (offset : ℕ) :
    (items.modify offset fun seg => { seg with acked := true, data := [] }).map Segment.sn =
      items.map Segment.sn := by
  induction items generalizing offset with
  | nil => cases offset <;> rfl
  | cons seg rest ih => cases offset <;> simp [List.modify_succ_cons, ih]

@[simp] theorem sendView_parseAck (k : Kcp O C) (sn : UInt32) :
    (k.parseAck sn).sendView = k.sendView := by
  simp only [parseAck]
  split
  · rfl
  · split
    · rfl
    · simp only [sendView, Fifo.items_setItems, map_sn_modify]

@[simp] private theorem bumpFastack_sn (ts fastresend : UInt32) (seg : Segment) :
    (bumpFastack ts fastresend seg).1.sn = seg.sn := by
  simp only [bumpFastack]
  split <;> rfl

@[simp] private theorem map_sn_bumpAll (ts fastresend : UInt32) (items : List Segment) :
    (bumpAll ts fastresend items).1.map Segment.sn = items.map Segment.sn := by
  induction items with
  | nil => rfl
  | cons seg rest ih => simp [bumpAll, ih]

@[simp] private theorem map_sn_bumpScan (sn ts fastresend : UInt32) (items : List Segment) :
    (bumpScan sn ts fastresend items).1.map Segment.sn = items.map Segment.sn := by
  induction items with
  | nil => rfl
  | cons seg rest ih =>
    simp only [bumpScan]
    split_ifs <;> simp [ih]

@[simp] theorem sendView_parseFastack (k : Kcp O C) (sn ts : UInt32) :
    (k.parseFastack sn ts).1.sendView = k.sendView := by
  simp only [parseFastack]
  split
  · rfl
  · split
    · rename_i offset _
      have hsplit := List.take_append_drop offset (k.sndBuf.items.map Segment.sn)
      simpa [sendView, List.map_append, ← List.map_take, ← List.map_drop] using hsplit
    · simp [sendView]

def coveredBy (k : Kcp O C) (una : UInt32) : ℕ :=
  (k.sndBuf.items.takeWhile fun seg => itimediff una seg.sn > 0).length

private theorem coveredBy_le (k : Kcp O C) (una : UInt32) :
    k.coveredBy una ≤ k.sndBuf.items.length :=
  (List.takeWhile_prefix _).length_le

private theorem sendView_inputHeader (k : Kcp O C) (pktType : PacketType) (h : SegmentHeader) :
    (k.inputHeader pktType h).1.sendView =
      { una := match (k.sndBuf.items.drop (k.coveredBy h.una)).head? with
          | some seg => seg.sn
          | none => k.sndNxt
        nxt := k.sndNxt
        sns := (k.sndBuf.items.drop (k.coveredBy h.una)).map Segment.sn
        rmtWnd := if pktType = .regular then h.wnd.toUInt32 else k.rmtWnd } := by
  unfold inputHeader
  split_ifs <;> rfl

/-- The cumulative acknowledgement of one segment removes a prefix of the window, whatever number
it carries. -/
theorem trim_inputHeader (k : Kcp O C) (hk : k.sendView.Ok) (pktType : PacketType)
    (h : SegmentHeader) : ∃ d, k.sendView.Trim (k.inputHeader pktType h).1.sendView d := by
  have hle : k.coveredBy h.una ≤ k.sendView.sns.length := by
    simpa [sendView] using k.coveredBy_le h.una
  have hcons := hk.consecutive.drop _ hle
  have hnxt := hk.nxt
  rw [sendView_inputHeader]
  refine ⟨k.coveredBy h.una, hle, ?_, rfl, by simp [sendView], ?_⟩
  · simp only [sendView, ← List.map_drop] at hcons hnxt hle ⊢
    rcases hrest : k.sndBuf.items.drop (k.coveredBy h.una) with _ | ⟨seg, rest⟩
    · have hlen := List.drop_eq_nil_iff.mp hrest
      rw [List.length_map] at hnxt hle
      rw [List.head?_nil, hnxt, le_antisymm hlen hle]
    · rw [hrest] at hcons
      exact hcons.1
  · intro hw
    have hwnd := h.wnd.toNat_lt
    dsimp only
    split_ifs
    · rw [UInt16.toNat_toUInt32]
      omega
    · exact hw

theorem trim_inputSegment (k : Kcp O C) (hk : k.sendView.Ok) (pktType : PacketType) (acc : Parsed)
    (h : SegmentHeader) (payload : Bytes) :
    ∃ d, k.sendView.Trim (k.inputSegment pktType acc h payload).1.sendView d := by
  obtain ⟨d, hd⟩ := k.trim_inputHeader hk pktType h
  refine ⟨d, ?_⟩
  have hview : (k.inputSegment pktType acc h payload).1.sendView =
      (k.inputHeader pktType h).1.sendView := by
    simp only [inputSegment]
    split_ifs
    · simp
    · simp
    · rfl
    · rfl
  rwa [hview]

private theorem trim_inputLoop (k : Kcp O C) (hk : k.sendView.Ok) (pktType : PacketType)
    (acc : Parsed) (data : Bytes) (fuel : ℕ) :
    ∃ d, k.sendView.Trim (inputLoop pktType fuel k acc data).1.sendView d := by
  induction fuel generalizing k acc data with
  | zero => exact ⟨0, .refl _⟩
  | succ fuel ih =>
    simp only [inputLoop]
    split
    · exact ⟨0, .refl _⟩
    · rename_i h rest _
      split_ifs
      · exact ⟨0, .refl _⟩
      · exact ⟨0, .refl _⟩
      · exact ⟨0, .refl _⟩
      · obtain ⟨d, hd⟩ := k.trim_inputSegment hk pktType acc h (rest.take h.len.toNat)
        obtain ⟨e, he⟩ := ih _ (hk.trim hd) (k.inputSegment pktType acc h
          (rest.take h.len.toNat)).2 (rest.drop h.len.toNat)
        exact ⟨d + e, hd.trans he⟩

@[simp] theorem sendView_inputRtt [Clock C] (k : Kcp O C) (pktType : PacketType) (acc : Parsed) :
    (k.inputRtt pktType acc).sendView = k.sendView := by
  simp only [inputRtt]
  split_ifs <;> rfl

@[simp] theorem sendView_inputCwnd (k : Kcp O C) (una : UInt32) :
    (k.inputCwnd una).sendView = k.sendView := by
  simp only [inputCwnd]
  split_ifs <;> rfl

theorem trim_inputParse [Clock C] (k : Kcp O C) (hk : k.sendView.Ok) (data : Bytes)
    (pktType : PacketType) : ∃ d, k.sendView.Trim (k.inputParse data pktType).1.sendView d := by
  obtain ⟨d, hd⟩ := k.trim_inputLoop hk pktType {} data data.length
  simp only [inputParse]
  split_ifs
  · exact ⟨0, .refl _⟩
  · refine ⟨d, ?_⟩
    split
    · rename_i heq
      rwa [heq] at hd
    · rename_i heq
      rw [heq] at hd
      simpa using hd

private theorem sendWindow_le (k : Kcp O C) : k.sendWindow ≤ k.rmtWnd := by
  simp only [sendWindow, imin]
  split_ifs <;> (simp_all [UInt32.le_iff_toNat_le]; try omega)

end Kcp

private def Admitted.view (a : Admitted) (una rmtWnd : UInt32) : SendView where
  una := una
  nxt := a.nxt
  sns := a.buf.items.map Segment.sn
  rmtWnd := rmtWnd

private theorem ok_admit (conv una cwnd rmtWnd : UInt32) (hcwnd : cwnd ≤ rmtWnd) (fuel : ℕ)
    (a : Admitted) (ha : (a.view una rmtWnd).Ok) :
    ((admitLoop conv una cwnd fuel a).view una rmtWnd).Ok := by
  induction fuel generalizing a with
  | zero => exact ha
  | succ fuel ih =>
    simp only [admitLoop]
    split_ifs with hfull
    · exact ha
    · split
      · exact ha
      · apply ih
        obtain ⟨hcons, hnxt, hlen, hrmt⟩ := ha
        simp only [Admitted.view, List.length_map] at hcons hnxt hlen hrmt
        have hroom : a.buf.items.length < cwnd.toNat := by
          rw [UInt32.le_iff_toNat_le] at hcwnd
          rw [hnxt, itimediff, Serial.diff_eq, UInt32.toNat_add, UInt32.toNat_add,
            UInt32.toNat_ofNat'] at hfull
          have := una.toNat_lt
          omega
        rw [UInt32.le_iff_toNat_le] at hcwnd
        refine ⟨?_, ?_, ?_, hrmt⟩
        · simpa [Admitted.view, hnxt] using hcons.append
        · simp only [Admitted.view, Fifo.items_push, List.map_append, List.length_append,
            List.length_map, UInt32.ofNat_add, hnxt, UInt32.add_assoc]
          rfl
        · simp only [Admitted.view, Fifo.items_push, List.length_map, List.length_append]
          simp
          omega

section Steps

variable {O C : Type} [Output O] [Clock C]

private theorem segment_sn (env : ScanEnv) (s : Scan O C) (seg : Segment) :
    (s.segment env seg).2.sn = seg.sn := by
  rcases s.segment_cases env seg with h | ⟨h, hb⟩ | ⟨h, hb, hm⟩ | ⟨marked, why, h, hb, hm⟩
  · rw [Scan.segment_acked env s h]
  · rw [Scan.segment_held env s h hb]
  · rw [Scan.segment_idle env s h hb hm]
  · rw [Scan.segment_sent env s h hb hm, mark_eq_some hm]
    rfl

@[simp] private theorem map_sn_loop (env : ScanEnv) (s : Scan O C) (items : List Segment) :
    (s.loop env items).2.map Segment.sn = items.map Segment.sn := by
  induction items generalizing s with
  | nil => rfl
  | cons seg rest ih => simp [Scan.loop, ih, segment_sn]

namespace Kcp

@[simp] theorem sendView_flushControl (k : Kcp O C) :
    k.flushControl.1.sendView = k.sendView := by
  simp only [flushControl, probeTimer]
  split_ifs <;> rfl

omit [Output O] [Clock C] in
private theorem ok_admitSegments (k : Kcp O C) (hk : k.sendView.Ok) :
    k.admitSegments.1.sendView.Ok :=
  ok_admit k.conv k.sndUna k.sendWindow k.rmtWnd k.sendWindow_le _ _ hk

@[simp] theorem sendView_scanSegments (k : Kcp O C) (p : Packer O) (newSegs : ℕ) :
    (k.scanSegments p newSegs).1.sendView = k.sendView := by
  simp only [scanSegments, sendView, Fifo.items_setItems, List.map_append, map_sn_loop]
  rw [← List.map_append, List.take_append_drop]

private theorem sendView_flush (k : Kcp O C) (flushType : FlushType) :
    (k.flush flushType).1.sendView = k.flushControl.1.admitSegments.1.sendView := by
  cases flushType
  · obtain ⟨ssthresh, cwnd, incr, h⟩ := k.flush_ackOnly
    rw [h]
    rfl
  · obtain ⟨ssthresh, cwnd, incr, h⟩ := k.flush_full
    rw [h]
    exact sendView_scanSegments k.flushControl.1.admitSegments.1 _ _

theorem ok_flush (k : Kcp O C) (hk : k.sendView.Ok) (flushType : FlushType) :
    (k.flush flushType).1.sendView.Ok := by
  rw [sendView_flush]
  apply ok_admitSegments
  rwa [sendView_flushControl]

private theorem sndUna_flush (k : Kcp O C) (flushType : FlushType) :
    (k.flush flushType).1.sndUna = k.sndUna := by
  have hview := congrArg SendView.una (k.sendView_flush flushType)
  exact hview.trans (congrArg SendView.una k.sendView_flushControl)

private theorem sndUna_input (k : Kcp O C) (hk : k.sendView.Ok) (data : Bytes)
    (pktType : PacketType) (ackNoDelay : Bool) : ∃ d ≤ k.sndBuf.length,
      (k.input data pktType ackNoDelay).1.sndUna = k.sndUna + UInt32.ofNat d := by
  obtain ⟨d, hd⟩ := k.trim_inputParse hk data pktType
  have hle : d ≤ k.sndBuf.length := by simpa [sendView, Fifo.length] using hd.le
  refine ⟨d, hle, ?_⟩
  obtain heq | ⟨flushType, heq⟩ := k.input_cases data pktType ackNoDelay
  · rw [heq]
    exact hd.una
  · rw [heq, sndUna_flush]
    exact hd.una

private theorem ok_input (k : Kcp O C) (hk : k.sendView.Ok) (data : Bytes) (pktType : PacketType)
    (ackNoDelay : Bool) : (k.input data pktType ackNoDelay).1.sendView.Ok := by
  obtain ⟨d, hd⟩ := k.trim_inputParse hk data pktType
  obtain heq | ⟨flushType, heq⟩ := k.input_cases data pktType ackNoDelay
  · rw [heq]
    exact hk.trim hd
  · rw [heq]
    exact ok_flush _ (hk.trim hd) flushType

private theorem ok_update (k : Kcp O C) (hk : k.sendView.Ok) : k.update.sendView.Ok := by
  have htimer : k.updateTimer.1.sendView = k.sendView := by
    obtain ⟨clock, updated, tsFlush, h⟩ := k.updateTimer_frame
    rw [h]
    rfl
  simp only [update]
  split
  · exact ok_flush _ (htimer ▸ hk) .full
  · exact htimer ▸ hk

theorem ok_step (k : Kcp O C) (hk : k.sendView.Ok) (op : Op) : (k.step op).1.sendView.Ok := by
  cases op with
  | send buffer => simpa [step] using hk
  | recv buflen => simpa [step] using hk
  | input data pktType ackNoDelay => exact ok_input k hk data pktType ackNoDelay
  | flush flushType => exact ok_flush k hk flushType
  | update => exact ok_update k hk
  | nodelay nodelay interval resend nc =>
    have hview : (k.setNodelay nodelay interval resend nc).sendView = k.sendView := by
      obtain ⟨_, _, _, _, _, h⟩ := k.setNodelay_frame nodelay interval resend nc
      rw [h]
      rfl
    exact hview ▸ hk
  | setMtu mtu =>
    have hview : (k.setMtu mtu).1.sendView = k.sendView := by
      obtain ⟨_, _, h⟩ := k.setMtu_frame mtu
      rw [h]
      rfl
    exact hview ▸ hk
  | wndSize sndwnd rcvwnd =>
    have hview : (k.wndSize sndwnd rcvwnd).sendView = k.sendView := by
      obtain ⟨_, _, h⟩ := k.wndSize_frame sndwnd rcvwnd
      rw [h]
      rfl
    exact hview ▸ hk
  | setStream stream => exact hk
  | shrinkIdleBuffers heapReleased ackReleased => simpa [step] using hk

omit [Output O] [Clock C] in
theorem ok_withClock (conv : UInt32) (output : O) (clock : C) :
    (withClock conv output clock : Kcp O C).sendView.Ok := by
  constructor
  · trivial
  · rfl
  · exact Nat.zero_le _
  · change IKCP_WND_RCV.toNat ≤ 65535
    decide

private theorem ok_run (k : Kcp O C) (hk : k.sendView.Ok) (ops : List Op) :
    (run step k ops).1.sendView.Ok :=
  run_invariant (fun k : Kcp O C => k.sendView.Ok) (fun _ => True)
    (fun k op _ hk => ok_step k hk op) (fun _ _ => trivial) hk

omit [Output O] [Clock C] in
theorem sndBufOffset_eq_some {k : Kcp O C} {sn : UInt32} {offset : ℕ}
    (h : k.sndBufOffset sn = some offset) :
    offset < k.sndBuf.items.length ∧ sn = k.sndUna + UInt32.ofNat offset := by
  unfold sndBufOffset at h
  split_ifs at h
  dsimp only at h
  split at h
  · rename_i seg hget
    split_ifs at h with hsn
    cases h
    obtain ⟨hlt, hseg⟩ := List.getElem?_eq_some_iff.mp hget
    exact ⟨hlt, by rw [UInt32.ofNat_toNat, UInt32.add_comm, UInt32.sub_add_cancel]⟩
  · cases h

omit [Output O] [Clock C] in
theorem scanForSn_of_sndBufOffset {k : Kcp O C} (hk : k.sendView.Ok) {sn : UInt32} {offset : ℕ}
    (h : k.sndBufOffset sn = some offset) : scanForSn sn k.sndBuf.items = some offset := by
  obtain ⟨hlt, hsn⟩ := sndBufOffset_eq_some h
  have hlen := hk.length
  have hcons := hk.consecutive
  simp only [sendView, List.length_map] at hlen hcons
  exact scanForSn_consecutive hcons hlen hlt hsn

structure SendWindow (k : Kcp O C) : Prop where
  sn : ∀ i seg, k.sndBuf.get i = some seg → seg.sn = k.sndUna + UInt32.ofNat i
  nxt : k.sndNxt = k.sndUna + UInt32.ofNat k.sndBuf.length
  length : k.sndBuf.length ≤ 65535
  offset : ∀ sn o, k.sndBufOffset sn = some o → scanForSn sn k.sndBuf.items = some o

omit [Output O] [Clock C] in
private theorem sendWindow_of_ok {k : Kcp O C} (hk : k.sendView.Ok) : k.SendWindow where
  sn := by
    intro i seg hget
    have hsn : k.sendView.sns[i]? = some seg.sn := by
      rw [sendView, List.getElem?_map, ← Fifo.get, hget]
      rfl
    exact hk.consecutive.getElem hsn
  nxt := by simpa [sendView, Fifo.length] using hk.nxt
  length := by simpa [sendView, Fifo.length] using hk.length
  offset := fun _ _ => scanForSn_of_sndBufOffset hk

/-- In every reachable state the send window is consistent; so it is at every point of `input`
where an offset is computed, and no input packet moves `sndUna` past the end of `sndBuf`. -/
theorem send_window_reachable (conv : UInt32) (output : O) (clock : C) (ops : List Op) :
    let k := (run step (withClock conv output clock : Kcp O C) ops).1
    k.SendWindow ∧
    (∀ data pktType ackNoDelay, ∃ d ≤ k.sndBuf.length,
      (k.input data pktType ackNoDelay).1.sndUna = k.sndUna + UInt32.ofNat d) ∧
    ∀ data pktType fuel h,
      let mid := ((inputLoop pktType fuel k {} data).1.inputHeader pktType h).1
      mid.SendWindow ∧ (mid.parseAck h.sn).SendWindow ∧
      ∃ d ≤ k.sndBuf.length, mid.sndUna = k.sndUna + UInt32.ofNat d := by
  intro k
  have hk : k.sendView.Ok := ok_run _ (ok_withClock conv output clock) ops
  refine ⟨sendWindow_of_ok hk, sndUna_input k hk, ?_⟩
  intro data pktType fuel h mid
  obtain ⟨d, hd⟩ := k.trim_inputLoop hk pktType {} data fuel
  obtain ⟨e, he⟩ := trim_inputHeader _ (hk.trim hd) pktType h
  have hmid : mid.sendView.Ok := (hk.trim hd).trim he
  have hack : (mid.parseAck h.sn).sendView.Ok := by rwa [sendView_parseAck]
  have hde := hd.trans he
  have hle : d + e ≤ k.sndBuf.length := by simpa [sendView, Fifo.length] using hde.le
  exact ⟨sendWindow_of_ok hmid, sendWindow_of_ok hack, d + e, hle, hde.una⟩

end Kcp

end Steps

end Kcptun.Arq
