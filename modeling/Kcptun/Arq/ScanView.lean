/- Kcptun/Arq/ScanView
   source: crates/kcp/src/kcp.rs (parse_una, parse_ack, parse_fastack, flush)
   digest: The summary of the last scan stays valid through acknowledgements, cumulative
     acknowledgements, duplicate counting, admissions and the passing of time. -/

import Kcptun.Arq.ScanBound
import Kcptun.Arq.Packets

set_option autoImplicit false
set_option relaxedAutoImplicit false

namespace Kcptun.Arq

open Kcptun.Lib Kcptun.Lib.LittleEndian

/-- The part of a connection that the summary of the last scan speaks about. -/
structure ScanView (C : Type) where
  items : List Segment
  scan : FlushScan
  clock : C

/-- The summary is right, and the last full flush is in the past. -/
structure ScanView.Ok {C : Type} [TrueClock C] (v : ScanView C) (last : Option ℕ) : Prop where
  holds : v.scan.Holds v.items (TrueClock.time v.clock) last
  past : ∀ l, last = some l → l ≤ TrueClock.time v.clock

private theorem ScanView.Ok.later {C : Type} [TrueClock C] {v : ScanView C} {last : Option ℕ}
    (h : v.Ok last) {clock : C} (hle : TrueClock.time v.clock ≤ TrueClock.time clock) :
    ScanView.Ok { v with clock := clock } last :=
  ⟨h.holds.later hle, fun l hl => (h.past l hl).trans hle⟩

/-- What acknowledgements do to one segment, when `quiet` says that none was raised. -/
structure Segment.Acks (quiet : Bool) (seg seg' : Segment) : Prop where
  xmit : seg'.xmit = seg.xmit
  resendts : seg'.resendts = seg.resendts
  acked : seg'.acked = false → seg.acked = false
  fastack : quiet = true → seg'.acked = false → seg'.fastack = seg.fastack

private theorem Segment.Acks.refl (quiet : Bool) (seg : Segment) : seg.Acks quiet seg :=
  ⟨rfl, rfl, id, fun _ _ => rfl⟩

private theorem exists_of_mem_right {α β : Type} {r : α → β → Prop} {xs : List α} {ys : List β}
    (h : List.Forall₂ r xs ys) {y : β} (hy : y ∈ ys) : ∃ x ∈ xs, r x y := by
  induction h with
  | nil => cases hy
  | cons hxy _ ih =>
    rcases List.mem_cons.mp hy with rfl | hmem
    · exact ⟨_, List.mem_cons_self, hxy⟩
    · obtain ⟨x, hx, hr⟩ := ih hmem
      exact ⟨x, List.mem_cons_of_mem _ hx, hr⟩

/-- Acknowledgements keep the summary, provided it no longer promises the absence of duplicates
when one was counted. -/
theorem FlushScan.Holds.acks {f : FlushScan} {items items' : List Segment} {now : ℕ}
    {last : Option ℕ} (h : f.Holds items now last) {quiet : Bool}
    (hitems : List.Forall₂ (Segment.Acks quiet) items items') :
    FlushScan.Holds { f with noFastack := f.noFastack && quiet } items' now last := by
  have hcovered : ∀ seg' ∈ f.covered items', ∃ seg ∈ f.covered items, seg.Acks quiet seg' := by
    intro seg' hseg'
    have hlen := hitems.length_eq
    unfold FlushScan.covered at hseg' ⊢
    rw [← hlen] at hseg'
    exact exists_of_mem_right (List.forall₂_take _ hitems) hseg'
  refine ⟨?_, h.due.sub le_rfl ?_, ?_⟩
  · intro hdue seg' hseg'
    obtain ⟨seg, hseg, hacks⟩ := hcovered seg' hseg'
    rw [hacks.xmit]
    exact h.sent hdue seg hseg
  · intro seg' hseg' ha
    obtain ⟨seg, hseg, hacks⟩ := hcovered seg' hseg'
    exact ⟨seg, hseg, hacks.acked ha, hacks.resendts⟩
  · intro hfast seg' hseg' ha
    obtain ⟨seg, hseg, hacks⟩ := hcovered seg' hseg'
    rw [Bool.and_eq_true] at hfast
    have hquiet := h.fast hfast.1 seg hseg (hacks.acked ha)
    unfold Segment.Quiet at hquiet ⊢
    rwa [hacks.fastack hfast.2 ha]

private theorem FlushScan.Holds.drop {f : FlushScan} {items : List Segment} {now : ℕ}
    {last : Option ℕ} (h : f.Holds items now last) (n : ℕ) :
    FlushScan.Holds { f with unsent := min f.unsent (items.drop n).length } (items.drop n) now
      last := by
  have hcovered : ∀ seg ∈ FlushScan.covered { f with unsent := min f.unsent (items.drop n).length }
      (items.drop n), seg ∈ f.covered items := by
    intro seg hseg
    unfold FlushScan.covered at hseg ⊢
    dsimp only at hseg
    rw [List.length_drop] at hseg
    rcases Nat.le_total (items.length - n) f.unsent with hle | hle
    · rw [Nat.min_eq_right hle, Nat.sub_self, List.take_zero] at hseg
      cases hseg
    · rw [Nat.min_eq_left hle, List.take_drop] at hseg
      have hmem := List.mem_of_mem_drop hseg
      rcases Nat.le_total n items.length with hn | hn
      · rwa [show n + (items.length - n - f.unsent) = items.length - f.unsent by omega] at hmem
      · rw [List.drop_of_length_le] at hseg
        · cases hseg
        · rw [List.length_take]
          omega
  exact ⟨fun hdue seg hseg => h.sent hdue seg (hcovered seg hseg),
    h.due.sub le_rfl fun seg hseg ha => ⟨seg, hcovered seg hseg, ha, rfl⟩,
    fun hfast seg hseg ha => h.fast hfast seg (hcovered seg hseg) ha⟩

private theorem FlushScan.covered_append (f : FlushScan) (items new : List Segment) :
    FlushScan.covered { f with unsent := f.unsent + new.length } (items ++ new) =
      f.covered items := by
  unfold FlushScan.covered
  rw [List.length_append, Nat.add_sub_add_right, List.take_append_of_le_length (Nat.sub_le _ _)]

theorem FlushScan.Holds.append {f : FlushScan} {items : List Segment} {now : ℕ}
    {last : Option ℕ} (h : f.Holds items now last) (new : List Segment) :
    FlushScan.Holds { f with unsent := f.unsent + new.length } (items ++ new) now last := by
  have hcovered := f.covered_append items new
  exact ⟨hcovered ▸ h.sent, hcovered ▸ h.due, hcovered ▸ h.fast⟩

section Steps

variable {O C : Type}

namespace Kcp

def scanView (k : Kcp O C) : ScanView C := ⟨k.sndBuf.items, k.flushScan, k.clock⟩

@[simp] theorem scanView_send (k : Kcp O C) (buffer : Bytes) :
    (k.send buffer).1.scanView = k.scanView := by
  have hfill : (k.fillLast buffer).1.scanView = k.scanView := by
    unfold fillLast
    split
    · rfl
    · split <;> rfl
  have hqueue : ∀ (k' : Kcp O C) buffer, (k'.queueFragments buffer).1.scanView = k'.scanView := by
    intro k' buffer
    simp only [queueFragments]
    generalize (if buffer.length ≤ k'.mss.toNat then 1
      else (buffer.length + k'.mss.toNat - 1) / k'.mss.toNat) = count
    split <;> rfl
  simp only [send]
  split_ifs
  · rfl
  · exact hfill
  · rw [hqueue, hfill]
  · exact hqueue k buffer

@[simp] theorem scanView_recv (k : Kcp O C) (buflen : ℕ) :
    (k.recv buflen).1.scanView = k.scanView := by
  obtain ⟨_, _, _, _, h⟩ := k.recv_frame buflen
  rw [h]
  rfl

@[simp] theorem scanView_shrinkIdleBuffers (k : Kcp O C) (a b : Bool) :
    (k.shrinkIdleBuffers a b).1.scanView = k.scanView := by
  unfold shrinkIdleBuffers scanView
  dsimp only
  split_ifs <;> simp

@[simp] theorem scanView_inputPush (k : Kcp O C) (h : SegmentHeader) (payload : Bytes) :
    (k.inputPush h payload).scanView = k.scanView := by
  have hdata : ∀ (k' : Kcp O C) seg, (k'.parseData seg payload).1.scanView = k'.scanView := by
    intro k' seg
    simp only [parseData]
    split_ifs <;> rfl
  simp only [inputPush]
  split_ifs
  · exact hdata _ _
  · rfl
  · rfl

@[simp] theorem scanView_inputCwnd (k : Kcp O C) (una : UInt32) :
    (k.inputCwnd una).scanView = k.scanView := by
  simp only [inputCwnd]
  split_ifs <;> rfl

private theorem scanView_inputHeader (k : Kcp O C) (pktType : PacketType) (h : SegmentHeader) :
    ∃ n, (k.inputHeader pktType h).1.scanView =
      { k.scanView with
        items := k.sndBuf.items.drop n
        scan := { k.flushScan with
          unsent := min k.flushScan.unsent (k.sndBuf.items.drop n).length } } := by
  unfold inputHeader
  split_ifs <;> exact ⟨_, rfl⟩

private theorem acks_modify (items : List Segment) (offset : ℕ) :
    List.Forall₂ (Segment.Acks true) items
      (items.modify offset fun seg => { seg with acked := true, data := [] }) := by
  induction items generalizing offset with
  | nil => simp
  | cons seg rest ih =>
    cases offset with
    | zero =>
      refine .cons ⟨rfl, rfl, fun h => absurd h (by simp), fun _ h => absurd h (by simp)⟩ ?_
      exact List.forall₂_same.mpr fun _ _ => .refl true _
    | succ offset => exact .cons (.refl true seg) (ih offset)

private theorem scanView_parseAck (k : Kcp O C) (sn : UInt32) : ∃ items,
    List.Forall₂ (Segment.Acks true) k.sndBuf.items items ∧
      (k.parseAck sn).scanView = { k.scanView with items := items } := by
  have hsame : List.Forall₂ (Segment.Acks true) k.sndBuf.items k.sndBuf.items :=
    List.forall₂_same.mpr fun _ _ => .refl true _
  unfold parseAck
  split_ifs
  · exact ⟨_, hsame, rfl⟩
  · dsimp only
    split
    · exact ⟨_, hsame, rfl⟩
    · exact ⟨_, acks_modify _ _, rfl⟩

private theorem acks_bumpFastack (ts fastresend : UInt32) (seg : Segment) :
    seg.Acks (!(bumpFastack ts fastresend seg).2.2) (bumpFastack ts fastresend seg).1 := by
  unfold bumpFastack
  split_ifs
  · refine ⟨rfl, rfl, id, ?_⟩
    intro hquiet ha
    have ha' : seg.acked = false := ha
    simp [ha'] at hquiet
  · exact .refl _ seg

private theorem acks_weaken {a b : Bool} {xs ys : List Segment} (hab : b = true → a = true)
    (h : List.Forall₂ (Segment.Acks a) xs ys) : List.Forall₂ (Segment.Acks b) xs ys :=
  h.imp fun _ _ hacks => ⟨hacks.xmit, hacks.resendts, hacks.acked, fun hb => hacks.fastack (hab hb)⟩

private theorem acks_bumpAll (ts fastresend : UInt32) (items : List Segment) :
    List.Forall₂ (Segment.Acks (!(bumpAll ts fastresend items).2.2)) items
      (bumpAll ts fastresend items).1 := by
  induction items with
  | nil => exact .nil
  | cons seg rest ih =>
    have hseg := acks_bumpFastack ts fastresend seg
    simp only [bumpAll, Bool.not_or]
    refine .cons ⟨hseg.xmit, hseg.resendts, hseg.acked, fun hq => hseg.fastack ?_⟩
      (acks_weaken ?_ ih)
    · exact (Bool.and_eq_true _ _ ▸ hq).1
    · intro hq
      exact (Bool.and_eq_true _ _ ▸ hq).2

private theorem acks_bumpScan (sn ts fastresend : UInt32) (items : List Segment) :
    List.Forall₂ (Segment.Acks (!(bumpScan sn ts fastresend items).2.2)) items
      (bumpScan sn ts fastresend items).1 := by
  induction items with
  | nil => exact .nil
  | cons seg rest ih =>
    simp only [bumpScan]
    split_ifs with hstop hsn
    · exact List.forall₂_same.mpr fun _ _ => .refl _ _
    · have hseg := acks_bumpFastack ts fastresend seg
      simp only [Bool.not_or]
      refine .cons ⟨hseg.xmit, hseg.resendts, hseg.acked, fun hq => hseg.fastack ?_⟩
        (acks_weaken ?_ ih)
      · exact (Bool.and_eq_true _ _ ▸ hq).1
      · intro hq
        exact (Bool.and_eq_true _ _ ▸ hq).2
    · refine .cons (.refl _ seg) (acks_weaken ?_ ih)
      intro hq
      simpa using hq

private theorem scanView_parseFastack (k : Kcp O C) (sn ts : UInt32) : ∃ items quiet,
    List.Forall₂ (Segment.Acks quiet) k.sndBuf.items items ∧
      (k.parseFastack sn ts).1.scanView =
        { k.scanView with
          items := items
          scan := { k.flushScan with noFastack := k.flushScan.noFastack && quiet } } := by
  have hsame : List.Forall₂ (Segment.Acks true) k.sndBuf.items k.sndBuf.items :=
    List.forall₂_same.mpr fun _ _ => .refl true _
  have hscan : ∀ bumped : Bool, (if bumped then { k.flushScan with noFastack := false }
      else k.flushScan) = { k.flushScan with noFastack := k.flushScan.noFastack && !bumped } := by
    intro bumped
    cases bumped <;> simp
  unfold parseFastack
  split_ifs
  · exact ⟨_, true, hsame, by simp [scanView]⟩
  · dsimp only
    split
    · rename_i offset _
      refine ⟨(bumpAll ts k.fastresend.toUInt32 (k.sndBuf.items.take offset)).1 ++
        k.sndBuf.items.drop offset,
        !(bumpAll ts k.fastresend.toUInt32 (k.sndBuf.items.take offset)).2.2, ?_, ?_⟩
      · have happ := List.rel_append (acks_bumpAll ts k.fastresend.toUInt32
          (k.sndBuf.items.take offset))
          (List.forall₂_same.mpr fun seg (_ : seg ∈ k.sndBuf.items.drop offset) =>
            Segment.Acks.refl (!(bumpAll ts k.fastresend.toUInt32
              (k.sndBuf.items.take offset)).2.2) seg)
        beta_reduce at happ
        rwa [List.take_append_drop] at happ
      · simp only [scanView, hscan]
        rfl
    · refine ⟨_, _, acks_bumpScan sn ts k.fastresend.toUInt32 k.sndBuf.items, ?_⟩
      simp only [scanView, hscan]
      rfl

theorem scanView_admitSegments (k : Kcp O C) : ∃ new : List Segment,
    new.length = k.admitSegments.2 ∧
      k.admitSegments.1.scanView = { k.scanView with items := k.sndBuf.items ++ new } := by
  obtain ⟨n, hn, -, hbuf, -, hcount⟩ := admit_spec k.conv k.sndUna k.sendWindow k.sndQueue.length
    ⟨k.sndQueue, k.sndBuf, k.sndNxt, 0⟩
  refine ⟨_, ?_, congrArg (fun items => (⟨items, k.flushScan, k.clock⟩ : ScanView C)) hbuf⟩
  have hcount' : k.admitSegments.2 = 0 + n := hcount
  have hn' : n ≤ k.sndQueue.items.length := hn
  rw [hcount', length_number, List.length_take, Nat.zero_add]
  exact Nat.min_eq_left hn'

section Clocked

variable [TrueClock C] {last : Option ℕ}

private theorem scanOk_inputSegment (k : Kcp O C) (hk : k.scanView.Ok last) (pktType : PacketType)
    (acc : Parsed) (h : SegmentHeader) (payload : Bytes) :
    (k.inputSegment pktType acc h payload).1.scanView.Ok last := by
  have hheader : (k.inputHeader pktType h).1.scanView.Ok last := by
    obtain ⟨n, hview⟩ := k.scanView_inputHeader pktType h
    rw [hview]
    exact ⟨hk.holds.drop n, hk.past⟩
  have hack : ∀ k' : Kcp O C, k'.scanView.Ok last → (k'.parseAck h.sn).scanView.Ok last := by
    intro k' hk'
    obtain ⟨items, hitems, hview⟩ := k'.scanView_parseAck h.sn
    have hholds := hk'.holds.acks hitems
    rw [Bool.and_true] at hholds
    rw [hview]
    exact ⟨hholds, hk'.past⟩
  have hfast : ∀ k' : Kcp O C, k'.scanView.Ok last →
      (k'.parseFastack h.sn h.ts).1.scanView.Ok last := by
    intro k' hk'
    obtain ⟨items, quiet, hitems, hview⟩ := k'.scanView_parseFastack h.sn h.ts
    rw [hview]
    exact ⟨hk'.holds.acks hitems, hk'.past⟩
  simp only [inputSegment]
  split_ifs
  · exact hfast _ (hack _ hheader)
  · rwa [scanView_inputPush]
  · exact hheader
  · exact hheader

private theorem scanOk_inputLoop (k : Kcp O C) (hk : k.scanView.Ok last) (pktType : PacketType)
    (acc : Parsed) (data : Bytes) (fuel : ℕ) :
    (inputLoop pktType fuel k acc data).1.scanView.Ok last := by
  induction fuel generalizing k acc data with
  | zero => exact hk
  | succ fuel ih =>
    simp only [inputLoop]
    split
    · exact hk
    · rename_i h rest _
      split_ifs
      · exact hk
      · exact hk
      · exact hk
      · exact ih _ (k.scanOk_inputSegment hk pktType acc h _) _ _

private theorem scanOk_inputRtt (k : Kcp O C) (hk : k.scanView.Ok last) (pktType : PacketType)
    (acc : Parsed) : (k.inputRtt pktType acc).scanView.Ok last := by
  have hread := hk.later (TrueClock.mono k.clock)
  simp only [inputRtt]
  split_ifs
  · exact hread
  · exact hread
  · exact hk

theorem scanOk_inputParse (k : Kcp O C) (hk : k.scanView.Ok last) (data : Bytes)
    (pktType : PacketType) : (k.inputParse data pktType).1.scanView.Ok last := by
  have hloop := k.scanOk_inputLoop hk pktType {} data data.length
  simp only [inputParse]
  split_ifs
  · exact hk
  · split
    · rename_i heq
      rwa [heq] at hloop
    · rename_i heq
      rw [heq] at hloop
      rw [scanView_inputCwnd]
      exact scanOk_inputRtt _ hloop pktType _

theorem scanOk_updateTimer (k : Kcp O C) (hk : k.scanView.Ok last) :
    k.updateTimer.1.scanView.Ok last := by
  have hread := hk.later (TrueClock.mono k.clock)
  simp only [updateTimer]
  split_ifs <;> exact hread

theorem scanOk_flushControl [Output O] (k : Kcp O C) (hk : k.scanView.Ok last) :
    k.flushControl.1.scanView.Ok last := by
  have hprobe : ∀ k' : Kcp O C, k'.scanView.Ok last → k'.probeTimer.scanView.Ok last := by
    intro k' hk'
    have hread := hk'.later (TrueClock.mono k'.clock)
    simp only [probeTimer]
    split_ifs <;> first | exact hread | exact hk'
  exact hprobe _ hk

theorem scanOk_flush_ackOnly [Output O] (k : Kcp O C) (hk : k.scanView.Ok last) :
    (k.flush .ackOnly).1.scanView.Ok last := by
  have hctl := k.scanOk_flushControl hk
  obtain ⟨new, hnew, hview⟩ := k.flushControl.1.scanView_admitSegments
  have hscan : k.flushControl.1.admitSegments.1.flushScan = k.flushControl.1.flushScan := rfl
  have hread := hctl.later (TrueClock.mono k.flushControl.1.clock)
  have hitems : k.flushControl.1.admitSegments.1.sndBuf.items =
      k.flushControl.1.sndBuf.items ++ new := congrArg ScanView.items hview
  obtain ⟨ssthresh, cwnd, incr, h⟩ := k.flush_ackOnly
  rw [h]
  refine ⟨?_, hread.past⟩
  have hholds := hread.holds.append new
  rw [hnew] at hholds
  simp only [scanView, hitems]
  exact hholds

end Clocked

end Kcp

end Steps

section FullFlush

variable {O C : Type}

private theorem FlushScan.Holds.head {f : FlushScan} {items : List Segment} {now cur later : ℕ}
    {last : Option ℕ} {interval : UInt32} (h : f.Holds items now last) (hnow : now ≤ cur)
    (hlater : cur ≤ later) (hgap : ∀ l, last = some l → l ≤ cur ∧ (cur : Int) < l + HORIZON)
    (hskip : f.canSkip (UInt32.ofNat cur) interval = true) :
    f.Head (f.covered items) later cur := by
  have hcur := Serial.stands_ofNat cur
  obtain ⟨hsent, hdue, hfast⟩ := h.later (hnow.trans hlater)
  unfold canSkip at hskip
  split_ifs at hskip with hoff
  rw [Bool.or_eq_true, Bool.not_eq_true', Bool.not_eq_true', not_or, Bool.not_eq_false,
    Bool.not_eq_false] at hoff
  cases hd : f.due with
  | unknown => simp [hd] at hskip
  | nothing =>
    rw [hd] at hdue hsent
    refine ⟨by rw [hd]; exact hdue, ?_, hsent (by simp), hfast hoff.2⟩
    intro ts hts
    rw [hd] at hts
    cases hts
  | notBefore ts =>
    rw [hd] at hdue hsent
    obtain ⟨l, D, hl, hts, hlo, hhi, hall⟩ := hdue
    obtain ⟨hle, hlt⟩ := hgap l hl
    simp only [hd, Bool.and_eq_true, decide_eq_true_eq] at hskip
    have hdiff : itimediff ts (UInt32.ofNat cur) = D - cur := by
      unfold HORIZON at *
      exact Serial.diff_of_stands hts hcur (by omega) (by omega)
    refine ⟨?_, ?_, hsent (by simp), hfast hoff.2⟩
    · rw [hd]
      unfold HORIZON at *
      exact ⟨cur, D, rfl, hts, by unfold HORIZON; omega, by unfold HORIZON; omega, hall⟩
    · intro ts' hts'
      rw [hd] at hts'
      cases hts'
      exact hskip.1

private theorem Scan.Like.symm {s t : Scan O C} (h : s.Like t) : t.Like s := by
  obtain ⟨a, b, c, rfl⟩ := h
  exact ⟨s.minRto, s.scanFastack, s.scanUnsent, rfl⟩

namespace Kcp

private theorem resent_pos (k : Kcp O C) : 0 < k.resent := by
  unfold resent
  split_ifs with h
  · decide
  · rw [UInt32.pos_iff_ne_zero]
    intro hzero
    have hz : k.fastresend = 0 := by
      rw [← Int32.toInt32_toUInt32 k.fastresend, hzero]
      rfl
    exact h (by rw [hz]; decide)

private theorem wouldSend_eq_false {env : ScanEnv} {current : UInt32} {seg : Segment}
    (hresent : 0 < env.resent) (hxmit : seg.xmit ≠ 0) (hquiet : seg.Quiet)
    (hdue : 0 < itimediff seg.resendts current) : wouldSend env current seg = false := by
  have hback : ¬ itimediff current seg.resendts ≥ 0 := by
    simp only [itimediff, Serial.diff_eq] at hdue ⊢
    have := current.toNat_lt
    have := seg.resendts.toNat_lt
    omega
  simp only [wouldSend, decide_eq_false_iff_not]
  rintro (h | ⟨h1, h2⟩ | ⟨h1, h2, -⟩ | h)
  · exact hxmit h
  · rcases hquiet with hz | hm
    · rw [hz, ge_iff_le, UInt32.le_iff_toNat_le] at h1
      rw [UInt32.lt_iff_toNat_lt] at hresent
      omega
    · exact h2 hm
  · rcases hquiet with hz | hm
    · rw [hz] at h1
      exact absurd h1 (by decide)
    · exact h2 hm
  · exact hback h

variable [TrueClock C]

private theorem learnt_scanStart (k : Kcp O C) (p : Packer O) :
    (k.scanStart p).Learnt (TrueClock.time (k.scanStart p).clock) [] := by
  refine ⟨TrueClock.reading k.clock, le_rfl, .inl rfl, ?_, rfl, ?_⟩
  · intro seg hseg
    cases hseg
  · intro _ seg hseg
    cases hseg

/-- The head that a full flush skips is what its scan would have left alone, and the summary it
leaves is right again. -/
theorem scan_skip [Output O] (k : Kcp O C) (p : Packer O) (newSegs : ℕ) (last : Option ℕ)
    (hholds : FlushScan.Holds { k.flushScan with unsent := k.flushScan.unsent + newSegs }
      k.sndBuf.items (TrueClock.time k.clock) last)
    (hpast : ∀ l, last = some l → l ≤ TrueClock.time k.clock)
    (hgap : ∀ l, last = some l → (TrueClock.time (k.scanStart p).clock : Int) < l + HORIZON)
    (htimely : (k.scanStart p).Timely (k.scanEnv newSegs) k.sndBuf.items) :
    let s := k.scanStart p
    let skipped := k.skipCount s.current (k.flushScan.unsent + newSegs)
    let head := k.sndBuf.items.take skipped
    let r := s.loop (k.scanEnv newSegs) (k.sndBuf.items.drop skipped)
    r.1.Like (s.loop (k.scanEnv newSegs) k.sndBuf.items).1 ∧
    (s.loop (k.scanEnv newSegs) k.sndBuf.items).2 = head ++ r.2 ∧
    ScanView.Ok ⟨head ++ r.2, k.flushScan.learn skipped s.current r.1 (head ++ r.2), r.1.clock⟩
      (some (TrueClock.time s.clock)) := by
  intro s skipped head r
  set g : FlushScan := { k.flushScan with unsent := k.flushScan.unsent + newSegs } with hg
  have hcurrent : s.current = UInt32.ofNat (TrueClock.time s.clock) := TrueClock.reading k.clock
  have hnow : TrueClock.time k.clock ≤ TrueClock.time s.clock := TrueClock.mono k.clock
  have hgap' : ∀ l, last = some l → l ≤ TrueClock.time s.clock ∧
      (TrueClock.time s.clock : Int) < l + HORIZON :=
    fun l hl => ⟨(hpast l hl).trans hnow, hgap l hl⟩
  have hlearn : ∀ items, k.flushScan.learn skipped s.current r.1 items =
      g.learn skipped (UInt32.ofNat (TrueClock.time s.clock)) r.1 items := by
    intro items
    rw [hcurrent]
    rfl
  have hsplit : k.sndBuf.items = head ++ k.sndBuf.items.drop skipped :=
    (List.take_append_drop skipped _).symm
  cases hskip : g.canSkip s.current k.interval with
  | false =>
    have hzero : skipped = 0 := if_neg (by rw [show k.flushScan.canSkip s.current k.interval =
      g.canSkip s.current k.interval from rfl, hskip]; exact Bool.false_ne_true)
    have hhead : head = [] := by
      simp only [head, hzero, List.take_zero]
    have hr : r = s.loop (k.scanEnv newSegs) k.sndBuf.items := by
      simp only [r, hzero, List.drop_zero]
    have hlearnt := (k.learnt_scanStart p).loop htimely
    rw [hlearn, hhead, hzero, hr]
    refine ⟨.refl _, rfl, ?_, fun l hl => Option.some_inj.mp hl ▸ hlearnt.base_le⟩
    refine FlushScan.Holds.learn [] hlearnt (fun _ => rfl) fun h => absurd h ?_
    omega
  | true =>
    have hcovered : head = g.covered k.sndBuf.items :=
      congrArg (fun n => k.sndBuf.items.take n) (if_pos hskip)
    have hskip' := hskip
    rw [hcurrent] at hskip'
    have hquiet : ∀ seg ∈ head, s.Skippable (k.scanEnv newSegs) seg := by
      intro seg hseg
      cases ha : seg.acked with
      | true => exact .inl ha
      | false =>
        obtain ⟨hxmit, hq, hpos, hint⟩ := hholds.skip hnow hgap' hskip' (hcovered ▸ hseg) ha
        rw [← hcurrent] at hpos hint
        exact .inr ⟨wouldSend_eq_false k.resent_pos hxmit hq hpos, hint⟩
    obtain ⟨hlike, hleft⟩ := Scan.loop_skippable (k.scanEnv newSegs) s rfl head hquiet
    have happ := Scan.loop_append s (k.scanEnv newSegs) head (k.sndBuf.items.drop skipped)
    rw [← hsplit] at happ
    obtain ⟨hlike', hrest⟩ := hlike.loop (k.scanEnv newSegs) (k.sndBuf.items.drop skipped)
    refine ⟨?_, ?_, ?_⟩
    · rw [happ]
      exact hlike'
    · rw [happ, hleft, hrest]
    · have htail : s.Timely (k.scanEnv newSegs) (k.sndBuf.items.drop skipped) := by
        rw [hsplit] at htimely
        exact htimely.append.like hlike.symm
      have hlearnt := (k.learnt_scanStart p).loop htail
      rw [hlearn]
      refine ⟨?_, fun l hl => Option.some_inj.mp hl ▸ hlearnt.base_le⟩
      refine FlushScan.Holds.learn head hlearnt ?_ ?_
      · intro hz
        simp only [head, hz, List.take_zero]
      · intro _
        rw [hcovered]
        exact hholds.head hnow hlearnt.base_le hgap' hskip'

end Kcp

end FullFlush

end Kcptun.Arq
