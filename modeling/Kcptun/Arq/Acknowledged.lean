/- Kcptun/Arq/Acknowledged
   source: crates/kcp/src/kcp.rs (input, flush, wait_snd)
   digest: An acknowledgement is never false: what the sender no longer waits for has reached the
     receiver, whatever the network does. -/

import Kcptun.Arq.Vouched

set_option autoImplicit false
set_option relaxedAutoImplicit false

namespace Kcptun.Arq

open Kcptun.Lib Kcptun.Lib.LittleEndian

def Kcp.waitSnd {O C : Type} (k : Kcp O C) : ℕ := k.sndBuf.length + k.sndQueue.length

private theorem exists_sorted {heap : List Segment} (hnodup : (heap.map Segment.sn).Nodup) :
    ∃ segs : List Segment, segs.Perm heap ∧
      segs.Pairwise fun x y => x.sn.toNat < y.sn.toNat := by
  set le : Segment → Segment → Bool := fun x y => x.sn.toNat ≤ y.sn.toNat
  refine ⟨heap.mergeSort le, List.mergeSort_perm _ _, ?_⟩
  have hle : (heap.mergeSort le).Pairwise fun x y => le x y := by
    refine List.pairwise_mergeSort ?_ ?_ heap
    · intro a b c hab hbc
      exact decide_eq_true ((of_decide_eq_true hab).trans (of_decide_eq_true hbc))
    · intro a b
      simpa [le] using le_total a.sn.toNat b.sn.toNat
  have hne : (heap.mergeSort le).Pairwise fun x y => x.sn ≠ y.sn := by
    have hsorted := ((List.mergeSort_perm heap le).map Segment.sn).nodup_iff.mpr hnodup
    exact List.pairwise_map.mp hsorted
  refine (hle.and hne).imp fun {x y} h => ?_
  exact lt_of_le_of_ne (of_decide_eq_true h.1) fun heq => h.2 (UInt32.toNat_inj.mp heq)

private theorem entries_of_sorted {log : List Entry} {n : ℕ} {segs : List Segment}
    (hsorted : segs.Pairwise fun x y => x.sn.toNat < y.sn.toNat) (hmatch : ∀ seg ∈ segs, Matches log seg)
    (hfrom : ∀ seg ∈ segs, n ≤ seg.sn.toNat)
    (hall : ∀ i, n ≤ i → i < log.length → ∃ seg ∈ segs, seg.sn.toNat = i) :
    segs.map Segment.entry = log.drop n := by
  have hlt : ∀ seg ∈ segs, seg.sn.toNat < log.length := fun seg hseg =>
    (List.getElem?_eq_some_iff.mp (hmatch seg hseg)).1
  have hnums : segs.map (fun seg => seg.sn.toNat) = List.range' n (log.length - n) := by
    refine List.SortedLT.eq_of_mem_iff ?_ (List.sortedLT_range' _ _ one_ne_zero) ?_
    · rw [List.sortedLT_iff_pairwise, List.pairwise_map]
      exact hsorted
    · intro i
      rw [List.mem_map, List.mem_range'_1]
      constructor
      · rintro ⟨seg, hseg, rfl⟩
        have := hfrom seg hseg
        have := hlt seg hseg
        omega
      · intro hi
        exact hall i hi.1 (by omega)
  apply List.ext_getElem?
  intro i
  rw [List.getElem?_map, List.getElem?_drop]
  cases hseg : segs[i]? with
  | none =>
    have hlen := congrArg List.length hnums
    rw [List.length_map, List.length_range'] at hlen
    have hle := List.getElem?_eq_none_iff.mp hseg
    exact (List.getElem?_eq_none (by omega)).symm
  | some seg =>
    have hi : seg.sn.toNat = n + i := by
      have hget : (List.range' n (log.length - n))[i]? = some seg.sn.toNat := by
        rw [← hnums, List.getElem?_map, hseg]
        rfl
      obtain ⟨hlt, heq⟩ := List.getElem?_eq_some_iff.mp hget
      rw [List.getElem_range', one_mul] at heq
      exact heq.symm
    rw [← hi]
    exact (hmatch seg (List.mem_of_getElem? hseg)).symm

private theorem flatMap_of_fragmented {groups : List (List Entry)} {msgs : List Bytes}
    (h : List.Forall₂ Fragmented groups msgs) :
    groups.flatten.flatMap Prod.snd = msgs.flatten := by
  induction h with
  | nil => rfl
  | cons hfrag _ ih => rw [List.flatten_cons, List.flatMap_append, hfrag.bytes, ih, List.flatten_cons]

namespace World

variable {O C : Type} [Output O] [Clock C] {w : World O C} {stream : Int32} {log : List Entry}
  {c n : ℕ}

/-- Every number that was assigned is pending at the sender or has arrived at the receiver, and no
acknowledgement on its way says otherwise. -/
structure Sound (w : World O C) : Prop where
  fresh : w.a.Fresh
  sendable : w.a.Sendable ∧ w.b.Sendable
  honours : w.b.Honours w.numbered
  settled : ∀ sn : UInt32, sn.toNat < w.numbered →
    sn ∈ w.a.pending ∨ w.b.recvView.Received sn

omit [Output O] [Clock C] in
private theorem Sound.moveA (hs : w.Sound) (hnxt : w.a.sndNxt = UInt32.ofNat w.numbered)
    {a' : Kcp O C} (hfresh : a'.Fresh) (hsendable : a'.Sendable)
    (hkept : ∀ sn ∈ w.a.pending, sn.toNat < w.numbered → sn ∈ a'.pending ∨
      w.b.recvView.Received sn)
    (hnew : ∀ i < (a'.sndNxt - w.a.sndNxt).toNat, w.a.sndNxt + UInt32.ofNat i ∈ a'.pending) :
    (w.moveA a').Sound := by
  refine ⟨hfresh, ⟨hsendable, hs.sendable.2⟩, hs.honours.mono (Nat.le_add_right _ _), ?_⟩
  intro sn hsn
  rcases Nat.lt_or_ge sn.toNat w.numbered with hold | hge
  · rcases hs.settled sn hold with hpending | harrived
    · exact hkept sn hpending hold
    · exact .inr harrived
  · left
    have hi : sn.toNat - w.numbered < (a'.sndNxt - w.a.sndNxt).toNat := by
      change sn.toNat < w.numbered + (a'.sndNxt - w.a.sndNxt).toNat at hsn
      omega
    have heq : w.a.sndNxt + UInt32.ofNat (sn.toNat - w.numbered) = sn := by
      rw [hnxt, ← UInt32.ofNat_add, Nat.add_sub_cancel' hge, UInt32.ofNat_toNat]
    exact heq ▸ hnew _ hi

omit [Output O] [Clock C] in
private theorem Sound.recordA {a' : Kcp O C} (hs : (w.moveA a').Sound) (op : Op) :
    ((w.recordA op).moveA a').Sound := by
  cases op <;> exact ⟨hs.fresh, hs.sendable, hs.honours, hs.settled⟩

omit [Output O] [Clock C] in
private theorem Sound.moveB (hs : w.Sound) {b' : Kcp O C} (hsendable : b'.Sendable)
    (hhonours : b'.Honours w.numbered) (hgains : w.b.recvView.Gains b'.recvView) :
    Sound { w with b := b' } :=
  ⟨hs.fresh, ⟨hs.sendable.1, hsendable⟩, hhonours, fun sn hsn =>
    (hs.settled sn hsn).imp_right (hgains.received sn)⟩

omit [Output O] [Clock C] in
private theorem Sound.confirmed (hs : w.Sound) (hnum : w.numbered ≤ 2147483648)
    {segs : List Segment} (hsegs : ∀ seg ∈ segs, seg.una.toNat ≤ w.b.rcvNxt.toNat ∧
      (seg.cmd = IKCP_CMD_ACK → w.b.recvView.Received seg.sn))
    {sn : UInt32} (hsn : sn.toNat < w.numbered) {seg : Segment} (hseg : seg ∈ segs)
    (hconf : seg.header.Confirms sn) : w.b.recvView.Received sn := by
  obtain ⟨huna, hack⟩ := hsegs seg hseg
  rcases hconf with ⟨hcmd, rfl⟩ | hcovers
  · exact hack hcmd
  · left
    have hnxt : w.b.rcvNxt.toNat ≤ w.numbered := hs.honours.below.nxt
    change itimediff seg.una sn > 0 at hcovers
    rw [itimediff, Serial.diff_eq] at hcovers
    change sn.toNat < w.b.rcvNxt.toNat
    omega

private theorem Sound.toA (hs : w.Sound) (hw : w.Ok stream log c n) {pkt : Bytes}
    (hpkt : pkt ∈ w.b.output.sent) (pktType : PacketType) (ackNoDelay : Bool)
    (hnum : (w.moveA (w.a.input pkt pktType ackNoDelay).1).numbered ≤ 2147483648) :
    (w.moveA (w.a.input pkt pktType ackNoDelay).1).Sound := by
  obtain ⟨segs, rfl, hsegs⟩ := hs.honours.vouches.sent pkt hpkt
  have hreads : Reads w.a.conv (packet segs) (segs.map Segment.piece) 0 := by
    rw [← hw.conv]
    exact reads_packet fun seg hseg => (hsegs seg hseg).1
  have hnxt : w.a.sndNxt = UInt32.ofNat w.numbered := hw.count ▸ hw.out.nxt
  have hold : w.numbered ≤ 2147483648 := le_trans (Nat.le_add_right _ _) hnum
  have hack := w.a.acknowledges_inputParse (packet segs) pktType
  obtain ⟨d, hd⟩ := w.a.trim_inputParse hw.out.window (packet segs) pktType
  have hmid := hw.out.acknowledges hack (hw.out.window.trim hd)
  have hview := hack.view
  simp only [Kcp.outView, OutView.mk.injEq] at hview
  obtain ⟨hmidNxt, -, hqueue, -⟩ := hview
  -- what the packet takes off the list has arrived; a flush may follow
  have hkept : ∀ sn ∈ w.a.pending, sn.toNat < w.numbered →
      sn ∈ (w.a.inputParse (packet segs) pktType).1.pending ∨ w.b.recvView.Received sn := by
    intro sn hsn hlt
    obtain ⟨_, _, _, _, _, _, hparse⟩ := w.a.inputParse_absorb hreads pktType
    rcases w.a.pending_absorb hw.out.window pktType (segs.map Segment.piece) hsn with hleft | hconf
    · left
      rw [hparse]
      exact hleft
    · right
      obtain ⟨piece, hpiece, hconf⟩ := hconf
      obtain ⟨seg, hseg, rfl⟩ := List.mem_map.mp hpiece
      exact hs.confirmed hold (fun s hseg => (hsegs s hseg).2) hlt hseg hconf
  have hfresh : (w.a.inputParse (packet segs) pktType).1.Fresh := fun seg hseg =>
    hs.fresh seg (hqueue ▸ hseg)
  have hsendable := hs.sendable.1.inputParse (packet segs) pktType
  rcases w.a.input_cases (packet segs) pktType ackNoDelay with heq | ⟨flushType, heq⟩
  · rw [heq]
    apply hs.moveA hnxt hfresh hsendable hkept
    intro i hi
    rw [hmidNxt, UInt32.sub_self] at hi
    exact absurd hi (Nat.not_lt_zero i)
  · rw [heq] at hnum ⊢
    have hlt : log.length + (((w.a.inputParse (packet segs) pktType).1.flush flushType).1.sndNxt -
        (w.a.inputParse (packet segs) pktType).1.sndNxt).toNat < 4294967296 := by
      rw [hmidNxt, hw.count]
      exact lt_of_le_of_lt hnum (by decide)
    obtain ⟨hfresh', hstays, hnew⟩ := Kcp.numbers_flush hmid hfresh flushType hlt
    rw [hmidNxt] at hnew
    exact hs.moveA hnxt hfresh' (hsendable.flush flushType)
      (fun sn hsn hlt => (hkept sn hsn hlt).imp_left (hstays sn)) hnew

private theorem Sound.toB (hs : w.Sound) (hw : w.Ok stream log c n) (hnum : w.numbered ≤ 2147483648)
    {pkt : Bytes} (hpkt : pkt ∈ w.a.output.sent) (pktType : PacketType) (ackNoDelay : Bool) :
    Sound { w with b := (w.b.input pkt pktType ackNoDelay).1 } := by
  obtain ⟨segs, rfl, hgenuine⟩ := hw.out.sent pkt hpkt
  obtain ⟨pieces, hreads, -⟩ := Kcp.inputLoop_reads pktType w.b {} (le_refl (packet segs).length)
  have hsns := sn_lt_of_genuine (fun seg hseg => hw.conv ▸ hgenuine seg hseg) hreads
  rw [hw.count] at hsns
  obtain ⟨hhonours, hgains⟩ :=
    hs.honours.input hnum hs.sendable.2 hreads hsns pktType ackNoDelay
  exact hs.moveB (hs.sendable.2.step (.input _ pktType ackNoDelay)) hhonours hgains

private theorem Sound.step (hs : w.Sound) (hw : w.Ok stream log c n) {event : Event}
    (hev : event.Allowed) (hnum : (w.step event).1.numbered ≤ 2147483648) :
    (w.step event).1.Sound := by
  have hold : w.numbered ≤ 2147483648 := (w.numbered_le_step event).trans hnum
  cases event with
  | atA op =>
    have hnum' : w.numbered + ((w.a.step op).1.sndNxt - w.a.sndNxt).toNat ≤ 2147483648 := by
      cases op <;> exact hnum
    have hmoved := Kcp.numbers_local hw.out hs.fresh hev
      (by rw [hw.count]; exact lt_of_le_of_lt hnum' (by decide))
    refine Sound.recordA (hs.moveA (hw.count ▸ hw.out.nxt) hmoved.fresh (hs.sendable.1.step op)
      (fun sn hsn _ => .inl (hmoved.kept sn hsn)) hmoved.new) op
  | atB op =>
    obtain ⟨hhonours, hgains⟩ := hs.honours.local hold hs.sendable.2 hev
    have hmoved := hs.moveB (hs.sendable.2.step op) hhonours hgains
    cases op <;> exact ⟨hmoved.fresh, hmoved.sendable, hmoved.honours, hmoved.settled⟩
  | toA i pktType ackNoDelay =>
    simp only [World.step] at hnum ⊢
    cases hpkt : w.b.output.sent[i]? with
    | none => exact hs
    | some pkt =>
      rw [hpkt] at hnum
      exact hs.toA hw (List.mem_of_getElem? hpkt) pktType ackNoDelay hnum
  | toB i pktType ackNoDelay =>
    simp only [World.step] at hnum ⊢
    cases hpkt : w.a.output.sent[i]? with
    | none => exact hs
    | some pkt => exact hs.toB hw hold (List.mem_of_getElem? hpkt) pktType ackNoDelay

omit [Output O] [Clock C] in
private theorem sound_start (conv : UInt32) (outputA outputB : O) (clockA clockB : C)
    (streamA streamB : Int32) :
    (start conv outputA outputB clockA clockB streamA streamB).Sound where
  fresh := by simp [Kcp.Fresh, start, Kcp.withClock]
  sendable := by
    constructor <;> constructor <;> simp [start, Kcp.withClock]
  honours := by
    refine ⟨⟨⟨?_, ?_⟩, ?_, ?_⟩, ?_, ?_⟩ <;>
      simp [start, Kcp.withClock, Kcp.recvView, SegmentHeap.sns]
  settled := fun sn hsn => absurd hsn (Nat.not_lt_zero _)

private theorem sound_run (conv : UInt32) (outputA outputB : O) (clockA clockB : C)
    (streamA streamB : Int32) {events : List Event} (hevents : ∀ event ∈ events, event.Allowed)
    (hnum : (run World.step (start conv outputA outputB clockA clockB streamA streamB)
      events).1.numbered ≤ 2147483648) :
    (run World.step (start conv outputA outputB clockA clockB streamA streamB) events).1.Sound := by
  have hboth := run_invariant (fun w : World O C => w.numbered ≤ 2147483648 →
    (∃ log c n, w.Ok streamA log c n) ∧ w.Sound) Event.Allowed ?_ hevents
    (fun _ => ⟨⟨[], 0, 0, ok_start conv outputA outputB clockA clockB streamA streamB⟩,
      sound_start conv outputA outputB clockA clockB streamA streamB⟩) hnum
  · exact hboth.2
  · intro w event hev hw hlt
    obtain ⟨⟨log, c, n, hok⟩, hsound⟩ := hw ((w.numbered_le_step event).trans hlt)
    exact ⟨hok.step hev (lt_of_le_of_lt hlt (by decide)), hsound.step hok hev hlt⟩

omit [Output O] [Clock C] in
/-- What `recv` has returned is what the entries it took hold, and all entries together hold what
`send` put in. -/
theorem Ok.books_bytes (hw : w.Ok stream log c n) :
    w.received.flatten = (log.take c).flatMap Prod.snd ∧
    (stream = 0 → (w.entries log).flatMap Prod.snd = w.accepted.flatten) ∧
    (stream ≠ 0 → (w.entries log).flatMap Prod.snd = w.appended.flatten) := by
  by_cases hs : stream = 0
  · obtain ⟨hrecv, groups, hg⟩ := hw.message hs
    refine ⟨?_, ?_, fun h => absurd hs h⟩
    · have hsplit : List.Forall₂ Fragmented (groups.take w.received.length)
          (w.accepted.take w.received.length) := List.forall₂_take w.received.length hg.split
      rw [← hrecv] at hsplit
      have hpre : (groups.take w.received.length).flatten <+: w.entries log :=
        hg.flatten ▸ (List.take_prefix _ groups).flatten
      have htake : (groups.take w.received.length).flatten = log.take c := by
        rw [List.prefix_iff_eq_take.mp hpre, ← hg.consumed, entries,
          List.take_append_of_le_length (hw.inb.consumed.trans hw.inb.known)]
      rw [← flatMap_of_fragmented hsplit, htake]
    · intro _
      rw [← hg.flatten]
      exact flatMap_of_fragmented hg.split
  · obtain ⟨-, hbytes, hrecv⟩ := hw.bytes hs
    refine ⟨?_, fun h => absurd h hs, fun _ => hbytes⟩
    rw [hrecv, List.flatMap_def]

omit [Output O] [Clock C] in
private theorem Sound.settle (hs : w.Sound) (hw : w.Ok stream log c n)
    (hnum : w.numbered < 4294967296) (hidle : w.a.waitSnd = 0) :
    ∃ segs : List Segment, segs.Perm w.b.rcvBuf.segments.toList ∧
      (segs.Pairwise fun x y => x.sn.toNat < y.sn.toNat) ∧
      (w.b.rcvQueue.items ++ segs).map Segment.entry = (w.entries log).drop c := by
  obtain ⟨hbuf, hqueue⟩ : w.a.sndBuf.items = [] ∧ w.a.sndQueue.items = [] := by
    unfold Kcp.waitSnd Fifo.length at hidle
    exact ⟨List.eq_nil_of_length_eq_zero (by omega), List.eq_nil_of_length_eq_zero (by omega)⟩
  have hlog : w.entries log = log := by
    rw [entries, hqueue]
    exact List.append_nil log
  have hnxt : w.b.recvView.nxt.toNat = n := by
    have hle : n ≤ log.length := hw.inb.known
    have hcount : log.length = w.numbered := hw.count
    rw [hw.inb.nxt, UInt32.toNat_ofNat', Nat.mod_eq_of_lt (by omega)]
  obtain ⟨segs, hperm, hsorted⟩ := exists_sorted hs.honours.below.marked.nodup
  refine ⟨segs, hperm, hsorted, ?_⟩
  have hmem : ∀ seg, seg ∈ segs ↔ seg ∈ w.b.recvView.buf.segments := by
    intro seg
    rw [hperm.mem_iff, Array.mem_toList_iff]
  have hheap : segs.map Segment.entry = log.drop n := by
    refine entries_of_sorted hsorted (fun seg hseg => hw.inb.heap seg ((hmem seg).mp hseg)) ?_ ?_
    · intro seg hseg
      have hsn : seg.sn ∈ w.b.recvView.buf.sns :=
        SegmentHeap.mem_sns.mpr ⟨seg, (hmem seg).mp hseg, rfl⟩
      exact hnxt ▸ (hs.honours.below.heap seg.sn hsn).1
    · intro i hfrom hi
      have htoNat : (UInt32.ofNat i).toNat = i := by
        have hcount : log.length = w.numbered := hw.count
        rw [UInt32.toNat_ofNat', Nat.mod_eq_of_lt (by omega)]
      rcases hs.settled (UInt32.ofNat i) (by rw [htoNat, ← hw.count]; exact hi) with
        hpending | hmoved | hwaits
      · rw [Kcp.pending, hbuf] at hpending
        cases hpending
      · rw [htoNat, hnxt] at hmoved
        omega
      · obtain ⟨seg, hseg, hsn⟩ := SegmentHeap.mem_sns.mp hwaits
        exact ⟨seg, (hmem seg).mpr hseg, hsn ▸ htoNat⟩
  rw [List.map_append, hheap, hlog]
  have hq : w.b.rcvQueue.items.map Segment.entry = (log.take n).drop c := hw.inb.queue
  rw [hq, ← List.drop_append_of_le_length, List.take_append_drop]
  rw [List.length_take]
  exact le_min hw.inb.consumed (hw.inb.consumed.trans hw.inb.known)

/-- Every number the sender has assigned is on its list or has come to the receiver. When nothing is
on the list, nothing is missing: `recv` has the accepted bytes or will find them, in order, in the
queue and the heap. -/
theorem acknowledged_arrived (conv : UInt32) (outputA outputB : O) (clockA clockB : C)
    (streamA streamB : Int32) (events : List Event)
    (hevents : ∀ event ∈ events, event.Allowed)
    (hnum : (run World.step (start conv outputA outputB clockA clockB streamA streamB)
      events).1.numbered ≤ 2147483648) :
    let w := (run World.step (start conv outputA outputB clockA clockB streamA streamB) events).1
    (∀ sn : UInt32, sn.toNat < w.numbered → sn ∈ w.a.pending ∨ sn.toNat < w.b.rcvNxt.toNat ∨
      ∃ seg ∈ w.b.rcvBuf.segments, seg.sn = sn) ∧
    (w.a.waitSnd = 0 → ∃ segs : List Segment, segs.Perm w.b.rcvBuf.segments.toList ∧
      (segs.Pairwise fun x y => x.sn.toNat < y.sn.toNat) ∧
      let arrived := w.received.flatten ++ (w.b.rcvQueue.items ++ segs).flatMap Segment.data
      (streamA = 0 → arrived = w.accepted.flatten) ∧
      (streamA ≠ 0 → arrived = w.appended.flatten)) := by
  intro w
  have hsound : w.Sound :=
    sound_run conv outputA outputB clockA clockB streamA streamB hevents hnum
  have hlt : w.numbered < 4294967296 := lt_of_le_of_lt hnum (by decide)
  obtain ⟨log, c, n, hok⟩ : ∃ log c n, w.Ok streamA log c n :=
    ok_run conv outputA outputB clockA clockB streamA streamB hevents hlt
  constructor
  · intro sn hsn
    exact (hsound.settled sn hsn).imp_right fun h => h.imp_right SegmentHeap.mem_sns.mp
  · intro hidle
    obtain ⟨segs, hperm, hsorted, hrest⟩ := hsound.settle hok hlt hidle
    obtain ⟨hreceived, hmessage, hstream⟩ := hok.books_bytes
    have htaken : log.take c = (w.entries log).take c :=
      (List.take_append_of_le_length (hok.inb.consumed.trans hok.inb.known)).symm
    have hall : w.received.flatten ++ (w.b.rcvQueue.items ++ segs).flatMap Segment.data =
        (w.entries log).flatMap Prod.snd := by
      rw [hreceived, ← flatMap_entry, hrest, htaken, ← List.flatMap_append, List.take_append_drop]
    exact ⟨segs, hperm, hsorted, fun h => hall.trans (hmessage h), fun h => hall.trans (hstream h)⟩

/-- The second segment comes before the first, and both are acknowledged in the end. -/
def reordered : List Event :=
  [.atA (.nodelay 1 10 2 1), .atA (.send [1, 2]), .atA (.flush .full), .atA (.send [3]),
    .atA (.flush .full), .toB 1 .regular false, .atB (.flush .full), .toA 0 .regular false,
    .toB 0 .regular false, .atB (.recv 9), .atB (.flush .full), .toA 1 .regular false]

theorem acknowledged_arrived_reordered :
    let w := (run World.step (start 7 ⟨⟩ ⟨⟩ ⟨0⟩ ⟨0⟩ 0 0 : World Unbounded VirtualClock) reordered).1
    w.received = [[1, 2]] ∧ w.a.waitSnd = 0 ∧ ∃ segs : List Segment,
      segs.Perm w.b.rcvBuf.segments.toList ∧
      w.received.flatten ++ (w.b.rcvQueue.items ++ segs).flatMap Segment.data =
        w.accepted.flatten := by
  have hevents : ∀ event ∈ reordered, event.Allowed := by simp [reordered, Event.Allowed, Op.Local]
  have hnum : (run World.step (start 7 ⟨⟩ ⟨⟩ ⟨0⟩ ⟨0⟩ 0 0 : World Unbounded VirtualClock)
      reordered).1.numbered ≤ 2147483648 := by decide +kernel
  have hidle : (run World.step (start 7 ⟨⟩ ⟨⟩ ⟨0⟩ ⟨0⟩ 0 0 : World Unbounded VirtualClock)
      reordered).1.a.waitSnd = 0 := by decide +kernel
  obtain ⟨-, hdone⟩ := acknowledged_arrived 7 (⟨⟩ : Unbounded) ⟨⟩ (⟨0⟩ : VirtualClock) ⟨0⟩ 0 0
    reordered hevents hnum
  obtain ⟨segs, hperm, -, hbytes, -⟩ := hdone hidle
  exact ⟨by decide +kernel, hidle, segs, hperm, hbytes rfl⟩

end World

end Kcptun.Arq
