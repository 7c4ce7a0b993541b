/- Kcptun/Session/Carriage
   source: crates/kcp/src/session.rs (try_write, try_read, packet_input, set_kcp_mtu), crates/kcp/src/kcp.rs
     (send, recv, input, flush)
   digest: The bytes of one session on their way into another: which operation of either side adds to
     the log of numbered segments, to what was written and to what was read. -/

import Kcptun.Arq.Delivery
import Kcptun.Session.ReadExact
import Kcptun.Session.WriteExact

set_option autoImplicit false
set_option relaxedAutoImplicit false

namespace Kcptun.Session

open Kcptun.Arq Kcptun.Lib Kcptun.Lib.LittleEndian

section Acting

variable {O C : Type} [Output O] [Clock C] {k k' k'' : Kcp O C}

def ActsAll (k k' : Kcp O C) : Prop := Relation.ReflTransGen World.Acts k k'

/-- A flush takes segments off the front of the queue, no fewer than it numbers, and only adds to
what was sent. -/
theorem acts_queue (h : World.Acts k k') :
    k'.sndQueue.length ≤ k.sndQueue.length ∧
      (k'.sndNxt - k.sndNxt).toNat ≤ k.sndQueue.length - k'.sndQueue.length ∧
      k.output.sent <+: k'.output.sent := by
  obtain ⟨mid, hack, -, heq⟩ := h
  have hview := hack.view
  simp only [Kcp.outView, OutView.mk.injEq] at hview
  obtain ⟨hnxt, -, hqueue, hsent, -, -⟩ := hview
  have hlen : mid.sndQueue.length = k.sndQueue.length := congrArg List.length hqueue
  rcases heq with rfl | ⟨flushType, rfl⟩
  · refine ⟨hlen.le, ?_, hsent ▸ List.prefix_rfl⟩
    rw [hnxt, UInt32.sub_self]
    exact Nat.zero_le _
  · obtain ⟨groups, control, data, hflushed, -, -, hbuffer⟩ := mid.flush_spec flushType
    obtain ⟨n, hn, hdrop, hnumber, -⟩ := hbuffer.admitted
    have hrest : (mid.flush flushType).1.sndQueue.length = mid.sndQueue.length - n := by
      rw [Fifo.length, hdrop, List.length_drop]
      rfl
    refine ⟨by omega, ?_, ?_⟩
    · rw [hnumber, hnxt, UInt32.add_comm, UInt32.add_sub_cancel, UInt32.toNat_ofNat']
      have := Nat.mod_le n (2 ^ 32)
      omega
    · rw [hflushed, hsent]
      exact List.prefix_append _ _

private theorem ActsAll.queue (h : ActsAll k k') :
    k'.sndQueue.length ≤ k.sndQueue.length ∧ k.output.sent <+: k'.output.sent := by
  induction h with
  | refl => exact ⟨le_rfl, List.prefix_rfl⟩
  | tail _ hlast ih =>
    obtain ⟨hle, -, hpre⟩ := acts_queue hlast
    exact ⟨hle.trans ih.1, ih.2.trans hpre⟩

private theorem ActsAll.outbound (h : ActsAll k k') {log : List Entry} (hk : k.Outbound log)
    (hnum : log.length + (k.sndQueue.length - k'.sndQueue.length) < 4294967296) :
    ∃ log', log <+: log' ∧ k'.Outbound log' ∧
      log'.length = log.length + (k.sndQueue.length - k'.sndQueue.length) ∧
      log' ++ k'.sndQueue.items.map Segment.entry = log ++ k.sndQueue.items.map Segment.entry ∧
      k'.conv = k.conv := by
  induction h with
  | refl => exact ⟨log, List.prefix_rfl, hk, by omega, rfl, rfl⟩
  | @tail mid last hfirst hlast ih =>
    have hfirst' := ActsAll.queue hfirst
    obtain ⟨hle, hcount, -⟩ := acts_queue hlast
    obtain ⟨log₁, hpre₁, hout₁, hlen₁, hsame₁, hconv₁⟩ := ih (by omega)
    obtain ⟨log₂, hpre₂, hout₂, -, hsame₂⟩ := hlast.outbound hout₁ (by omega)
    have hboth := hsame₂.trans hsame₁
    refine ⟨log₂, hpre₁.trans hpre₂, hout₂, ?_, hboth, hlast.config.1.trans hconv₁⟩
    have hlens := congrArg List.length hboth
    simp only [List.length_append, List.length_map] at hlens
    unfold Fifo.length at hle hfirst' ⊢
    omega

private theorem actsAll_of_acts (h : World.Acts k k') :
    ActsAll k k' := Relation.ReflTransGen.single h

private theorem actsAll_flush (k : Kcp O C) (flushType : FlushType) :
    ActsAll k (k.flush flushType).1 :=
  actsAll_of_acts ⟨k, .of_eq rfl rfl, id, .inr ⟨flushType, rfl⟩⟩

private theorem actsAll_feed (s : Endpoint O C) (effects : List Effect) :
    ActsAll s.kcp (s.feed effects).kcp := by
  induction effects generalizing s with
  | nil => exact .refl
  | cons effect effects ih =>
    cases effect with
    | input data pktType =>
      have hfirst : ActsAll s.kcp (s.kcp.input data pktType s.ackNoDelay).1 :=
        actsAll_of_acts (World.acts_input s.kcp data pktType s.ackNoDelay)
      exact hfirst.trans (ih (s.setKcp (s.kcp.input data pktType s.ackNoDelay).1))
    | oob payload => exact ih s

private theorem actsAll_packetInput (s : Endpoint O C) (data : Bytes) :
    ActsAll s.kcp (s.packetInput data).1.kcp := by
  obtain ⟨d, effects, heq⟩ := s.packetInput_eq_feed data
  rw [heq]
  exact actsAll_feed ({ s with fecDecoder := d } : Endpoint O C) effects

private theorem actsAll_tryRead (r : Reader O C) (size : ℕ) :
    ActsAll r.kcp (r.tryRead size).1.kcp := by
  have hrecv (buflen : ℕ) : ActsAll r.kcp (r.kcp.recv buflen).1 :=
    actsAll_of_acts (World.acts_local r.kcp (show Arq.Op.Local (.recv buflen) from trivial)
      (fun _ => nofun) fun _ => nofun)
  simp only [Reader.tryRead]
  split_ifs
  · exact .refl
  · exact hrecv size
  · exact hrecv _
  · exact .refl

end Acting

/-- The queue, the buffer and what was sent stay as they are. -/
structure Reconfigures {O C : Type} (k k' : Kcp O C) : Prop where
  nxt : k'.sndNxt = k.sndNxt
  conv : k'.conv = k.conv
  sent : k'.output.sent = k.output.sent
  queue : k'.sndQueue.items = k.sndQueue.items
  buf : k'.sndBuf.items = k.sndBuf.items
  view : k'.sendView = k.sendView

/-- What `a` wrote and what `b` read, with the log of the segments that `a` has numbered: `b` has
consumed the first `c` of them. -/
structure Carried {O C P D : Type} (a : Kcp O C) (b : Kcp P D) (written received : Bytes)
    (numbered : ℕ) (log : List Entry) (c n : ℕ) : Prop where
  out : a.Outbound log
  inb : b.recvView.Inbound log c n
  count : log.length = numbered
  conv : b.conv = a.conv
  plain : ∀ e ∈ log ++ a.sndQueue.items.map Segment.entry, e.1 = 0
  bytes : (log ++ a.sndQueue.items.map Segment.entry).flatMap Prod.snd = written
  received : received = (log.take c).flatMap Prod.snd

section Carried

variable {O C P D : Type} {a a' : Kcp O C} {b b' : Kcp P D} {written received : Bytes}
  {numbered c n : ℕ} {log : List Entry}

theorem Carried.prefix (h : Carried a b written received numbered log c n) :
    received <+: written := by
  rw [h.received, ← h.bytes]
  exact ((List.take_prefix c log).trans (List.prefix_append _ _)).flatMap Prod.snd

private theorem Carried.write (h : Carried a b written received numbered log c n) {v : Bytes}
    (happ : Appends a a' v) :
    Carried a' b (written ++ v) received numbered log c n := by
  have hkeep : a'.sndNxt = a.sndNxt ∧ a'.conv = a.conv ∧ a'.output.sent = a.output.sent ∧
      a'.sndBuf = a.sndBuf ∧ a'.sendView = a.sendView := by
    rw [happ.rest]
    exact ⟨rfl, rfl, rfl, rfl, rfl⟩
  obtain ⟨hnxt, hconv, hsent, hbuf, hview⟩ := hkeep
  have hlog : ∀ e ∈ log, e.2.length < 4294967296 ∧ e.1 = 0 := fun e he =>
    ⟨h.out.short e (List.mem_append_left _ he), h.plain e (List.mem_append_left _ he)⟩
  have hqueued : ∀ seg ∈ a.sndQueue.items, seg.data.length < 4294967296 ∧ seg.frg = 0 :=
    fun seg hseg => ⟨h.out.short seg.entry (List.mem_append_right _ (List.mem_map_of_mem hseg)),
      h.plain seg.entry (List.mem_append_right _ (List.mem_map_of_mem hseg))⟩
  have hfrg := happ.frg fun seg hseg => (hqueued seg hseg).2
  obtain ⟨old, new, hsplit, hold, hnew⟩ := happ.grown.split
  have hshort : ∀ seg ∈ a'.sndQueue.items, seg.data.length < 4294967296 := by
    have hmss := a.mss.toNat_lt
    intro seg hseg
    rw [hsplit, List.mem_append] at hseg
    rcases hseg with hseg | hseg
    · obtain ⟨i, hi, rfl⟩ := List.getElem_of_mem hseg
      have hi' := hold.length_eq ▸ hi
      have hext : old[i].data.length ≤ max a.sndQueue.items[i].data.length a.mss.toNat :=
        (hold.get hi' hi).2
      have hlast := (hqueued _ (List.getElem_mem hi')).1
      omega
    · have := (hnew seg hseg).2
      omega
  refine ⟨⟨hnxt.trans h.out.nxt, hview ▸ h.out.window, ?_, ?_,
    ?_⟩, h.inb, h.count, h.conv.trans hconv.symm, ?_, ?_, h.received⟩
  · intro e he
    rcases List.mem_append.mp he with he | he
    · exact (hlog e he).1
    · obtain ⟨seg, hseg, rfl⟩ := List.mem_map.mp he
      exact hshort seg hseg
  · intro seg hseg ha
    obtain ⟨hm, hc⟩ := h.out.buf seg (hbuf ▸ hseg) ha
    exact ⟨hm, hc.trans hconv.symm⟩
  · intro pkt hpkt
    obtain ⟨segs, hsegs, hgen⟩ := h.out.sent pkt (hsent ▸ hpkt)
    exact ⟨segs, hsegs, fun seg hseg => hconv.symm ▸ hgen seg hseg⟩
  · intro e he
    rcases List.mem_append.mp he with he | he
    · exact (hlog e he).2
    · obtain ⟨seg, hseg, rfl⟩ := List.mem_map.mp he
      exact hfrg seg hseg
  · have hbytes := h.bytes
    rw [List.flatMap_append, flatMap_entry] at hbytes ⊢
    rw [← hbytes, List.append_assoc]
    exact congrArg (log.flatMap Prod.snd ++ ·) happ.queued

private theorem Carried.acts [Output O] [Clock C]
    (h : Carried a b written received numbered log c n) (hacts : ActsAll a a')
    (hnum : numbered + (a.sndQueue.length - a'.sndQueue.length) < 4294967296) :
    ∃ log', Carried a' b written received (numbered + (a.sndQueue.length - a'.sndQueue.length))
      log' c n := by
  obtain ⟨log', hpre, hout, hlen, hsame, hconv⟩ := hacts.outbound h.out (by rw [h.count]; exact hnum)
  refine ⟨log', hout, h.inb.mono hpre, by rw [hlen, h.count], h.conv.trans hconv.symm,
    hsame ▸ h.plain, hsame ▸ h.bytes, h.received.trans ?_⟩
  obtain ⟨rest, rfl⟩ := hpre
  rw [List.take_append_of_le_length (h.inb.consumed.trans h.inb.known)]

theorem Carried.reconfigured (h : Carried a b written received numbered log c n)
    (hset : Reconfigures a a') : Carried a' b written received numbered log c n := by
  obtain ⟨hnxt, hconv, hsent, hqueue, hbuf, hview⟩ := hset
  refine ⟨⟨hnxt.trans h.out.nxt, hview ▸ h.out.window, hqueue ▸ h.out.short, ?_, ?_⟩, h.inb, h.count,
    h.conv.trans hconv.symm, hqueue ▸ h.plain, hqueue ▸ h.bytes, h.received⟩
  · rw [hbuf, hconv]
    exact h.out.buf
  · rw [hsent, hconv]
    exact h.out.sent

theorem Carried.input [Output P] [Clock D] (h : Carried a b written received numbered log c n)
    (hnum : numbered < 4294967296) {pkt : Bytes} (hpkt : pkt ∈ a.output.sent) (pktType : PacketType)
    (ackNoDelay : Bool) :
    ∃ n', Carried a (b.input pkt pktType ackNoDelay).1 written received numbered log c n' := by
  obtain ⟨segs, rfl, hsegs⟩ := h.out.sent pkt hpkt
  obtain ⟨n', -, hin⟩ := Kcp.inbound_input (h.count ▸ hnum) h.inb segs
    (fun seg hseg => h.conv.symm ▸ hsegs seg hseg) pktType ackNoDelay
  have hconv := (World.acts_input b (packet segs) pktType ackNoDelay).config.1
  exact ⟨n', h.out, hin, h.count, hconv.trans h.conv, h.plain, h.bytes, h.received⟩

private theorem Carried.recv (h : Carried a b written received numbered log c n)
    (hnum : numbered < 4294967296) {buflen : ℕ} (hok : 0 ≤ (b.recv buflen).2.1) :
    ∃ n', Carried a (b.recv buflen).1 written (received ++ (b.recv buflen).2.2) numbered log (c + 1)
      n' := by
  have hc : c ≤ log.length := h.inb.consumed.trans h.inb.known
  have hplain : ∀ e ∈ log, e.1 = 0 := fun e he => h.plain e (List.mem_append_left _ he)
  have hgroups := World.StreamOk.consumed hplain hc
  obtain ⟨msg, g, n', hmsg, hbytes, hin, hnext⟩ := Kcp.inbound_recv (h.count ▸ hnum) h.inb hgroups
    List.prefix_rfl hok
  have hlt : c < log.length := by
    obtain ⟨hlt, -⟩ := List.getElem?_eq_some_iff.mp hmsg
    rwa [List.length_map] at hlt
  -- every entry is a message of its own
  obtain rfl : g = 1 := by
    have hlen := hnext.consumed
    have hone : ((log.map fun e => [e]).take (c + 1)).flatten.length = c + 1 := by
      rw [← List.map_take, ← List.flatMap_def]
      simp only [List.flatMap_singleton', List.length_take]
      omega
    omega
  have hconv : (b.recv buflen).1.conv = a.conv := by
    obtain ⟨_, _, _, _, hframe⟩ := b.recv_frame buflen
    rw [hframe]
    exact h.conv
  refine ⟨n', h.out, hin, h.count, hconv, h.plain, h.bytes, ?_⟩
  have hentry : log[c]?.map Prod.snd = some msg := by rwa [List.getElem?_map] at hmsg
  obtain ⟨e, he, rfl⟩ := Option.map_eq_some_iff.mp hentry
  rw [List.take_add_one, List.flatMap_append, ← h.received, hbytes, he]
  simp

theorem Carried.keep (h : Carried a b written received numbered log c n)
    (hconv : b'.conv = b.conv) (hbuf : b'.recvView.buf = b.recvView.buf)
    (hqueue : b'.recvView.queue = b.recvView.queue) (hnxt : b'.recvView.nxt = b.recvView.nxt) :
    Carried a b' written received numbered log c n :=
  ⟨h.out, ⟨hnxt.trans h.inb.nxt, h.inb.consumed, h.inb.known, hbuf ▸ h.inb.heap,
    hqueue ▸ h.inb.queue⟩, h.count, hconv.trans h.conv, h.plain, h.bytes, h.received⟩

end Carried

namespace Endpoint

variable {O C : Type} {s s' : Endpoint O C}

def queuedBy (s : Endpoint O C) : Op → Kcp O C
  | .write v => if waitSnd s.kcp ≥ s.kcp.sndWnd.toNat then s.kcp else queueWrite s.kcp v
  | _ => s.kcp

def readBack (s : Endpoint O C) : Op → Bytes
  | .read size => readBytes (s.reader.tryRead size).2
  | _ => []

def leftover (s : Endpoint O C) : Bytes := s.reader.leftover

def Op.Own : Op → Prop
  | .packetInput _ => False
  | _ => True

variable [Output O] [Clock C]

def taken (s : Endpoint O C) : Op → Bytes
  | .write v => if (s.tryWrite v).2.isSome then v.flatten else []
  | _ => []

/-- What an operation does to the sending half: it appends to the queue, then acknowledges and
flushes, or only changes a setting. -/
theorem step_sends (hmss : 1 ≤ s.kcp.mss.toNat) {op : Op} (hstep : s.step op = some s') :
    Appends s.kcp (s.queuedBy op) (s.taken op) ∧
      (ActsAll (s.queuedBy op) s'.kcp ∨ Reconfigures (s.queuedBy op) s'.kcp) := by
  cases op with
  | write v =>
    cases hstep
    by_cases hfull : waitSnd s.kcp ≥ s.kcp.sndWnd.toNat
    · have htry : s.tryWrite v = (s, none) := if_pos hfull
      simp only [queuedBy, taken, if_pos hfull, htry]
      exact ⟨.refl s.kcp, .inl .refl⟩
    · have hqueued := (appends_queueWrite s.kcp v hmss).1
      have htry : s.tryWrite v = (s.setKcp (if waitSnd (queueWrite s.kcp v) ≥
          (queueWrite s.kcp v).sndWnd.toNat ∨ s.writeDelay = false
            then ((queueWrite s.kcp v).flush .full).1 else queueWrite s.kcp v),
          some (v.map List.length).sum) := if_neg hfull
      simp only [queuedBy, taken, if_neg hfull, htry, Option.isSome_some, if_true]
      refine ⟨hqueued, .inl ?_⟩
      split_ifs
      · exact actsAll_flush _ .full
      · exact .refl
  | read size =>
    cases hstep
    exact ⟨.refl s.kcp, .inl (actsAll_tryRead s.reader size)⟩
  | packetInput data =>
    cases hstep
    exact ⟨.refl s.kcp, .inl (actsAll_packetInput s data)⟩
  | update | close =>
    cases hstep
    exact ⟨.refl s.kcp, .inl (actsAll_flush s.kcp .full)⟩
  | setMtu mtu =>
    obtain ⟨⟨k, took⟩, hmtu, rfl⟩ := Option.map_eq_some_iff.mp hstep
    obtain ⟨-, heq⟩ := Option.ite_none_left_eq_some.mp hmtu
    cases heq
    obtain ⟨_, _, heq⟩ := s.kcp.setMtu_frame _
    refine ⟨.refl s.kcp, .inr ?_⟩
    rw [heq]
    exact ⟨rfl, rfl, rfl, rfl, rfl, rfl⟩
  | setStreamMode enable =>
    cases hstep
    exact ⟨.refl s.kcp, .inr ⟨rfl, rfl, rfl, rfl, rfl, rfl⟩⟩
  | setAckNoDelay nodelay | setWriteDelay delay =>
    cases hstep
    exact ⟨.refl s.kcp, .inl .refl⟩
  | setWindowSize sndwnd rcvwnd =>
    cases hstep
    have hop : Arq.Op.Local (.wndSize sndwnd rcvwnd) := trivial
    exact ⟨.refl s.kcp,
      .inl (actsAll_of_acts (World.acts_local s.kcp hop (fun _ => nofun) fun _ => nofun))⟩
  | setNoDelay nodelay interval resend nc =>
    cases hstep
    have hop : Arq.Op.Local (.nodelay nodelay interval resend nc) := trivial
    exact ⟨.refl s.kcp,
      .inl (actsAll_of_acts (World.acts_local s.kcp hop (fun _ => nofun) fun _ => nofun))⟩
  | shrinkIdle heapReleased ackReleased recvbufGrown =>
    cases hstep
    have hop : Arq.Op.Local (.shrinkIdleBuffers heapReleased ackReleased) := trivial
    have hshrunk : ActsAll s.kcp (s.kcp.shrinkIdleBuffers heapReleased ackReleased).1 :=
      actsAll_of_acts (World.acts_local s.kcp hop (fun _ => nofun) fun _ => nofun)
    refine ⟨.refl s.kcp, .inl ?_⟩
    split_ifs <;> exact hshrunk

/-- What every operation keeps: the settings of the pipeline, the conversation id, and what was sent
before. -/
structure Keeps (s s' : Endpoint O C) : Prop where
  header : s'.headerSize = s.headerSize
  crypt : s'.crypt = s.crypt
  fec : s'.fecEnabled = s.fecEnabled
  conv : s'.kcp.conv = s.kcp.conv
  sent : s.kcp.output.sent <+: s'.kcp.output.sent

theorem fields_feed (s : Endpoint O C) (effects : List Effect) :
    (s.feed effects).headerSize = s.headerSize ∧ (s.feed effects).crypt = s.crypt ∧
      (s.feed effects).fecEnabled = s.fecEnabled ∧ (s.feed effects).fecDecoder = s.fecDecoder ∧
      (s.feed effects).leftover = s.leftover := by
  induction effects generalizing s with
  | nil => exact ⟨rfl, rfl, rfl, rfl, rfl⟩
  | cons effect effects ih =>
    cases effect with
    | input data pktType => exact ih (s.setKcp (s.kcp.input data pktType s.ackNoDelay).1)
    | oob payload => exact ih s

private theorem actsAll_conv {k k' : Kcp O C} (h : ActsAll k k') : k'.conv = k.conv := by
  induction h with
  | refl => rfl
  | tail _ hlast ih => exact hlast.config.1.trans ih

theorem step_keeps (hmss : 1 ≤ s.kcp.mss.toNat) {op : Op} (hstep : s.step op = some s') :
    Keeps s s' := by
  obtain ⟨happ, hrest⟩ := step_sends hmss hstep
  have hqueued : (s.queuedBy op).conv = s.kcp.conv ∧
      (s.queuedBy op).output.sent = s.kcp.output.sent := by
    rw [happ.rest]
    exact ⟨rfl, rfl⟩
  have hkcp : s'.kcp.conv = s.kcp.conv ∧ s.kcp.output.sent <+: s'.kcp.output.sent := by
    rw [← hqueued.1, ← hqueued.2]
    rcases hrest with hacts | hset
    · exact ⟨actsAll_conv hacts, hacts.queue.2⟩
    · exact ⟨hset.conv, hset.sent ▸ List.prefix_rfl⟩
  have hfields : s'.headerSize = s.headerSize ∧ s'.crypt = s.crypt ∧
      s'.fecEnabled = s.fecEnabled := by
    cases op with
    | write v =>
      cases hstep
      rcases s.tryWrite_eq v with heq | ⟨-, heq | heq⟩ <;> rw [heq] <;> exact ⟨rfl, rfl, rfl⟩
    | packetInput data =>
      cases hstep
      obtain ⟨d, effects, heq⟩ := s.packetInput_eq_feed data
      obtain ⟨hheader, hcrypt, hfec, -⟩ :=
        fields_feed ({ s with fecDecoder := d } : Endpoint O C) effects
      rw [heq]
      exact ⟨hheader, hcrypt, hfec⟩
    | setMtu mtu =>
      obtain ⟨_, -, rfl⟩ := Option.map_eq_some_iff.mp hstep
      exact ⟨rfl, rfl, rfl⟩
    | shrinkIdle heapReleased ackReleased recvbufGrown =>
      cases hstep
      split_ifs <;> exact ⟨rfl, rfl, rfl⟩
    | _ =>
      cases hstep
      exact ⟨rfl, rfl, rfl⟩
  exact ⟨hfields.1, hfields.2.1, hfields.2.2, hkcp.1, hkcp.2⟩

/-- An operation of the application leaves the decoder alone and, unless it is a read, the receiving
half. -/
structure Untouched (s s' : Endpoint O C) : Prop where
  buf : s'.kcp.recvView.buf = s.kcp.recvView.buf
  queue : s'.kcp.recvView.queue = s.kcp.recvView.queue
  nxt : s'.kcp.recvView.nxt = s.kcp.recvView.nxt
  leftover : s'.leftover = s.leftover

omit [Output O] [Clock C] in
theorem recvView_queueWrite (k : Kcp O C) (v : List Bytes) :
    (queueWrite k v).recvView = k.recvView := by
  have hslice (turns : ℕ) (k : Kcp O C) (b : Bytes) :
      (writeSlice turns k b).recvView = k.recvView := by
    induction turns generalizing k b with
    | zero => rfl
    | succ turns ih =>
      rw [writeSlice]
      split_ifs
      · exact k.recvView_send b
      · exact (ih _ _).trans (k.recvView_send _)
  induction v generalizing k with
  | nil => rfl
  | cons b v ih => exact (ih _).trans (hslice _ _ _)

theorem step_decoder {op : Op} (hop : op.Own) (hstep : s.step op = some s') :
    s'.fecDecoder = s.fecDecoder := by
  cases op with
  | write v =>
    cases hstep
    rcases s.tryWrite_eq v with heq | ⟨-, heq | heq⟩ <;> rw [heq] <;> rfl
  | packetInput data => exact hop.elim
  | setMtu mtu =>
    obtain ⟨_, -, rfl⟩ := Option.map_eq_some_iff.mp hstep
    rfl
  | shrinkIdle heapReleased ackReleased recvbufGrown =>
    cases hstep
    split_ifs <;> rfl
  | _ =>
    cases hstep
    rfl

private theorem step_untouched {op : Op} (hop : op.Own) (hread : ∀ size, op ≠ .read size)
    (hstep : s.step op = some s') : Untouched s s' := by
  have hview {k : Kcp O C} (h : k.recvView = s.kcp.recvView) : Untouched s (s.setKcp k) :=
    ⟨congrArg RecvView.buf h, congrArg RecvView.queue h, congrArg RecvView.nxt h, rfl⟩
  cases op with
  | write v =>
    cases hstep
    rcases s.tryWrite_eq v with heq | ⟨-, heq | heq⟩
    · rw [heq]
      exact ⟨rfl, rfl, rfl, rfl⟩
    · rw [heq]
      exact hview (recvView_queueWrite s.kcp v)
    · rw [heq]
      exact hview (((queueWrite s.kcp v).recvView_flush .full).trans (recvView_queueWrite s.kcp v))
  | read size => exact absurd rfl (hread size)
  | packetInput data => exact hop.elim
  | update | close =>
    cases hstep
    exact hview (s.kcp.recvView_flush .full)
  | setMtu mtu =>
    obtain ⟨⟨k, took⟩, hmtu, rfl⟩ := Option.map_eq_some_iff.mp hstep
    obtain ⟨-, heq⟩ := Option.ite_none_left_eq_some.mp hmtu
    cases heq
    obtain ⟨_, _, heq⟩ := s.kcp.setMtu_frame _
    rw [heq]
    exact ⟨rfl, rfl, rfl, rfl⟩
  | setStreamMode enable | setAckNoDelay nodelay | setWriteDelay delay =>
    cases hstep
    exact ⟨rfl, rfl, rfl, rfl⟩
  | setWindowSize sndwnd rcvwnd =>
    cases hstep
    obtain ⟨_, _, heq⟩ := s.kcp.wndSize_frame sndwnd rcvwnd
    rw [heq]
    exact ⟨rfl, rfl, rfl, rfl⟩
  | setNoDelay nodelay interval resend nc =>
    cases hstep
    obtain ⟨_, _, _, _, _, heq⟩ := s.kcp.setNodelay_frame nodelay interval resend nc
    rw [heq]
    exact ⟨rfl, rfl, rfl, rfl⟩
  | shrinkIdle heapReleased ackReleased recvbufGrown =>
    cases hstep
    have hshrunk := s.kcp.recvView_shrinkIdleBuffers heapReleased ackReleased
    split_ifs with hempty
    · refine ⟨congrArg RecvView.buf hshrunk, congrArg RecvView.queue hshrunk,
        congrArg RecvView.nxt hshrunk, ?_⟩
      -- `recvbuf` is given back only when all of it was read
      exact (List.drop_eq_nil_of_le hempty.1).symm
    · exact hview hshrunk

end Endpoint

section Receiver

variable {O C P D : Type} [Output P] [Clock D] {a : Kcp O C} {s s' : Endpoint P D}
  {written returned : Bytes} {numbered c n : ℕ} {log : List Entry}

omit [Output P] [Clock D] in
private theorem recv_code {k : Kcp P D} (hsome : k.peekSize > 0) {buflen : ℕ}
    (hfits : k.peekSize ≤ buflen) : 0 ≤ (k.recv buflen).2.1 := by
  unfold Kcp.recv
  rw [if_neg (by omega), if_neg (by omega)]
  exact Int.natCast_nonneg _

omit [Output P] [Clock D] in
/-- A read moves bytes from what the connection has received to the application, or keeps them for
the next one. -/
theorem Carried.tryRead {r : Reader P D}
    (h : Carried a r.kcp written (returned ++ r.leftover) numbered log c n)
    (hnum : numbered < 4294967296) (size : ℕ) :
    ∃ c' n', Carried a (r.tryRead size).1.kcp written
      (returned ++ readBytes (r.tryRead size).2 ++ (r.tryRead size).1.leftover) numbered log c' n' := by
  unfold Reader.tryRead
  by_cases hleft : r.bufptrLen > 0
  · rw [if_pos hleft]
    have hsplit : readBytes (some (min size r.bufptrLen,
        (r.recvbuf.drop r.bufptr).take (min size r.bufptrLen))) ++
        r.recvbuf.drop (r.bufptr + min size r.bufptrLen) = r.leftover := by
      rw [← List.drop_drop]
      exact List.take_append_drop _ _
    refine ⟨c, n, ?_⟩
    rw [← hsplit, ← List.append_assoc] at h
    exact h
  rw [if_neg hleft]
  have hnil : r.leftover = [] := Reader.leftover_eq_nil (by omega)
  rw [hnil, List.append_nil] at h
  by_cases hsome : r.kcp.peekSize > 0
  swap
  · rw [if_neg hsome]
    refine ⟨c, n, ?_⟩
    rw [hnil, List.append_nil]
    exact (List.append_nil returned).symm ▸ h
  rw [if_pos hsome]
  dsimp only
  split_ifs with hdirect
  · have hfits : r.kcp.peekSize ≤ (size : ℤ) := by omega
    obtain ⟨n', hrecv⟩ := h.recv hnum (recv_code hsome hfits)
    have hkeep : ({ r with kcp := (r.kcp.recv size).1 } : Reader P D).leftover = [] := hnil
    refine ⟨c + 1, n', ?_⟩
    rw [hkeep, List.append_nil]
    exact hrecv
  · have hfits : r.kcp.peekSize ≤ (r.kcp.peekSize.toNat : ℤ) := Int.self_le_toNat _
    obtain ⟨n', hrecv⟩ := h.recv hnum (recv_code hsome hfits)
    have hsplit := List.take_append_drop
      (min size (r.kcp.recv r.kcp.peekSize.toNat).2.2.length) (r.kcp.recv r.kcp.peekSize.toNat).2.2
    refine ⟨c + 1, n', ?_⟩
    rw [← hsplit, ← List.append_assoc] at hrecv
    exact hrecv

theorem Carried.receiver (h : Carried a s.kcp written (returned ++ s.leftover) numbered log c n)
    (hnum : numbered < 4294967296) (hmss : 1 ≤ s.kcp.mss.toNat) {op : Endpoint.Op} (hop : op.Own)
    (hstep : s.step op = some s') :
    ∃ c' n', Carried a s'.kcp written (returned ++ s.readBack op ++ s'.leftover) numbered log c'
      n' := by
  by_cases hread : ∃ size, op = .read size
  · obtain ⟨size, rfl⟩ := hread
    cases hstep
    exact Carried.tryRead h hnum size
  · rw [not_exists] at hread
    have hback : s.readBack op = [] := by
      cases op with
      | read size => exact absurd rfl (hread size)
      | _ => rfl
    obtain ⟨hbuf, hqueue, hnxt, hleft⟩ := Endpoint.step_untouched hop hread hstep
    refine ⟨c, n, ?_⟩
    rw [hback, List.append_nil, hleft]
    exact h.keep (Endpoint.step_keeps hmss hstep).conv hbuf hqueue hnxt

end Receiver

section Sender

variable {O C P D : Type} [Output O] [Clock C] {b : Kcp P D} {s s' : Endpoint O C}
  {written received : Bytes} {numbered c n : ℕ} {log : List Entry}

theorem Carried.sender (h : Carried s.kcp b written received numbered log c n)
    (hmss : 1 ≤ s.kcp.mss.toNat) {op : Endpoint.Op} (hstep : s.step op = some s')
    (hnum : numbered + ((s.queuedBy op).sndQueue.length - s'.kcp.sndQueue.length) < 4294967296) :
    ∃ log', Carried s'.kcp b (written ++ s.taken op) received
      (numbered + ((s.queuedBy op).sndQueue.length - s'.kcp.sndQueue.length)) log' c n := by
  obtain ⟨happ, hacts | hset⟩ := Endpoint.step_sends hmss hstep
  · exact (h.write happ).acts hacts hnum
  · have hlen : s'.kcp.sndQueue.length = (s.queuedBy op).sndQueue.length :=
      congrArg List.length hset.queue
    rw [hlen, Nat.sub_self, Nat.add_zero]
    exact ⟨log, (h.write happ).reconfigured hset⟩

end Sender

end Kcptun.Session
