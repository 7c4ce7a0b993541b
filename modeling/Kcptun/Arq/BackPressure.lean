/- Kcptun/Arq/BackPressure
   source: crates/kcp/src/kcp.rs (flush, OUTPUT_ROOM, Output::capacity)
   digest: A flush never calls an output that has no room left, and whatever it marks as done left
     in a packet. -/

import Kcptun.Arq.Packets

set_option autoImplicit false
set_option relaxedAutoImplicit false

namespace Kcptun.Arq

open Kcptun.Lib Kcptun.Lib.LittleEndian

/-- An output with room for so many packets. Each call takes one place; otherwise the room only
grows, at any time, also between the answer of `capacity` and the next call. -/
class Bounded (O : Type) extends Output O where
  room : O → ℕ
  room_output : ∀ o buf, room o ≤ room (output o buf) + 1
  room_capacity : ∀ o, room o ≤ (capacity o).1
  capacity_room : ∀ o, (capacity o).1 ≤ room (capacity o).2

/-- An output with a flag that is raised when it is called without room. -/
structure Watched (O : Type) where
  inner : O
  starved : Bool := false

instance {O : Type} [Bounded O] : Output (Watched O) where
  output w buf := ⟨Output.output w.inner buf, w.starved || Bounded.room w.inner = 0⟩
  capacity w := ((Output.capacity w.inner).1, { w with inner := (Output.capacity w.inner).2 })

/-- The bounded channel of a session: a packet takes one of its slots. -/
structure Channel where
  slots : ℕ
  deriving DecidableEq, Repr

instance : Bounded Channel where
  output c _ := ⟨c.slots - 1⟩
  capacity c := (c.slots, c)
  room c := c.slots
  room_output c _ := by simp only; omega
  room_capacity _ := le_rfl
  capacity_room _ := le_rfl

variable {O C : Type} [Bounded O]

/-- The flag of a packet under construction is `b`, and the output has room for what is already in
the buffer. -/
structure Packer.Steady (b : Bool) (p : Packer (Watched O)) : Prop where
  flag : p.sink.chan.starved = b
  room : p.buf ≠ [] → 1 ≤ Bounded.room p.sink.chan.inner

namespace Packer.Steady

variable {b : Bool} {p : Packer (Watched O)}

private theorem hasRoom (h : p.Steady b) : p.hasRoom.2.Steady b := by
  refine ⟨h.flag, ?_⟩
  intro hne
  have hgrow := (Bounded.room_capacity p.sink.chan.inner).trans
    (Bounded.capacity_room p.sink.chan.inner)
  exact (h.room hne).trans hgrow

private theorem two_le_room (hroom : p.hasRoom.1 = true) :
    2 ≤ Bounded.room p.hasRoom.2.sink.chan.inner := by
  have hcap : OUTPUT_ROOM ≤ (Output.capacity p.sink.chan.inner).1 := of_decide_eq_true hroom
  exact le_trans hcap (Bounded.capacity_room p.sink.chan.inner)

private theorem makeSpace (h : p.Steady b) (hroom : 2 ≤ Bounded.room p.sink.chan.inner)
    (mtu : UInt32) (space : ℕ) : (p.makeSpace mtu space).Steady b ∧
      1 ≤ Bounded.room (p.makeSpace mtu space).sink.chan.inner := by
  have hout := Bounded.room_output p.sink.chan.inner p.buf
  unfold Packer.makeSpace
  split_ifs
  · have hflag : (p.sink.output p.buf).chan.starved = b := by
      change (p.sink.chan.starved || decide (Bounded.room p.sink.chan.inner = 0)) = b
      rw [decide_eq_false (by omega), Bool.or_false, h.flag]
    have hleft : 1 ≤ Bounded.room (p.sink.output p.buf).chan.inner := by
      change 1 ≤ Bounded.room (Output.output p.sink.chan.inner p.buf)
      omega
    exact ⟨⟨hflag, fun _ => hleft⟩, hleft⟩
  · exact ⟨h, by omega⟩

private theorem write (h : p.Steady b) (hroom : 1 ≤ Bounded.room p.sink.chan.inner)
    (seg : Segment) : (p.write seg).Steady b := ⟨h.flag, fun _ => hroom⟩

private theorem flushBuffer (h : p.Steady b) : p.flushBuffer.chan.starved = b := by
  unfold Packer.flushBuffer
  split_ifs with hlen
  · have hroom := h.room (List.ne_nil_of_length_pos hlen)
    change (p.sink.chan.starved || decide (Bounded.room p.sink.chan.inner = 0)) = b
    rw [decide_eq_false (by omega), Bool.or_false, h.flag]
  · exact h.flag

end Packer.Steady

private theorem steady_flushAcks {b : Bool} (mtu rcvNxt : UInt32) (seg : Segment)
    (acks : List AckItem) (p : Packer (Watched O)) (h : p.Steady b) :
    (flushAcks mtu rcvNxt seg acks p).2.2.Steady b := by
  induction acks generalizing seg p with
  | nil => exact h
  | cons ack acks ih =>
    simp only [flushAcks]
    split_ifs with hroom hwrite
    · exact h.hasRoom
    all_goals
      have htrue : p.hasRoom.1 = true := by simpa using hroom
      obtain ⟨hspace, hone⟩ := h.hasRoom.makeSpace (Packer.Steady.two_le_room htrue) mtu
        IKCP_OVERHEAD
    · exact ih _ _ (hspace.write hone _)
    · exact ih _ _ hspace

private theorem steady_sendProbe {b : Bool} (mtu probe bit : UInt32) (cmd : UInt8) (seg : Segment)
    (p : Packer (Watched O)) (h : p.Steady b) :
    (sendProbe mtu probe bit cmd seg p).2.2.Steady b := by
  simp only [sendProbe]
  split_ifs with hbit hroom
  · exact h
  · exact h.hasRoom
  · have htrue : p.hasRoom.1 = true := by simpa using hroom
    obtain ⟨hspace, hone⟩ := h.hasRoom.makeSpace (Packer.Steady.two_le_room htrue) mtu
      IKCP_OVERHEAD
    exact hspace.write hone _

namespace Scan

variable [Clock C]

omit [Clock C] in
private theorem steady_askRoom {b : Bool} (env : ScanEnv) (s : Scan (Watched O) C) (seg : Segment)
    (h : s.packer.Steady b) : (s.askRoom env seg).packer.Steady b := by
  unfold askRoom
  split_ifs
  · exact h.hasRoom
  · exact h

omit [Clock C] in
private theorem two_le_room_askRoom {env : ScanEnv} {s : Scan (Watched O) C} {seg marked : Segment}
    {why : Resend} (hb : (s.askRoom env seg).backpressured = false)
    (hm : mark env s.current seg = some (marked, why)) :
    2 ≤ Bounded.room (s.askRoom env seg).packer.sink.chan.inner := by
  have hwould := wouldSend_of_mark hm
  unfold askRoom at hb ⊢
  split_ifs at hb ⊢ with hask
  · exact Packer.Steady.two_le_room (by simpa using hb)
  · rw [hwould, Bool.and_true, hb] at hask
    exact absurd rfl hask

private theorem steady_segment {b : Bool} (env : ScanEnv) (s : Scan (Watched O) C) (seg : Segment)
    (h : s.packer.Steady b) : (s.segment env seg).1.packer.Steady b := by
  have hask := s.steady_askRoom env seg h
  apply packer_segment env s seg h hask
  intro marked why hb hm
  obtain ⟨hspace, hone⟩ := hask.makeSpace (two_le_room_askRoom hb hm) env.mtu
    (IKCP_OVERHEAD + marked.data.length)
  exact hspace.write hone _

private theorem steady_loop {b : Bool} (env : ScanEnv) (s : Scan (Watched O) C)
    (items : List Segment) (h : s.packer.Steady b) : (s.loop env items).1.packer.Steady b := by
  induction items generalizing s with
  | nil => exact h
  | cons seg rest ih => exact ih _ (s.steady_segment env seg h)

end Scan

/-- The segment is written out in one of the packets, each of which is a run of segments. -/
def Emitted (packets : List Bytes) (seg : Segment) : Prop :=
  ∃ before after, packet before ++ seg.wire ++ packet after ∈ packets

private theorem emitted_of_mem {groups : List (List Segment)} {seg : Segment}
    (h : seg ∈ groups.flatten) : Emitted (groups.map packet) seg := by
  obtain ⟨group, hgroup, hseg⟩ := List.mem_flatten.mp h
  obtain ⟨before, after, rfl⟩ := List.append_of_mem hseg
  refine ⟨before, after, List.mem_map.mpr ⟨_, hgroup, ?_⟩⟩
  simp [packet]

def Segment.timers (seg : Segment) : UInt32 × UInt32 × UInt32 × UInt32 × UInt32 :=
  (seg.xmit, seg.rto, seg.resendts, seg.fastack, seg.ts)

private theorem timers_admitted {conv nxt : UInt32} {buf queue : List Segment} {n i : ℕ}
    {old : Segment} (hold : (buf ++ queue)[i]? = some old) {a : Segment}
    (ha : (buf ++ number conv nxt (queue.take n))[i]? = some a) : a.timers = old.timers := by
  by_cases hi : i < buf.length
  · rw [List.getElem?_append_left hi] at hold ha
    rw [hold] at ha
    cases ha
    rfl
  · rw [List.getElem?_append_right (by omega)] at hold ha
    rw [getElem?_number, List.getElem?_take] at ha
    split_ifs at ha
    · rw [hold] at ha
      cases ha
      rfl
    · cases ha

namespace Kcp

variable [Clock C]

private theorem starved_flush (k : Kcp (Watched O) C) (flushType : FlushType) :
    (k.flush flushType).1.output.chan.starved = k.output.chan.starved := by
  have hcontrol : k.flushControl.2.Steady k.output.chan.starved := by
    have hstart : Packer.Steady k.output.chan.starved ⟨k.output, []⟩ :=
      ⟨rfl, fun hne => absurd rfl hne⟩
    simp only [flushControl]
    exact steady_sendProbe _ _ _ _ _ _ (steady_sendProbe _ _ _ _ _ _
      (steady_flushAcks _ _ _ _ _ hstart))
  cases flushType with
  | ackOnly =>
    obtain ⟨ssthresh, cwnd, incr, h⟩ := k.flush_ackOnly
    rw [h]
    exact hcontrol.flushBuffer
  | full =>
    obtain ⟨ssthresh, cwnd, incr, h⟩ := k.flush_full
    rw [h]
    exact (Scan.steady_loop _ (k.flushControl.1.admitSegments.1.scanStart k.flushControl.2) _
      hcontrol).flushBuffer

/-- Back-pressure drops nothing: in any state, a flush of either type calls the output only while
it has room, and every acknowledgement, probe bit and segment it marks as done was written into a
packet it handed over. -/
theorem flush_drops_nothing (k : Kcp (Watched O) C) (flushType : FlushType) :
    let k' := (k.flush flushType).1
    k'.output.chan.starved = k.output.chan.starved ∧
    ∃ packets, k'.output.sent = k.output.sent ++ packets ∧
      (∃ gone, k.acklist = gone ++ k'.acklist ∧ ∀ a ∈ gone,
        (∃ seg, Emitted packets seg ∧ seg.cmd = IKCP_CMD_ACK ∧ seg.sn = a.sn ∧ seg.ts = a.ts) ∨
        (itimediff a.sn k.rcvNxt < 0 ∧
          ((∃ seg, Emitted packets seg ∧ seg.una = k.rcvNxt) ∨ k'.acklist ≠ []))) ∧
      (∀ bit cmd, (bit, cmd) ∈ probes →
        k.probe &&& bit ≠ 0 ∨ k.probeTimer.probe &&& bit ≠ 0 → k'.probe &&& bit = 0 →
        ∃ seg, Emitted packets seg ∧ seg.cmd = cmd) ∧
      ∀ (i : ℕ) (old cur : Segment), (k.sndBuf.items ++ k.sndQueue.items)[i]? = some old →
        k'.sndBuf.items[i]? = some cur → cur.timers = old.timers ∨ Emitted packets cur := by
  obtain ⟨groups, control, data, hsent, hflat, heffect, hbuffer⟩ := k.flush_spec flushType
  have hcontrol : ∀ s ∈ control, Emitted (groups.map packet) s := fun s hs =>
    emitted_of_mem (by rw [hflat]; exact List.mem_append_left _ hs)
  have hdata : ∀ s ∈ data, Emitted (groups.map packet) s := fun s hs =>
    emitted_of_mem (by rw [hflat]; exact List.mem_append_right _ hs)
  refine ⟨k.starved_flush flushType, groups.map packet, hsent, ?_, ?_, ?_⟩
  · obtain ⟨new, hacks, hnew⟩ := heffect.acks
    obtain ⟨gone, hgone, hwhy⟩ := hacks.removed
    refine ⟨gone, hgone, ?_⟩
    intro a ha
    rcases hwhy a ha with ⟨s, hs, hsn, hts⟩ | ⟨hlt, hne | hrest⟩
    · exact .inl ⟨s, hcontrol s (hnew s hs), by rw [hacks.template s hs]; rfl, hsn, hts⟩
    · obtain ⟨s, hs⟩ := List.exists_mem_of_ne_nil new hne
      exact .inr ⟨hlt, .inl ⟨s, hcontrol s (hnew s hs), by rw [hacks.template s hs]; rfl⟩⟩
    · exact .inr ⟨hlt, .inr hrest⟩
  · intro bit cmd hmem hset hclear
    obtain ⟨s, hs, hcmd⟩ := heffect.probe bit cmd hmem hset hclear
    exact ⟨s, hcontrol s hs, hcmd⟩
  · intro i old cur hold hcur
    obtain ⟨n, -, -, -, hout⟩ := hbuffer.admitted
    obtain ⟨hlt, hget⟩ := List.getElem?_eq_some_iff.mp hcur
    have hi : i < (k.sndBuf.items ++
        number k.conv k.sndNxt (k.sndQueue.items.take n)).length := hout.length_eq ▸ hlt
    have hrel := hout.get hi hlt
    rw [List.get_eq_getElem, List.get_eq_getElem, hget] at hrel
    rcases hrel with heq | ⟨hwritten, -⟩
    · exact .inl (heq ▸ timers_admitted hold (List.getElem?_eq_getElem hi))
    · exact .inr (hdata cur hwritten)

end Kcp

end Kcptun.Arq
