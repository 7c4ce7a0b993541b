/- Kcptun/Arq/Packets
   source: crates/kcp/src/kcp.rs (flush)
   digest: Which segments a flush writes, that every written segment leaves in a packet, and what
     the flush does to the acknowledgements, the probe bits and the send buffer. -/

import Kcptun.Arq.Input

set_option autoImplicit false
set_option relaxedAutoImplicit false

namespace Kcptun.Arq

open Kcptun.Lib Kcptun.Lib.LittleEndian

def packet (segs : List Segment) : Bytes := segs.flatMap Segment.wire

@[simp] theorem packet_append (a b : List Segment) : packet (a ++ b) = packet a ++ packet b :=
  List.flatMap_append

@[simp] theorem packet_singleton (seg : Segment) : packet [seg] = seg.wire := by
  simp [packet]

/-- The sink got the packets of `groups` on top of `base`, the buffer holds the segments `rest`,
and together these are the segments written so far. -/
def Packer.Wrote {O : Type} (base : List Bytes) (p : Packer O) (segs : List Segment) : Prop :=
  ∃ (groups : List (List Segment)) (rest : List Segment),
    p.sink.sent = base ++ groups.map packet ∧ p.buf = packet rest ∧ segs = groups.flatten ++ rest

section Packer

variable {O : Type} [Output O] {base : List Bytes} {p : Packer O} {segs : List Segment}

omit [Output O] in
theorem Packer.Wrote.start (sink : Sink O) : Packer.Wrote sink.sent ⟨sink, []⟩ [] :=
  ⟨[], [], by simp, rfl, rfl⟩

theorem Packer.Wrote.makeSpace (h : p.Wrote base segs) (mtu : UInt32) (space : ℕ) :
    (p.makeSpace mtu space).Wrote base segs := by
  obtain ⟨groups, rest, hsent, hbuf, rfl⟩ := h
  unfold Packer.makeSpace
  split_ifs
  · exact ⟨groups ++ [rest], [], by simp [hsent, hbuf], rfl, by simp⟩
  · exact ⟨groups, rest, hsent, hbuf, rfl⟩

omit [Output O] in
theorem Packer.Wrote.write (h : p.Wrote base segs) (seg : Segment) :
    (p.write seg).Wrote base (segs ++ [seg]) := by
  obtain ⟨groups, rest, hsent, hbuf, rfl⟩ := h
  exact ⟨groups, rest ++ [seg], hsent, by simp [Packer.write, hbuf], by simp⟩

theorem Packer.Wrote.hasRoom (h : p.Wrote base segs) : p.hasRoom.2.Wrote base segs := by
  obtain ⟨groups, rest, hsent, hbuf, rfl⟩ := h
  exact ⟨groups, rest, by simpa [Packer.hasRoom] using hsent, hbuf, rfl⟩

theorem Packer.Wrote.flushBuffer (h : p.Wrote base segs) :
    ∃ groups : List (List Segment),
      p.flushBuffer.sent = base ++ groups.map packet ∧ segs = groups.flatten := by
  obtain ⟨groups, rest, hsent, hbuf, rfl⟩ := h
  unfold Packer.flushBuffer
  split_ifs with hlen
  · exact ⟨groups ++ [rest], by simp [hsent, hbuf], by simp⟩
  · refine ⟨groups, hsent, ?_⟩
    cases rest with
    | nil => simp
    | cons seg rest =>
      rw [hbuf] at hlen
      simp [packet, IKCP_OVERHEAD] at hlen

end Packer

def Segment.Retimed (old new : Segment) : Prop :=
  new = { old with rto := new.rto, xmit := new.xmit, resendts := new.resendts,
                   fastack := new.fastack, ts := new.ts, wnd := new.wnd, una := new.una }

section Control

variable {O : Type} [Output O] {base : List Bytes}

/-- The acknowledgement loop. What it removes from the list it wrote, or it was before `rcvNxt`
and a later one was written or is still to come. -/
structure AcksWritten (rcvNxt : UInt32) (seg : Segment) (acks rest : List AckItem)
    (new : List Segment) : Prop where
  removed : ∃ gone, acks = gone ++ rest ∧ ∀ a ∈ gone,
    (∃ s ∈ new, s.sn = a.sn ∧ s.ts = a.ts) ∨ (itimediff a.sn rcvNxt < 0 ∧ (new ≠ [] ∨ rest ≠ []))
  later : acks ≠ [] → new ≠ [] ∨ rest ≠ []
  template : ∀ s ∈ new, s = { seg with sn := s.sn, ts := s.ts }

theorem flushAcks_spec (mtu rcvNxt : UInt32) (seg : Segment) (acks : List AckItem) (p : Packer O)
    (segs : List Segment) (h : p.Wrote base segs) :
    let r := flushAcks mtu rcvNxt seg acks p
    ∃ new, r.2.2.Wrote base (segs ++ new) ∧ AcksWritten rcvNxt seg acks r.2.1 new ∧
      r.1 = { seg with sn := r.1.sn, ts := r.1.ts } := by
  induction acks generalizing seg p segs with
  | nil => exact ⟨[], by simpa [flushAcks] using h,
      ⟨⟨[], by simp [flushAcks], by simp⟩, by simp, by simp⟩, rfl⟩
  | cons ack acks ih =>
    simp only [flushAcks]
    split_ifs with hroom hwrite
    · exact ⟨[], by simpa using h.hasRoom, ⟨⟨[], by simp, by simp⟩, by simp, by simp⟩, rfl⟩
    · have hw := ((h.hasRoom).makeSpace mtu IKCP_OVERHEAD).write
        { seg with sn := ack.sn, ts := ack.ts }
      obtain ⟨new, hnew, hacks, hseg⟩ := ih { seg with sn := ack.sn, ts := ack.ts } _ _ hw
      obtain ⟨⟨gone, hgone, hgone'⟩, -, htemplate⟩ := hacks
      refine ⟨{ seg with sn := ack.sn, ts := ack.ts } :: new, by simpa using hnew,
        ⟨⟨ack :: gone, ?_, ?_⟩, by simp, ?_⟩, hseg⟩
      · rw [List.cons_append, ← hgone]
      · intro a ha
        rcases List.mem_cons.mp ha with rfl | ha
        · exact .inl ⟨_, List.mem_cons_self, rfl, rfl⟩
        · rcases hgone' a ha with ⟨s, hs, heq⟩ | ⟨hlt, -⟩
          · exact .inl ⟨s, List.mem_cons_of_mem _ hs, heq⟩
          · exact .inr ⟨hlt, .inl (by simp)⟩
      · intro s hs
        rcases List.mem_cons.mp hs with rfl | hs
        · rfl
        · exact htemplate s hs
    · have hw := (h.hasRoom).makeSpace mtu IKCP_OVERHEAD
      obtain ⟨new, hnew, hacks, hseg⟩ := ih seg _ _ hw
      obtain ⟨⟨gone, hgone, hgone'⟩, hlater, htemplate⟩ := hacks
      rw [not_or, List.isEmpty_iff] at hwrite
      have hlt : itimediff ack.sn rcvNxt < 0 := by omega
      refine ⟨new, hnew, ⟨⟨ack :: gone, ?_, ?_⟩, fun _ => hlater hwrite.2, htemplate⟩, hseg⟩
      · rw [List.cons_append, ← hgone]
      · intro a ha
        rcases List.mem_cons.mp ha with rfl | ha
        · exact .inr ⟨hlt, hlater hwrite.2⟩
        · exact hgone' a ha

private theorem sendProbe_spec (mtu probe bit : UInt32) (cmd : UInt8) (seg : Segment) (p : Packer O)
    (segs : List Segment) (h : p.Wrote base segs) :
    let r := sendProbe mtu probe bit cmd seg p
    ∃ new, r.2.2.Wrote base (segs ++ new) ∧ (∀ s ∈ new, s = { seg with cmd := cmd }) ∧
      (r.1 = 0 ∨ r.1 = bit ∧ new ≠ []) ∧ r.2.1 = { seg with cmd := r.2.1.cmd } := by
  simp only [sendProbe]
  split_ifs
  · exact ⟨[], by simpa using h, by simp, .inl rfl, rfl⟩
  · exact ⟨[], by simpa using h.hasRoom, by simp, .inl rfl, rfl⟩
  · have hw := ((h.hasRoom).makeSpace mtu IKCP_OVERHEAD).write { seg with cmd := cmd }
    exact ⟨[{ seg with cmd := cmd }], hw, by simp, .inr ⟨rfl, by simp⟩, rfl⟩

end Control

section Loop

variable {O C : Type} [Output O] [Clock C] {base : List Bytes}

namespace Scan

omit [Output O] [Clock C] in
@[simp] theorem packer_nearest (s : Scan O C) (rto : Int) : (s.nearest rto).packer = s.packer := by
  unfold nearest
  split_ifs <;> rfl

omit [Output O] [Clock C] in
@[simp] theorem packer_noteScanned (s : Scan O C) (seg : Segment) (rto : Int) :
    (s.noteScanned seg rto).packer = s.packer := rfl

/-- A turn of the segment loop uses the packet under construction by asking for room and by
writing one segment. -/
theorem packer_segment {P : Packer O → Prop} (env : ScanEnv) (s : Scan O C) (seg : Segment)
    (h : P s.packer) (hask : P (s.askRoom env seg).packer)
    (hsent : ∀ marked why, (s.askRoom env seg).backpressured = false →
      mark env s.current seg = some (marked, why) →
      P ((s.askRoom env seg).transmit env marked why).1.packer) :
    P (s.segment env seg).1.packer := by
  rcases s.segment_cases env seg with ha | ⟨ha, hb⟩ | ⟨ha, hb, hm⟩ | ⟨marked, why, ha, hb, hm⟩
  · rw [segment_acked env s ha]
    exact h
  · rw [segment_held env s ha hb, packer_noteScanned, packer_nearest]
    exact hask
  · rw [segment_idle env s ha hb hm, packer_noteScanned, packer_nearest]
    exact hask
  · rw [segment_sent env s ha hb hm]
    simp only [packer_noteScanned, packer_nearest]
    exact hsent marked why hb hm

omit [Clock C] in
private theorem wrote_askRoom (env : ScanEnv) {s : Scan O C} {segs : List Segment}
    (h : s.packer.Wrote base segs) (seg : Segment) :
    (s.askRoom env seg).packer.Wrote base segs := by
  unfold askRoom
  split_ifs
  · exact h.hasRoom
  · exact h

/-- What one turn of the segment loop makes of a segment, with the segments it wrote. -/
def Outcome (una : UInt32) (new : List Segment) (old cur : Segment) : Prop :=
  cur = old ∨ (cur ∈ new ∧ old.Retimed cur ∧ old.acked = false ∧ cur.una = una)

private theorem segment_spec (env : ScanEnv) (s : Scan O C) (seg : Segment) (segs : List Segment)
    (h : s.packer.Wrote base segs) :
    ∃ new, (s.segment env seg).1.packer.Wrote base (segs ++ new) ∧
      Outcome env.una new seg (s.segment env seg).2 ∧
      (∀ w ∈ new, w = (s.segment env seg).2 ∧ w.acked = false) := by
  rcases s.segment_cases env seg with ha | ⟨ha, hb⟩ | ⟨ha, hb, hm⟩ | ⟨marked, why, ha, hb, hm⟩
  · rw [segment_acked env s ha]
    exact ⟨[], by simpa [noteTail] using h, .inl rfl, by simp⟩
  · rw [segment_held env s ha hb]
    exact ⟨[], by simpa using wrote_askRoom env h seg, .inl rfl, by simp⟩
  · rw [segment_idle env s ha hb hm]
    exact ⟨[], by simpa using wrote_askRoom env h seg, .inl rfl, by simp⟩
  · rw [segment_sent env s ha hb hm]
    simp only [packer_noteScanned, packer_nearest]
    have hw := (wrote_askRoom env h seg).makeSpace env.mtu
      (IKCP_OVERHEAD + marked.data.length)
    refine ⟨[((s.askRoom env seg).transmit env marked why).2], hw.write _,
      .inr ⟨by simp, ?_, ha, rfl⟩, ?_⟩
    · rw [mark_eq_some hm]
      rfl
    · intro w hmem
      rw [List.mem_singleton] at hmem
      refine ⟨hmem, ?_⟩
      rw [hmem, mark_eq_some hm]
      exact ha

private theorem loop_spec (env : ScanEnv) (s : Scan O C) (items : List Segment)
    (segs : List Segment) (h : s.packer.Wrote base segs) :
    ∃ new, (s.loop env items).1.packer.Wrote base (segs ++ new) ∧
      List.Forall₂ (Outcome env.una new) items (s.loop env items).2 ∧
      (∀ w ∈ new, w ∈ (s.loop env items).2 ∧ w.acked = false) := by
  induction items generalizing s segs with
  | nil => exact ⟨[], by simpa [loop] using h, .nil, by simp⟩
  | cons seg rest ih =>
    obtain ⟨new, hw, hout, hmem⟩ := segment_spec env s seg segs h
    obtain ⟨new', hw', hout', hmem'⟩ := ih (s.segment env seg).1 (segs ++ new) hw
    refine ⟨new ++ new', by simpa [loop] using hw', ?_, ?_⟩
    · refine .cons (hout.imp_right fun h => ⟨List.mem_append_left _ h.1, h.2⟩) ?_
      exact hout'.imp fun _ _ h =>
        h.imp_right fun h => ⟨List.mem_append_right _ h.1, h.2⟩
    · intro w hw
      simp only [loop]
      rcases List.mem_append.mp hw with hw | hw
      · exact ⟨(hmem w hw).1 ▸ List.mem_cons_self, (hmem w hw).2⟩
      · exact ⟨List.mem_cons_of_mem _ (hmem' w hw).1, (hmem' w hw).2⟩

end Scan

end Loop

def number (conv : UInt32) : UInt32 → List Segment → List Segment
  | _, [] => []
  | nxt, seg :: rest =>
    { seg with conv := conv, cmd := IKCP_CMD_PUSH, sn := nxt } :: number conv (nxt + 1) rest

theorem getElem?_number (conv nxt : UInt32) (items : List Segment) (i : ℕ) :
    (number conv nxt items)[i]? = items[i]?.map fun seg =>
      { seg with conv := conv, cmd := IKCP_CMD_PUSH, sn := nxt + UInt32.ofNat i } := by
  induction items generalizing nxt i with
  | nil => simp [number]
  | cons seg rest ih =>
    cases i with
    | zero => simp [number]
    | succ i =>
      have hsum : nxt + 1 + UInt32.ofNat i = nxt + UInt32.ofNat (i + 1) := by
        rw [UInt32.ofNat_add]
        grind
      simp only [number, List.getElem?_cons_succ, ih, hsum]

@[simp] theorem length_number (conv nxt : UInt32) (items : List Segment) :
    (number conv nxt items).length = items.length := by
  induction items generalizing nxt with
  | nil => rfl
  | cons seg rest ih => simp [number, ih]

theorem admit_spec (conv sndUna cwnd : UInt32) (fuel : ℕ) (a : Admitted) :
    let r := admitLoop conv sndUna cwnd fuel a
    ∃ n ≤ a.queue.length, r.queue.items = a.queue.items.drop n ∧
      r.buf.items = a.buf.items ++ number conv a.nxt (a.queue.items.take n) ∧
      r.nxt = a.nxt + UInt32.ofNat n ∧ r.count = a.count + n := by
  have hstop : ∀ a : Admitted, ∃ n ≤ a.queue.length, a.queue.items = a.queue.items.drop n ∧
      a.buf.items = a.buf.items ++ number conv a.nxt (a.queue.items.take n) ∧
      a.nxt = a.nxt + UInt32.ofNat n ∧ a.count = a.count + n :=
    fun a => ⟨0, Nat.zero_le _, by simp, by simp [number], by simp, rfl⟩
  induction fuel generalizing a with
  | zero => exact hstop a
  | succ fuel ih =>
    simp only [admitLoop]
    split_ifs
    · exact hstop a
    · split
      · exact hstop a
      · rename_i newseg queue hpop
        have hitems := Fifo.pop_eq_some hpop
        obtain ⟨n, hn, hq, hb, hnxt, hc⟩ := ih
          ⟨queue, a.buf.push { newseg with conv := conv, cmd := IKCP_CMD_PUSH, sn := a.nxt },
            a.nxt + 1, a.count + 1⟩
        refine ⟨n + 1, ?_, ?_, ?_, ?_, ?_⟩
        · simp only [Fifo.length, hitems, List.length_cons] at hn ⊢
          omega
        · rw [hq, hitems, List.drop_succ_cons]
        · rw [hb, hitems, List.take_succ_cons]
          simp [number]
        · rw [hnxt, UInt32.ofNat_add]
          grind
        · rw [hc]
          exact Nat.succ_add_eq_add_succ a.count n

namespace Kcp

variable {O C : Type} [Output O] [Clock C]

/-- The probing commands of a flush: the bit and the segment each of them writes. -/
def probes : List (UInt32 × UInt8) :=
  [(IKCP_ASK_SEND, IKCP_CMD_WASK), (IKCP_ASK_TELL, IKCP_CMD_WINS)]

def IsControl (k : Kcp O C) (s : Segment) : Prop :=
  (s.cmd = IKCP_CMD_ACK ∨ s.cmd = IKCP_CMD_WASK ∨ s.cmd = IKCP_CMD_WINS) ∧
    s.conv = k.conv ∧ s.una = k.rcvNxt ∧ s.data = []

omit [Output O] [Clock C] in
private theorem isControl_of_template (k : Kcp O C) {s : Segment}
    (hs : s = { k.template with sn := s.sn, ts := s.ts, cmd := s.cmd })
    (hcmd : s.cmd = IKCP_CMD_ACK ∨ s.cmd = IKCP_CMD_WASK ∨ s.cmd = IKCP_CMD_WINS) :
    k.IsControl s := by
  refine ⟨hcmd, ?_, ?_, ?_⟩ <;> · rw [hs]; rfl

private theorem bit_cleared {probe a b bit : UInt32} {cmd : UInt8} (hmem : (bit, cmd) ∈ probes)
    (ha : a = 0 ∨ a = IKCP_ASK_SEND) (hb : b = 0 ∨ b = IKCP_ASK_TELL) (hset : probe &&& bit ≠ 0)
    (hclear : probe &&& ~~~(a ||| b) &&& bit = 0) :
    (bit = IKCP_ASK_SEND ∧ cmd = IKCP_CMD_WASK ∧ a = IKCP_ASK_SEND) ∨
      (bit = IKCP_ASK_TELL ∧ cmd = IKCP_CMD_WINS ∧ b = IKCP_ASK_TELL) := by
  rw [UInt32.and_assoc] at hclear
  rcases List.mem_cons.mp hmem with h | h
  · cases h
    rcases ha with rfl | rfl
    · rcases hb with rfl | rfl <;> exact absurd hclear hset
    · exact .inl ⟨rfl, rfl, rfl⟩
  · cases List.mem_singleton.mp h
    rcases hb with rfl | rfl
    · rcases ha with rfl | rfl <;> exact absurd hclear hset
    · exact .inr ⟨rfl, rfl, rfl⟩

/-- What the first half of a flush writes and what it takes off the list and out of the probe
word. -/
structure ControlEffect (k k' : Kcp O C) (written : List Segment) : Prop where
  acks : ∃ new, AcksWritten k.rcvNxt k.template k.acklist k'.acklist new ∧ ∀ s ∈ new, s ∈ written
  probe : ∀ bit cmd, (bit, cmd) ∈ probes → k.probe &&& bit ≠ 0 ∨ k.probeTimer.probe &&& bit ≠ 0 →
    k'.probe &&& bit = 0 → ∃ s ∈ written, s.cmd = cmd
  control : ∀ s ∈ written, k.IsControl s

omit [Output O] in
private theorem probeTimer_acklist (k : Kcp O C) (acklist : List AckItem) :
    (probeTimer { k with acklist := acklist }).probe = k.probeTimer.probe ∧
      (probeTimer { k with acklist := acklist }).acklist = acklist := by
  simp only [probeTimer]
  split_ifs <;> exact ⟨rfl, rfl⟩

omit [Output O] in
private theorem probeTimer_sets (k : Kcp O C) :
    k.probeTimer.probe = k.probe ∨ k.probeTimer.probe = k.probe ||| IKCP_ASK_SEND := by
  simp only [probeTimer]
  split_ifs <;> first | exact .inl rfl | exact .inr rfl

omit [Output O] in
private theorem probe_subset (k : Kcp O C) {bit : UInt32} (h : k.probe &&& bit ≠ 0) :
    k.probeTimer.probe &&& bit ≠ 0 := by
  rcases k.probeTimer_sets with heq | heq <;> rw [heq]
  · exact h
  · have hdistrib : (k.probe ||| IKCP_ASK_SEND) &&& bit =
        (k.probe &&& bit) ||| (IKCP_ASK_SEND &&& bit) := by
      apply UInt32.toBitVec_inj.mp
      exact BitVec.and_or_distrib_right
    rw [hdistrib]
    intro hz
    exact h (UInt32.or_eq_zero_iff.mp hz).1

private theorem flushControl_spec (k : Kcp O C) :
    ∃ written, k.flushControl.2.Wrote k.output.sent written ∧
      k.ControlEffect k.flushControl.1 written := by
  obtain ⟨acks, hw, hacks, hseg⟩ := flushAcks_spec k.mtu k.rcvNxt k.template k.acklist
    ⟨k.output, []⟩ [] (.start k.output)
  simp only [flushControl]
  generalize flushAcks k.mtu k.rcvNxt k.template k.acklist ⟨k.output, []⟩ = r at hw hacks hseg ⊢
  obtain ⟨hprobe, hacklist⟩ := k.probeTimer_acklist r.2.1
  generalize probeTimer { k with acklist := r.2.1 } = k₁ at hprobe hacklist ⊢
  obtain ⟨ask, hwa, hcmda, hdonea, hsega⟩ := sendProbe_spec k₁.mtu k₁.probe IKCP_ASK_SEND
    IKCP_CMD_WASK r.1 r.2.2 _ hw
  generalize sendProbe k₁.mtu k₁.probe IKCP_ASK_SEND IKCP_CMD_WASK r.1 r.2.2 = ra at *
  obtain ⟨tell, hwt, hcmdt, hdonet, -⟩ := sendProbe_spec k₁.mtu k₁.probe IKCP_ASK_TELL
    IKCP_CMD_WINS ra.2.1 ra.2.2 _ hwa
  generalize sendProbe k₁.mtu k₁.probe IKCP_ASK_TELL IKCP_CMD_WINS ra.2.1 ra.2.2 = rt at *
  refine ⟨_, hwt, ⟨acks, hacklist ▸ hacks, fun s hs => by simp [hs]⟩, ?_, ?_⟩
  · intro bit cmd hmem hset hclear
    have hset' : k.probeTimer.probe &&& bit ≠ 0 := hset.elim k.probe_subset id
    rw [hprobe] at hclear
    rcases bit_cleared hmem (hdonea.imp_right And.left) (hdonet.imp_right And.left) hset' hclear
      with ⟨rfl, rfl, hdone⟩ | ⟨rfl, rfl, hdone⟩
    · rcases hdonea with hz | ⟨-, hne⟩
      · rw [hz] at hdone
        exact absurd hdone (by decide)
      · obtain ⟨s, hs⟩ := List.exists_mem_of_ne_nil ask hne
        exact ⟨s, by simp [hs], by rw [hcmda s hs]⟩
    · rcases hdonet with hz | ⟨-, hne⟩
      · rw [hz] at hdone
        exact absurd hdone (by decide)
      · obtain ⟨s, hs⟩ := List.exists_mem_of_ne_nil tell hne
        exact ⟨s, by simp [hs], by rw [hcmdt s hs]⟩
  · intro s hs
    simp only [List.nil_append, List.mem_append] at hs
    rcases hs with (hs | hs) | hs
    · have htemplate := hacks.template s hs
      have hcmd : s.cmd = IKCP_CMD_ACK := by rw [htemplate]; rfl
      exact k.isControl_of_template (by rw [hcmd]; exact htemplate) (.inl hcmd)
    · have hcmd : s.cmd = IKCP_CMD_WASK := by rw [hcmda s hs]
      refine k.isControl_of_template ?_ (.inr (.inl hcmd))
      rw [hcmda s hs, hseg]
    · have hcmd : s.cmd = IKCP_CMD_WINS := by rw [hcmdt s hs]
      refine k.isControl_of_template ?_ (.inr (.inr hcmd))
      rw [hcmdt s hs, hsega, hseg]

/-- What a flush does to the queue and the send buffer, with the segments it wrote. -/
structure BufferEffect (k k' : Kcp O C) (written : List Segment) : Prop where
  admitted : ∃ n ≤ k.sndQueue.length, k'.sndQueue.items = k.sndQueue.items.drop n ∧
    k'.sndNxt = k.sndNxt + UInt32.ofNat n ∧
    List.Forall₂ (Scan.Outcome k.rcvNxt written)
      (k.sndBuf.items ++ number k.conv k.sndNxt (k.sndQueue.items.take n)) k'.sndBuf.items
  stored : ∀ s ∈ written, s ∈ k'.sndBuf.items ∧ s.acked = false

theorem flushControl_eq (k : Kcp O C) : ∃ acklist clock tsProbe probeWait probe,
    k.flushControl.1 = { k with acklist := acklist, clock := clock, tsProbe := tsProbe,
                                probeWait := probeWait, probe := probe } := by
  simp only [flushControl, probeTimer]
  split_ifs <;> exact ⟨_, _, _, _, _, rfl⟩

omit [Output O] [Clock C] in
theorem admitSegments_spec (k : Kcp O C) : ∃ n ≤ k.sndQueue.length,
    k.admitSegments.1.sndQueue.items = k.sndQueue.items.drop n ∧
    k.admitSegments.1.sndNxt = k.sndNxt + UInt32.ofNat n ∧
    k.admitSegments.1.sndBuf.items =
      k.sndBuf.items ++ number k.conv k.sndNxt (k.sndQueue.items.take n) ∧
    k.admitSegments.2 = n := by
  obtain ⟨n, hn, hq, hb, hnxt, hc⟩ := admit_spec k.conv k.sndUna k.sendWindow k.sndQueue.length
    ⟨k.sndQueue, k.sndBuf, k.sndNxt, 0⟩
  exact ⟨n, hn, hq, hnxt, hb, hc.trans (Nat.zero_add n)⟩

private theorem forall₂_outcome_refl (una : UInt32) (new items : List Segment) :
    List.Forall₂ (Scan.Outcome una new) items items := by
  induction items with
  | nil => exact .nil
  | cons seg rest ih => exact .cons (.inl rfl) ih

/-- A whole flush: every segment it writes leaves in a packet; the acknowledgements and probes come
first, the data segments after them are stored in `sndBuf` as they were written. -/
theorem flush_spec (k : Kcp O C) (flushType : FlushType) :
    ∃ (groups : List (List Segment)) (control data : List Segment),
      (k.flush flushType).1.output.sent = k.output.sent ++ groups.map packet ∧
      groups.flatten = control ++ data ∧
      k.ControlEffect (k.flush flushType).1 control ∧
      k.BufferEffect (k.flush flushType).1 data := by
  obtain ⟨control, hwrote, hcontrol⟩ := k.flushControl_spec
  obtain ⟨n, hn, hqueue, hnxt, hbuf, -⟩ := k.flushControl.1.admitSegments_spec
  obtain ⟨acklist, clock, tsProbe, probeWait, probe, hframe⟩ := k.flushControl_eq
  have hq : k.flushControl.1.sndQueue = k.sndQueue := by rw [hframe]
  have hb : k.flushControl.1.sndBuf = k.sndBuf := by rw [hframe]
  have hx : k.flushControl.1.sndNxt = k.sndNxt := by rw [hframe]
  have hc : k.flushControl.1.conv = k.conv := by rw [hframe]
  have hr : k.flushControl.1.rcvNxt = k.rcvNxt := by rw [hframe]
  rw [hq] at hn
  rw [hq, hb, hx, hc] at hbuf
  rw [hq] at hqueue
  rw [hx] at hnxt
  obtain ⟨hacks, hprobe, hctl⟩ := hcontrol
  cases flushType with
  | ackOnly =>
    obtain ⟨ssthresh, cwnd, incr, h⟩ := k.flush_ackOnly
    obtain ⟨groups, hsent, hflat⟩ := hwrote.flushBuffer
    refine ⟨groups, control, [], ?_, by simpa using hflat.symm, ⟨?_, ?_, hctl⟩, ⟨n, hn, ?_, ?_, ?_⟩,
      by simp⟩
    · rw [h]
      exact hsent
    · rw [h]
      exact hacks
    · rw [h]
      exact hprobe
    · rw [h]
      exact hqueue
    · rw [h]
      exact hnxt
    · rw [h, ← hbuf]
      exact forall₂_outcome_refl _ _ _
  | full =>
    obtain ⟨ssthresh, cwnd, incr, h⟩ := k.flush_full
    set k₁ := k.flushControl.1.admitSegments.1 with hk₁
    set newSegs := k.flushControl.1.admitSegments.2
    set skipped := k₁.skipCount (k₁.scanStart k.flushControl.2).current
      (k₁.flushScan.unsent + newSegs)
    obtain ⟨data, hwdata, hout, hstored⟩ := Scan.loop_spec (k₁.scanEnv newSegs)
      (k₁.scanStart k.flushControl.2) (k₁.sndBuf.items.drop skipped) control hwrote
    obtain ⟨groups, hsent, hflat⟩ := hwdata.flushBuffer
    have hbuf' : (k.flush .full).1.sndBuf.items = k₁.sndBuf.items.take skipped ++
        ((k₁.scanStart k.flushControl.2).loop (k₁.scanEnv newSegs)
          (k₁.sndBuf.items.drop skipped)).2 := by
      rw [h]
      rfl
    refine ⟨groups, control, data, ?_, hflat.symm, ⟨?_, ?_, hctl⟩, ⟨n, hn, ?_, ?_, ?_⟩, ?_⟩
    · rw [h]
      exact hsent
    · rw [h]
      exact hacks
    · rw [h]
      exact hprobe
    · rw [h]
      exact hqueue
    · rw [h]
      exact hnxt
    · have hskip := forall₂_outcome_refl k.rcvNxt data (k₁.sndBuf.items.take skipped)
      have hrest : List.Forall₂ (Scan.Outcome k.rcvNxt data) (k₁.sndBuf.items.drop skipped)
          ((k₁.scanStart k.flushControl.2).loop (k₁.scanEnv newSegs)
            (k₁.sndBuf.items.drop skipped)).2 := hr ▸ hout
      have happ := List.rel_append hskip hrest
      beta_reduce at happ
      rw [List.take_append_drop] at happ
      rwa [← hbuf, hbuf']
    · intro s hs
      rw [hbuf']
      exact ⟨List.mem_append_right _ (hstored s hs).1, (hstored s hs).2⟩

end Kcp

end Kcptun.Arq
