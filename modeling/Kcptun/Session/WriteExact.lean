/- Kcptun/Session/WriteExact
   source: crates/kcp/src/session.rs (try_write), crates/kcp/src/kcp.rs (send)
   digest: What a write adds to the send queue of a session: every byte once, in order, in segments
     of at most one mss. -/

import Kcptun.Arq.WireTrip
import Kcptun.Session.SizeBound

set_option autoImplicit false
set_option relaxedAutoImplicit false

namespace Kcptun.Session

open Kcptun.Arq Kcptun.Lib Kcptun.Lib.LittleEndian

/-- A queued segment that only got longer, and not beyond `mss` if that is more than it had. -/
def Extends (mss : ℕ) (old new : Segment) : Prop :=
  old.data <+: new.data ∧ new.data.length ≤ max old.data.length mss

private theorem Extends.refl (mss : ℕ) (seg : Segment) : Extends mss seg seg :=
  ⟨List.prefix_rfl, le_max_left _ _⟩

private theorem Extends.trans {mss : ℕ} {a b c : Segment} (h : Extends mss a b)
    (h' : Extends mss b c) : Extends mss a c := by
  refine ⟨h.1.trans h'.1, h'.2.trans ?_⟩
  exact max_le h.2 (le_max_right _ _)

private theorem forall₂_extends_trans {mss : ℕ} {a b c : List Segment}
    (h : List.Forall₂ (Extends mss) a b) (h' : List.Forall₂ (Extends mss) b c) :
    List.Forall₂ (Extends mss) a c := by
  induction h generalizing c with
  | nil => exact h'
  | cons hfirst _ ih =>
    cases h' with
    | cons hsecond hrest => exact .cons (hfirst.trans hsecond) (ih hrest)

/-- Queued segments that only got longer, then new ones: each with a payload of at most `mss`
bytes. -/
structure Grown (mss : ℕ) (items items' : List Segment) : Prop where
  split : ∃ old new, items' = old ++ new ∧ List.Forall₂ (Extends mss) items old ∧
    ∀ seg ∈ new, seg.data ≠ [] ∧ seg.data.length ≤ mss

private theorem Grown.refl (mss : ℕ) (items : List Segment) : Grown mss items items :=
  ⟨items, [], (List.append_nil _).symm, List.forall₂_same.mpr fun seg _ => .refl mss seg, nofun⟩

private theorem Grown.trans {mss : ℕ} {a b c : List Segment} (h : Grown mss a b)
    (h' : Grown mss b c) : Grown mss a c := by
  obtain ⟨old, new, rfl, hold, hnew⟩ := h.split
  obtain ⟨old', new', rfl, hold', hnew'⟩ := h'.split
  have htake := (List.forall₂_take_append old' old new hold'.flip).flip
  have hdrop := (List.forall₂_drop_append old' old new hold'.flip).flip
  refine ⟨old'.take old.length, old'.drop old.length ++ new', ?_,
    forall₂_extends_trans hold htake, ?_⟩
  · rw [← List.append_assoc, List.take_append_drop]
  · intro seg hseg
    rcases List.mem_append.mp hseg with hseg | hseg
    · obtain ⟨i, hi, hget⟩ := List.getElem_of_mem hseg
      have hi' := hdrop.length_eq ▸ hi
      obtain ⟨hpre, hlen⟩ := hdrop.get hi' hi
      obtain ⟨hne, hle⟩ := hnew _ (List.getElem_mem hi')
      rw [List.get_eq_getElem, List.get_eq_getElem, hget] at hpre hlen
      refine ⟨fun hnil => hne ?_, hlen.trans (max_le hle le_rfl)⟩
      rw [hnil] at hpre
      exact List.prefix_nil.mp hpre
    · exact hnew' seg hseg

/-- The send queue with `bytes` added behind everything that was in it, and nothing else
changed. -/
structure Appends {O C : Type} (k k' : Kcp O C) (bytes : Bytes) : Prop where
  rest : k' = { k with sndQueue := k'.sndQueue }
  queued : k'.queuedBytes = k.queuedBytes ++ bytes
  grown : Grown k.mss.toNat k.sndQueue.items k'.sndQueue.items
  frg : (∀ seg ∈ k.sndQueue.items, seg.frg = 0) → ∀ seg ∈ k'.sndQueue.items, seg.frg = 0

section Send

variable {O C : Type} {k k' k'' : Kcp O C}

theorem Appends.refl (k : Kcp O C) : Appends k k [] :=
  ⟨rfl, (List.append_nil _).symm, .refl _ _, id⟩

private theorem Appends.mss {bytes : Bytes} (h : Appends k k' bytes) :
    k'.mss = k.mss := by rw [h.rest]

private theorem Appends.trans {a b : Bytes} (h : Appends k k' a) (h' : Appends k' k'' b) :
    Appends k k'' (a ++ b) := by
  have hgrown := h'.grown
  rw [h.mss] at hgrown
  refine ⟨?_, ?_, h.grown.trans hgrown, fun hfrg => h'.frg (h.frg hfrg)⟩
  · rw [h'.rest, h.rest]
  · rw [h'.queued, h.queued, List.append_assoc]

private theorem appends_queueFragments (k : Kcp O C) {b : Bytes} (hne : b ≠ [])
    (hlen : b.length ≤ k.mss.toNat) :
    Appends k (k.queueFragments b).1 b ∧ (k.queueFragments b).2 = 0 := by
  have hqueue : k.queueFragments b =
      ({ k with sndQueue := k.sndQueue.push { data := b, frg := 0 } }, 0) := by
    simp only [Kcp.queueFragments, if_pos hlen]
    rw [if_neg (by decide), if_neg (by decide)]
    simp only [fragments, List.foldl_cons, List.foldl_nil, min_eq_left hlen, List.take_length]
    simp
  rw [hqueue]
  refine ⟨⟨rfl, ?_, ?_, ?_⟩, rfl⟩
  · simp [Kcp.queuedBytes]
  · refine ⟨k.sndQueue.items, [{ data := b, frg := 0 }], rfl,
      List.forall₂_same.mpr fun seg _ => .refl _ seg, ?_⟩
    intro seg hseg
    rw [List.mem_singleton.mp hseg]
    exact ⟨hne, hlen⟩
  · intro hfrg seg hseg
    rw [Fifo.items_push, List.mem_append, List.mem_singleton] at hseg
    rcases hseg with hseg | rfl
    · exact hfrg seg hseg
    · rfl

private theorem appends_fillLast (k : Kcp O C) (b : Bytes) :
    ∃ taken, b = taken ++ (k.fillLast b).2 ∧ Appends k (k.fillLast b).1 taken := by
  unfold Kcp.fillLast
  split
  next => exact ⟨[], rfl, .refl k⟩
  next seg hlast =>
    split
    next hroom =>
      obtain ⟨front, hfront⟩ := List.getLast?_eq_some_iff.mp hlast
      have hdrop : k.sndQueue.items.dropLast = front := by rw [hfront, List.dropLast_concat]
      refine ⟨_, (List.take_append_drop _ b).symm, rfl, ?_, ?_, ?_⟩
      · simp only [Kcp.queuedBytes, Fifo.items_setItems, hfront]
        simp
      · refine ⟨_, [], (List.append_nil _).symm, ?_, fun _ hs => absurd hs List.not_mem_nil⟩
        rw [Fifo.items_setItems, hdrop, hfront]
        have hfirst : List.Forall₂ (Extends k.mss.toNat) front front :=
          List.forall₂_same.mpr fun s _ => .refl _ s
        refine List.rel_append hfirst (.cons ⟨List.prefix_append _ _, ?_⟩ .nil)
        simp only [List.length_append, List.length_take]
        omega
      · intro hfrg s hs
        rw [Fifo.items_setItems, hdrop, List.mem_append, List.mem_singleton] at hs
        rcases hs with hs | rfl
        · exact hfrg s (hfront ▸ List.mem_append_left _ hs)
        · exact hfrg seg (hfront ▸ List.mem_append_right _ (List.mem_singleton_self _))
    next => exact ⟨[], rfl, .refl k⟩

private theorem appends_send (k : Kcp O C) {b : Bytes} (hlen : b.length ≤ k.mss.toNat) :
    Appends k (k.send b).1 b ∧ (k.send b).2 = if b = [] then -1 else 0 := by
  simp only [Kcp.send, List.isEmpty_iff]
  split_ifs with hempty hstream hrest
  · rw [hempty]
    exact ⟨.refl k, rfl⟩
  · obtain ⟨taken, hsplit, happends⟩ := appends_fillLast k b
    rw [hrest, List.append_nil] at hsplit
    exact ⟨hsplit ▸ happends, rfl⟩
  · obtain ⟨taken, hsplit, happends⟩ := appends_fillLast k b
    have hle : (k.fillLast b).2.length ≤ (k.fillLast b).1.mss.toNat := by
      have hparts := congrArg List.length hsplit
      rw [List.length_append] at hparts
      rw [happends.mss]
      omega
    obtain ⟨hqueued, hcode⟩ := appends_queueFragments (k.fillLast b).1 hrest hle
    have hboth := happends.trans hqueued
    rw [← hsplit] at hboth
    exact ⟨hboth, hcode⟩
  · exact appends_queueFragments k hempty hlen

/-- The status of every `send` that queues one slice, in order. -/
def sliceCodes : ℕ → Kcp O C → Bytes → List Int
  | 0, _, _ => []
  | turns + 1, k, b =>
    if b.length ≤ k.mss.toNat then [(k.send b).2]
    else (k.send (b.take k.mss.toNat)).2 ::
      sliceCodes turns (k.send (b.take k.mss.toNat)).1 (b.drop k.mss.toNat)

/-- The status of every `send` of a write, in order. -/
def writeCodes : Kcp O C → List Bytes → List Int
  | _, [] => []
  | k, b :: v => sliceCodes (b.length + 1) k b ++
      writeCodes (Endpoint.writeSlice (b.length + 1) k b) v

def queueWrite (k : Kcp O C) (v : List Bytes) : Kcp O C :=
  v.foldl (fun k b => Endpoint.writeSlice (b.length + 1) k b) k

private theorem appends_writeSlice {turns : ℕ} (k : Kcp O C) {b : Bytes} (hmss : 1 ≤ k.mss.toNat)
    (hturns : b.length < turns) :
    Appends k (Endpoint.writeSlice turns k b) b ∧ ∀ code ∈ sliceCodes turns k b, code ≠ -2 := by
  induction turns generalizing k b with
  | zero => exact absurd hturns (Nat.not_lt_zero _)
  | succ turns ih =>
    rw [Endpoint.writeSlice, sliceCodes]
    split_ifs with hlast
    · obtain ⟨happends, hcode⟩ := appends_send k hlast
      refine ⟨happends, ?_⟩
      intro code hmem
      rw [List.mem_singleton.mp hmem, hcode]
      split_ifs <;> decide
    · have hpiece : (b.take k.mss.toNat).length ≤ k.mss.toNat := List.length_take_le _ _
      obtain ⟨hfirst, hcode⟩ := appends_send k hpiece
      have hshort : (b.drop k.mss.toNat).length < turns := by
        rw [List.length_drop]
        omega
      have hmss' : 1 ≤ (k.send (b.take k.mss.toNat)).1.mss.toNat := by rwa [hfirst.mss]
      obtain ⟨hrest, hcodes⟩ := ih (k.send (b.take k.mss.toNat)).1 hmss' hshort
      have hboth := hfirst.trans hrest
      rw [List.take_append_drop] at hboth
      refine ⟨hboth, List.forall_mem_cons.mpr ⟨?_, hcodes⟩⟩
      rw [hcode]
      split_ifs <;> decide

theorem appends_queueWrite (k : Kcp O C) (v : List Bytes) (hmss : 1 ≤ k.mss.toNat) :
    Appends k (queueWrite k v) v.flatten ∧ ∀ code ∈ writeCodes k v, code ≠ -2 := by
  induction v generalizing k with
  | nil => exact ⟨.refl k, nofun⟩
  | cons b v ih =>
    obtain ⟨hfirst, hcodes⟩ := appends_writeSlice k hmss (Nat.lt_succ_self b.length)
    obtain ⟨hrest, hcodes'⟩ := ih (Endpoint.writeSlice (b.length + 1) k b) (hfirst.mss ▸ hmss)
    refine ⟨hfirst.trans hrest, ?_⟩
    intro code hcode
    rcases List.mem_append.mp hcode with hcode | hcode
    · exact hcodes code hcode
    · exact hcodes' code hcode

end Send

namespace Endpoint

variable {O C : Type} [Output O] [Clock C]

def Unfragmented (s : Endpoint O C) : Prop := ∀ seg ∈ s.kcp.sndQueue.items, seg.frg = 0

variable {s s' : Endpoint O C}

omit [Output O] [Clock C] in
private theorem Unfragmented.setKcp {k : Kcp O C}
    (h : ∀ seg ∈ k.sndQueue.items, seg ∈ s.kcp.sndQueue.items) (hs : s.Unfragmented) :
    (s.setKcp k).Unfragmented := fun seg hseg => hs seg (h seg hseg)

private theorem mem_queue_flush (k : Kcp O C) (flushType : FlushType) :
    ∀ seg ∈ (k.flush flushType).1.sndQueue.items, seg ∈ k.sndQueue.items := by
  obtain ⟨groups, control, data, -, -, -, hbuffer⟩ := k.flush_spec flushType
  obtain ⟨n, -, hqueue, -⟩ := hbuffer.admitted
  intro seg hseg
  rw [hqueue] at hseg
  exact List.mem_of_mem_drop hseg

private theorem mem_queue_input (k : Kcp O C) (data : Bytes) (pktType : PacketType)
    (ackNoDelay : Bool) :
    ∀ seg ∈ (k.input data pktType ackNoDelay).1.sndQueue.items, seg ∈ k.sndQueue.items := by
  have hparse : (k.inputParse data pktType).1.sndQueue.items = k.sndQueue.items :=
    congrArg OutView.queue (k.releases_inputParse data pktType).view
  intro seg hseg
  obtain heq | ⟨flushType, heq⟩ := k.input_cases data pktType ackNoDelay
  · rwa [heq, hparse] at hseg
  · rw [heq] at hseg
    rw [← hparse]
    exact mem_queue_flush _ flushType seg hseg

private theorem Unfragmented.feed (h : s.Unfragmented) (effects : List Effect) :
    (s.feed effects).Unfragmented := by
  unfold Endpoint.feed
  induction effects generalizing s with
  | nil => exact h
  | cons effect effects ih =>
    apply ih
    cases effect with
    | input data pktType => exact h.setKcp (mem_queue_input _ data pktType _)
    | oob payload => exact h

private theorem Unfragmented.packetInput (h : s.Unfragmented) (data : Bytes) :
    (s.packetInput data).1.Unfragmented := by
  obtain ⟨d, effects, heq⟩ := s.packetInput_eq_feed data
  have hdecoder : ({ s with fecDecoder := d } : Endpoint O C).Unfragmented := h
  rw [heq]
  exact hdecoder.feed effects

/-- What a write leaves behind: nothing at all while the window is full, else what it queued,
flushed or not. -/
theorem tryWrite_eq (s : Endpoint O C) (v : List Bytes) :
    s.tryWrite v = (s, none) ∨
      ((s.tryWrite v).2 = some v.flatten.length ∧
        ((s.tryWrite v).1 = s.setKcp (queueWrite s.kcp v) ∨
          (s.tryWrite v).1 = s.setKcp ((queueWrite s.kcp v).flush .full).1)) := by
  simp only [Endpoint.tryWrite]
  split_ifs with hfull hflush
  · exact .inl rfl
  · exact .inr ⟨by rw [List.length_flatten], .inr rfl⟩
  · exact .inr ⟨by rw [List.length_flatten], .inl rfl⟩

private theorem Unfragmented.tryWrite (h : s.Unfragmented) (hmss : 1 ≤ s.kcp.mss.toNat)
    (v : List Bytes) : (s.tryWrite v).1.Unfragmented := by
  have hqueued : (s.setKcp (queueWrite s.kcp v)).Unfragmented :=
    (appends_queueWrite s.kcp v hmss).1.frg h
  rcases s.tryWrite_eq v with heq | ⟨-, heq | heq⟩
  · rwa [heq]
  · rwa [heq]
  · rw [heq]
    intro seg hseg
    exact hqueued seg (mem_queue_flush _ .full seg hseg)

private theorem Unfragmented.step (h : s.Unfragmented) (hmss : 1 ≤ s.kcp.mss.toNat) {op : Op}
    (hstep : s.step op = some s') : s'.Unfragmented := by
  cases op with
  | write v =>
    cases hstep
    exact h.tryWrite hmss v
  | read size =>
    cases hstep
    intro seg hseg
    apply h seg
    change seg ∈ (s.reader.tryRead size).1.kcp.sndQueue.items at hseg
    simp only [Reader.tryRead, Kcp.recv] at hseg
    split_ifs at hseg <;> exact hseg
  | packetInput data =>
    cases hstep
    exact h.packetInput data
  | update | close =>
    cases hstep
    exact h.setKcp (mem_queue_flush _ .full)
  | setMtu mtu =>
    obtain ⟨⟨k, took⟩, hmtu, rfl⟩ := Option.map_eq_some_iff.mp hstep
    obtain ⟨-, heq⟩ := Option.ite_none_left_eq_some.mp hmtu
    cases heq
    obtain ⟨_, _, heq⟩ := s.kcp.setMtu_frame _
    rw [heq]
    exact h.setKcp fun _ hseg => hseg
  | setStreamMode enable | setAckNoDelay nodelay | setWriteDelay delay =>
    cases hstep
    exact h
  | setWindowSize sndwnd rcvwnd =>
    cases hstep
    obtain ⟨_, _, heq⟩ := s.kcp.wndSize_frame sndwnd rcvwnd
    rw [heq]
    exact h.setKcp fun _ hseg => hseg
  | setNoDelay nodelay interval resend nc =>
    cases hstep
    obtain ⟨_, _, _, _, _, heq⟩ := s.kcp.setNodelay_frame nodelay interval resend nc
    rw [heq]
    exact h.setKcp fun _ hseg => hseg
  | shrinkIdle heapReleased ackReleased recvbufGrown =>
    cases hstep
    have hshrunk : (s.setKcp
        (s.kcp.shrinkIdleBuffers heapReleased ackReleased).1).Unfragmented := by
      apply h.setKcp
      intro seg hseg
      simp only [Kcp.shrinkIdleBuffers] at hseg
      split_ifs at hseg <;> simpa using hseg
    split_ifs
    · exact hshrunk
    · exact hshrunk

omit [Output O] [Clock C] in
theorem Bounded.one_le_mss {headerSize : ℕ} {crypt : Option PacketCrypt}
    (h : s.Bounded headerSize crypt) : 1 ≤ s.kcp.mss.toNat := by
  have hlow := h.sized.low
  have hmss := h.sized.mss
  simp only [IKCP_OVERHEAD] at hmss
  omega

omit [Output O] [Clock C] in
private theorem unfragmented_new {config : SessionConfig} {channel : O} {clock : C} {p : TxPipeline}
    (hnew : Endpoint.new config channel clock = .ok (s, p)) : s.Unfragmented := by
  unfold Endpoint.new at hnew
  dsimp only at hnew
  split at hnew
  next => cases hnew
  next encoder _ =>
    split at hnew
    next k hmtu =>
      cases hnew
      obtain ⟨-, heq⟩ := Option.ite_none_left_eq_some.mp hmtu
      intro seg hseg
      obtain ⟨mtu, rfl⟩ : ∃ mtu,
          k = ((Kcp.withClock config.conv channel clock).setMtu mtu).1 := by
        exact ⟨_, (congrArg Prod.fst (Option.some.inj heq)).symm⟩
      change seg ∈ (Kcp.setMtu _ mtu).1.sndQueue.items at hseg
      simp only [Kcp.setMtu] at hseg
      split_ifs at hseg <;> cases hseg
    next => cases hnew

/-- In every state a session reaches, a write changes nothing while the send window is full; else it
queues the bytes of all slices behind what was queued, as the queue stands before the flush, no
`send` of it refuses a piece, and it returns how many bytes that was. -/
theorem write_conserves {O C : Type} [Output O] [Clock C] {config : SessionConfig} {channel : O}
    {clock : C} {s s' : Endpoint O C} {p : TxPipeline}
    (hnew : Endpoint.new config channel clock = .ok (s, p)) {ops : List Op}
    (hrun : exec Endpoint.step s ops = some s') (v : List Bytes) :
    s'.tryWrite v = (s', none) ∨
      (s'.tryWrite v).2 = some v.flatten.length ∧
      ((s'.tryWrite v).1 = s'.setKcp (queueWrite s'.kcp v) ∨
        (s'.tryWrite v).1 = s'.setKcp ((queueWrite s'.kcp v).flush .full).1) ∧
      Appends s'.kcp (queueWrite s'.kcp v) v.flatten ∧
      (∀ seg ∈ (queueWrite s'.kcp v).sndQueue.items, seg.frg = 0) ∧
      ∀ code ∈ writeCodes s'.kcp v, code ≠ -2 := by
  have hsize := headerSize_of_new hnew
  obtain ⟨hbounded, hplain⟩ : s'.Bounded s.headerSize config.crypt ∧ s'.Unfragmented :=
    exec_invariant_all
      (fun s₁ : Endpoint O C => s₁.Bounded s.headerSize config.crypt ∧ s₁.Unfragmented)
      (fun s₁ op s₂ h hstep => ⟨h.1.step hsize hstep, h.2.step h.1.one_le_mss hstep⟩)
      ⟨(new_spec hnew).1, unfragmented_new hnew⟩ hrun
  obtain ⟨happends, hcodes⟩ := appends_queueWrite s'.kcp v hbounded.one_le_mss
  rcases s'.tryWrite_eq v with heq | ⟨hcount, hstate⟩
  · exact .inl heq
  · exact .inr ⟨hcount, hstate, happends, happends.frg hplain, hcodes⟩

/-- A stream session writes into a segment that was queued under a larger mss. -/
theorem write_conserves_stream : ∃ (s s' : Endpoint Unbounded VirtualClock) (p : TxPipeline),
    Endpoint.new ⟨7, 0, 0, none⟩ {} ⟨0⟩ = .ok (s, p) ∧
      exec Endpoint.step s
        [.setStreamMode true, .setWriteDelay true, .write [[1, 2], [], [3]], .setMtu 50] = some s' ∧
      (s'.tryWrite [List.replicate 60 9]).2 = some 60 ∧
      ((queueWrite s'.kcp [List.replicate 60 9]).sndQueue.items.map fun seg => seg.data.length) =
        [26, 26, 11] ∧
      Appends s'.kcp (queueWrite s'.kcp [List.replicate 60 9]) (List.replicate 60 9) := by
  obtain ⟨s, s', p, hnew, hrun, hsome, hlens⟩ : ∃ (s s' : Endpoint Unbounded VirtualClock)
      (p : TxPipeline), Endpoint.new ⟨7, 0, 0, none⟩ {} ⟨0⟩ = .ok (s, p) ∧
        exec Endpoint.step s
          [.setStreamMode true, .setWriteDelay true, .write [[1, 2], [], [3]], .setMtu 50] =
            some s' ∧
        (s'.tryWrite [List.replicate 60 9]).2 = some 60 ∧
        ((queueWrite s'.kcp [List.replicate 60 9]).sndQueue.items.map fun seg =>
          seg.data.length) = [26, 26, 11] :=
    ⟨_, _, _, rfl, rfl, by decide +kernel, by decide +kernel⟩
  refine ⟨s, s', p, hnew, hrun, hsome, hlens, ?_⟩
  rcases write_conserves hnew hrun [List.replicate 60 9] with hfull | ⟨-, -, happends, -⟩
  · rw [hfull] at hsome
    cases hsome
  · exact happends

end Endpoint

end Kcptun.Session
