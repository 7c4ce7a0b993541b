/- Kcptun/Arq/Delivery
   source: crates/kcp/src/kcp.rs (send, recv, peek_size, input, flush)
   digest: Two connections over a network that drops, duplicates, delays and reorders: what the
     receiver's application gets is what the sender's application put in, in order. -/

import Kcptun.Arq.Inbound

set_option autoImplicit false
set_option relaxedAutoImplicit false

namespace Kcptun.Arq

open Kcptun.Lib Kcptun.Lib.LittleEndian

/-- The entries a message is split into: the fragment numbers count down to 0. -/
inductive Fragmented : List Entry → Bytes → Prop
  | last (data : Bytes) : Fragmented [(0, data)] data
  | more {entries : List Entry} {msg : Bytes} (data : Bytes) :
      Fragmented entries msg → entries.length < 255 →
      Fragmented ((UInt8.ofNat entries.length, data) :: entries) (data ++ msg)

private theorem Fragmented.length_pos {entries : List Entry} {msg : Bytes}
    (h : Fragmented entries msg) : 0 < entries.length := by
  cases h <;> simp

private theorem Fragmented.head {entries : List Entry} {msg : Bytes} (h : Fragmented entries msg) :
    ∃ e rest, entries = e :: rest ∧ e.1.toNat = rest.length ∧ rest.length < 255 := by
  cases h with
  | last data => exact ⟨_, _, rfl, rfl, by simp⟩
  | more data h hlen =>
    refine ⟨_, _, rfl, ?_, hlen⟩
    rw [UInt8.toNat_ofNat']
    omega

theorem Fragmented.bytes {entries : List Entry} {msg : Bytes} (h : Fragmented entries msg) :
    entries.flatMap Prod.snd = msg := by
  induction h with
  | last data => simp
  | more data h hlen ih => simp [ih]

theorem flatMap_entry (segs : List Segment) :
    (segs.map Segment.entry).flatMap Prod.snd = segs.flatMap Segment.data := by
  rw [List.flatMap_map]
  rfl

private theorem popRun_fragmented {entries : List Entry} {msg : Bytes} (h : Fragmented entries msg)
    {items : List Segment} {rest : List Entry} (hitems : items.map Segment.entry = entries ++ rest) :
    popRun items = (msg, items.drop entries.length) := by
  induction h generalizing items with
  | last data =>
    cases items with
    | nil => simp at hitems
    | cons seg items =>
      simp only [List.map_cons, List.cons_append, List.nil_append, List.cons.injEq,
        Segment.entry, Prod.mk.injEq] at hitems
      obtain ⟨⟨hfrg, hdata⟩, -⟩ := hitems
      simp [popRun, hfrg, hdata]
  | more data h hlen ih =>
    cases items with
    | nil => simp at hitems
    | cons seg items =>
      simp only [List.map_cons, List.cons_append, List.cons.injEq, Segment.entry,
        Prod.mk.injEq] at hitems
      obtain ⟨⟨hfrg, hdata⟩, hrest⟩ := hitems
      have hpos := h.length_pos
      have hne : seg.frg ≠ 0 := by
        intro hz
        have hnat := congrArg UInt8.toNat (hfrg.symm.trans hz)
        rw [UInt8.toNat_ofNat'] at hnat
        have hzero : (0 : UInt8).toNat = 0 := rfl
        omega
      simp [popRun, hne, ih hrest, hdata]

@[simp] theorem length_fragments (stream : Bool) (mss count : ℕ) (buffer : Bytes) :
    (fragments stream mss count buffer).length = count := by
  induction count generalizing buffer with
  | zero => rfl
  | succ count ih => simp [fragments, ih]

private theorem fragmented_fragments {mss count : ℕ} {buffer : Bytes} (hcount : count < 255)
    (hfit : buffer.length ≤ (count + 1) * mss) :
    Fragmented ((fragments false mss (count + 1) buffer).map Segment.entry) buffer := by
  induction count generalizing buffer with
  | zero =>
    have htake : buffer.take (min buffer.length mss) = buffer :=
      List.take_of_length_le (by omega)
    simp only [fragments, List.map_cons, List.map_nil, Segment.entry, htake]
    exact .last buffer
  | succ count ih =>
    have hrest : (buffer.drop (min buffer.length mss)).length ≤ (count + 1) * mss := by
      rw [List.length_drop]
      have : (count + 1 + 1) * mss = (count + 1) * mss + mss := by ring
      omega
    have hmore := Fragmented.more (buffer.take (min buffer.length mss)) (ih (by omega) hrest)
      (by rw [List.length_map, length_fragments]; omega)
    rw [List.length_map, length_fragments, List.take_append_drop] at hmore
    rw [fragments, List.map_cons]
    exact hmore

private theorem flatMap_fragments {stream : Bool} {mss count : ℕ} {buffer : Bytes}
    (hfit : buffer.length ≤ count * mss) :
    (fragments stream mss count buffer).flatMap Segment.data = buffer := by
  induction count generalizing buffer with
  | zero =>
    have : buffer = [] := List.eq_nil_of_length_eq_zero (by omega)
    simp [fragments, this]
  | succ count ih =>
    have hrest : (buffer.drop (min buffer.length mss)).length ≤ count * mss := by
      rw [List.length_drop]
      have : (count + 1) * mss = count * mss + mss := by ring
      omega
    rw [fragments, List.flatMap_cons, ih hrest, List.take_append_drop]

theorem mem_fragments {stream : Bool} {mss count : ℕ} {buffer : Bytes} {seg : Segment}
    (h : seg ∈ fragments stream mss count buffer) :
    seg.data.length ≤ mss ∧ (stream = true → seg.frg = 0) := by
  induction count generalizing buffer with
  | zero => cases h
  | succ count ih =>
    rcases List.mem_cons.mp h with rfl | h
    · refine ⟨?_, fun hs => by simp [hs]⟩
      simp only [List.length_take]
      omega
    · exact ih h

theorem items_foldl_push (segs : List Segment) (q : Fifo Segment) :
    (segs.foldl Fifo.push q).items = q.items ++ segs := by
  induction segs generalizing q with
  | nil => simp
  | cons seg segs ih => simp [ih]

namespace Kcp

variable {O C : Type}

theorem queueFragments_spec (k : Kcp O C) (buffer : Bytes) (hmss : k.mss ≠ 0) :
    ((k.queueFragments buffer).2 = -2 ∧ (k.queueFragments buffer).1 = k) ∨
    ∃ count < 255, buffer.length ≤ (count + 1) * k.mss.toNat ∧ (k.queueFragments buffer).2 = 0 ∧
      (k.queueFragments buffer).1.sndQueue.items =
        k.sndQueue.items ++ fragments (k.stream ≠ 0) k.mss.toNat (count + 1) buffer := by
  have hpos : 0 < k.mss.toNat := by
    rw [Nat.pos_iff_ne_zero]
    intro hz
    exact hmss (UInt32.toNat_inj.mp hz)
  simp only [queueFragments]
  generalize hc : (if buffer.length ≤ k.mss.toNat then 1
    else (buffer.length + k.mss.toNat - 1) / k.mss.toNat) = count
  have hcount : 1 ≤ count ∧ buffer.length ≤ count * k.mss.toNat := by
    split_ifs at hc with hle
    · subst hc
      omega
    · have hdiv := Nat.div_add_mod (buffer.length + k.mss.toNat - 1) k.mss.toNat
      have hmod := Nat.mod_lt (buffer.length + k.mss.toNat - 1) hpos
      rw [hc, Nat.mul_comm] at hdiv
      refine ⟨?_, by omega⟩
      rw [← hc]
      exact (Nat.one_le_div_iff hpos).mpr (by omega)
  split_ifs with hbig
  · exact .inl ⟨rfl, rfl⟩
  · omega
  · obtain ⟨c, rfl⟩ : ∃ c, count = c + 1 := ⟨count - 1, by omega⟩
    exact .inr ⟨c, by omega, hcount.2, rfl, items_foldl_push _ _⟩

def queuedBytes (k : Kcp O C) : Bytes := k.sndQueue.items.flatMap Segment.data

def appended (k : Kcp O C) (buffer : Bytes) : Bytes :=
  buffer.take ((k.send buffer).1.queuedBytes.length - k.queuedBytes.length)

/-- What every call of `send` leaves alone, and that the segments it queues fit the length field. -/
structure Queues (k k' : Kcp O C) : Prop where
  rest : k'.sndNxt = k.sndNxt ∧ k'.conv = k.conv ∧ k'.output.sent = k.output.sent ∧
    k'.mss = k.mss ∧ k'.stream = k.stream ∧ k'.sndBuf = k.sndBuf ∧ k'.sendView = k.sendView
  short : (∀ seg ∈ k.sndQueue.items, seg.data.length < 4294967296) →
    ∀ seg ∈ k'.sndQueue.items, seg.data.length < 4294967296

theorem queues_queueFragments (k : Kcp O C) (buffer : Bytes) (hmss : k.mss ≠ 0) :
    k.Queues (k.queueFragments buffer).1 := by
  constructor
  · simp only [queueFragments]
    split_ifs <;> exact ⟨rfl, rfl, rfl, rfl, rfl, rfl, rfl⟩
  · intro hshort
    rcases k.queueFragments_spec buffer hmss with ⟨-, heq⟩ | ⟨count, -, -, -, hitems⟩
    · rwa [heq]
    · intro seg hseg
      rw [hitems, List.mem_append] at hseg
      rcases hseg with hseg | hseg
      · exact hshort seg hseg
      · have := (mem_fragments hseg).1
        have := k.mss.toNat_lt
        omega

private theorem fillLast_spec (k : Kcp O C) (buffer : Bytes) :
    k.Queues (k.fillLast buffer).1 ∧
    ∃ taken, buffer = taken ++ (k.fillLast buffer).2 ∧
      (k.fillLast buffer).1.queuedBytes = k.queuedBytes ++ taken ∧
      ((∀ seg ∈ k.sndQueue.items, seg.frg = 0) →
        ∀ seg ∈ (k.fillLast buffer).1.sndQueue.items, seg.frg = 0) := by
  have hsame : ∃ taken, buffer = taken ++ buffer ∧ k.queuedBytes = k.queuedBytes ++ taken ∧
      ((∀ seg ∈ k.sndQueue.items, seg.frg = 0) → ∀ seg ∈ k.sndQueue.items, seg.frg = 0) :=
    ⟨[], by simp, by simp, id⟩
  have hrefl : k.Queues k := ⟨⟨rfl, rfl, rfl, rfl, rfl, rfl, rfl⟩, id⟩
  unfold fillLast
  split
  · exact ⟨hrefl, hsame⟩
  · rename_i seg hlast
    obtain ⟨front, hfront⟩ := List.getLast?_eq_some_iff.mp hlast
    split
    · rename_i hroom
      have hdrop : k.sndQueue.items.dropLast = front := by
        rw [hfront]
        simp
      refine ⟨⟨⟨rfl, rfl, rfl, rfl, rfl, rfl, rfl⟩, ?_⟩, _,
        (List.take_append_drop _ buffer).symm, ?_, ?_⟩
      · intro hshort s hs
        simp only [Fifo.items_setItems, hdrop, List.mem_append, List.mem_singleton] at hs
        rcases hs with hs | rfl
        · exact hshort s (by rw [hfront]; exact List.mem_append_left _ hs)
        · have := k.mss.toNat_lt
          simp only [List.length_append, List.length_take]
          omega
      · simp only [queuedBytes, Fifo.items_setItems, hdrop]
        rw [hfront]
        simp
      · intro hfrg s hs
        simp only [Fifo.items_setItems, hdrop, List.mem_append, List.mem_singleton] at hs
        rcases hs with hs | rfl
        · exact hfrg s (by rw [hfront]; exact List.mem_append_left _ hs)
        · exact hfrg seg (by rw [hfront]; simp)
    · exact ⟨hrefl, hsame⟩

private theorem Queues.trans {k k' k'' : Kcp O C} (h : k.Queues k') (h' : k'.Queues k'') :
    k.Queues k'' := by
  obtain ⟨⟨h1, h2, h3, h4, h5, h6, h7⟩, hs⟩ := h
  obtain ⟨⟨h1', h2', h3', h4', h5', h6', h7'⟩, hs'⟩ := h'
  exact ⟨⟨h1'.trans h1, h2'.trans h2, h3'.trans h3, h4'.trans h4, h5'.trans h5, h6'.trans h6,
    h7'.trans h7⟩, fun h => hs' (hs h)⟩

private theorem queues_send (k : Kcp O C) (buffer : Bytes) (hmss : k.mss ≠ 0) :
    k.Queues (k.send buffer).1 := by
  have hrefl : k.Queues k := ⟨⟨rfl, rfl, rfl, rfl, rfl, rfl, rfl⟩, id⟩
  obtain ⟨hfill, -⟩ := k.fillLast_spec buffer
  have hmss' : (k.fillLast buffer).1.mss ≠ 0 := by rwa [hfill.rest.2.2.2.1]
  simp only [send]
  split_ifs
  · exact hrefl
  · exact hfill
  · exact hfill.trans (queues_queueFragments _ _ hmss')
  · exact k.queues_queueFragments buffer hmss

/-- Message mode: an accepted buffer is appended as one fragmented message, a refused one leaves
the queue alone. -/
theorem send_message (k : Kcp O C) (buffer : Bytes) (hmss : k.mss ≠ 0) (hstream : k.stream = 0) :
    ((k.send buffer).2 ≠ 0 ∧ (k.send buffer).1 = k) ∨
    ((k.send buffer).2 = 0 ∧ ∃ segs, Fragmented (segs.map Segment.entry) buffer ∧
      (k.send buffer).1.sndQueue.items = k.sndQueue.items ++ segs) := by
  simp only [send]
  split_ifs with hempty hs hrest
  · exact .inl ⟨by simp, rfl⟩
  · exact absurd hstream hs
  · exact absurd hstream hs
  · rcases k.queueFragments_spec buffer hmss with ⟨hcode, heq⟩ | ⟨count, hcount, hfit, hcode, hitems⟩
    · exact .inl ⟨by rw [hcode]; decide, heq⟩
    · refine .inr ⟨hcode, _, fragmented_fragments hcount hfit, ?_⟩
      simpa [hstream] using hitems

private theorem send_stream (k : Kcp O C) (buffer : Bytes) (hmss : k.mss ≠ 0)
    (hstream : k.stream ≠ 0) :
    ∃ taken, taken <+: buffer ∧ (k.send buffer).1.queuedBytes = k.queuedBytes ++ taken ∧
      ((k.send buffer).2 = 0 → taken = buffer) ∧
      ((∀ seg ∈ k.sndQueue.items, seg.frg = 0) →
        ∀ seg ∈ (k.send buffer).1.sndQueue.items, seg.frg = 0) := by
  obtain ⟨hfill, taken, hsplit, hbytes, hfrg⟩ := k.fillLast_spec buffer
  obtain ⟨-, -, -, hmss', hstream', -, -⟩ := hfill.rest
  simp only [send]
  split_ifs with hempty hrest
  · exact ⟨[], List.nil_prefix, by simp, fun h => absurd h (by simp), id⟩
  · rw [List.isEmpty_iff] at hrest
    rw [hrest, List.append_nil] at hsplit
    exact ⟨taken, hsplit ▸ List.prefix_rfl, hbytes, fun _ => hsplit.symm, hfrg⟩
  · have hmss'' : (k.fillLast buffer).1.mss ≠ 0 := by rwa [hmss']
    rcases queueFragments_spec _ (k.fillLast buffer).2 hmss'' with ⟨hcode, heq⟩ |
      ⟨count, -, hfit, hcode, hitems⟩
    · refine ⟨taken, ⟨_, hsplit.symm⟩, by rw [heq]; exact hbytes, ?_, by rwa [heq]⟩
      intro h
      rw [hcode] at h
      exact absurd h (by decide)
    · refine ⟨buffer, List.prefix_rfl, ?_, fun _ => rfl, ?_⟩
      · rw [queuedBytes, hitems, List.flatMap_append, flatMap_fragments hfit, ← queuedBytes, hbytes,
          List.append_assoc, ← hsplit]
      · intro h seg hseg
        rw [hitems, List.mem_append] at hseg
        rcases hseg with hseg | hseg
        · exact hfrg h seg hseg
        · exact (mem_fragments hseg).2 (by simp [hstream', hstream])

private theorem send_code (k : Kcp O C) (buffer : Bytes) (hmss : k.mss ≠ 0) :
    (k.send buffer).2 = 0 ∨ (k.send buffer).2 = -2 ∨ buffer = [] := by
  have hcode : ∀ (k' : Kcp O C) (b : Bytes), k'.mss ≠ 0 →
      (k'.queueFragments b).2 = 0 ∨ (k'.queueFragments b).2 = -2 := by
    intro k' b hm
    rcases k'.queueFragments_spec b hm with ⟨h, -⟩ | ⟨count, -, -, h, -⟩
    · exact .inr h
    · exact .inl h
  have hfill := (k.fillLast_spec buffer).1.rest.2.2.2.1
  simp only [send]
  split_ifs with hempty
  · exact .inr (.inr (List.isEmpty_iff.mp hempty))
  · exact .inl rfl
  · exact (hcode _ _ (by rwa [hfill])).imp_right .inl
  · exact (hcode _ _ hmss).imp_right .inl

private theorem appended_eq {k : Kcp O C} {buffer taken : Bytes} (hpre : taken <+: buffer)
    (hbytes : (k.send buffer).1.queuedBytes = k.queuedBytes ++ taken) :
    k.appended buffer = taken := by
  rw [appended, hbytes, List.length_append, Nat.add_sub_cancel_left]
  exact (List.prefix_iff_eq_take.mp hpre).symm

private theorem appended_of_accepted (k : Kcp O C) (buffer : Bytes) (hmss : k.mss ≠ 0)
    (h : (k.send buffer).2 = 0) : k.appended buffer = buffer := by
  by_cases hstream : k.stream = 0
  · rcases k.send_message buffer hmss hstream with ⟨hne, -⟩ | ⟨-, segs, hfrag, hitems⟩
    · exact absurd h hne
    · apply appended_eq List.prefix_rfl
      rw [queuedBytes, hitems, List.flatMap_append, ← hfrag.bytes, flatMap_entry]
      rfl
  · obtain ⟨taken, hpre, hbytes, hall, -⟩ := k.send_stream buffer hmss hstream
    rw [appended_eq hpre hbytes, hall h]

theorem recv_cases (k : Kcp O C) (buflen : ℕ) :
    ((k.recv buflen).2.1 < 0 ∧ (k.recv buflen).1 = k) ∨
    (0 ≤ k.peekSize ∧ 0 ≤ (k.recv buflen).2.1 ∧
      (k.recv buflen).2.2 = (popRun k.rcvQueue.items).1 ∧
      (k.recv buflen).1.recvView = (moveReady { k with
        rcvQueue := k.rcvQueue.setItems (popRun k.rcvQueue.items).2 }).recvView) := by
  simp only [recv]
  split_ifs with hpeek hlen
  · exact .inl ⟨by simp, rfl⟩
  · exact .inl ⟨by simp, rfl⟩
  all_goals exact .inr ⟨by omega, by simp, rfl, rfl⟩

private theorem length_of_peekSize {k : Kcp O C} (h : 0 ≤ k.peekSize) :
    ∃ seg rest, k.rcvQueue.items = seg :: rest ∧
      (seg.frg.toNat < 255 → seg.frg.toNat < k.rcvQueue.items.length) := by
  unfold peekSize at h
  split at h
  · omega
  · rename_i seg rest hitems
    refine ⟨seg, rest, hitems, ?_⟩
    intro hfrg
    rw [hitems, List.length_cons]
    split_ifs at h with hzero hshort
    · rw [hzero]
      exact Nat.succ_pos _
    · omega
    · rw [Fifo.length, hitems, List.length_cons, UInt8.toNat_add] at hshort
      have hone : (1 : UInt8).toNat = 1 := rfl
      omega

end Kcp

/-- A partition of the entries into messages, the first `j` of which the receiver has consumed. -/
structure Consumed (entries : List Entry) (msgs : List Bytes) (j c : ℕ)
    (groups : List (List Entry)) : Prop where
  flatten : groups.flatten = entries
  split : List.Forall₂ Fragmented groups msgs
  consumed : c = (groups.take j).flatten.length

private theorem Consumed.next {entries log : List Entry} {msgs : List Bytes} {j c n : ℕ}
    {groups : List (List Entry)} (h : Consumed entries msgs j c groups) (hlog : log <+: entries)
    {items : List Segment}
    (hitems : items.map Segment.entry = (log.take n).drop c) {seg : Segment} {rest : List Segment}
    (hcons : items = seg :: rest)
    (hall : seg.frg.toNat < 255 → seg.frg.toNat < items.length) :
    ∃ group msg tail, msgs[j]? = some msg ∧ Fragmented group msg ∧
      items.map Segment.entry = group ++ tail ∧
      Consumed entries msgs (j + 1) (c + group.length) groups := by
  obtain ⟨hflat, hsplit, hc⟩ := h
  -- the queue is a prefix of what is left of the partition
  have hpre : items.map Segment.entry <+: (groups.drop j).flatten := by
    have hdrop : (groups.drop j).flatten = entries.drop c := by
      rw [← hflat, ← List.take_append_drop j groups, List.flatten_append, hc,
        List.take_append_drop, List.drop_left]
    rw [hitems, hdrop]
    exact ((List.take_prefix n log).trans hlog).drop c
  have hdrops := List.forall₂_drop j hsplit
  rcases hgroups : groups.drop j with _ | ⟨group, groups'⟩
  · rw [hgroups, hcons] at hpre
    simp at hpre
  · rcases hmsgs : msgs.drop j with _ | ⟨msg, msgs'⟩
    · rw [hgroups, hmsgs] at hdrops
      cases hdrops
    · rw [hgroups, hmsgs] at hdrops
      obtain ⟨hfrag, -⟩ := List.forall₂_cons.mp hdrops
      obtain ⟨e, erest, rfl, hfrg, hsmall⟩ := hfrag.head
      rw [hgroups, List.flatten_cons] at hpre
      have hhead : seg.entry = e := by
        rw [hcons] at hpre
        exact (List.cons_prefix_cons.mp hpre).1
      have hseg : seg.frg.toNat = erest.length := by
        rw [← hfrg, ← hhead]
        rfl
      have hlong : (e :: erest).length ≤ (items.map Segment.entry).length := by
        have := hall (by omega)
        rw [List.length_map, List.length_cons]
        omega
      obtain ⟨tail, htail⟩ := List.prefix_of_prefix_length_le
        (List.prefix_append (e :: erest) groups'.flatten) hpre hlong
      refine ⟨e :: erest, msg, tail, ?_, hfrag, htail.symm, hflat, hsplit, ?_⟩
      · have := congrArg List.head? hmsgs
        simpa using this
      · have hget : groups[j]? = some (e :: erest) := by
          have := congrArg List.head? hgroups
          simpa using this
        rw [hc, List.take_add_one, hget]
        simp

theorem Kcp.inbound_recv {O C : Type} {k : Kcp O C} {entries log : List Entry} {msgs : List Bytes}
    {j c n : ℕ} {groups : List (List Entry)} (hlog : log.length < 4294967296)
    (h : k.recvView.Inbound log c n) (hg : Consumed entries msgs j c groups)
    (hpre : log <+: entries) {buflen : ℕ} (hok : 0 ≤ (k.recv buflen).2.1) :
    ∃ msg g n', msgs[j]? = some msg ∧ (k.recv buflen).2.2 = msg ∧
      (k.recv buflen).1.recvView.Inbound log (c + g) n' ∧
      Consumed entries msgs (j + 1) (c + g) groups := by
  rcases k.recv_cases buflen with ⟨hneg, -⟩ | ⟨hpeek, -, hbytes, hview⟩
  · omega
  · obtain ⟨seg, rest, hcons, hall⟩ := Kcp.length_of_peekSize hpeek
    obtain ⟨group, msg, tail, hmsg, hfrag, hitems, hnext⟩ := hg.next hpre h.queue hcons hall
    have hrun : popRun k.rcvQueue.items = (msg, k.rcvQueue.items.drop group.length) :=
      popRun_fragmented hfrag hitems
    have hqueue : (k.rcvQueue.items.drop group.length).map Segment.entry =
        (log.take n).drop (c + group.length) := by
      rw [List.map_drop, ← List.drop_drop]
      exact congrArg (List.drop group.length) h.queue
    have hle : c + group.length ≤ n := by
      have hlen := congrArg List.length (hitems.symm.trans h.queue)
      have hpos := hfrag.length_pos
      rw [List.length_append, List.length_drop, List.length_take] at hlen
      omega
    have hpop : (recvView { k with
        rcvQueue := k.rcvQueue.setItems (popRun k.rcvQueue.items).2 }).Inbound log
          (c + group.length) n := by
      refine ⟨h.nxt, hle, h.known, h.heap, ?_⟩
      rw [hrun]
      exact hqueue
    obtain ⟨n', -, hin⟩ := Kcp.inbound_moveReady hlog hpop
    exact ⟨msg, group.length, n', hmsg, by rw [hbytes, hrun], hview ▸ hin, hnext⟩

/-- Two connections and what their applications saw: the buffers that `send` accepted at `a`, what
each call of `send` there appended to the queue, whether one was refused with -2, the messages that
`recv` returned at `b`, and how many segments `a` has numbered. -/
structure World (O C : Type) where
  a : Kcp O C
  b : Kcp O C
  accepted : List Bytes := []
  appended : List Bytes := []
  refused : Bool := false
  received : List Bytes := []
  numbered : ℕ := 0

/-- What can happen next. The network hands over any packet the other side has ever output, as
often as it likes and in any order, or never. -/
inductive Event where
  | atA (op : Op)
  | atB (op : Op)
  | toA (i : ℕ) (pktType : PacketType) (ackNoDelay : Bool)
  | toB (i : ℕ) (pktType : PacketType) (ackNoDelay : Bool)

/-- The applications' own operations, with the stream mode fixed and no MTU beyond `u32`. -/
def Op.Local : Op → Prop
  | .input _ _ _ => False
  | .setStream _ => False
  | .setMtu mtu => mtu ≤ 4294967295
  | _ => True

def Event.Allowed : Event → Prop
  | .atA op => op.Local
  | .atB op => op.Local
  | _ => True

namespace World

variable {O C : Type} [Output O] [Clock C]

def start (conv : UInt32) (outputA outputB : O) (clockA clockB : C) (streamA streamB : Int32) :
    World O C where
  a := { Kcp.withClock conv outputA clockA with stream := streamA }
  b := { Kcp.withClock conv outputB clockB with stream := streamB }

def moveA (w : World O C) (a : Kcp O C) : World O C :=
  { w with a := a, numbered := w.numbered + (a.sndNxt - w.a.sndNxt).toNat }

def recordA (w : World O C) : Op → World O C
  | .send buffer =>
    { w with
      accepted := if (w.a.send buffer).2 = 0 then w.accepted ++ [buffer] else w.accepted
      appended := w.appended ++ [w.a.appended buffer]
      refused := w.refused || (w.a.send buffer).2 = -2 }
  | _ => w

def recordB (w : World O C) : Op → World O C
  | .recv buflen =>
    { w with
      received := if 0 ≤ (w.b.recv buflen).2.1 then w.received ++ [(w.b.recv buflen).2.2]
        else w.received }
  | _ => w

def step (w : World O C) : Event → World O C × Unit
  | .atA op => ((w.recordA op).moveA (w.a.step op).1, ())
  | .atB op => ({ w.recordB op with b := (w.b.step op).1 }, ())
  | .toA i pktType ackNoDelay =>
    match w.b.output.sent[i]? with
    | none => (w, ())
    | some pkt => (w.moveA (w.a.input pkt pktType ackNoDelay).1, ())
  | .toB i pktType ackNoDelay =>
    match w.a.output.sent[i]? with
    | none => (w, ())
    | some pkt => ({ w with b := (w.b.input pkt pktType ackNoDelay).1 }, ())

/-- Everything ever queued at `a`, as entries: the numbered ones and those still in the queue. -/
def entries (w : World O C) (log : List Entry) : List Entry :=
  log ++ w.a.sndQueue.items.map Segment.entry

/-- The books of the applications, in message mode. -/
def MessageOk (w : World O C) (log : List Entry) (c : ℕ) : Prop :=
  w.received = w.accepted.take w.received.length ∧
    ∃ groups, Consumed (w.entries log) w.accepted w.received.length c groups

/-- The books of the applications, in stream mode: each `recv` returned one segment. -/
structure StreamOk (w : World O C) (log : List Entry) (c : ℕ) : Prop where
  frg : ∀ e ∈ w.entries log, e.1 = 0
  bytes : (w.entries log).flatMap Prod.snd = w.appended.flatten
  received : w.received = (log.take c).map Prod.snd

/-- The joint invariant of both connections and all packets in flight. -/
structure Ok (w : World O C) (stream : Int32) (log : List Entry) (c n : ℕ) : Prop where
  out : w.a.Outbound log
  inb : w.b.recvView.Inbound log c n
  count : log.length = w.numbered
  conv : w.b.conv = w.a.conv
  mss : w.a.mss ≠ 0
  mode : w.a.stream = stream
  message : stream = 0 → w.MessageOk log c
  bytes : stream ≠ 0 → w.StreamOk log c
  books : w.refused = false → w.appended.flatten = w.accepted.flatten

/-- An operation that acknowledges and then flushes at most once. -/
structure Acts (k k' : Kcp O C) : Prop where
  split : ∃ mid, k.Acknowledges mid ∧ (k.sendView.Ok → mid.sendView.Ok) ∧
    (k' = mid ∨ ∃ flushType, k' = (mid.flush flushType).1)

private theorem acts_of_eq {k k' : Kcp O C} (hview : k'.outView = k.outView)
    (hbuf : k'.sndBuf.items = k.sndBuf.items) (hsend : k'.sendView = k.sendView) : Acts k k' :=
  ⟨k', .of_eq hview hbuf, fun h => hsend ▸ h, .inl rfl⟩

theorem acts_input (k : Kcp O C) (data : Bytes) (pktType : PacketType) (ackNoDelay : Bool) :
    Acts k (k.input data pktType ackNoDelay).1 := by
  refine ⟨(k.inputParse data pktType).1, k.acknowledges_inputParse data pktType, ?_,
    k.input_cases data pktType ackNoDelay⟩
  intro hk
  obtain ⟨d, hd⟩ := k.trim_inputParse hk data pktType
  exact hk.trim hd

private theorem acts_update (k : Kcp O C) : Acts k k.update := by
  have htimer : k.updateTimer.1.outView = k.outView ∧
      k.updateTimer.1.sndBuf.items = k.sndBuf.items ∧ k.updateTimer.1.sendView = k.sendView := by
    obtain ⟨clock, updated, tsFlush, h⟩ := k.updateTimer_frame
    rw [h]
    exact ⟨rfl, rfl, rfl⟩
  refine ⟨k.updateTimer.1, .of_eq htimer.1 htimer.2.1, fun h => htimer.2.2 ▸ h, ?_⟩
  simp only [Kcp.update]
  split_ifs
  · exact .inr ⟨.full, rfl⟩
  · exact .inl rfl

theorem acts_local (k : Kcp O C) {op : Op} (hop : op.Local) (hsend : ∀ buffer, op ≠ .send buffer)
    (hmtu : ∀ mtu, op ≠ .setMtu mtu) : Acts k (k.step op).1 := by
  cases op with
  | send buffer => exact absurd rfl (hsend buffer)
  | recv buflen =>
    have heq : (k.recv buflen).1.outView = k.outView ∧
        (k.recv buflen).1.sndBuf.items = k.sndBuf.items := by
      obtain ⟨_, _, _, _, h⟩ := k.recv_frame buflen
      rw [h]
      exact ⟨rfl, rfl⟩
    exact acts_of_eq heq.1 heq.2 (k.sendView_recv buflen)
  | input data pktType ackNoDelay => exact hop.elim
  | flush flushType => exact ⟨k, .of_eq rfl rfl, id, .inr ⟨flushType, rfl⟩⟩
  | update => exact acts_update k
  | nodelay nodelay interval resend nc =>
    obtain ⟨_, _, _, _, _, h⟩ := k.setNodelay_frame nodelay interval resend nc
    rw [Kcp.step, h]
    exact acts_of_eq rfl rfl rfl
  | setMtu mtu => exact absurd rfl (hmtu mtu)
  | wndSize sndwnd rcvwnd =>
    obtain ⟨_, _, h⟩ := k.wndSize_frame sndwnd rcvwnd
    rw [Kcp.step, h]
    exact acts_of_eq rfl rfl rfl
  | setStream stream => exact hop.elim
  | shrinkIdleBuffers heapReleased ackReleased =>
    refine acts_of_eq ?_ ?_ (k.sendView_shrinkIdleBuffers heapReleased ackReleased)
    · simp only [Kcp.step, Kcp.shrinkIdleBuffers, Kcp.outView]
      split_ifs <;> simp
    · simp only [Kcp.step, Kcp.shrinkIdleBuffers]
      split_ifs <;> simp

theorem Acts.config {k k' : Kcp O C} (h : Acts k k') :
    k'.conv = k.conv ∧ k'.mss = k.mss ∧ k'.stream = k.stream := by
  obtain ⟨mid, hack, -, heq⟩ := h
  have hview := hack.view
  simp only [Kcp.outView, OutView.mk.injEq] at hview
  obtain ⟨-, hconv, -, -, hmss, hstream⟩ := hview
  rcases heq with rfl | ⟨flushType, rfl⟩
  · exact ⟨hconv, hmss, hstream⟩
  · obtain ⟨hc, hm, hs⟩ := mid.flush_config flushType
    exact ⟨hc.trans hconv, hm.trans hmss, hs.trans hstream⟩

theorem Acts.outbound {k k' : Kcp O C} (h : Acts k k') {log : List Entry} (hk : k.Outbound log)
    (hnum : log.length + (k'.sndNxt - k.sndNxt).toNat < 4294967296) :
    ∃ log', log <+: log' ∧ k'.Outbound log' ∧
      log'.length = log.length + (k'.sndNxt - k.sndNxt).toNat ∧
      log' ++ k'.sndQueue.items.map Segment.entry = log ++ k.sndQueue.items.map Segment.entry := by
  obtain ⟨mid, hack, hok, heq⟩ := h
  have hmid := hk.acknowledges hack (hok hk.window)
  have hview := hack.view
  simp only [Kcp.outView, OutView.mk.injEq] at hview
  obtain ⟨hnxt, -, hqueue, -⟩ := hview
  rcases heq with rfl | ⟨flushType, rfl⟩
  · refine ⟨log, List.prefix_rfl, hmid, ?_, by rw [hqueue]⟩
    rw [hnxt, UInt32.sub_self]
    rfl
  · rw [← hnxt] at hnum
    obtain ⟨n, hn, hle, hq, hout⟩ := hmid.flush flushType hnum
    refine ⟨_, List.prefix_append _ _, hout, ?_, ?_⟩
    · rw [← hnxt, hn, List.length_append, List.length_map, List.length_take_of_le hle]
    · rw [hq, List.append_assoc, ← List.map_append, List.take_append_drop, hqueue]

section Steps

variable {w : World O C} {stream : Int32} {log : List Entry} {c n : ℕ}

private theorem Ok.acts (hw : w.Ok stream log c n) {a' : Kcp O C} (h : Acts w.a a')
    (hnum : (w.moveA a').numbered < 4294967296) :
    ∃ log', (w.moveA a').Ok stream log' c n := by
  obtain ⟨hconv, hmss, hstream⟩ := h.config
  obtain ⟨log', hpre, hout, hlen, hentries⟩ := h.outbound hw.out (by rw [hw.count]; exact hnum)
  have hsame : (w.moveA a').entries log' = w.entries log := hentries
  refine ⟨log', hout, hw.inb.mono hpre, by rw [hlen, hw.count]; rfl, hw.conv.trans hconv.symm,
    ?_, hstream.trans hw.mode, ?_, ?_, hw.books⟩
  · intro hz
    exact hw.mss (hmss ▸ hz)
  · intro hs
    obtain ⟨hrecv, groups, hg⟩ := hw.message hs
    exact ⟨hrecv, groups, hsame ▸ hg⟩
  · intro hs
    obtain ⟨hfrg, hbytes, hrecv⟩ := hw.bytes hs
    refine ⟨hsame ▸ hfrg, hsame ▸ hbytes, hrecv.trans ?_⟩
    obtain ⟨rest, rfl⟩ := hpre
    rw [List.take_append_of_le_length (hw.inb.consumed.trans hw.inb.known)]

private theorem append_map_entry (log : List Entry) (queue segs : List Segment) :
    log ++ (queue ++ segs).map Segment.entry =
      (log ++ queue.map Segment.entry) ++ segs.map Segment.entry := by
  rw [List.map_append, List.append_assoc]

private theorem Consumed.append {entries new : List Entry} {msgs : List Bytes} {j : ℕ}
    {groups : List (List Entry)} (h : Consumed entries msgs j c groups) (hj : j ≤ msgs.length)
    {msg : Bytes} (hfrag : Fragmented new msg) :
    Consumed (entries ++ new) (msgs ++ [msg]) j c (groups ++ [new]) := by
  refine ⟨by simp [h.flatten], List.rel_append h.split (.cons hfrag .nil), ?_⟩
  rw [h.consumed, List.take_append_of_le_length (by rw [h.split.length_eq]; exact hj)]

omit [Output O] [Clock C] in
private theorem Ok.send (hw : w.Ok stream log c n) (buffer : Bytes) :
    ((w.recordA (.send buffer)).moveA (w.a.send buffer).1).Ok stream log c n := by
  have hq := w.a.queues_send buffer hw.mss
  obtain ⟨⟨hnxt, hconv, hsent, hmss, hstream, hbuf, hview⟩, hshort⟩ := hq
  have hlog : ∀ e ∈ log, e.2.length < 4294967296 := fun e he =>
    hw.out.short e (List.mem_append_left _ he)
  have hqueue : ∀ seg ∈ w.a.sndQueue.items, seg.data.length < 4294967296 := fun seg hseg =>
    hw.out.short seg.entry (List.mem_append_right _ (List.mem_map_of_mem hseg))
  have hzero : (w.a.send buffer).1.sndNxt - w.a.sndNxt = 0 := by rw [hnxt, UInt32.sub_self]
  refine ⟨⟨hnxt.trans hw.out.nxt, hview ▸ hw.out.window, ?_, ?_, ?_⟩, hw.inb, ?_,
    hw.conv.trans hconv.symm, fun hz => hw.mss (hmss ▸ hz), hstream.trans hw.mode, ?_, ?_, ?_⟩
  · intro e he
    rcases List.mem_append.mp he with he | he
    · exact hlog e he
    · obtain ⟨seg, hseg, rfl⟩ := List.mem_map.mp he
      exact hshort hqueue seg hseg
  · intro seg hseg ha
    obtain ⟨hm, hc⟩ := hw.out.buf seg (hbuf ▸ hseg) ha
    exact ⟨hm, hc.trans hconv.symm⟩
  · intro pkt hpkt
    obtain ⟨segs, hsegs, hgen⟩ := hw.out.sent pkt (hsent ▸ hpkt)
    exact ⟨segs, hsegs, fun seg hseg => hconv.symm ▸ hgen seg hseg⟩
  · simp only [moveA, recordA, hzero, hw.count]
    rfl
  · intro hs
    obtain ⟨hrecv, groups, hg⟩ := hw.message hs
    have hle : w.received.length ≤ w.accepted.length := by
      have := congrArg List.length hrecv
      rw [List.length_take] at this
      omega
    rcases w.a.send_message buffer hw.mss (hw.mode.trans hs) with ⟨hcode, heq⟩ |
      ⟨hcode, segs, hfrag, hitems⟩
    · refine ⟨?_, groups, ?_⟩
      · simpa [moveA, recordA, hcode] using hrecv
      · simpa [moveA, recordA, hcode, entries, heq] using hg
    · refine ⟨?_, groups ++ [segs.map Segment.entry], ?_⟩
      · simp only [moveA, recordA, hcode, if_true]
        rw [List.take_append_of_le_length hle]
        exact hrecv
      · simp only [moveA, recordA, hcode, if_true, entries, hitems, append_map_entry]
        exact Consumed.append hg hle hfrag
  · intro hs
    obtain ⟨hfrg, hbytes, hrecv⟩ := hw.bytes hs
    obtain ⟨taken, hpre, hqb, -, hfrg'⟩ := w.a.send_stream buffer hw.mss (hw.mode ▸ hs)
    refine ⟨?_, ?_, hrecv⟩
    · intro e he
      rcases List.mem_append.mp he with he | he
      · exact hfrg e (List.mem_append_left _ he)
      · obtain ⟨seg, hseg, rfl⟩ := List.mem_map.mp he
        exact hfrg' (fun s hs => hfrg s.entry (List.mem_append_right _ (List.mem_map_of_mem hs)))
          seg hseg
    · have happ := Kcp.appended_eq hpre hqb
      rw [entries, List.flatMap_append, flatMap_entry] at hbytes ⊢
      simp only [moveA, recordA, happ, List.flatten_append, List.flatten_singleton, ← hbytes,
        List.append_assoc]
      exact congrArg (log.flatMap Prod.snd ++ ·) hqb
  · intro href
    simp only [moveA, recordA, Bool.or_eq_false_iff, decide_eq_false_iff_not] at href ⊢
    rw [List.flatten_append, List.flatten_singleton, hw.books href.1]
    rcases w.a.send_code buffer hw.mss with hcode | hcode | rfl
    · rw [if_pos hcode, w.a.appended_of_accepted buffer hw.mss hcode, List.flatten_append,
        List.flatten_singleton]
    · exact absurd hcode href.2
    · simp [Kcp.appended, Kcp.send]

theorem conv_step (k : Kcp O C) (op : Op) : (k.step op).1.conv = k.conv := by
  cases op with
  | send buffer =>
    have hfill := (k.fillLast_spec buffer).1.rest.2.1
    have hqueue : ∀ (k' : Kcp O C) (b : Bytes), (k'.queueFragments b).1.conv = k'.conv := by
      intro k' b
      simp only [Kcp.queueFragments]
      split_ifs <;> rfl
    simp only [Kcp.step, Kcp.send]
    split_ifs
    · rfl
    · exact hfill
    · exact (hqueue _ _).trans hfill
    · exact hqueue _ _
  | recv buflen =>
    obtain ⟨_, _, _, _, h⟩ := k.recv_frame buflen
    rw [Kcp.step, h]
  | input data pktType ackNoDelay => exact (acts_input k data pktType ackNoDelay).config.1
  | flush flushType => exact (k.flush_config flushType).1
  | update => exact (acts_update k).config.1
  | nodelay nodelay interval resend nc =>
    obtain ⟨_, _, _, _, _, h⟩ := k.setNodelay_frame nodelay interval resend nc
    rw [Kcp.step, h]
  | setMtu mtu =>
    obtain ⟨_, _, h⟩ := k.setMtu_frame mtu
    rw [Kcp.step, h]
  | wndSize sndwnd rcvwnd =>
    obtain ⟨_, _, h⟩ := k.wndSize_frame sndwnd rcvwnd
    rw [Kcp.step, h]
  | setStream stream => rfl
  | shrinkIdleBuffers heapReleased ackReleased => rfl

private theorem recvView_local (k : Kcp O C) {op : Op} (hop : op.Local)
    (hrecv : ∀ buflen, op ≠ .recv buflen)
    : (k.step op).1.recvView.buf = k.recvView.buf ∧ (k.step op).1.recvView.queue = k.recvView.queue ∧
      (k.step op).1.recvView.nxt = k.recvView.nxt := by
  have hview : ∀ {k' : Kcp O C}, k'.recvView = k.recvView → k'.recvView.buf = k.recvView.buf ∧
      k'.recvView.queue = k.recvView.queue ∧ k'.recvView.nxt = k.recvView.nxt :=
    fun h => ⟨congrArg RecvView.buf h, congrArg RecvView.queue h, congrArg RecvView.nxt h⟩
  cases op with
  | send buffer => exact hview (k.recvView_send buffer)
  | recv buflen => exact absurd rfl (hrecv buflen)
  | input data pktType ackNoDelay => exact hop.elim
  | flush flushType => exact hview (k.recvView_flush flushType)
  | update => exact hview k.recvView_update
  | nodelay nodelay interval resend nc =>
    obtain ⟨_, _, _, _, _, h⟩ := k.setNodelay_frame nodelay interval resend nc
    rw [Kcp.step, h]
    exact ⟨rfl, rfl, rfl⟩
  | setMtu mtu =>
    obtain ⟨_, _, h⟩ := k.setMtu_frame mtu
    rw [Kcp.step, h]
    exact ⟨rfl, rfl, rfl⟩
  | wndSize sndwnd rcvwnd =>
    obtain ⟨_, _, h⟩ := k.wndSize_frame sndwnd rcvwnd
    rw [Kcp.step, h]
    exact ⟨rfl, rfl, rfl⟩
  | setStream stream => exact ⟨rfl, rfl, rfl⟩
  | shrinkIdleBuffers heapReleased ackReleased =>
    exact hview (k.recvView_shrinkIdleBuffers heapReleased ackReleased)

private theorem flatten_singletons (entries : List Entry) :
    (entries.map fun e => [e]).flatten = entries := by
  rw [← List.flatMap_def]
  simp

omit [Output O] [Clock C] in
theorem StreamOk.consumed {entries : List Entry} (hfrg : ∀ e ∈ entries, e.1 = 0)
    (hc : c ≤ entries.length) :
    Consumed entries (entries.map Prod.snd) c c (entries.map fun e => [e]) := by
  refine ⟨flatten_singletons entries, ?_, ?_⟩
  · clear hc
    induction entries with
    | nil => exact .nil
    | cons e rest ih =>
      refine .cons ?_ (ih fun e' he' => hfrg e' (List.mem_cons_of_mem _ he'))
      have he : e = (0, e.2) := by
        rw [← hfrg e List.mem_cons_self]
      rw [he]
      exact .last e.2
  · rw [← List.map_take, flatten_singletons, List.length_take_of_le hc]

omit [Output O] [Clock C] in
private theorem Ok.recv (hw : w.Ok stream log c n) (hnum : w.numbered < 4294967296) (buflen : ℕ) :
    ∃ c' n', World.Ok { w.recordB (.recv buflen) with b := (w.b.recv buflen).1 } stream log c'
      n' := by
  have hlog : log.length < 4294967296 := hw.count ▸ hnum
  have hpre : log <+: w.entries log := List.prefix_append _ _
  have hconv : (w.b.recv buflen).1.conv = w.a.conv := by
    refine Eq.trans ?_ hw.conv
    obtain ⟨_, _, _, _, h⟩ := w.b.recv_frame buflen
    rw [h]
  by_cases hok : 0 ≤ (w.b.recv buflen).2.1
  · simp only [recordB, if_pos hok]
    by_cases hs : stream = 0
    · obtain ⟨hrecv, groups, hg⟩ := hw.message hs
      obtain ⟨msg, g, n', hmsg, hbytes, hin, hnext⟩ := Kcp.inbound_recv hlog hw.inb hg hpre hok
      refine ⟨c + g, n', hw.out, hin, hw.count, hconv, hw.mss, hw.mode, fun _ => ⟨?_, groups, ?_⟩,
        fun h => absurd hs h, hw.books⟩
      · rw [List.length_append, List.length_singleton, List.take_add_one, hmsg, ← hrecv, hbytes]
        rfl
      · rw [List.length_append, List.length_singleton]
        exact hnext
    · obtain ⟨hfrg, hb, hrecv⟩ := hw.bytes hs
      have hc : c ≤ log.length := hw.inb.consumed.trans hw.inb.known
      have hg := StreamOk.consumed (c := c) hfrg (hc.trans hpre.length_le)
      obtain ⟨msg, g, n', hmsg, hbytes, hin, hnext⟩ := Kcp.inbound_recv hlog hw.inb hg hpre hok
      have hcg : c + g ≤ log.length := hin.consumed.trans hin.known
      have hone : g = 1 := by
        have hlen := hnext.consumed
        obtain ⟨hlt, -⟩ := List.getElem?_eq_some_iff.mp hmsg
        rw [List.length_map] at hlt
        rw [← List.map_take, flatten_singletons, List.length_take] at hlen
        omega
      subst hone
      have hlog' : log[c]?.map Prod.snd = some msg := by
        rw [List.getElem?_map] at hmsg
        rwa [← List.getElem?_append_left (by omega)]
      refine ⟨c + 1, n', hw.out, hin, hw.count, hconv, hw.mss, hw.mode, fun h => absurd h hs,
        fun _ => ⟨hfrg, hb, ?_⟩, hw.books⟩
      rw [List.take_add_one, List.map_append, ← hrecv, hbytes]
      obtain ⟨e, he, rfl⟩ := Option.map_eq_some_iff.mp hlog'
      rw [he]
      rfl
  · have hsame : (w.b.recv buflen).1 = w.b := by
      rcases w.b.recv_cases buflen with ⟨-, h⟩ | ⟨-, h, -⟩
      · exact h
      · exact absurd h hok
    simp only [recordB, if_neg hok, hsame]
    exact ⟨c, n, hw⟩

omit [Output O] [Clock C] in
private theorem Ok.setMtu (hw : w.Ok stream log c n) {mtu : Int} (hmtu : mtu ≤ 4294967295) :
    (w.moveA (w.a.setMtu mtu).1).Ok stream log c n := by
  have hzero : log.length = w.numbered + (w.a.sndNxt - w.a.sndNxt).toNat := by
    rw [hw.count, UInt32.sub_self]
    rfl
  simp only [Kcp.setMtu]
  split_ifs with hsmall
  · exact { hw with
      count := hzero
      bytes := fun hs => ⟨(hw.bytes hs).frg, (hw.bytes hs).bytes, (hw.bytes hs).received⟩ }
  · refine ⟨⟨hw.out.nxt, hw.out.window, hw.out.short, hw.out.buf, hw.out.sent⟩, hw.inb, hzero,
      hw.conv, ?_, hw.mode, hw.message, ?_, hw.books⟩
    · intro hz
      have hnat := congrArg UInt32.toNat hz
      rw [not_or] at hsmall
      simp only [moveA, IKCP_OVERHEAD, UInt32.toNat_sub, UInt32.toNat_ofNat'] at hnat
      have hzero' : (0 : UInt32).toNat = 0 := rfl
      omega
    · intro hs
      exact ⟨(hw.bytes hs).frg, (hw.bytes hs).bytes, (hw.bytes hs).received⟩

private theorem Ok.atA (hw : w.Ok stream log c n) {op : Op} (hop : op.Local)
    (hnum : (w.step (.atA op)).1.numbered < 4294967296) :
    ∃ log', (w.step (.atA op)).1.Ok stream log' c n := by
  by_cases hsend : ∃ buffer, op = .send buffer
  · obtain ⟨buffer, rfl⟩ := hsend
    exact ⟨log, hw.send buffer⟩
  · by_cases hmtu : ∃ mtu, op = .setMtu mtu
    · obtain ⟨mtu, rfl⟩ := hmtu
      exact ⟨log, hw.setMtu hop⟩
    · rw [not_exists] at hsend hmtu
      have hrec : w.recordA op = w := by
        cases op with
        | send buffer => exact absurd rfl (hsend buffer)
        | _ => rfl
      simp only [World.step, hrec] at hnum ⊢
      exact hw.acts (acts_local w.a hop hsend hmtu) hnum

private theorem Ok.atB (hw : w.Ok stream log c n) (hnum : w.numbered < 4294967296) {op : Op}
    (hop : op.Local) : ∃ c' n', (w.step (.atB op)).1.Ok stream log c' n' := by
  by_cases hrecv : ∃ buflen, op = .recv buflen
  · obtain ⟨buflen, rfl⟩ := hrecv
    exact hw.recv hnum buflen
  · rw [not_exists] at hrecv
    have hrec : w.recordB op = w := by
      cases op with
      | recv buflen => exact absurd rfl (hrecv buflen)
      | _ => rfl
    obtain ⟨hbuf, hqueue, hnxt⟩ := recvView_local w.b hop hrecv
    have hin : (w.b.step op).1.recvView.Inbound log c n :=
      ⟨hnxt.trans hw.inb.nxt, hw.inb.consumed, hw.inb.known, hbuf ▸ hw.inb.heap,
        hqueue ▸ hw.inb.queue⟩
    simp only [World.step, hrec]
    exact ⟨c, n, hw.out, hin, hw.count, (conv_step w.b op).trans hw.conv, hw.mss, hw.mode,
      hw.message, fun hs => ⟨(hw.bytes hs).frg, (hw.bytes hs).bytes, (hw.bytes hs).received⟩,
      hw.books⟩

private theorem Ok.toB (hw : w.Ok stream log c n) (hnum : w.numbered < 4294967296) {pkt : Bytes}
    (hpkt : pkt ∈ w.a.output.sent) (pktType : PacketType) (ackNoDelay : Bool) :
    ∃ n', World.Ok { w with b := (w.b.input pkt pktType ackNoDelay).1 } stream log c n' := by
  obtain ⟨segs, rfl, hsegs⟩ := hw.out.sent pkt hpkt
  obtain ⟨n', -, hin⟩ := Kcp.inbound_input (hw.count ▸ hnum) hw.inb segs
    (fun seg hseg => hw.conv.symm ▸ hsegs seg hseg) pktType ackNoDelay
  have hconv := (acts_input w.b (packet segs) pktType ackNoDelay).config.1
  exact ⟨n', hw.out, hin, hw.count, hconv.trans hw.conv, hw.mss, hw.mode, hw.message,
    fun hs => ⟨(hw.bytes hs).frg, (hw.bytes hs).bytes, (hw.bytes hs).received⟩, hw.books⟩

theorem Ok.step (hw : w.Ok stream log c n) {event : Event} (hev : event.Allowed)
    (hnum : (w.step event).1.numbered < 4294967296) :
    ∃ log' c' n', (w.step event).1.Ok stream log' c' n' := by
  cases event with
  | atA op =>
    obtain ⟨log', h⟩ := hw.atA hev hnum
    exact ⟨log', c, n, h⟩
  | atB op =>
    have hsame : (w.step (.atB op)).1.numbered = w.numbered := by
      cases op <;> rfl
    obtain ⟨c', n', h⟩ := hw.atB (hsame ▸ hnum) hev
    exact ⟨log, c', n', h⟩
  | toA i pktType ackNoDelay =>
    simp only [World.step] at hnum ⊢
    split at hnum
    · exact ⟨log, c, n, hw⟩
    · obtain ⟨log', h⟩ := hw.acts (acts_input w.a _ pktType ackNoDelay) hnum
      exact ⟨log', c, n, h⟩
  | toB i pktType ackNoDelay =>
    simp only [World.step] at hnum ⊢
    split at hnum
    · exact ⟨log, c, n, hw⟩
    · rename_i pkt hpkt
      obtain ⟨n', h⟩ := hw.toB hnum (List.mem_of_getElem? hpkt) pktType ackNoDelay
      exact ⟨log, c, n', h⟩

theorem numbered_le_step (w : World O C) (event : Event) :
    w.numbered ≤ (w.step event).1.numbered := by
  cases event with
  | atA op =>
    cases op <;> exact Nat.le_add_right _ _
  | atB op =>
    cases op <;> exact le_rfl
  | toA i pktType ackNoDelay =>
    simp only [World.step]
    split
    · exact le_rfl
    · exact Nat.le_add_right _ _
  | toB i pktType ackNoDelay =>
    simp only [World.step]
    split <;> exact le_rfl

omit [Output O] [Clock C] in
theorem ok_start (conv : UInt32) (outputA outputB : O) (clockA clockB : C)
    (streamA streamB : Int32) :
    (start conv outputA outputB clockA clockB streamA streamB).Ok streamA [] 0 0 where
  out := ⟨rfl, Kcp.ok_withClock conv outputA clockA, by simp [start, Kcp.withClock],
    by simp [start, Kcp.withClock], by simp [start, Kcp.withClock]⟩
  inb := ⟨rfl, le_rfl, le_rfl, by simp [start, Kcp.withClock, Kcp.recvView], rfl⟩
  count := rfl
  conv := rfl
  mss := by
    change IKCP_MTU_DEF - UInt32.ofNat IKCP_OVERHEAD ≠ 0
    decide
  mode := rfl
  message := fun _ => ⟨rfl, [], rfl, .nil, rfl⟩
  bytes := fun _ => ⟨by simp [entries, start, Kcp.withClock], rfl, rfl⟩
  books := fun _ => rfl

theorem ok_run (conv : UInt32) (outputA outputB : O) (clockA clockB : C) (streamA streamB : Int32)
    {events : List Event} (hevents : ∀ event ∈ events, event.Allowed)
    (hnum : (run World.step (start conv outputA outputB clockA clockB streamA streamB)
      events).1.numbered < 4294967296) :
    ∃ log c n, (run World.step (start conv outputA outputB clockA clockB streamA streamB)
      events).1.Ok streamA log c n := by
  refine run_invariant (fun w : World O C => w.numbered < 4294967296 →
    ∃ log c n, w.Ok streamA log c n) Event.Allowed ?_ hevents
    (fun _ => ⟨[], 0, 0, ok_start conv outputA outputB clockA clockB streamA streamB⟩) hnum
  intro w event hev hw hlt
  obtain ⟨log, c, n, hok⟩ := hw (lt_of_le_of_lt (w.numbered_le_step event) hlt)
  exact hok.step hev hlt

end Steps

/-- In message mode the messages `recv` returns are the accepted ones in order; in stream mode the
bytes it returns are a prefix of those `send` appended to the queue, which are the accepted ones
unless a call was refused after it had filled up the last queued segment. -/
theorem delivery (conv : UInt32) (outputA outputB : O) (clockA clockB : C)
    (streamA streamB : Int32) (events : List Event)
    (hevents : ∀ event ∈ events, event.Allowed)
    (hnum : (run World.step (start conv outputA outputB clockA clockB streamA streamB)
      events).1.numbered < 2147483648) :
    let w := (run World.step (start conv outputA outputB clockA clockB streamA streamB) events).1
    (streamA = 0 → w.received <+: w.accepted) ∧
    (streamA ≠ 0 → w.received.flatten <+: w.appended.flatten) ∧
    (w.refused = false → w.appended.flatten = w.accepted.flatten) := by
  intro w
  obtain ⟨log, c, n, hok⟩ := ok_run conv outputA outputB clockA clockB streamA streamB hevents
    (by omega)
  refine ⟨?_, ?_, hok.books⟩
  · intro hs
    rw [(hok.message hs).1]
    exact List.take_prefix _ _
  · intro hs
    obtain ⟨-, hbytes, hrecv⟩ := hok.bytes hs
    have hpre : log.take c <+: w.entries log :=
      (List.take_prefix c log).trans (List.prefix_append _ _)
    rw [hrecv, ← hbytes, ← List.flatMap_def]
    exact hpre.flatMap Prod.snd

/-- A packet that arrives twice, in message mode. -/
def repeated : List Event :=
  [.atA (.send [1, 2]), .atA (.flush .full), .atA (.send [3]), .atA (.flush .full),
    .toB 0 .regular false, .toB 0 .regular true, .toA 0 .regular false, .atB (.recv 9)]

theorem delivery_repeated :
    let w := (run World.step (start 7 ⟨⟩ ⟨⟩ ⟨0⟩ ⟨0⟩ 0 0 : World Unbounded VirtualClock) repeated).1
    (∀ event ∈ repeated, event.Allowed) ∧ w.numbered < 2147483648 ∧ w.received = [[1, 2]] ∧
      w.received <+: w.accepted := by
  have hevents : ∀ event ∈ repeated, event.Allowed := by simp [repeated, Event.Allowed, Op.Local]
  have hnum : (run World.step (start 7 ⟨⟩ ⟨⟩ ⟨0⟩ ⟨0⟩ 0 0 : World Unbounded VirtualClock)
      repeated).1.numbered < 2147483648 := by decide +kernel
  have h := delivery 7 (⟨⟩ : Unbounded) ⟨⟩ (⟨0⟩ : VirtualClock) ⟨0⟩ 0 0 repeated hevents hnum
  exact ⟨hevents, hnum, by decide +kernel, h.1 rfl⟩

/-- Stream mode with an MTU of 50: the second `send` fills up the queued segment with 25 bytes and
is then refused, since the rest needs 256 segments. -/
def overfull : List Event :=
  [.atA (.setMtu 50), .atA (.send [1]), .atA (.send (List.replicate 6656 2)),
    .atA (.flush .full), .atA (.flush .full), .toB 0 .regular false, .atB (.recv 100)]

/-- The receiver gets bytes of a call that returned -2. -/
theorem refused_bytes_delivered :
    let w := (run World.step (start 7 ⟨⟩ ⟨⟩ ⟨0⟩ ⟨0⟩ 1 1 : World Unbounded VirtualClock) overfull).1
    (∀ event ∈ overfull, event.Allowed) ∧ w.numbered < 2147483648 ∧
      w.a.rcvWnd.toNat < 2147483648 ∧ w.b.rcvWnd.toNat < 2147483648 ∧
      w.accepted = [[1]] ∧ w.received = [1 :: List.replicate 25 2] ∧
      ¬ w.received.flatten <+: w.accepted.flatten := by
  constructor
  · simp only [overfull, List.forall_mem_cons, Event.Allowed, Op.Local]
    simp
  · decide +kernel

end World

end Kcptun.Arq
