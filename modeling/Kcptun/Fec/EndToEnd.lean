/- Kcptun/Fec/EndToEnd
   source: crates/kcp/src/fec.rs (FecEncoder::encode, FecDecoder::decode, discard_shards)
   digest: From one end to the other: whatever the network drops, repeats and reorders, the decoder
     returns shards of the encoder's packets only, and all that are missing as soon as enough packets
     of a group have arrived. -/

import Kcptun.Fec.Recovery
import Kcptun.Fec.ShardSets

set_option autoImplicit false
set_option relaxedAutoImplicit false

namespace Kcptun.Fec

open Kcptun.Lib Kcptun.Lib.LittleEndian FecDecoder

def shardIdOf (ss : ℕ) (p : Bytes) : ℕ := (fecSeqid p).toNat / ss

def slotOf (ss : ℕ) (p : Bytes) : ℕ := (fecSeqid p).toNat % ss

def slots (ss g : ℕ) (pkts : List Bytes) : Finset ℕ :=
  ((pkts.filter fun p => shardIdOf ss p = g).map (slotOf ss)).toFinset

private theorem mem_slots {ss g i : ℕ} {pkts : List Bytes} :
    i ∈ slots ss g pkts ↔ ∃ p ∈ pkts, shardIdOf ss p = g ∧ slotOf ss p = i := by
  simp only [slots, List.mem_toFinset, List.mem_map, List.mem_filter, decide_eq_true_eq, and_assoc]

private theorem slots_append {ss g : ℕ} {pkts : List Bytes} {p : Bytes} :
    slots ss g (pkts ++ [p]) =
      if shardIdOf ss p = g then insert (slotOf ss p) (slots ss g pkts) else slots ss g pkts := by
  ext i
  split_ifs with hg
  · rw [Finset.mem_insert, mem_slots, mem_slots]
    simp only [List.mem_append, List.mem_singleton, or_and_right, exists_or, exists_eq_left, hg,
      true_and]
    rw [or_comm, eq_comm]
  · rw [mem_slots, mem_slots]
    simp only [List.mem_append, List.mem_singleton, or_and_right, exists_or, exists_eq_left, hg,
      false_and, or_false]

/-- The packets of a sender below half the sequence space: slot `i` of group `g` is `pk g i` where
`present g i`, and enough slots of one group belong to one code word. -/
structure Sender (ds ps : ℕ) (m : Rs.Matrix) (present : ℕ → ℕ → Prop) (pk : ℕ → ℕ → Bytes)
    (data : ℕ → List Bytes) (len : ℕ → ℕ) : Prop where
  slot_lt : ∀ g i, present g i → i < ds + ps
  seqid : ∀ g i, present g i → (fecSeqid (pk g i)).toNat = g * (ds + ps) + i
  below : ∀ g i, present g i → g * (ds + ps) + i < 2147483648
  labelled : ∀ g i, present g i → Labelled ds ps (pk g i)
  code : ∀ g (idxs : List ℕ), idxs.Nodup → idxs.length = ds → (∀ i ∈ idxs, present g i) →
    GroupCode ds ps m g (data g) (len g) (pk g)

def Sent (ss : ℕ) (present : ℕ → ℕ → Prop) (pk : ℕ → ℕ → Bytes) (p : Bytes) : Prop :=
  present (shardIdOf ss p) (slotOf ss p) ∧ p = pk (shardIdOf ss p) (slotOf ss p)

/-- The heap of group `g` holds the packets of the slots `idxs`, too few to recover anything. -/
structure HeapOf (ds : ℕ) (present : ℕ → ℕ → Prop) (pk : ℕ → ℕ → Bytes) (g : ℕ) (h : ShardHeap)
    (idxs : List ℕ) : Prop where
  elements : h.elements = idxs.map (pk g)
  nodup : idxs.Nodup
  present : ∀ i ∈ idxs, present g i
  marks : ∀ s, s ∈ h.marks ↔ ∃ i ∈ idxs, s = fecSeqid (pk g i)
  few : idxs.length < ds

theorem mem_unmark {pkts : List Bytes} {marks : List UInt32} {s : UInt32} :
    s ∈ unmark marks pkts ↔ s ∈ marks ∧ ∀ x ∈ pkts, s ≠ fecSeqid x := by
  induction pkts generalizing marks with
  | nil => simp [unmark]
  | cons x pkts ih =>
    have hcons : unmark marks (x :: pkts) = unmark (marks.filter (· ≠ fecSeqid x)) pkts := rfl
    rw [hcons, ih, List.mem_filter, List.forall_mem_cons, and_assoc, decide_eq_true_eq]

namespace FecDecoder

variable {d : FecDecoder} {ds ps : ℕ} {m : Rs.Matrix} {pkt : Bytes}

private theorem Ready.join (h : d.Ready ds ps m) (pkt : Bytes) : (d.join pkt).1.Ready ds ps m := by
  unfold FecDecoder.join
  dsimp only
  split_ifs
  · exact h.recover _
  · exact h

theorem Ready.collect (h : d.Ready ds ps m) (pkt : Bytes) : (d.collect pkt).1.Ready ds ps m := by
  have hjoin := h.join pkt
  cases hdup : (d.shardOf (d.getShardId (fecSeqid pkt))).has (fecSeqid pkt) with
  | true =>
    rw [collect_of_has hdup]
    exact h.of_eq rfl h.codec_ok h.cache h.flags
  | false =>
    rw [collect_of_not_has hdup]
    refine hjoin.of_eq ?_ ?_ ?_ ?_
    · exact settings_updateNewest ..
    all_goals
      unfold updateNewest
      split_ifs
    · exact hjoin.codec_ok
    · exact hjoin.codec_ok
    · exact hjoin.cache
    · exact hjoin.cache
    · exact hjoin.flags
    · exact hjoin.flags

end FecDecoder

private theorem distance_below {ss : ℕ} {newest id : UInt32} (hpos : 0 < ss) (hle : ss ≤ 256)
    (hn : newest.toNat * ss < 2147483648) (h : id.toNat * ss < 2147483648) :
    distance ss newest id = (newest.toNat * ss : ℕ) - (id.toNat * ss : ℕ) := by
  have hvalid (k : UInt32) (hk : k.toNat * ss < 2147483648) : Valid ss k := by
    show k.toNat + 1 ≤ 4294967295 / ss
    rw [Nat.le_div_iff_mul_le hpos, Nat.add_mul]
    omega
  rw [distance_eq hpos hle (hvalid newest hn) (hvalid id h)]
  omega

theorem toNat_newestAfter {ss : ℕ} {newest id : UInt32} (hpos : 0 < ss) (hle : ss ≤ 256)
    (hn : newest.toNat * ss < 2147483648) (h : id.toNat * ss < 2147483648) :
    (newestAfter ss newest id).toNat = max newest.toNat id.toNat := by
  unfold newestAfter
  rw [distance_below hpos hle h hn]
  split_ifs with hlater
  · have hlt : newest.toNat < id.toNat := Nat.lt_of_mul_lt_mul_right (a := ss) (by omega)
    omega
  · have hge : id.toNat ≤ newest.toNat := Nat.le_of_mul_le_mul_right (by omega) hpos
    omega

private theorem distance_le {ss : ℕ} {newest id : UInt32} (hpos : 0 < ss) (hle : ss ≤ 256)
    (hn : newest.toNat * ss < 2147483648) (h : id.toNat * ss < 2147483648)
    (hold : newest.toNat ≤ id.toNat + 3) : distance ss newest id ≤ MAX_SHARD_SETS * ss := by
  have hmul := Nat.mul_le_mul_right ss hold
  rw [Nat.add_mul] at hmul
  rw [distance_below hpos hle hn h]
  unfold MAX_SHARD_SETS
  push_cast
  omega

section Sender

variable {ds ps g : ℕ} {m : Rs.Matrix} {present : ℕ → ℕ → Prop} {pk : ℕ → ℕ → Bytes}
  {data : ℕ → List Bytes} {len : ℕ → ℕ} {p : Bytes} {h : ShardHeap} {idxs : List ℕ}

private theorem shardIdOf_mul_add_slotOf (ss : ℕ) (p : Bytes) :
    shardIdOf ss p * ss + slotOf ss p = (fecSeqid p).toNat := by
  rw [Nat.mul_comm]
  exact Nat.div_add_mod _ _

theorem HeapOf.empty (hds : 0 < ds) : HeapOf ds present pk g {} [] :=
  ⟨rfl, List.nodup_nil, by simp, by simp, hds⟩

theorem HeapOf.has_iff (h' : HeapOf ds present pk g h idxs)
    (hsender : Sender ds ps m present pk data len) (hid : shardIdOf (ds + ps) p = g) :
    h.has (fecSeqid p) = true ↔ slotOf (ds + ps) p ∈ idxs := by
  have hp := shardIdOf_mul_add_slotOf (ds + ps) p
  rw [hid] at hp
  rw [ShardHeap.has, List.contains_iff_mem, h'.marks]
  constructor
  · rintro ⟨i, hi, heq⟩
    have hseq := hsender.seqid g i (h'.present i hi)
    rw [← heq] at hseq
    rwa [show slotOf (ds + ps) p = i by omega]
  · intro hmem
    refine ⟨_, hmem, UInt32.toNat_inj.mp ?_⟩
    rw [hsender.seqid g _ (h'.present _ hmem), hp]

private theorem HeapOf.push (h' : HeapOf ds present pk g h idxs)
    (hsent : Sent (ds + ps) present pk p)
    (hid : shardIdOf (ds + ps) p = g) (hnew : slotOf (ds + ps) p ∉ idxs) :
    (h.push p).elements = (slotOf (ds + ps) p :: idxs).map (pk g) ∧
      (slotOf (ds + ps) p :: idxs).Nodup ∧ (∀ i ∈ slotOf (ds + ps) p :: idxs, present g i) ∧
      ∀ s, s ∈ (h.push p).marks ↔ ∃ i ∈ slotOf (ds + ps) p :: idxs, s = fecSeqid (pk g i) := by
  obtain ⟨hpres, hpk⟩ := hsent
  rw [hid] at hpres hpk
  refine ⟨?_, List.nodup_cons.mpr ⟨hnew, h'.nodup⟩, List.forall_mem_cons.mpr ⟨hpres, h'.present⟩, ?_⟩
  · rw [List.map_cons, ← hpk, ← h'.elements]
    rfl
  · intro s
    have hmarks : s ∈ (h.push p).marks ↔ s = fecSeqid p ∨ s ∈ h.marks := List.mem_insert_iff
    rw [hmarks, h'.marks]
    simp only [List.mem_cons, or_and_right, exists_or, exists_eq_left, ← hpk]

/-- The heap of group `g` after the slots in `received` have arrived: some of them, and all of them
before the group could be decoded for the first time. -/
def Current (ds : ℕ) (present : ℕ → ℕ → Prop) (pk : ℕ → ℕ → Bytes) (g : ℕ) (h : ShardHeap)
    (received : Finset ℕ) : Prop :=
  ∃ idxs, HeapOf ds present pk g h idxs ∧ (∀ i ∈ idxs, i ∈ received) ∧
    (received.card < ds → ∀ i ∈ received, i ∈ idxs)

/-- The decoder after it has seen the packets `seen`: it knows the newest group, and the heap of each
group that is not too old holds the packets since the last recovery. -/
structure Tracks (ds ps : ℕ) (m : Rs.Matrix) (present : ℕ → ℕ → Prop) (pk : ℕ → ℕ → Bytes)
    (d : FecDecoder) (seen : List Bytes) : Prop where
  ready : d.Ready ds ps m
  newest_ge : ∀ q ∈ seen, shardIdOf (ds + ps) q ≤ d.newestShardId.toNat
  newest_eq : d.newestShardId.toNat = 0 ∨ ∃ q ∈ seen, shardIdOf (ds + ps) q = d.newestShardId.toNat
  below : d.newestShardId.toNat * (ds + ps) < 2147483648
  heaps : ∀ k : UInt32, d.newestShardId.toNat ≤ k.toNat + 3 →
    Current ds present pk k.toNat (d.shardOf k) (slots (ds + ps) k.toNat seen)

/-- What a packet of group `g` brings back when `before` had arrived and now `after` has: shards of
the group, and the first time there are enough of them all that are missing. -/
structure Returns (ds ps : ℕ) (m : Rs.Matrix) (pk : ℕ → ℕ → Bytes) (data : ℕ → List Bytes)
    (len : ℕ → ℕ) (g : ℕ) (before after : Finset ℕ) (out : List Bytes) : Prop where
  shards : ∀ r ∈ out, ∃ i < ds, r = (data g).getD i [] ∧
    GroupCode ds ps m g (data g) (len g) (pk g)
  first : before.card < ds → after.card = ds →
    out = ((List.range ds).filter (· ∉ after)).map fun i => (data g).getD i []

variable {d : FecDecoder} {seen : List Bytes}

theorem toNat_getShardId (hsync : d.InSync ds ps) (hle : ds + ps ≤ 256) (p : Bytes) :
    (d.getShardId (fecSeqid p)).toNat = shardIdOf (ds + ps) p := by
  rw [getShardId, hsync.size, UInt32.toNat_div, UInt32.toNat_ofNat',
    Nat.mod_eq_of_lt (show ds + ps < 2 ^ 32 by omega)]
  rfl

theorem join_spec (hready : d.Ready ds ps m) (hsender : Sender ds ps m present pk data len)
    (hsent : Sent (ds + ps) present pk p) (hid : shardIdOf (ds + ps) p = g)
    (hheap : HeapOf ds present pk g (d.shardOf (d.getShardId (fecSeqid p))) idxs)
    (hnew : slotOf (ds + ps) p ∉ idxs) :
    (HeapOf ds present pk g (d.join p).2.1 (slotOf (ds + ps) p :: idxs) ∧ (d.join p).2.2 = []) ∨
      (HeapOf ds present pk g (d.join p).2.1 [] ∧ idxs.length + 1 = ds ∧
        GroupCode ds ps m g (data g) (len g) (pk g) ∧
        (d.join p).2.2 = ((List.range ds).filter (· ∉ slotOf (ds + ps) p :: idxs)).map
          fun i => (data g).getD i []) := by
  obtain ⟨helements, hnodup, hpresent, hmarks⟩ := hheap.push hsent hid hnew
  have hfew := hheap.few
  have hlen : ((d.shardOf (d.getShardId (fecSeqid p))).push p).len = idxs.length + 1 := by
    rw [ShardHeap.len, helements, List.length_map, List.length_cons]
  unfold FecDecoder.join
  dsimp only
  rw [hlen, hready.data]
  split_ifs with hfull
  · have hds : (slotOf (ds + ps) p :: idxs).length = ds := by
      rw [List.length_cons]
      omega
    have hcode := hsender.code g _ hnodup hds hpresent
    have hslot : ∀ i ∈ slotOf (ds + ps) p :: idxs, i < ds + ps :=
      fun i hi => hsender.slot_lt g i (hpresent i hi)
    refine .inr ⟨?_, hds, hcode, hready.recovered hcode hnodup hslot hds helements⟩
    rw [recover_eq]
    have hempty : HeapOf ds present pk g ⟨[], unmark
        ((d.shardOf (d.getShardId (fecSeqid p))).push p).marks
        ((d.shardOf (d.getShardId (fecSeqid p))).push p).elements⟩ [] := by
      refine ⟨rfl, List.nodup_nil, by simp, ?_, hready.codec_ok.pos⟩
      intro s
      -- every mark belongs to a packet that was popped
      rw [mem_unmark, hmarks, helements]
      simp only [List.not_mem_nil, false_and, exists_false, iff_false, not_and]
      rintro ⟨i, hi, rfl⟩ hall
      exact hall _ (List.mem_map_of_mem hi) rfl
    split_ifs <;> exact hempty
  · exact .inl ⟨⟨helements, hnodup, hpresent, hmarks, by rw [List.length_cons]; omega⟩, rfl⟩

theorem Current.join {received : Finset ℕ} (hready : d.Ready ds ps m)
    (h' : Current ds present pk g (d.shardOf (d.getShardId (fecSeqid p))) received)
    (hsender : Sender ds ps m present pk data len) (hsent : Sent (ds + ps) present pk p)
    (hid : shardIdOf (ds + ps) p = g)
    (hnew : (d.shardOf (d.getShardId (fecSeqid p))).has (fecSeqid p) = false) :
    Current ds present pk g (d.join p).2.1 (insert (slotOf (ds + ps) p) received) ∧
      Returns ds ps m pk data len g received (insert (slotOf (ds + ps) p) received)
        (d.join p).2.2 := by
  obtain ⟨idxs, hheap, hsub, hall⟩ := h'
  have hslot : slotOf (ds + ps) p ∉ idxs := by
    intro hmem
    rw [(hheap.has_iff hsender hid).mpr hmem] at hnew
    cases hnew
  have hnodup : (slotOf (ds + ps) p :: idxs).Nodup := List.nodup_cons.mpr ⟨hslot, hheap.nodup⟩
  have hincl : (slotOf (ds + ps) p :: idxs).toFinset ⊆ insert (slotOf (ds + ps) p) received := by
    intro i hi
    rcases List.mem_cons.mp (List.mem_toFinset.mp hi) with rfl | hi
    · exact Finset.mem_insert_self ..
    · exact Finset.mem_insert_of_mem (hsub i hi)
  have hfull (hlt : received.card < ds) :
      (slotOf (ds + ps) p :: idxs).toFinset = insert (slotOf (ds + ps) p) received := by
    apply Finset.Subset.antisymm hincl
    intro i hi
    rw [List.mem_toFinset, List.mem_cons]
    exact (Finset.mem_insert.mp hi).imp id (hall hlt i)
  have hcard := List.toFinset_card_of_nodup hnodup
  rcases join_spec hready hsender hsent hid hheap hslot with
    ⟨hgrown, hout⟩ | ⟨hempty, hlen, hcode, hout⟩
  · refine ⟨⟨_, hgrown, fun i hi => hincl (List.mem_toFinset.mpr hi), ?_⟩, ?_⟩
    · intro hlt i hi
      have hle := Finset.card_le_card (Finset.subset_insert (slotOf (ds + ps) p) received)
      rw [← List.mem_toFinset, hfull (by omega)]
      exact hi
    · rw [hout]
      refine ⟨by simp, ?_⟩
      intro hlt heq
      -- a heap that has grown is too small
      have hfew := hgrown.few
      rw [← hfull hlt, hcard] at heq
      omega
  · rw [List.length_cons, hlen] at hcard
    refine ⟨⟨[], hempty, by simp, ?_⟩, ?_, ?_⟩
    · intro hlt
      have := Finset.card_le_card hincl
      omega
    · intro r hr
      rw [hout] at hr
      obtain ⟨i, hi, rfl⟩ := List.mem_map.mp hr
      exact ⟨i, List.mem_range.mp (List.mem_of_mem_filter hi), rfl, hcode⟩
    · intro hlt _
      rw [hout, ← hfull hlt]
      simp only [List.mem_toFinset]

private theorem Tracks.sampled (h : Tracks ds ps m present pk d seen) (p : Bytes) :
    Tracks ds ps m present pk (d.sampled p) seen := by
  obtain ⟨⟨⟨h1, h2, h3, h4, h5⟩, h6, h7, h8, h9, h10⟩, h11, h12, h13, h14⟩ := h
  exact ⟨⟨⟨h1, h2, h3, h4, h5⟩, h6, h7, h8, h9, h10⟩, h11, h12, h13, h14⟩

private theorem Tracks.collect_of_has (h : Tracks ds ps m present pk d seen)
    (hdup : (d.shardOf (d.getShardId (fecSeqid p))).has (fecSeqid p) = true)
    (hseen : slotOf (ds + ps) p ∈ slots (ds + ps) (shardIdOf (ds + ps) p) seen) :
    Tracks ds ps m present pk (d.collect p).1 (seen ++ [p]) ∧
      Returns ds ps m pk data len (shardIdOf (ds + ps) p)
        (slots (ds + ps) (shardIdOf (ds + ps) p) seen)
        (slots (ds + ps) (shardIdOf (ds + ps) p) (seen ++ [p])) (d.collect p).2 := by
  have hslots (g : ℕ) : slots (ds + ps) g (seen ++ [p]) = slots (ds + ps) g seen := by
    rw [slots_append]
    split_ifs with hg
    · rw [← hg]
      exact Finset.insert_eq_of_mem hseen
    · rfl
  have hnewest : (d.collect p).1.newestShardId = d.newestShardId := by
    rw [FecDecoder.collect_of_has hdup]
    rfl
  have hout : (d.collect p).2 = [] := by rw [FecDecoder.collect_of_has hdup]
  obtain ⟨q, hq, hqid, -⟩ := mem_slots.mp hseen
  refine ⟨⟨h.ready.collect p, ?_, ?_, ?_, ?_⟩, ?_, ?_⟩
  · rw [hnewest]
    refine List.forall_mem_append.mpr ⟨h.newest_ge, List.forall_mem_singleton.mpr ?_⟩
    rw [← hqid]
    exact h.newest_ge q hq
  · rw [hnewest]
    apply h.newest_eq.imp id
    rintro ⟨q, hq, hid⟩
    exact ⟨q, List.mem_append_left _ hq, hid⟩
  · rw [hnewest]
    exact h.below
  · intro k hk
    rw [hnewest] at hk
    rw [shardOf_collect_of_has rfl hdup, hslots]
    exact h.heaps k hk
  · rw [hout]
    simp
  · rw [hslots]
    intro hlt heq
    omega

private theorem Tracks.collect_of_new (h : Tracks ds ps m present pk d seen)
    (hsender : Sender ds ps m present pk data len) (hsent : Sent (ds + ps) present pk p)
    (htimely : d.newestShardId.toNat ≤ shardIdOf (ds + ps) p + 3)
    (hnew : (d.shardOf (d.getShardId (fecSeqid p))).has (fecSeqid p) = false) :
    Tracks ds ps m present pk (d.collect p).1 (seen ++ [p]) ∧
      Returns ds ps m pk data len (shardIdOf (ds + ps) p)
        (slots (ds + ps) (shardIdOf (ds + ps) p) seen)
        (slots (ds + ps) (shardIdOf (ds + ps) p) (seen ++ [p])) (d.collect p).2 := by
  have hds := h.ready.codec_ok.pos
  have hss : 0 < ds + ps := by omega
  have hle := h.ready.size_le
  have hid := toNat_getShardId h.ready.toInSync hle p
  have hbelow : (d.getShardId (fecSeqid p)).toNat * (ds + ps) < 2147483648 := by
    rw [hid]
    exact lt_of_le_of_lt (Nat.le_add_right ..) (hsender.below _ _ hsent.1)
  have hpos : 0 < d.dataShards := by
    rw [h.ready.data]
    exact hds
  have hsets := (sets_collect rfl hpos hnew).1
  have hheaps := shardOf_collect rfl hpos hnew
  have hmax := toNat_newestAfter hss hle h.below hbelow
  rw [h.ready.size] at hsets hheaps
  rw [← hsets] at hmax hheaps
  have hbelow' : (d.collect p).1.newestShardId.toNat * (ds + ps) < 2147483648 := by
    rw [hmax]
    rcases max_choice d.newestShardId.toNat (d.getShardId (fecSeqid p)).toNat with hc | hc <;> rw [hc]
    · exact h.below
    · exact hbelow
  rw [hid] at hmax
  -- the group of the packet
  have hown := h.heaps (d.getShardId (fecSeqid p)) (by rw [hid]; exact htimely)
  rw [hid] at hown
  obtain ⟨hjoined, hreturns⟩ := hown.join h.ready hsender hsent rfl hnew
  have hself : slots (ds + ps) (shardIdOf (ds + ps) p) (seen ++ [p]) =
      insert (slotOf (ds + ps) p) (slots (ds + ps) (shardIdOf (ds + ps) p) seen) := by
    rw [slots_append, if_pos rfl]
  rw [hself, collect_of_not_has hnew]
  refine ⟨?_, hreturns⟩
  rw [← collect_of_not_has hnew]
  refine ⟨h.ready.collect p, ?_, ?_, hbelow', ?_⟩
  · refine List.forall_mem_append.mpr ⟨?_, List.forall_mem_singleton.mpr ?_⟩
    · intro q hq
      have := h.newest_ge q hq
      omega
    · omega
  · rcases max_choice d.newestShardId.toNat (shardIdOf (ds + ps) p) with hc | hc
    · rw [hmax, hc]
      apply h.newest_eq.imp id
      rintro ⟨q, hq, heq⟩
      exact ⟨q, List.mem_append_left _ hq, heq⟩
    · refine .inr ⟨p, List.mem_append_right _ (List.mem_singleton_self p), ?_⟩
      rw [hmax, hc]
  · intro k hk
    rw [hheaps]
    by_cases hkid : k = d.getShardId (fecSeqid p)
    · rw [if_pos hkid, if_pos, hkid, hid, hself]
      · exact hjoined
      · refine distance_le hss hle hbelow' ?_ ?_
        · rw [hkid]
          exact hbelow
        · exact hk
    · have hkne : shardIdOf (ds + ps) p ≠ k.toNat := by
        intro heq
        rw [← hid] at heq
        exact hkid (UInt32.toNat_inj.mp heq.symm)
      rw [if_neg hkid, slots_append, if_neg hkne]
      split_ifs with hkeep
      · exact h.heaps k (by omega)
      · -- a group that is dropped has no packets among those seen
        refine ⟨[], .empty hds, by simp, ?_⟩
        intro _ i hi
        obtain ⟨q, hq, hqk, -⟩ := mem_slots.mp hi
        have hqle := Nat.mul_le_mul_right (ds + ps) (h.newest_ge q hq)
        rw [hqk] at hqle
        exact absurd (distance_le hss hle hbelow' (lt_of_le_of_lt hqle h.below) hk) hkeep

private theorem Tracks.decode (h : Tracks ds ps m present pk d seen)
    (hsender : Sender ds ps m present pk data len) (hsent : Sent (ds + ps) present pk p)
    (htimely : ∀ q ∈ seen, shardIdOf (ds + ps) q ≤ shardIdOf (ds + ps) p + 3) :
    Tracks ds ps m present pk (d.decode p).1 (seen ++ [p]) ∧
      Returns ds ps m pk data len (shardIdOf (ds + ps) p)
        (slots (ds + ps) (shardIdOf (ds + ps) p) seen)
        (slots (ds + ps) (shardIdOf (ds + ps) p) (seen ++ [p])) (d.decode p).2 := by
  have hle := h.ready.size_le
  have hds := h.ready.codec_ok.pos
  have hseq := shardIdOf_mul_add_slotOf (ds + ps) p
  have hbelow := hsender.below _ _ hsent.1
  have hmatch : d.decode p = (d.sampled p).collect p := by
    have hlabelled : Labelled ds ps p := by
      rw [hsent.2]
      exact hsender.labelled _ _ hsent.1
    rw [h.ready.toInSync.decode_eq hle hlabelled, if_pos]
    rw [UInt32.lt_iff_toNat_lt, h.ready.paws_eq]
    have hpaws := lt_paws (show 0 < ds + ps by omega) hle
    omega
  have hsampled := h.sampled p
  have hnewest : (d.sampled p).newestShardId.toNat ≤ shardIdOf (ds + ps) p + 3 := by
    rcases hsampled.newest_eq with hzero | ⟨q, hq, heq⟩
    · omega
    · rw [← heq]
      exact htimely q hq
  rw [hmatch]
  have hid := toNat_getShardId hsampled.ready.toInSync hle p
  obtain ⟨idxs, hheap, hsub, -⟩ := hsampled.heaps ((d.sampled p).getShardId (fecSeqid p))
    (by rw [hid]; exact hnewest)
  rw [hid] at hheap hsub
  cases hdup : ((d.sampled p).shardOf ((d.sampled p).getShardId (fecSeqid p))).has (fecSeqid p) with
  | true => exact hsampled.collect_of_has hdup (hsub _ ((hheap.has_iff hsender rfl).mp hdup))
  | false => exact hsampled.collect_of_new hsender hsent hnewest hdup

def Timely (ss : ℕ) (pkts : List Bytes) : Prop :=
  pkts.Pairwise fun q p => shardIdOf ss q ≤ shardIdOf ss p + 3

instance (ss : ℕ) (pkts : List Bytes) : Decidable (Timely ss pkts) :=
  inferInstanceAs (Decidable (List.Pairwise _ _))

private theorem Tracks.run (h : Tracks ds ps m present pk d seen)
    (hsender : Sender ds ps m present pk data len) {pkts : List Bytes}
    (hsent : ∀ p ∈ pkts, Sent (ds + ps) present pk p) (htimely : Timely (ds + ps) (seen ++ pkts)) :
    Tracks ds ps m present pk (Lib.run FecDecoder.decode d pkts).1 (seen ++ pkts) := by
  induction pkts generalizing d seen with
  | nil => simpa using h
  | cons p pkts ih =>
    rw [List.forall_mem_cons] at hsent
    have hafter := (List.pairwise_append.mp htimely).2.2
    have hstep := (h.decode hsender hsent.1 fun q hq => hafter q hq p List.mem_cons_self).1
    rw [List.append_cons] at htimely ⊢
    rw [run_cons]
    exact ih hstep hsent.2 htimely

private theorem tracks_new (hds : 0 < ds) (hps : 0 < ps) (hle : ds + ps ≤ 256)
    (hsync : d.InSync ds ps)
    (hcodec : d.codec.Ok ds ps m) (hset : d.shardSet = []) (hnewest : d.newestShardId = 0)
    (hcache : d.decodeCache = newDecodeCache (ds + ps))
    (hflags : d.flagCache = List.replicate (ds + ps) false) :
    Tracks ds ps m present pk d [] := by
  refine ⟨⟨hsync, hcodec, ?_, ?_, hps, hle⟩, by simp, .inl ?_, ?_, ?_⟩
  · rw [hcache, newDecodeCache, List.length_replicate]
  · rw [hflags, List.length_replicate]
  · rw [hnewest]
    rfl
  · rw [hnewest]
    exact Nat.lt_of_le_of_lt (Nat.zero_mul _).le (by decide)
  · intro k _
    have hempty : d.shardOf k = {} := by
      rw [shardOf, hset]
      rfl
    rw [hempty]
    exact ⟨[], .empty hds, by simp, fun _ i hi => by simp [slots] at hi⟩

end Sender

section Encoder

/-- The sequence numbers that `n` packets use up, parity included whether it is emitted or not. -/
def numbersUsed (ds ps n : ℕ) : ℕ := n / ds * (ds + ps) + n % ds

def Emitted (ds ps : ℕ) (packets : List Bytes) (g i : ℕ) : Prop :=
  (i < ds ∧ g * ds + i < packets.length) ∨
    (ds ≤ i ∧ i < ds + ps ∧ (g + 1) * ds ≤ packets.length)

def slotPacket (ds ps po : ℕ) (m : Rs.Matrix) (packets : List Bytes) (g i : ℕ) : Bytes :=
  if i < ds then dataPacket (ds + ps) po g i (packets.getD (g * ds + i) [])
  else parityPacket (ds + ps) po g m (groupOf ds packets g) i

variable {ds ps po ho g i : ℕ} {m : Rs.Matrix} {packets : List Bytes}

private theorem Emitted.below (hds : 0 < ds) (h : Emitted ds ps packets g i) :
    g * (ds + ps) + i < numbersUsed ds ps packets.length := by
  have hdiv := Nat.div_add_mod packets.length ds
  rw [Nat.mul_comm] at hdiv
  have hmul (hlt : g < packets.length / ds) :
      g * (ds + ps) + (ds + ps) ≤ packets.length / ds * (ds + ps) := by
    have := Nat.mul_le_mul_right (ds + ps) hlt
    rwa [Nat.succ_mul] at this
  unfold numbersUsed
  rcases h with ⟨hi, hn⟩ | ⟨-, hi, hn⟩
  · have hg : g ≤ packets.length / ds := (Nat.le_div_iff_mul_le hds).mpr (by omega)
    rcases Nat.lt_or_eq_of_le hg with hlt | rfl
    · have := hmul hlt
      omega
    · omega
  · have := hmul ((Nat.le_div_iff_mul_le hds).mpr hn)
    omega

private theorem Emitted.slot_lt (h : Emitted ds ps packets g i) : i < ds + ps := by
  rcases h with ⟨hi, -⟩ | ⟨-, hi, -⟩ <;> omega

private theorem complete_of_emitted (hds : 0 < ds) {idxs : List ℕ} (hnodup : idxs.Nodup)
    (hlen : idxs.length = ds) (h : ∀ i ∈ idxs, Emitted ds ps packets g i) :
    (g + 1) * ds ≤ packets.length := by
  by_cases hparity : ∃ i ∈ idxs, ds ≤ i
  · obtain ⟨i, hi, hge⟩ := hparity
    rcases h i hi with ⟨hlt, -⟩ | ⟨-, -, hn⟩
    · omega
    · exact hn
  · push Not at hparity
    have hperm : idxs.Perm (List.range ds) := by
      refine (hnodup.subperm fun i hi => List.mem_range.mpr (hparity i hi)).perm_of_length_le ?_
      rw [List.length_range, hlen]
    have hlast : ds - 1 ∈ idxs := hperm.mem_iff.mpr (List.mem_range.mpr (by omega))
    rcases h _ hlast with ⟨-, hn⟩ | ⟨hge, -, -⟩
    · rw [Nat.add_mul]
      omega
    · omega

private theorem getD_groupOf (hi : i < ds) :
    (groupOf ds packets g).getD i [] = packets.getD (g * ds + i) [] := by
  simp only [groupOf, List.getD_eq_getElem?_getD, List.getElem?_take, List.getElem?_drop, hi, if_true]

private theorem length_groupOf (hfull : (g + 1) * ds ≤ packets.length) :
    (groupOf ds packets g).length = ds := by
  rw [Nat.add_mul] at hfull
  rw [groupOf, List.length_take, List.length_drop]
  omega

theorem getD_groupData (hlen : (groupOf ds packets g).length = ds) (hi : i < ds) :
    (groupData po (groupOf ds packets g)).getD i [] =
      padTo (shardSizeOf po (groupOf ds packets g))
        (dataShard po (packets.getD (g * ds + i) [])) := by
  rw [← getD_groupOf hi, groupData, List.getD_eq_getElem _ _ (by rw [List.length_map]; omega),
    List.getElem_map, List.getD_eq_getElem _ _ (by omega)]

private theorem fecSeqid_slotPacket (hds : 0 < ds) (hle : ds + ps ≤ 256)
    (h : Emitted ds ps packets g i) (hused : numbersUsed ds ps packets.length < 2147483648) :
    (fecSeqid (slotPacket ds ps po m packets g i)).toNat = g * (ds + ps) + i := by
  have hbelow := h.below hds
  have hpaws := lt_paws (show 0 < ds + ps by omega) hle
  rw [toNat_paws (by omega) hle] at hpaws
  have hseq : fecSeqid (slotPacket ds ps po m packets g i) =
      UInt32.ofNat (seqOf (ds + ps) g i) := by
    unfold slotPacket
    split_ifs
    · exact fecSeqid_dataPacket
    · exact fecSeqid_parityPacket
  rw [hseq, toNat_seqOf (by omega) hle h.slot_lt, seqOf_eq (by omega)]

private theorem groupCode_slotPacket (hds : 0 < ds) (hle : ds + ps ≤ 256)
    (hused : numbersUsed ds ps packets.length < 2147483648)
    (hadmits : ∀ b ∈ packets, po + 2 ≤ b.length) (hfull : (g + 1) * ds ≤ packets.length) :
    GroupCode ds ps m g (groupData po (groupOf ds packets g))
      (shardSizeOf po (groupOf ds packets g)) (slotPacket ds ps po m packets g) := by
  have hgroup := length_groupOf hfull
  have hmem {b : Bytes} (hb : b ∈ groupOf ds packets g) :
      po + 2 ≤ b.length ∧ (dataShard po b).length ≤ shardSizeOf po (groupOf ds packets g) := by
    have hmin := hadmits b (List.mem_of_mem_drop (List.mem_of_mem_take hb))
    have hmax := length_le_longest hb
    rw [length_dataShard hmin, shardSizeOf]
    omega
  have hget {i : ℕ} (hi : i < ds) : (groupOf ds packets g).getD i [] ∈ groupOf ds packets g := by
    rw [List.getD_eq_getElem _ _ (by omega)]
    exact List.getElem_mem _
  have hslot {i : ℕ} (hi : i < ds) : slotPacket ds ps po m packets g i =
      dataPacket (ds + ps) po g i ((groupOf ds packets g).getD i []) := by
    rw [slotPacket, if_pos hi, getD_groupOf hi]
  have hparity {i : ℕ} (hi : ds ≤ i) : slotPacket ds ps po m packets g i =
      parityPacket (ds + ps) po g m (groupOf ds packets g) i := if_neg (by omega)
  have hemitted {i : ℕ} (hi : i < ds + ps) : Emitted ds ps packets g i := by
    rcases Nat.lt_or_ge i ds with hids | hids
    · rw [Nat.add_mul] at hfull
      exact .inl ⟨hids, by omega⟩
    · exact .inr ⟨hids, hi, hfull⟩
  have hlength {i : ℕ} (hi : i < ds) : (slotPacket ds ps po m packets g i).length =
      6 + (dataShard po ((groupOf ds packets g).getD i [])).length := by
    rw [hslot hi, dataPacket, List.length_append, length_fecHeader]
  constructor
  case pos =>
    have := hmem (hget hds)
    rw [length_dataShard this.1] at this
    omega
  case data_length => rw [groupData, List.length_map, hgroup]
  case lengths =>
    intro d hd
    obtain ⟨b, hb, rfl⟩ := List.mem_map.mp hd
    exact length_padTo (hmem hb).2
  case seqid => exact fun i hi => fecSeqid_slotPacket hds hle (hemitted hi) hused
  case flag =>
    intro i hi
    split_ifs with hids
    · rw [hslot hids]
      exact fecFlag_fecHeader ..
    · rw [hparity (by omega)]
      exact fecFlag_fecHeader ..
  case header =>
    intro i hi
    rcases Nat.lt_or_ge i ds with hids | hids
    · rw [hlength hids]
      exact Nat.le_add_right ..
    · rw [hparity hids, parityPacket, List.length_append, length_fecHeader]
      exact Nat.le_add_right ..
  case fits =>
    intro i hi
    rw [hlength hi]
    exact Nat.add_le_add_left (hmem (hget hi)).2 6
  case body =>
    intro i hi
    have hdrop : (slotPacket ds ps po m packets g i).drop FEC_HEADER_SIZE =
        dataShard po ((groupOf ds packets g).getD i []) := by
      rw [hslot hi, dataPacket]
      exact List.drop_left' (length_fecHeader ..)
    rw [hdrop, getD_groupData hgroup hi, getD_groupOf hi]
  case parity =>
    intro i hlo hhi
    rw [hparity hlo, parityPacket]
    exact List.drop_left' (length_fecHeader ..)

theorem sender_slotPacket (hds : 0 < ds) (hle : ds + ps ≤ 256)
    (hused : numbersUsed ds ps packets.length < 2147483648)
    (hadmits : ∀ b ∈ packets, po + 2 ≤ b.length) :
    Sender ds ps m (Emitted ds ps packets) (slotPacket ds ps po m packets)
      (fun g => groupData po (groupOf ds packets g))
      (fun g => shardSizeOf po (groupOf ds packets g)) := by
  refine ⟨fun g i h => h.slot_lt, fun g i h => fecSeqid_slotPacket hds hle h hused,
    fun g i h => (h.below hds).trans hused, ?_, ?_⟩
  · intro g i h
    unfold slotPacket
    split_ifs with hids
    · exact labelled_dataPacket hle hids
    · exact labelled_parityPacket hle (by omega) h.slot_lt
  · intro g idxs hnodup hlen h
    exact groupCode_slotPacket hds hle hused hadmits (complete_of_emitted hds hnodup hlen h)

theorem sent_of_mem_wire (hds : 0 < ds) (hle : ds + ps ≤ 256)
    (hused : numbersUsed ds ps packets.length < 2147483648) {outcomes : List Outcome}
    (hemits : ∀ k o, (sealedOf outcomes)[k]? = some o → Emits ds ps ho m packets k o)
    (hlen : (sealedOf outcomes).length = packets.length) {p : Bytes} (hp : p ∈ wire ho outcomes) :
    Sent (ds + ps) (Emitted ds ps packets) (slotPacket ds ps (ho + 6) m packets) p := by
  have hpacket {g i : ℕ} (hemitted : Emitted ds ps packets g i)
      (hpk : p = slotPacket ds ps (ho + 6) m packets g i) :
      Sent (ds + ps) (Emitted ds ps packets) (slotPacket ds ps (ho + 6) m packets) p := by
    have hseq := @fecSeqid_slotPacket ds ps (ho + 6) g i m packets hds hle hemitted hused
    have hslot := hemitted.slot_lt
    rw [← hpk] at hseq
    have hg : shardIdOf (ds + ps) p = g := by
      rw [shardIdOf, hseq, Nat.mul_comm, Nat.mul_add_div (by omega), Nat.div_eq_of_lt hslot,
        Nat.add_zero]
    have hi : slotOf (ds + ps) p = i := by
      rw [slotOf, hseq, Nat.mul_comm, Nat.mul_add_mod, Nat.mod_eq_of_lt hslot]
    unfold Sent
    rw [hg, hi]
    exact ⟨hemitted, hpk⟩
  rcases mem_wire hemits hlen hp with ⟨n, hn, hpk⟩ | ⟨n, hn, hlast, i, hlo, hi, hpk⟩
  · have hmod := Nat.mod_lt n hds
    have hdiv : n / ds * ds + n % ds = n := Nat.div_add_mod' n ds
    refine hpacket (g := n / ds) (i := n % ds) (.inl ⟨hmod, by omega⟩) ?_
    rw [slotPacket, if_pos hmod, hdiv]
    exact hpk
  · have hdiv : n / ds * ds + n % ds = n := Nat.div_add_mod' n ds
    refine hpacket (g := n / ds) (i := i) (.inr ⟨hlo, hi, ?_⟩) ?_
    · rw [Nat.add_mul]
      omega
    · rw [slotPacket, if_neg (by omega)]
      exact hpk

theorem payload_padTo {b : Bytes} (len : ℕ) (hmin : po + 2 ≤ b.length) (hmax : b.length ≤ MTU_LIMIT) :
    let r := padTo len (dataShard po b)
    (r.take (ofLe16 (r.getD 0 0) (r.getD 1 0)).toNat).drop 2 = b.drop (po + 2) := by
  intro r
  have hr : r = le16 (UInt16.ofNat (b.length - po)) ++
      (b.drop (po + 2) ++ List.replicate (len - (dataShard po b).length) 0) := by
    show padTo len (dataShard po b) = _
    rw [padTo, dataShard, List.append_assoc]
  have hsize : ofLe16 (r.getD 0 0) (r.getD 1 0) = UInt16.ofNat (b.length - po) := by
    rw [hr]
    exact ofLe16_le16 _
  have hnat : (UInt16.ofNat (b.length - po)).toNat = b.length - po := by
    unfold MTU_LIMIT at hmax
    rw [UInt16.toNat_ofNat']
    omega
  rw [hsize, hnat, hr, ← List.append_assoc, List.take_left', List.drop_left' (length_le16 _)]
  rw [List.length_append, length_le16, List.length_drop]
  omega

end Encoder

theorem admits_of_mem {ho : ℕ} {calls : List Call} {b : Bytes} (hb : b ∈ accepted ho calls) :
    FecEncoder.Admits ho b := by
  obtain ⟨c, -, hc⟩ := List.mem_filterMap.mp hb
  cases c with
  | encode b' rto now =>
    dsimp only at hc
    split_ifs at hc with hadmits
    cases hc
    exact hadmits
  | encodeOob b' => cases hc

theorem FecEncoder.codec_of_new {ds ps : Int} {ho : ℕ} {e : FecEncoder}
    (h : FecEncoder.new ds ps ho = .ok (some e)) :
    Rs.Codec.new ds.toNat ps.toNat = .ok e.codec := by
  unfold FecEncoder.new at h
  split_ifs at h
  · cases h
  · split at h
    next => cases h
    next codec hcodec =>
      cases h
      exact hcodec

/-- The packets of any run of an encoder, any of them lost, repeated or out of order as long as none
arrives more than three groups late, and a decoder with the same parameters. Whatever the decoder
returns for a packet are RS shards of data packets of its group, whose size field delimits the
original payload; and the packet with which enough of a group have arrived for the first time brings
back exactly the data shards that are missing, in index order. -/
theorem fec_end_to_end (ds ps : Int) (ho : ℕ) (e : FecEncoder)
    (hnew : FecEncoder.new ds ps ho = .ok (some e)) (calls : List Call)
    (hused : numbersUsed ds.toNat ps.toNat (accepted ho calls).length < 2147483648) :
    ∃ d, FecDecoder.new ds ps = some d ∧
      ∀ pkts, (∀ p ∈ pkts, p ∈ wire ho (run FecEncoder.step e calls).2) →
        Timely (ds.toNat + ps.toNat) pkts →
        ∀ seen p rest, pkts = seen ++ p :: rest →
          let packets := accepted ho calls
          let g := shardIdOf (ds.toNat + ps.toNat) p
          let shard := fun n => padTo (shardSizeOf (ho + 6) (groupOf ds.toNat packets g))
            (dataShard (ho + 6) (packets.getD n []))
          let before := slots (ds.toNat + ps.toNat) g seen
          let after := slots (ds.toNat + ps.toNat) g (seen ++ [p])
          let out := ((run FecDecoder.decode d seen).1.decode p).2
          (∀ r ∈ out, ∃ n < packets.length, n / ds.toNat = g ∧ r = shard n ∧
            (r.take (ofLe16 (r.getD 0 0) (r.getD 1 0)).toNat).drop 2 =
              (packets.getD n []).drop (ho + 8)) ∧
          (before.card < ds.toNat → after.card = ds.toNat →
            out = ((List.range ds.toNat).filter (· ∉ after)).map fun i =>
              shard (g * ds.toNat + i)) := by
  have hcodec := FecEncoder.codec_of_new hnew
  obtain ⟨ds, ps, rfl, rfl, hds, hps, hle⟩ := FecEncoder.new_bounds hnew
  rw [Int.toNat_natCast, Int.toNat_natCast] at *
  obtain ⟨m, hok, -, hlen, hemits⟩ := FecEncoder.run_of_new hds hps hle hnew calls
  have hadmits {b : Bytes} (hb : b ∈ accepted ho calls) : FecEncoder.Admits ho b := admits_of_mem hb
  have hsender := @sender_slotPacket ds ps (ho + 6) m _ hds hle hused fun b hb => (hadmits hb).1
  obtain ⟨d, m', hdec, hsync, hcodec', hcodecd, hset, hnewest, hcache, hflags, -⟩ :=
    FecDecoder.new_spec hds hps hle
  obtain rfl : m = m' := by
    have hsame : e.codec = d.codec := Except.ok.inj (hcodec.symm.trans hcodecd)
    rw [← hsame] at hcodec'
    exact Option.some.inj (hok.codec_ok.matrix.symm.trans hcodec'.matrix)
  refine ⟨d, hdec, ?_⟩
  rintro pkts hpkts htimely seen p rest rfl
  rw [List.forall_mem_append, List.forall_mem_cons] at hpkts
  have hsent {q : Bytes} (hq : q ∈ wire ho (run FecEncoder.step e calls).2) :=
    sent_of_mem_wire hds hle hused hemits hlen hq
  have htracks := (tracks_new hds hps hle hsync hcodec' hset hnewest hcache hflags).run hsender
    (fun q hq => hsent (hpkts.1 q hq)) (List.pairwise_append.mp htimely).1
  obtain ⟨-, hshards, hfirst⟩ := htracks.decode hsender (hsent hpkts.2.1) fun q hq =>
    (List.pairwise_append.mp htimely).2.2 q hq p List.mem_cons_self
  intro packets g shard before after out
  have hshard {i : ℕ} (hfull : (groupOf ds packets g).length = ds) (hi : i < ds) :
      (groupData (ho + 6) (groupOf ds packets g)).getD i [] = shard (g * ds + i) :=
    getD_groupData hfull hi
  constructor
  · intro r hr
    obtain ⟨i, hi, hrow, hcode⟩ := hshards r hr
    have hfull : (groupOf ds packets g).length = ds := by
      have := hcode.data_length
      rwa [groupData, List.length_map] at this
    have hn : g * ds + i < packets.length := by
      rw [groupOf, List.length_take, List.length_drop] at hfull
      omega
    have hb : packets.getD (g * ds + i) [] ∈ accepted ho calls := by
      rw [List.getD_eq_getElem _ _ hn]
      exact List.getElem_mem _
    rw [hshard hfull hi] at hrow
    refine ⟨g * ds + i, hn, ?_, hrow, ?_⟩
    · rw [Nat.mul_comm, Nat.mul_add_div hds, Nat.div_eq_of_lt hi, Nat.add_zero]
    · rw [hrow]
      exact payload_padTo _ (hadmits hb).1 (hadmits hb).2
  · intro hbefore hafter
    have hemitted : ∀ i ∈ after.toList, Emitted ds ps packets g i := by
      intro i hi
      obtain ⟨q, hq, hqg, rfl⟩ := mem_slots.mp (Finset.mem_toList.mp hi)
      have hwire : q ∈ wire ho (run FecEncoder.step e calls).2 := by
        rcases List.mem_append.mp hq with hq | hq
        · exact hpkts.1 q hq
        · rw [List.mem_singleton.mp hq]
          exact hpkts.2.1
      have := (hsent hwire).1
      rwa [hqg] at this
    have hfull := length_groupOf (complete_of_emitted hds after.nodup_toList
      (after.length_toList.trans hafter) hemitted)
    refine (hfirst hbefore hafter).trans (List.map_congr_left ?_)
    intro i hi
    exact hshard hfull (List.mem_range.mp (List.mem_of_mem_filter hi))

/-- Two packets, each a group of its own; the second one is followed by its parity packet. -/
def twoCalls : List Call :=
  [.encode [0, 0, 0, 0, 0, 0, 0, 0, 7] 500 0, .encode [0, 0, 0, 0, 0, 0, 0, 0, 9] 500 0]

/-- Only the parity packet arrives. -/
theorem fec_end_to_end_parity_only : ∃ (e : FecEncoder) (d : FecDecoder) (p : Bytes),
    FecEncoder.new 1 1 0 = .ok (some e) ∧ FecDecoder.new 1 1 = some d ∧
      p ∈ wire 0 (run FecEncoder.step e twoCalls).2 ∧ (d.decode p).2 = [[3, 0, 9]] := by
  obtain ⟨e, p, hnew, hwire, hid⟩ : ∃ (e : FecEncoder) (p : Bytes),
      FecEncoder.new 1 1 0 = .ok (some e) ∧ p ∈ wire 0 (run FecEncoder.step e twoCalls).2 ∧
        fecSeqid p = 3 :=
    ⟨_, [3, 0, 0, 0, 0xf2, 0, 3, 0, 9], rfl, by decide +kernel, by decide⟩
  obtain ⟨d, hdec, hpkts⟩ := fec_end_to_end 1 1 0 e hnew twoCalls (by decide)
  have hone := (hpkts [p] (List.forall_mem_singleton.mpr hwire) (List.pairwise_singleton ..)
    [] p [] rfl).2
  have hgroup : shardIdOf 2 p = 1 := by
    rw [shardIdOf, hid]
    rfl
  have hafter : slots 2 1 ([] ++ [p]) = {1} := by
    rw [slots_append, if_pos hgroup, slotOf, hid]
    rfl
  refine ⟨e, d, p, hnew, hdec, hwire, ?_⟩
  have htwo : (1 : Int).toNat + (1 : Int).toNat = 2 := rfl
  rw [htwo, hgroup, hafter] at hone
  exact (hone (by decide) (by decide)).trans (by decide)

end Kcptun.Fec
