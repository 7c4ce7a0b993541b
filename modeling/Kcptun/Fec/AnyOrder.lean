/- Kcptun/Fec/AnyOrder
   source: crates/kcp/src/fec.rs (FecDecoder::decode, discard_shards, FecEncoder::encode_oob)
   digest: However late, often or mixed up the packets of an encoder arrive: every heap of the decoder
     holds packets of its own group, and what it returns are payloads the encoder took before. -/

import Kcptun.Fec.EndToEnd

set_option autoImplicit false
set_option relaxedAutoImplicit false

namespace Kcptun.Fec

open Kcptun.Lib Kcptun.Lib.LittleEndian FecDecoder

/-- Every heap of the decoder holds packets of its own group, too few to recover anything. -/
structure InGroups (ds ps : ℕ) (m : Rs.Matrix) (present : ℕ → ℕ → Prop) (pk : ℕ → ℕ → Bytes)
    (d : FecDecoder) : Prop where
  ready : d.Ready ds ps m
  heaps : ∀ k : UInt32, ∃ idxs, HeapOf ds present pk k.toNat (d.shardOf k) idxs

section Sender

variable {ds ps g : ℕ} {m : Rs.Matrix} {present present' : ℕ → ℕ → Prop} {pk pk' : ℕ → ℕ → Bytes}
  {data : ℕ → List Bytes} {len : ℕ → ℕ} {p : Bytes} {d : FecDecoder}

private theorem HeapOf.grow {h : ShardHeap} {idxs : List ℕ}
    (hgrow : ∀ i, present g i → present' g i ∧ pk' g i = pk g i)
    (h' : HeapOf ds present pk g h idxs) : HeapOf ds present' pk' g h idxs := by
  have hsame : ∀ i ∈ idxs, pk' g i = pk g i := fun i hi => (hgrow i (h'.present i hi)).2
  refine ⟨?_, h'.nodup, fun i hi => (hgrow i (h'.present i hi)).1, ?_, h'.few⟩
  · rw [h'.elements]
    exact List.map_congr_left fun i hi => (hsame i hi).symm
  · intro s
    rw [h'.marks]
    constructor
    · rintro ⟨i, hi, hs⟩
      exact ⟨i, hi, by rw [hsame i hi]; exact hs⟩
    · rintro ⟨i, hi, hs⟩
      exact ⟨i, hi, by rw [← hsame i hi]; exact hs⟩

theorem InGroups.grow (hgrow : ∀ g i, present g i → present' g i ∧ pk' g i = pk g i)
    (h : InGroups ds ps m present pk d) : InGroups ds ps m present' pk' d := by
  refine ⟨h.ready, ?_⟩
  intro k
  obtain ⟨idxs, hheap⟩ := h.heaps k
  exact ⟨idxs, hheap.grow (hgrow _)⟩

private theorem InGroups.sampled (h : InGroups ds ps m present pk d) (p : Bytes) :
    InGroups ds ps m present pk (d.sampled p) := by
  obtain ⟨⟨⟨h1, h2, h3, h4, h5⟩, h6, h7, h8, h9, h10⟩, h11⟩ := h
  exact ⟨⟨⟨h1, h2, h3, h4, h5⟩, h6, h7, h8, h9, h10⟩, h11⟩

/-- A packet of the sender: its heap grows or is decoded, and sets that are too far from the newest
group start anew. -/
theorem InGroups.collect (h : InGroups ds ps m present pk d)
    (hsender : Sender ds ps m present pk data len) (hsent : Sent (ds + ps) present pk p) :
    InGroups ds ps m present pk (d.collect p).1 ∧
      ∀ r ∈ (d.collect p).2, ∃ g, ∃ i < ds, r = (data g).getD i [] ∧
        GroupCode ds ps m g (data g) (len g) (pk g) := by
  have hds := h.ready.codec_ok.pos
  have hid := toNat_getShardId h.ready.toInSync h.ready.size_le p
  obtain ⟨idxs, hheap⟩ := h.heaps (d.getShardId (fecSeqid p))
  rw [hid] at hheap
  cases hdup : (d.shardOf (d.getShardId (fecSeqid p))).has (fecSeqid p) with
  | true =>
    refine ⟨⟨h.ready.collect p, ?_⟩, ?_⟩
    · intro k
      rw [shardOf_collect_of_has rfl hdup]
      exact h.heaps k
    · rw [collect_of_has hdup]
      simp
  | false =>
    have hpos : 0 < d.dataShards := by
      rw [h.ready.data]
      exact hds
    have hnew : slotOf (ds + ps) p ∉ idxs := by
      intro hmem
      rw [(hheap.has_iff hsender rfl).mpr hmem] at hdup
      cases hdup
    have hjoin := join_spec h.ready hsender hsent rfl hheap hnew
    have hout : (d.collect p).2 = (d.join p).2.2 := by rw [collect_of_not_has hdup]
    refine ⟨⟨h.ready.collect p, ?_⟩, ?_⟩
    · intro k
      rw [shardOf_collect rfl hpos hdup]
      split_ifs with hkeep hself
      · rw [hself, hid]
        rcases hjoin with ⟨hgrown, -⟩ | ⟨hempty, -⟩
        · exact ⟨_, hgrown⟩
        · exact ⟨_, hempty⟩
      · exact h.heaps k
      · exact ⟨[], .empty hds⟩
    · rw [hout]
      rcases hjoin with ⟨-, hnone⟩ | ⟨-, -, hcode, hmissing⟩
      · rw [hnone]
        simp
      · rw [hmissing]
        intro r hr
        obtain ⟨i, hi, rfl⟩ := List.mem_map.mp hr
        exact ⟨_, i, List.mem_range.mp (List.mem_of_mem_filter hi), rfl, hcode⟩

private theorem InGroups.decode (h : InGroups ds ps m present pk d)
    (hsender : Sender ds ps m present pk data len) (hsent : Sent (ds + ps) present pk p) :
    InGroups ds ps m present pk (d.decode p).1 ∧
      ∀ r ∈ (d.decode p).2, ∃ g, ∃ i < ds, r = (data g).getD i [] ∧
        GroupCode ds ps m g (data g) (len g) (pk g) := by
  have hlabelled : Labelled ds ps p := by
    rw [hsent.2]
    exact hsender.labelled _ _ hsent.1
  rw [h.ready.toInSync.decode_eq h.ready.size_le hlabelled]
  split_ifs
  · exact (h.sampled p).collect hsender hsent
  · exact ⟨h.sampled p, by simp⟩

theorem inGroups_new (hds : 1 ≤ ds) (hps : 1 ≤ ps) (hle : ds + ps ≤ 256) : ∃ d m,
    FecDecoder.new ds ps = some d ∧ d.codec.Ok ds ps m ∧ Rs.Codec.new ds ps = .ok d.codec ∧
      ∀ present pk, InGroups ds ps m present pk d := by
  obtain ⟨d, m, hnew, hsync, hcodec, hcodecd, hset, -, hcache, hflags, -⟩ :=
    FecDecoder.new_spec hds hps hle
  refine ⟨d, m, hnew, hcodec, hcodecd, fun present pk => ⟨⟨hsync, hcodec, ?_, ?_, hps, hle⟩, ?_⟩⟩
  · rw [hcache, newDecodeCache, List.length_replicate]
  · rw [hflags, List.length_replicate]
  · intro k
    have hempty : d.shardOf k = {} := by
      rw [shardOf, hset]
      rfl
    rw [hempty]
    exact ⟨[], .empty hds⟩

end Sender

section Encoder

variable {ds ps po ho g i : ℕ} {m : Rs.Matrix} {packets : List Bytes}

theorem emitted_append (later : List Bytes) (h : Emitted ds ps packets g i) :
    Emitted ds ps (packets ++ later) g i ∧
      slotPacket ds ps po m (packets ++ later) g i = slotPacket ds ps po m packets g i := by
  have hlen : packets.length ≤ (packets ++ later).length := by
    rw [List.length_append]
    exact Nat.le_add_right _ _
  unfold slotPacket
  rcases h with ⟨hi, hn⟩ | ⟨hlo, hhi, hn⟩
  · refine ⟨.inl ⟨hi, lt_of_lt_of_le hn hlen⟩, ?_⟩
    rw [if_pos hi, if_pos hi, List.getD_append _ _ _ _ hn]
  · refine ⟨.inr ⟨hlo, hhi, hn.trans hlen⟩, ?_⟩
    have hgroup : groupOf ds (packets ++ later) g = groupOf ds packets g := by
      rw [Nat.add_mul] at hn
      unfold groupOf
      rw [List.drop_append_of_le_length (by omega), List.take_append_of_le_length]
      rw [List.length_drop]
      omega
    rw [if_neg (by omega), if_neg (by omega), hgroup]

private theorem payload_of_shard (hadmits : ∀ b ∈ packets, FecEncoder.Admits ho b) {r : Bytes}
    (hi : i < ds) (hrow : r = (groupData (ho + 6) (groupOf ds packets g)).getD i [])
    (hcode : GroupCode ds ps m g (groupData (ho + 6) (groupOf ds packets g))
      (shardSizeOf (ho + 6) (groupOf ds packets g)) (slotPacket ds ps (ho + 6) m packets g)) :
    ∃ b ∈ packets, (r.take (ofLe16 (r.getD 0 0) (r.getD 1 0)).toNat).drop 2 = b.drop (ho + 8) := by
  have hfull : (groupOf ds packets g).length = ds := by
    have := hcode.data_length
    rwa [groupData, List.length_map] at this
  have hn : g * ds + i < packets.length := by
    rw [groupOf, List.length_take, List.length_drop] at hfull
    omega
  have hb : packets.getD (g * ds + i) [] ∈ packets := by
    rw [List.getD_eq_getElem _ _ hn]
    exact List.getElem_mem _
  obtain ⟨hmin, hmax⟩ := hadmits _ hb
  refine ⟨_, hb, ?_⟩
  rw [hrow, getD_groupData hfull hi]
  exact payload_padTo _ hmin hmax

/-- A packet on the wire of an encoder that took `packets`, at a decoder that has seen others of it:
the payload of every returned shard is the one of a packet the encoder took. -/
theorem InGroups.payloads {d : FecDecoder} {p : Bytes} (hds : 0 < ds) (hle : ds + ps ≤ 256)
    (hused : numbersUsed ds ps packets.length < 2147483648)
    (hadmits : ∀ b ∈ packets, FecEncoder.Admits ho b)
    (h : InGroups ds ps m (Emitted ds ps packets) (slotPacket ds ps (ho + 6) m packets) d)
    (hsent : Sent (ds + ps) (Emitted ds ps packets) (slotPacket ds ps (ho + 6) m packets) p) :
    InGroups ds ps m (Emitted ds ps packets) (slotPacket ds ps (ho + 6) m packets) (d.decode p).1 ∧
      ∀ r ∈ (d.decode p).2, ∃ b ∈ packets,
        (r.take (ofLe16 (r.getD 0 0) (r.getD 1 0)).toNat).drop 2 = b.drop (ho + 8) := by
  have hsender := @sender_slotPacket ds ps (ho + 6) m packets hds hle hused fun b hb =>
    (hadmits b hb).1
  obtain ⟨hgrouped, hshards⟩ := h.decode hsender hsent
  refine ⟨hgrouped, ?_⟩
  intro r hr
  obtain ⟨g, i, hi, hrow, hcode⟩ := hshards r hr
  exact payload_of_shard hadmits hi hrow hcode

end Encoder

theorem FecEncoder.Holds.encodeOob {e : FecEncoder} {ds ps ho : ℕ} {m : Rs.Matrix}
    {group : List Bytes} {b : Bytes} (h : e.Holds ds ps ho m group) (hb : FecEncoder.Admits ho b) :
    ∃ out, e.encodeOob b = .ok out ∧
      out.drop ho = fecHeader OOB_SEQID TYPE_OOB ++ dataShard (ho + 6) b := by
  have hpo := h.payload_eq hb
  have hle := hb.1
  have hfront : (b.take ho).length = ho := by
    rw [List.length_take]
    omega
  have hlen : (b.take ho ++ fecHeader OOB_SEQID TYPE_OOB).length = ho + 6 := by
    rw [List.length_append, hfront, length_fecHeader]
  have hin : overwrite b ho (fecHeader OOB_SEQID TYPE_OOB) =
      (b.take ho ++ fecHeader OOB_SEQID TYPE_OOB) ++ b.drop (ho + 6) := by
    rw [overwrite, length_fecHeader]
  have hall : (overwrite b ho (fecHeader OOB_SEQID TYPE_OOB)).length = b.length := by
    rw [hin, List.length_append, hlen, List.length_drop]
    omega
  unfold FecEncoder.encodeOob
  rw [if_neg (by rw [hpo]; unfold saturatingAdd; omega)]
  refine ⟨_, rfl, ?_⟩
  rw [h.header, hpo, hall, hin]
  -- the size goes right behind the header
  rw [overwrite, ← hlen, List.take_left, length_le16, List.append_assoc _ (le16 _), List.append_assoc,
    List.drop_append_of_le_length hfront.ge, List.drop_eq_nil_of_le hfront.le, List.nil_append, hlen,
    dataShard, List.drop_append, hlen]
  have hgap : ho + 6 + 2 - (ho + 6) = 2 := by omega
  rw [hgap, List.drop_eq_nil_of_le (by omega), List.nil_append, List.drop_drop]

end Kcptun.Fec
