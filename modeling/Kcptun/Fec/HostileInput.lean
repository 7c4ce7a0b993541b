/- Kcptun/Fec/HostileInput
   source: crates/kcp/src/fec.rs (FecDecoder::decode, discard_shards), rs/codec.rs (reconstruct_data)
   digest: A decoder fed with arbitrary byte strings: no access fails, its caches, sets and paws fit
     its parameters, and what it returns is as long as the longest shard of the group. -/

import Kcptun.Fec.DecoderInRange

set_option autoImplicit false
set_option relaxedAutoImplicit false

namespace Kcptun.Fec

open Kcptun.Lib Kcptun.Lib.LittleEndian

/-- The packets of a shard set: of the group `id`, with distinct seqids, all of them marked. -/
structure Grouped (ss : ℕ) (id : UInt32) (h : ShardHeap) : Prop where
  header : ∀ p ∈ h.elements, FEC_HEADER_SIZE ≤ p.length
  group : ∀ p ∈ h.elements, fecSeqid p / UInt32.ofNat ss = id
  distinct : (h.elements.map fecSeqid).Nodup
  marked : ∀ p ∈ h.elements, fecSeqid p ∈ h.marks

private theorem grouped_empty (ss : ℕ) (id : UInt32) {h : ShardHeap} (hempty : h.elements = []) :
    Grouped ss id h := by
  constructor <;> rw [hempty]
  · intro p hp
    exact absurd hp List.not_mem_nil
  · intro p hp
    exact absurd hp List.not_mem_nil
  · exact List.nodup_nil
  · intro p hp
    exact absurd hp List.not_mem_nil

private theorem Grouped.push {ss : ℕ} {id : UInt32} {h : ShardHeap} (hg : Grouped ss id h)
    {pkt : Bytes} (hlen : FEC_HEADER_SIZE ≤ pkt.length) (hid : fecSeqid pkt / UInt32.ofNat ss = id)
    (hnew : h.has (fecSeqid pkt) = false) : Grouped ss id (h.push pkt) := by
  constructor
  · exact List.forall_mem_cons.mpr ⟨hlen, hg.header⟩
  · exact List.forall_mem_cons.mpr ⟨hid, hg.group⟩
  · refine List.nodup_cons.mpr ⟨?_, hg.distinct⟩
    intro hmem
    obtain ⟨p, hp, hseq⟩ := List.mem_map.mp hmem
    have hmark := hg.marked p hp
    rw [hseq] at hmark
    rw [ShardHeap.has, List.contains_eq_mem, decide_eq_false_iff_not] at hnew
    exact hnew hmark
  · refine List.forall_mem_cons.mpr ⟨List.mem_insert_self, ?_⟩
    intro p hp
    exact List.mem_insert_of_mem (hg.marked p hp)

namespace FecDecoder

/-- What every decoder keeps, whatever it is fed with: its settings, caches and codec fit together
whether or not it is about to tune, the ring is in order and so is every shard set. -/
structure Safe (d : FecDecoder) (ds ps : ℕ) (m : Rs.Matrix) : Prop where
  ready : ({ d with shouldTune := false } : FecDecoder).Ready ds ps m
  tuner : d.autoTune.Ok
  sets : ∀ e ∈ d.shardSet, Grouped (ds + ps) e.1 e.2

section Step

variable {d : FecDecoder} {ds ps : ℕ} {m : Rs.Matrix} {pkt : Bytes}

private theorem Ready.ready (h : d.Ready ds ps m) :
    ({ d with shouldTune := false } : FecDecoder).Ready ds ps m :=
  ⟨⟨h.data, h.parity, h.size, h.paws_eq, rfl⟩, h.codec_ok, h.cache, h.flags, h.parity_pos, h.size_le⟩

theorem Safe.synced (h : d.Safe ds ps m) (hsync : d.shouldTune = false) : d.Ready ds ps m :=
  ⟨⟨h.ready.data, h.ready.parity, h.ready.size, h.ready.paws_eq, hsync⟩, h.ready.codec_ok,
    h.ready.cache, h.ready.flags, h.ready.parity_pos, h.ready.size_le⟩

theorem Safe.sampled (h : d.Safe ds ps m) (pkt : Bytes) : (d.sampled pkt).Safe ds ps m := by
  obtain ⟨⟨⟨h1, h2, h3, h4, h5⟩, h6, h7, h8, h9, h10⟩, h11, h12⟩ := h
  exact ⟨⟨⟨h1, h2, h3, h4, h5⟩, h6, h7, h8, h9, h10⟩, h11.sample _ _, h12⟩

theorem Safe.withShouldTune (h : d.Safe ds ps m) (b : Bool) :
    ({ d with shouldTune := b } : FecDecoder).Safe ds ps m := ⟨h.ready, h.tuner, h.sets⟩

private theorem Safe.shardOf (h : d.Safe ds ps m) (id : UInt32) :
    Grouped (ds + ps) id (d.shardOf id) := by
  unfold FecDecoder.shardOf
  cases hlookup : d.shardSet.lookup id with
  | none => exact grouped_empty _ _ rfl
  | some heap =>
    obtain ⟨front, back, hsplit, -⟩ := List.lookup_eq_some_iff.mp hlookup
    exact h.sets (id, heap) (by rw [hsplit]; simp)

private theorem safe_adopt {a b : ℕ} (ha : 0 < a) (hb : 0 < b) (hsum : a + b ≤ 256)
    (h : d.autoTune.Ok) : ∃ m, (d.adopt a b).Safe a b m := by
  obtain ⟨codec, m, hnew, hok⟩ := Rs.Codec.new_spec ha hb hsum
  unfold adopt
  rw [hnew]
  refine ⟨m, ⟨⟨⟨rfl, rfl, rfl, rfl, rfl⟩, hok, ?_, ?_, hb, hsum⟩, h, ?_⟩⟩
  · exact List.length_replicate
  · exact List.length_replicate
  · intro e he
    exact absurd he List.not_mem_nil

private theorem Safe.tune (h : d.Safe ds ps m) : ∃ ds' ps' m', d.tune.Safe ds' ps' m' := by
  rcases tune_cases d with ⟨b, htune⟩ | ⟨a, b, ha, hb, hsum, -, -, -, htune⟩
  · rw [htune]
    exact ⟨ds, ps, m, h.withShouldTune b⟩
  · rw [htune]
    exact ⟨a, b, safe_adopt ha hb hsum.le h.tuner⟩

private theorem Safe.collect (h : d.Safe ds ps m) (hsync : d.shouldTune = false)
    (hlen : FEC_HEADER_SIZE ≤ pkt.length) : (d.collect pkt).1.Safe ds ps m := by
  have hready := (h.synced hsync).collect pkt
  have hset := settings_collect d pkt
  simp only [settings, Prod.mk.injEq] at hset
  refine ⟨hready.ready, hset.2.2.2.2.1 ▸ h.tuner, ?_⟩
  have hpos : 0 < d.dataShards := h.ready.data ▸ h.ready.codec_ok.pos
  have hsize : d.shardSize = ds + ps := h.ready.size
  cases hdup : (d.shardOf (d.getShardId (fecSeqid pkt))).has (fecSeqid pkt) with
  | true =>
    rw [collect_of_has hdup]
    exact List.forall_mem_cons.mpr ⟨h.shardOf _, fun e he => h.sets e (List.mem_of_mem_filter he)⟩
  | false =>
    obtain ⟨-, hsets⟩ := sets_collect rfl hpos hdup
    rw [hsets]
    intro e he
    rcases List.mem_cons.mp (List.mem_of_mem_filter he) with rfl | he
    · unfold FecDecoder.join
      dsimp only
      split_ifs
      · exact grouped_empty _ _ (sets_recover d _).2.2
      · exact (h.shardOf _).push hlen (by rw [← hsize]; rfl) hdup
    · exact h.sets e (List.mem_of_mem_filter he)

private theorem Safe.decode (h : d.Safe ds ps m) (pkt : Bytes) :
    ∃ ds' ps' m', (d.decode pkt).1.Safe ds' ps' m' := by
  rcases Nat.lt_or_ge pkt.length FEC_HEADER_SIZE with hshort | hlen
  · rw [decode_short hshort]
    exact ⟨ds, ps, m, h⟩
  rcases decode_cases d pkt with hdec | hdec | hdec | ⟨-, hsync, -, hdec⟩
  · rw [hdec]
    exact ⟨ds, ps, m, h⟩
  · rw [hdec]
    exact ⟨ds, ps, m, h.sampled pkt⟩
  · rw [hdec]
    exact ((h.sampled pkt).withShouldTune true).tune
  · rw [hdec]
    exact ⟨ds, ps, m, (h.sampled pkt).collect hsync hlen⟩

private theorem Safe.decodeChecked_eq (h : d.Safe ds ps m) (pkt : Bytes) :
    d.decodeChecked pkt = some (d.decode pkt) := by
  unfold decodeChecked FecDecoder.decode
  by_cases hshort : pkt.length < FEC_HEADER_SIZE
  · rw [if_pos hshort, if_pos hshort]
  rw [if_neg hshort, if_neg hshort]
  have hlen := Nat.le_of_not_lt hshort
  rw [fecSeqidChecked_eq hlen, Option.bind_some, fecFlagChecked_eq hlen, Option.bind_some,
    h.tuner.sampleChecked_eq, Option.bind_some]
  dsimp only
  by_cases hseq : fecSeqid pkt ≥ d.paws
  · rw [if_pos hseq, if_pos hseq]
  have hsize : UInt32.ofNat d.shardSize ≠ 0 :=
    ofNat_size_ne_zero h.ready.size_pos.1 h.ready.size_pos.2
  rw [if_neg hseq, if_neg hseq, mismatchChecked, if_pos hsize, Option.bind_some]
  change (if (d.shouldTune || d.mismatch (fecSeqid pkt) (fecFlag pkt)) = true then _ else _) =
    some (if (d.shouldTune || d.mismatch (fecSeqid pkt) (fecFlag pkt)) = true then _ else _)
  have hsafe := (h.sampled pkt).withShouldTune
    (d.shouldTune || d.mismatch (fecSeqid pkt) (fecFlag pkt))
  by_cases htune : (d.shouldTune || d.mismatch (fecSeqid pkt) (fecFlag pkt)) = true
  · rw [if_pos htune, if_pos htune]
    exact congrArg (Option.map _) (tuneChecked_eq hsafe.tuner)
  · rw [if_neg htune, if_neg htune]
    have hready := hsafe.synced (Bool.eq_false_iff.mpr htune)
    exact hready.collectChecked_eq hlen (hsafe.shardOf _).header

end Step

end FecDecoder

/-- A slot holds a packet behind its header if it is flagged, and nothing otherwise. -/
def Slotted (q : DecodeShard × Bool) : Prop := if q.2 then q.1.start = FEC_HEADER_SIZE else q.1 = {}

private theorem slotted_set {cache : List DecodeShard} {flags : List Bool}
    (h : ∀ q ∈ cache.zip flags, Slotted q) (i : ℕ) (pkt : Bytes) :
    ∀ q ∈ (cache.set i { buf := pkt, start := FEC_HEADER_SIZE }).zip (flags.set i true), Slotted q := by
  induction cache generalizing flags i with
  | nil => exact fun q hq => absurd hq List.not_mem_nil
  | cons s cache ih =>
    cases flags with
    | nil =>
      intro q hq
      rw [List.set_nil, List.zip_nil_right] at hq
      exact absurd hq List.not_mem_nil
    | cons f flags =>
      rw [List.zip_cons_cons, List.forall_mem_cons] at h
      cases i with
      | zero => exact List.forall_mem_cons.mpr ⟨rfl, h.2⟩
      | succ i => exact List.forall_mem_cons.mpr ⟨h.1, ih h.2 i⟩

private theorem slotted_foldl_put (shardSize : UInt32) (pkts : List Bytes) {f : Filling}
    (h : ∀ q ∈ f.cache.zip f.flags, Slotted q) :
    let r := pkts.foldl (Filling.put shardSize) f
    (∀ q ∈ r.cache.zip r.flags, Slotted q) ∧
      r.maxlen = (pkts.map fun p => p.length - FEC_HEADER_SIZE).foldl max f.maxlen := by
  induction pkts generalizing f with
  | nil => exact ⟨h, rfl⟩
  | cons pkt pkts ih =>
    have hmax : (f.put shardSize pkt).maxlen = max f.maxlen (pkt.length - FEC_HEADER_SIZE) := by
      change (if pkt.length - FEC_HEADER_SIZE > f.maxlen then _ else _) = _
      split_ifs <;> omega
    obtain ⟨hslots, hlen⟩ := @ih (f.put shardSize pkt)
      (slotted_set h (fecSeqid pkt % shardSize).toNat pkt)
    refine ⟨hslots, hlen.trans ?_⟩
    rw [hmax]
    rfl

private theorem length_resize (b : Bytes) (n : ℕ) : (resize b n).length = n := by
  unfold resize
  rw [List.length_append, List.length_take, List.length_replicate]
  omega

namespace FecDecoder

variable {d : FecDecoder} {ds ps : ℕ} {m : Rs.Matrix}

private theorem length_equalized (h : ∀ q ∈ d.decodeCache.zip d.flagCache, Slotted q) (maxlen : ℕ) :
    ∀ s ∈ (d.equalized maxlen).map DecodeShard.shard, s ≠ [] → s.length = maxlen := by
  intro s hs hne
  obtain ⟨slot, hslot, rfl⟩ := List.mem_map.mp hs
  obtain ⟨k, hk, rfl⟩ := List.mem_mapIdx.mp hslot
  have hmem := h _ (List.getElem_mem hk)
  set q := (d.decodeCache.zip d.flagCache)[k]
  obtain ⟨slot, present⟩ := q
  cases present with
  | true =>
    change slot.start = FEC_HEADER_SIZE at hmem
    change ((resize slot.buf (slot.start + maxlen)).drop slot.start).length = maxlen
    rw [List.length_drop, length_resize, Nat.add_sub_cancel_left]
  | false =>
    obtain rfl : slot = {} := hmem
    refine absurd ?_ hne
    change (if k < d.dataShards then ({} : DecodeShard) else {}).shard = []
    rw [ite_self]
    rfl

private theorem Ready.length_reconstruct (h : d.Ready ds ps m)
    (hslots : ∀ q ∈ d.decodeCache.zip d.flagCache, Slotted q) (maxlen : ℕ) :
    ∀ b ∈ (d.reconstruct maxlen).2, b.length = maxlen := by
  have hlen : (d.equalized maxlen).length = ds + ps := by
    rw [equalized, List.length_mapIdx, List.length_zip, h.cache, h.flags, Nat.min_self]
  intro b hb
  unfold FecDecoder.reconstruct at hb
  dsimp only at hb
  split at hb
  next => cases hb
  next out hout =>
    change b ∈ missingShards d.dataShards
      (List.zipWith DecodeShard.withShard (d.equalized maxlen) out) d.flagCache at hb
    obtain ⟨q, hq, hsome⟩ := List.mem_filterMap.mp hb
    obtain ⟨k, hk, rfl⟩ := List.mem_iff_getElem.mp hq
    have houtlen := length_reconstructData hout
    rw [List.length_map] at houtlen
    have hkds : k < ds := by
      rw [List.length_take, h.data] at hk
      omega
    have hkslot : k < (d.equalized maxlen).length := by omega
    have hkout : k < out.length := houtlen.symm ▸ hkslot
    have hkzip : k < (d.decodeCache.zip d.flagCache).length := by
      rw [List.length_zip, h.cache, h.flags, Nat.min_self]
      omega
    rw [List.getElem_take, List.getElem_zip, List.getElem_zipWith] at hsome
    dsimp only at hsome
    split_ifs at hsome with hflag
    -- the slot is empty, so its buffer is the restored shard
    have hslot : (d.equalized maxlen)[k] = {} := by
      simp only [equalized, List.getElem_mapIdx, List.getElem_zip, equalize, hflag]
      rw [if_neg Bool.false_ne_true, if_pos (by rwa [h.data])]
    have hmissing : ((d.equalized maxlen).map DecodeShard.shard).getD k [] = [] := by
      rw [List.getD_eq_getElem _ _ (by rwa [List.length_map]), List.getElem_map, hslot]
      rfl
    rw [hslot] at hsome
    obtain rfl := Option.some.inj hsome
    have hrestored := Rs.Codec.reconstructData_length h.codec_ok hout (length_equalized hslots maxlen)
      hkds hmissing
    rwa [List.getD_eq_getElem _ _ hkout] at hrestored

private theorem Ready.length_collect (h : d.Ready ds ps m) (pkt : Bytes) :
    ∀ b ∈ (d.collect pkt).2, b.length = longest
      ((pkt :: (d.shardOf (d.getShardId (fecSeqid pkt))).elements).map (·.drop FEC_HEADER_SIZE)) := by
  set heap := (d.shardOf (d.getShardId (fecSeqid pkt))).push pkt with hheap
  change ∀ b ∈ (d.collect pkt).2, b.length = longest (heap.elements.map (·.drop FEC_HEADER_SIZE))
  cases hdup : (d.shardOf (d.getShardId (fecSeqid pkt))).has (fecSeqid pkt) with
  | true =>
    rw [collect_of_has hdup]
    intro b hb
    exact absurd hb List.not_mem_nil
  | false =>
    have hempty : ∀ q ∈ (d.decodeCache.map fun _ => ({} : DecodeShard)).zip
        (d.flagCache.map fun _ => false), Slotted q := by
      intro q hq
      obtain ⟨⟨s, -, hs⟩, ⟨f, -, hf⟩⟩ :=
        And.intro (List.mem_map.mp (List.of_mem_zip hq).1) (List.mem_map.mp (List.of_mem_zip hq).2)
      unfold Slotted
      rw [← hf, ← hs]
      rfl
    obtain ⟨hslots, hmax⟩ := slotted_foldl_put (UInt32.ofNat d.shardSize) heap.elements
      (f := { cache := d.decodeCache.map fun _ => {}, flags := d.flagCache.map fun _ => false }) hempty
    have hlongest : (d.filled heap).maxlen =
        longest (heap.elements.map (·.drop FEC_HEADER_SIZE)) := by
      apply hmax.trans
      rw [longest, List.map_map]
      congr 2
      funext p
      exact List.length_drop.symm
    rw [collect_of_not_has hdup]
    change ∀ b ∈ (d.join pkt).2.2, _
    unfold FecDecoder.join
    dsimp only
    rw [← hheap]
    split_ifs
    · rw [recover_eq]
      split_ifs
      · intro b hb
        exact absurd hb List.not_mem_nil
      · rw [← hlongest]
        exact (h.withFilled heap).length_reconstruct hslots _
    · intro b hb
      exact absurd hb List.not_mem_nil

private theorem Safe.length_decode (h : d.Safe ds ps m) (pkt : Bytes) :
    ∀ b ∈ (d.decode pkt).2, b.length = longest
      ((pkt :: (d.shardOf (d.getShardId (fecSeqid pkt))).elements).map (·.drop FEC_HEADER_SIZE)) := by
  rcases decode_cases d pkt with hdec | hdec | hdec | ⟨-, hsync, -, hdec⟩
  · rw [hdec]
    intro b hb
    exact absurd hb List.not_mem_nil
  · rw [hdec]
    intro b hb
    exact absurd hb List.not_mem_nil
  · rw [hdec]
    intro b hb
    exact absurd hb List.not_mem_nil
  · rw [hdec]
    exact ((h.sampled pkt).synced hsync).length_collect pkt

theorem safe_new {ds ps : Int} (hnew : FecDecoder.new ds ps = some d) :
    ∃ ds' ps' m, d.Safe ds' ps' m := by
  unfold FecDecoder.new at hnew
  split_ifs at hnew with hpos hmax
  obtain ⟨codec, m, hcodec, hok⟩ :=
    @Rs.Codec.new_spec ds.toNat ps.toNat (by omega) (by omega) (by omega)
  rw [hcodec] at hnew
  obtain rfl := Option.some.inj hnew
  refine ⟨ds.toNat, ps.toNat, m, ⟨⟨rfl, rfl, rfl, rfl, rfl⟩, hok, ?_, ?_, ?_, ?_⟩, AutoTune.ok_new, ?_⟩
  · exact List.length_replicate
  · exact List.length_replicate
  · omega
  · omega
  · intro e he
    exact absurd he List.not_mem_nil

theorem Safe.run (h : d.Safe ds ps m) (pkts : List Bytes) :
    ∃ ds' ps' m', (Lib.run FecDecoder.decode d pkts).1.Safe ds' ps' m' := by
  refine run_invariant (fun d : FecDecoder => ∃ ds ps m, d.Safe ds ps m) (fun _ => True) ?_
    (fun _ _ => trivial) ⟨ds, ps, m, h⟩
  rintro d pkt - ⟨ds, ps, m, hd⟩
  exact hd.decode pkt

end FecDecoder

/-- A decoder that has been fed with any byte strings, and is fed with one more: no index, slice,
division or subtraction fails, the caches have a slot for each shard, `paws` is a multiple of the
shard size, the sets hold packets of their group with distinct seqids, and a returned buffer is as
long as the longest shard of its group. -/
theorem hostile_input (ds ps : Int) (d₀ : FecDecoder) (hnew : FecDecoder.new ds ps = some d₀)
    (pkts : List Bytes) (pkt : Bytes) (d : FecDecoder)
    (hd : d = (run FecDecoder.decode d₀ pkts).1) :
    d.decodeChecked pkt = some (d.decode pkt) ∧
      d.decodeCache.length = d.dataShards + d.parityShards ∧
      d.flagCache.length = d.dataShards + d.parityShards ∧
      d.shardSize ∣ d.paws.toNat ∧
      (∀ e ∈ d.shardSet, (e.2.elements.map fecSeqid).Nodup ∧
        ∀ p ∈ e.2.elements, d.getShardId (fecSeqid p) = e.1) ∧
      ∀ b ∈ (d.decode pkt).2, b.length = longest
        ((pkt :: (d.shardOf (d.getShardId (fecSeqid pkt))).elements).map (·.drop FEC_HEADER_SIZE)) := by
  obtain ⟨_, _, _, hsafe⟩ := FecDecoder.safe_new hnew
  obtain ⟨ds, ps, m, hsafe⟩ := hsafe.run pkts
  rw [← hd] at hsafe
  have hsize : d.dataShards + d.parityShards = ds + ps := by
    rw [hsafe.ready.data, hsafe.ready.parity]
  have hshard : d.shardSize = ds + ps := hsafe.ready.size
  refine ⟨hsafe.decodeChecked_eq pkt, ?_, ?_, ?_, ?_, hsafe.length_decode pkt⟩
  · rw [hsize]
    exact hsafe.ready.cache
  · rw [hsize]
    exact hsafe.ready.flags
  · have hpaws : d.paws = paws (ds + ps) := hsafe.ready.paws_eq
    rw [hpaws, hshard]
    exact dvd_paws (hshard ▸ hsafe.ready.size_pos.1) hsafe.ready.size_le
  · intro e he
    have hg := hsafe.sets e he
    refine ⟨hg.distinct, ?_⟩
    intro p hp
    rw [FecDecoder.getShardId, hshard]
    exact hg.group p hp

/-- A string that is too short, a packet above `paws`, and a data packet. -/
def hostile : List Bytes :=
  [[1, 2, 3], fecHeader 4294967295 7 ++ [1], fecHeader 1 TYPE_DATA ++ [2, 0]]

private theorem recovers_mixed :
    (FecDecoder.new 2 1).map (fun d => ((run FecDecoder.decode d hostile).1.decode
      (fecHeader 2 TYPE_PARITY ++ [7, 0, 9])).2) = some [[1, 0, 7]] := by
  decide +kernel

theorem hostile_input_mixed : ∃ d₀ d : FecDecoder, FecDecoder.new 2 1 = some d₀ ∧
    d = (run FecDecoder.decode d₀ hostile).1 ∧
    (d.decode (fecHeader 2 TYPE_PARITY ++ [7, 0, 9])).2 = [[1, 0, 7]] ∧
    d.decodeChecked (fecHeader 2 TYPE_PARITY ++ [7, 0, 9]) =
      some (d.decode (fecHeader 2 TYPE_PARITY ++ [7, 0, 9])) := by
  obtain ⟨d₀, hnew, hout⟩ := Option.map_eq_some_iff.mp recovers_mixed
  exact ⟨d₀, _, hnew, rfl, hout, (hostile_input 2 1 d₀ hnew hostile _ _ rfl).1⟩

end Kcptun.Fec
