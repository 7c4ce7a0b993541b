/- Kcptun/Fec/Recovery
   source: crates/kcp/src/fec.rs (FecDecoder::decode, recovery)
   digest: What the decoder recovers from a group with enough packets: exactly the data shards that
     are missing. -/

import Kcptun.Fec.Alignment

set_option autoImplicit false
set_option relaxedAutoImplicit false

namespace Kcptun.Fec

open Kcptun.Lib Kcptun.Lib.LittleEndian

/-- Packets that belong together: packet `i` of group `g` carries shard `i` of the code word of
`data`, a data packet possibly without the zeros at its end. -/
structure GroupCode (ds ps : ℕ) (m : Rs.Matrix) (g : ℕ) (data : List Bytes) (len : ℕ) (pk : ℕ → Bytes) :
    Prop where
  pos : 0 < len
  data_length : data.length = ds
  lengths : ∀ d ∈ data, d.length = len
  seqid : ∀ i < ds + ps, (fecSeqid (pk i)).toNat = g * (ds + ps) + i
  flag : ∀ i < ds + ps, fecFlag (pk i) = if i < ds then TYPE_DATA else TYPE_PARITY
  header : ∀ i < ds + ps, FEC_HEADER_SIZE ≤ (pk i).length
  fits : ∀ i < ds, (pk i).length ≤ FEC_HEADER_SIZE + len
  body : ∀ i < ds, padTo len ((pk i).drop FEC_HEADER_SIZE) = data.getD i []
  parity : ∀ i, ds ≤ i → i < ds + ps →
    (pk i).drop FEC_HEADER_SIZE = Rs.codeRow (m.row i) data len

def unmark (marks : List UInt32) (pkts : List Bytes) : List UInt32 :=
  pkts.foldl (fun marks x => marks.filter (· ≠ fecSeqid x)) marks

section Fill

variable {ss : ℕ} {pk : ℕ → Bytes}

private theorem drain_eq (shardSize : UInt32) (fuel : ℕ) (h : ShardHeap) (f : Filling)
    (hfuel : h.elements.length ≤ fuel) :
    drain shardSize fuel h f =
      (⟨[], unmark h.marks h.elements⟩, h.elements.foldl (Filling.put shardSize) f) := by
  induction fuel generalizing h f with
  | zero =>
    have hnil := List.length_eq_zero_iff.mp (Nat.le_zero.mp hfuel)
    obtain ⟨els, marks⟩ := h
    obtain rfl : els = [] := hnil
    rfl
  | succ fuel ih =>
    obtain ⟨els, marks⟩ := h
    cases els with
    | nil => rfl
    | cons x rest =>
      have hpop : (⟨x :: rest, marks⟩ : ShardHeap).pop =
          some (x, ⟨rest, marks.filter (· ≠ fecSeqid x)⟩) := rfl
      simp only [drain, hpop]
      exact ih _ _ (Nat.le_of_succ_le_succ hfuel)

private theorem foldl_put (hpos : 0 < ss) (hle : ss ≤ 256) (idxs : List ℕ)
    (hidx : ∀ i ∈ idxs, i < ss ∧ (fecSeqid (pk i)).toNat % ss = i) (f : Filling) :
    let r := (idxs.map pk).foldl (Filling.put (UInt32.ofNat ss)) f
    r.cache.length = f.cache.length ∧ r.flags.length = f.flags.length ∧
      (∀ i < f.cache.length, r.cache.getD i {} =
        if i ∈ idxs then { buf := pk i, start := FEC_HEADER_SIZE } else f.cache.getD i {}) ∧
      (∀ i < f.flags.length, r.flags.getD i false = (decide (i ∈ idxs) || f.flags.getD i false)) ∧
      r.numDataShard = f.numDataShard + idxs.countP (fun i => fecFlag (pk i) = TYPE_DATA) ∧
      r.maxlen = (idxs.map fun i => (pk i).length - FEC_HEADER_SIZE).foldl max f.maxlen := by
  induction idxs generalizing f with
  | nil =>
    refine ⟨rfl, rfl, ?_, ?_, rfl, rfl⟩
    · intro i _
      rw [if_neg List.not_mem_nil]
      rfl
    · intro i _
      simp
  | cons k idxs ih =>
    obtain ⟨hk, hmod⟩ := hidx k List.mem_cons_self
    have hslot : (fecSeqid (pk k) % UInt32.ofNat ss).toNat = k := by
      rw [UInt32.toNat_mod, UInt32.toNat_ofNat', Nat.mod_eq_of_lt (a := ss) (by omega), hmod]
    obtain ⟨h1, h2, h3, h4, h5, h6⟩ := ih (fun i hi => hidx i (List.mem_cons_of_mem k hi))
      (f.put (UInt32.ofNat ss) (pk k))
    have hlc : (f.put (UInt32.ofNat ss) (pk k)).cache.length = f.cache.length := List.length_set
    have hlf : (f.put (UInt32.ofNat ss) (pk k)).flags.length = f.flags.length := List.length_set
    refine ⟨h1.trans hlc, h2.trans hlf, ?_, ?_, ?_, ?_⟩
    · intro i hi
      rw [List.map_cons, List.foldl_cons, h3 i (by rwa [hlc])]
      have hset : (f.put (UInt32.ofNat ss) (pk k)).cache.getD i {} =
          if k = i then { buf := pk k, start := FEC_HEADER_SIZE } else f.cache.getD i {} := by
        change (f.cache.set (fecSeqid (pk k) % UInt32.ofNat ss).toNat _).getD i {} = _
        rw [hslot, List.getD_eq_getElem?_getD, List.getElem?_set, List.getD_eq_getElem?_getD]
        split_ifs <;> first | rfl | omega
      rw [hset]
      by_cases hik : k = i
      · subst hik
        rw [if_pos rfl, if_pos List.mem_cons_self]
        split_ifs <;> rfl
      · have hne : i ≠ k := Ne.symm hik
        simp only [List.mem_cons, hne, false_or, if_neg hik]
    · intro i hi
      rw [List.map_cons, List.foldl_cons, h4 i (by rwa [hlf])]
      have hset : (f.put (UInt32.ofNat ss) (pk k)).flags.getD i false =
          (decide (i = k) || f.flags.getD i false) := by
        change (f.flags.set (fecSeqid (pk k) % UInt32.ofNat ss).toNat true).getD i false = _
        rw [hslot, List.getD_eq_getElem?_getD, List.getElem?_set, List.getD_eq_getElem?_getD]
        by_cases hik : k = i
        · subst hik
          simp [hi]
        · have hne : i ≠ k := Ne.symm hik
          simp [hik, hne]
      rw [hset, ← Bool.or_assoc]
      congr 1
      rw [Bool.eq_iff_iff]
      simp [or_comm]
    · rw [List.map_cons, List.foldl_cons, h5, List.countP_cons]
      change (if fecFlag (pk k) = TYPE_DATA then f.numDataShard + 1 else f.numDataShard) + _ = _
      by_cases hflag : fecFlag (pk k) = TYPE_DATA
      · simp only [hflag, decide_true, if_true]
        omega
      · simp only [hflag, decide_false, Bool.false_eq_true, if_false]
        omega
    · rw [List.map_cons, List.foldl_cons, h6, List.map_cons, List.foldl_cons]
      congr 1
      change (if (pk k).length - FEC_HEADER_SIZE > f.maxlen then _ else _) = _
      split_ifs <;> omega

private theorem length_foldl_put (shardSize : UInt32) (pkts : List Bytes) (f : Filling) :
    let r := pkts.foldl (Filling.put shardSize) f
    r.cache.length = f.cache.length ∧ r.flags.length = f.flags.length := by
  induction pkts generalizing f with
  | nil => exact ⟨rfl, rfl⟩
  | cons pkt pkts ih =>
    obtain ⟨h1, h2⟩ := ih (f.put shardSize pkt)
    exact ⟨h1.trans List.length_set, h2.trans List.length_set⟩

end Fill

private theorem length_restore (codec : Rs.Codec) (matrix : Rs.Matrix) (valid : List ℕ) (size : ℕ)
    (shards : List Bytes) : (codec.restore matrix valid size shards).length = shards.length := by
  have hfold (f : List Bytes → ℕ × Bytes → List Bytes) (hf : ∀ s p, (f s p).length = s.length)
      (l : List (ℕ × Bytes)) (shards : List Bytes) : (l.foldl f shards).length = shards.length := by
    induction l generalizing shards with
    | nil => rfl
    | cons p l ih => exact (ih _).trans (hf shards p)
  exact hfold _ (fun s p => List.length_set) _ shards

theorem length_reconstructData {codec : Rs.Codec} {shards out : List Bytes}
    (h : (codec.reconstructData shards).2 = .ok out) : out.length = shards.length := by
  unfold Rs.Codec.reconstructData at h
  split at h
  · cases h
  · split at h
    · cases h
    · dsimp only at h
      split at h
      · cases h
        rfl
      · split at h
        · cases h
        · split at h
          · cases h
          · cases h
            exact length_restore _ _ _ _ _

namespace FecDecoder

/-- A decoder in sync whose codec and caches fit its parameters. -/
structure Ready (d : FecDecoder) (ds ps : ℕ) (m : Rs.Matrix) : Prop extends d.InSync ds ps where
  codec_ok : d.codec.Ok ds ps m
  cache : d.decodeCache.length = ds + ps
  flags : d.flagCache.length = ds + ps
  parity_pos : 0 < ps
  size_le : ds + ps ≤ 256

variable {d : FecDecoder} {ds ps g len : ℕ} {m : Rs.Matrix} {data : List Bytes} {pk : ℕ → Bytes}

theorem Ready.of_eq {d' : FecDecoder} (h : d.Ready ds ps m) (hset : d'.settings = d.settings)
    (hcodec : d'.codec.Ok ds ps m) (hcache : d'.decodeCache.length = ds + ps)
    (hflags : d'.flagCache.length = ds + ps) : d'.Ready ds ps m := by
  simp only [settings, Prod.mk.injEq] at hset
  obtain ⟨h1, h2, h3, h4, -, h6⟩ := hset
  exact ⟨⟨h1.trans h.data, h2.trans h.parity, h3.trans h.size, h4.trans h.paws_eq, h6.trans h.tune⟩,
    hcodec, hcache, hflags, h.parity_pos, h.size_le⟩

def equalized (d : FecDecoder) (maxlen : ℕ) : List DecodeShard :=
  (d.decodeCache.zip d.flagCache).mapIdx fun k (s, present) => equalize d.dataShards maxlen k s present

private theorem Ready.reconstruct (h : d.Ready ds ps m) (maxlen : ℕ) :
    (d.reconstruct maxlen).1.Ready ds ps m := by
  have hlen : (d.equalized maxlen).length = ds + ps := by
    rw [equalized, List.length_mapIdx, List.length_zip, h.cache, h.flags, Nat.min_self]
  have hcodec := Rs.Codec.ok_reconstructData h.codec_ok ((d.equalized maxlen).map DecodeShard.shard)
  refine h.of_eq (settings_reconstruct d maxlen) ?_ ?_ ?_
  · unfold FecDecoder.reconstruct
    dsimp only
    split <;> exact hcodec
  · unfold FecDecoder.reconstruct
    dsimp only
    split
    · exact hlen
    · rename_i shards hshards
      have hout := length_reconstructData hshards
      rw [List.length_map] at hout
      rw [List.length_zipWith, hout, Nat.min_self]
      exact hlen
  · unfold FecDecoder.reconstruct
    dsimp only
    split <;> exact h.flags

def filled (d : FecDecoder) (heap : ShardHeap) : Filling :=
  heap.elements.foldl (Filling.put (UInt32.ofNat d.shardSize))
    { cache := d.decodeCache.map fun _ => {}, flags := d.flagCache.map fun _ => false }

def withFilled (d : FecDecoder) (heap : ShardHeap) : FecDecoder :=
  { d with decodeCache := (d.filled heap).cache, flagCache := (d.filled heap).flags }

def cleared (d : FecDecoder) : FecDecoder := { d with decodeCache := d.decodeCache.map fun _ => {} }

theorem recover_eq (d : FecDecoder) (heap : ShardHeap) :
    d.recover heap =
      if (d.filled heap).numDataShard = d.dataShards then
        ((d.withFilled heap).cleared, ⟨[], unmark heap.marks heap.elements⟩, [])
      else
        (((d.withFilled heap).reconstruct (d.filled heap).maxlen).1.cleared,
          ⟨[], unmark heap.marks heap.elements⟩,
          ((d.withFilled heap).reconstruct (d.filled heap).maxlen).2) := by
  have hdrain := drain_eq (UInt32.ofNat d.shardSize) heap.len heap
    { cache := d.decodeCache.map fun _ => {}, flags := d.flagCache.map fun _ => false } le_rfl
  unfold FecDecoder.recover
  dsimp only
  rw [hdrain]
  change (((if (d.filled heap).numDataShard = d.dataShards then (d.withFilled heap, [])
    else (d.withFilled heap).reconstruct (d.filled heap).maxlen : FecDecoder × List Bytes).1.cleared,
      ⟨[], unmark heap.marks heap.elements⟩,
      (if (d.filled heap).numDataShard = d.dataShards then (d.withFilled heap, [])
    else (d.withFilled heap).reconstruct (d.filled heap).maxlen : FecDecoder × List Bytes).2) :
      FecDecoder × ShardHeap × List Bytes) = _
  split_ifs <;> rfl

theorem Ready.withFilled (h : d.Ready ds ps m) (heap : ShardHeap) :
    (d.withFilled heap).Ready ds ps m := by
  obtain ⟨hc, hf⟩ := length_foldl_put (UInt32.ofNat d.shardSize) heap.elements
    { cache := d.decodeCache.map fun _ => {}, flags := d.flagCache.map fun _ => false }
  rw [List.length_map, h.cache] at hc
  rw [List.length_map, h.flags] at hf
  exact h.of_eq rfl h.codec_ok hc hf

private theorem Ready.cleared (h : d.Ready ds ps m) : d.cleared.Ready ds ps m :=
  h.of_eq rfl h.codec_ok ((List.length_map _).trans h.cache) h.flags

theorem Ready.recover (h : d.Ready ds ps m) (heap : ShardHeap) : (d.recover heap).1.Ready ds ps m := by
  rw [recover_eq]
  split_ifs
  · exact (h.withFilled heap).cleared
  · exact ((h.withFilled heap).reconstruct _).cleared

private theorem eq_map_range {α : Type} {l : List α} {n : ℕ} {f : ℕ → α} (dflt : α)
    (hlen : l.length = n) (hget : ∀ i < n, l.getD i dflt = f i) : l = (List.range n).map f := by
  refine List.ext_getElem (by simp [hlen]) ?_
  intro i h1 h2
  rw [List.getElem_map, List.getElem_range, ← hget i (by omega), List.getD_eq_getElem _ _ h1]

private theorem resize_drop {b : Bytes} {len : ℕ} (h : b.length ≤ FEC_HEADER_SIZE + len)
    (hmin : FEC_HEADER_SIZE ≤ b.length) :
    (resize b (FEC_HEADER_SIZE + len)).drop FEC_HEADER_SIZE = padTo len (b.drop FEC_HEADER_SIZE) := by
  unfold resize padTo
  rw [List.take_of_length_le h, List.drop_append_of_le_length hmin, List.length_drop]
  congr 2
  omega

private theorem maxlen_eq (hcode : GroupCode ds ps m g data len pk) {idxs : List ℕ}
    (hlt : ∀ i ∈ idxs, i < ds + ps) {j : ℕ} (hj : j ∈ idxs) (hjds : ds ≤ j) :
    (idxs.map fun i => (pk i).length - FEC_HEADER_SIZE).foldl max 0 = len := by
  have hbody : ∀ i, ds ≤ i → i < ds + ps → (pk i).length - FEC_HEADER_SIZE = len := by
    intro i hlo hhi
    have := congrArg List.length (hcode.parity i hlo hhi)
    rwa [List.length_drop, Rs.length_codeRow] at this
  have hall : ∀ n ∈ idxs.map fun i => (pk i).length - FEC_HEADER_SIZE, n ≤ len := by
    intro n hn
    obtain ⟨i, hi, rfl⟩ := List.mem_map.mp hn
    rcases Nat.lt_or_ge i ds with hids | hids
    · have := hcode.fits i hids
      omega
    · exact (hbody i hids (hlt i hi)).le
  have hmem : len ∈ idxs.map fun i => (pk i).length - FEC_HEADER_SIZE :=
    List.mem_map.mpr ⟨j, hj, hbody j hjds (hlt j hj)⟩
  exact Nat.le_antisymm ((foldl_max_le_iff _ _ _).mpr ⟨Nat.zero_le _, hall⟩)
    (((foldl_max_le_iff _ _ _).mp le_rfl).2 len hmem)

/-- A slot as it goes to the codec: the packet of its index, if it is one of `idxs`, made as long as
the others. -/
def equalSlot (pk : ℕ → Bytes) (idxs : List ℕ) (len i : ℕ) : DecodeShard :=
  if i ∈ idxs then { buf := resize (pk i) (FEC_HEADER_SIZE + len), start := FEC_HEADER_SIZE } else {}

section Reconstruct

variable {idxs : List ℕ}

private theorem Ready.equalized_eq (h : d.Ready ds ps m)
    (hcache : ∀ i < ds + ps, d.decodeCache.getD i {} =
      if i ∈ idxs then { buf := pk i, start := FEC_HEADER_SIZE } else {})
    (hflags : ∀ i < ds + ps, d.flagCache.getD i false = decide (i ∈ idxs)) :
    d.equalized len = (List.range (ds + ps)).map (equalSlot pk idxs len) := by
  refine eq_map_range {} ?_ ?_
  · rw [equalized, List.length_mapIdx, List.length_zip, h.cache, h.flags, Nat.min_self]
  · intro i hi
    have hc := hcache i hi
    have hf := hflags i hi
    rw [List.getD_eq_getElem _ _ (by rw [h.cache]; exact hi)] at hc
    rw [List.getD_eq_getElem _ _ (by rw [h.flags]; exact hi)] at hf
    rw [equalized, List.getD_eq_getElem _ _ (by
      rw [List.length_mapIdx, List.length_zip, h.cache, h.flags, Nat.min_self]; exact hi),
      List.getElem_mapIdx, List.getElem_zip]
    dsimp only
    rw [hc, hf]
    unfold equalize equalSlot
    by_cases hmem : i ∈ idxs
    · simp only [hmem, decide_true, if_true]
    · simp only [hmem, decide_false, Bool.false_eq_true, if_false]
      split_ifs <;> rfl

private theorem Ready.shard_equalSlot (h : d.Ready ds ps m)
    (hcode : GroupCode ds ps m g data len pk) {i : ℕ} (hi : i < ds + ps) :
    (equalSlot pk idxs len i).shard = if i ∈ idxs then Rs.codeRow (m.row i) data len else [] := by
  unfold equalSlot
  split_ifs with hmem
  · change (resize (pk i) (FEC_HEADER_SIZE + len)).drop FEC_HEADER_SIZE = _
    rcases Nat.lt_or_ge i ds with hids | hids
    · rw [resize_drop (hcode.fits i hids) (hcode.header i hi), hcode.body i hids,
        Rs.Codec.codeRow_data h.codec_ok.generator hcode.data_length hcode.lengths hids]
    · have hbody := hcode.parity i hids hi
      have hblen := congrArg List.length hbody
      rw [List.length_drop, Rs.length_codeRow] at hblen
      have hhead := hcode.header i hi
      rw [resize_drop (by omega) hhead, hbody, padTo, Rs.length_codeRow, Nat.sub_self,
        List.replicate_zero, List.append_nil]
  · rfl

private theorem Ready.codec_reconstructs (h : d.Ready ds ps m)
    (hcode : GroupCode ds ps m g data len pk) (hnodup : idxs.Nodup)
    (hlt : ∀ i ∈ idxs, i < ds + ps) (hlen : idxs.length = ds) :
    (d.codec.reconstructData
        ((List.range (ds + ps)).map fun i => (equalSlot pk idxs len i).shard)).2 =
      .ok (data ++ ((List.range (ds + ps)).map fun i => (equalSlot pk idxs len i).shard).drop ds) := by
  have hpos := hcode.pos
  have hrows : ((List.range (ds + ps)).map fun i => (equalSlot pk idxs len i).shard) =
      (List.range (ds + ps)).map fun i => if i ∈ idxs then Rs.codeRow (m.row i) data len else [] :=
    List.map_congr_left fun i hi => h.shard_equalSlot hcode (List.mem_range.mp hi)
  rw [hrows]
  apply Rs.Codec.reconstructData_spec h.codec_ok
  · refine ⟨hpos, hcode.data_length, hcode.lengths, by simp, ?_⟩
    intro i hi
    rw [List.getD_eq_getElem _ _ (by simpa using hi), List.getElem_map, List.getElem_range]
    split_ifs
    · exact .inr rfl
    · exact .inl rfl
  · rw [List.countP_map, List.countP_eq_length_filter]
    refine hlen.ge.trans (hnodup.subperm fun i hi =>
      List.mem_filter.mpr ⟨List.mem_range.mpr (hlt i hi), ?_⟩).length_le
    have hrow : (Rs.codeRow (m.row i) data len) ≠ [] := by
      intro hnil
      have := congrArg List.length hnil
      rw [Rs.length_codeRow, List.length_nil] at this
      omega
    simp [hi, hrow]

private theorem Ready.slots_eq (h : d.Ready ds ps m) (hds : data.length = ds)
    (hflags : ∀ i < ds + ps, d.flagCache.getD i false = decide (i ∈ idxs)) {rest : List Bytes}
    (hrest : rest.length = ps) :
    ((List.zipWith DecodeShard.withShard ((List.range (ds + ps)).map (equalSlot pk idxs len))
        (data ++ rest)).zip d.flagCache).take ds =
      (List.range ds).map fun i =>
        (DecodeShard.withShard (equalSlot pk idxs len i) (data.getD i []), decide (i ∈ idxs)) := by
  have hzlen : ((List.zipWith DecodeShard.withShard ((List.range (ds + ps)).map
      (equalSlot pk idxs len)) (data ++ rest)).zip d.flagCache).length = ds + ps := by
    rw [List.length_zip, List.length_zipWith, List.length_append, hrest, hds, h.flags,
      List.length_map, List.length_range]
    omega
  refine List.ext_getElem (by rw [List.length_take, hzlen]; simp) ?_
  intro i h1 h2
  have hi : i < ds := by simpa using h2
  have hf := hflags i (by omega)
  rw [List.getD_eq_getElem _ _ (by rw [h.flags]; omega)] at hf
  rw [List.getElem_take, List.getElem_zip, List.getElem_zipWith, List.getElem_map,
    List.getElem_range, hf, List.getElem_append_left (by omega), List.getElem_map,
    List.getElem_range, List.getD_eq_getElem _ _ (by omega)]

private theorem Ready.reconstructed (h : d.Ready ds ps m) (hcode : GroupCode ds ps m g data len pk)
    (hnodup : idxs.Nodup) (hlt : ∀ i ∈ idxs, i < ds + ps) (hlen : idxs.length = ds)
    (hcache : ∀ i < ds + ps, d.decodeCache.getD i {} =
      if i ∈ idxs then { buf := pk i, start := FEC_HEADER_SIZE } else {})
    (hflags : ∀ i < ds + ps, d.flagCache.getD i false = decide (i ∈ idxs)) :
    (d.reconstruct len).2 = ((List.range ds).filter (· ∉ idxs)).map fun i => data.getD i [] := by
  have heq : d.equalized len = (List.range (ds + ps)).map (equalSlot pk idxs len) :=
    h.equalized_eq hcache hflags
  have hrec := h.codec_reconstructs hcode hnodup hlt hlen
  set shards := (List.range (ds + ps)).map fun i => (equalSlot pk idxs len i).shard with hshards
  have hmap : (d.codec.reconstructData ((d.equalized len).map DecodeShard.shard)).2 =
      .ok (data ++ shards.drop ds) := by
    rw [heq, List.map_map]
    exact hrec
  have hout : (d.reconstruct len).2 = missingShards d.dataShards
      (List.zipWith DecodeShard.withShard (d.equalized len) (data ++ shards.drop ds)) d.flagCache := by
    unfold FecDecoder.reconstruct
    dsimp only
    split
    next error herror => cases hmap.symm.trans herror
    next out hok =>
      cases hmap.symm.trans hok
      rfl
  have hrest : (shards.drop ds).length = ps := by
    rw [List.length_drop, hshards, List.length_map, List.length_range]
    omega
  rw [hout, h.data, heq]
  unfold missingShards
  rw [h.slots_eq hcode.data_length hflags hrest, List.filterMap_map, ← List.filterMap_eq_map,
    ← List.filterMap_eq_filter, List.filterMap_filterMap]
  apply List.filterMap_congr
  intro i _
  by_cases hmem : i ∈ idxs
  · simp [hmem, Option.guard]
  · simp [hmem, Option.guard, equalSlot, DecodeShard.withShard]

end Reconstruct

theorem Ready.recovered (h : d.Ready ds ps m) (hcode : GroupCode ds ps m g data len pk) {idxs : List ℕ}
    (hnodup : idxs.Nodup) (hlt : ∀ i ∈ idxs, i < ds + ps) (hlen : idxs.length = ds) {heap : ShardHeap}
    (hheap : heap.elements = idxs.map pk) :
    (d.recover heap).2.2 = ((List.range ds).filter (· ∉ idxs)).map fun i => data.getD i [] := by
  have hpos := h.codec_ok.pos
  have hflag : ∀ i ∈ idxs, (fecFlag (pk i) = TYPE_DATA ↔ i < ds) := by
    intro i hi
    rw [hcode.flag i (hlt i hi)]
    split_ifs with hids
    · simp [hids]
    · simp only [hids, iff_false]
      decide
  have hslot : ∀ i ∈ idxs, i < ds + ps ∧ (fecSeqid (pk i)).toNat % (ds + ps) = i := by
    intro i hi
    rw [hcode.seqid i (hlt i hi), Nat.mul_add_mod_of_lt (hlt i hi)]
    exact ⟨hlt i hi, rfl⟩
  have hput := foldl_put (by omega) h.size_le idxs hslot
    { cache := d.decodeCache.map fun _ => {}, flags := d.flagCache.map fun _ => false }
  rw [← hheap, ← h.size] at hput
  change (d.filled heap).cache.length = _ ∧ (d.filled heap).flags.length = _ ∧ (∀ i < _,
    (d.filled heap).cache.getD i {} = _) ∧ (∀ i < _, (d.filled heap).flags.getD i false = _) ∧
    (d.filled heap).numDataShard = _ ∧ (d.filled heap).maxlen = _ at hput
  obtain ⟨hclen, hflen, hcache, hflags, hnum, hmax⟩ := hput
  rw [List.length_map, h.cache] at hclen hcache
  rw [List.length_map, h.flags] at hflen hflags
  dsimp only at hnum hmax
  have hcount : idxs.countP (fun i => decide (fecFlag (pk i) = TYPE_DATA)) =
      idxs.countP (fun i => decide (i < ds)) := by
    apply List.countP_congr
    intro i hi
    simp only [decide_eq_true_eq, hflag i hi]
  rw [hcount, Nat.zero_add] at hnum
  rw [recover_eq, hnum, h.data]
  split_ifs with hall
  · -- all data packets are there
    have hdata : ∀ i ∈ idxs, i < ds := by
      have := List.countP_eq_length.mp (hall.trans hlen.symm)
      intro i hi
      simpa using this i hi
    have hfull : ∀ i < ds, i ∈ idxs := by
      have hperm : idxs.Perm (List.range ds) := by
        refine (hnodup.subperm fun i hi => List.mem_range.mpr (hdata i hi)).perm_of_length_le ?_
        rw [List.length_range, hlen]
      intro i hi
      exact hperm.mem_iff.mpr (List.mem_range.mpr hi)
    rw [List.filter_eq_nil_iff.mpr, List.map_nil]
    intro i hi
    simpa using hfull i (List.mem_range.mp hi)
  · obtain ⟨j, hj, hjds⟩ : ∃ j ∈ idxs, ds ≤ j := by
      by_contra hnone
      push Not at hnone
      refine hall ((List.countP_eq_length.mpr ?_).trans hlen)
      intro i hi
      simpa using hnone i hi
    rw [maxlen_eq hcode hlt hj hjds] at hmax
    rw [hmax]
    refine (h.withFilled heap).reconstructed hcode hnodup hlt hlen ?_ ?_
    · intro i hi
      refine (hcache i hi).trans ?_
      rw [List.getD_eq_getElem _ _ (by rw [List.length_map, h.cache]; exact hi), List.getElem_map]
    · intro i hi
      refine (hflags i hi).trans ?_
      rw [List.getD_eq_getElem _ _ (by rw [List.length_map, h.flags]; exact hi), List.getElem_map,
        Bool.or_false]

end FecDecoder

end Kcptun.Fec
