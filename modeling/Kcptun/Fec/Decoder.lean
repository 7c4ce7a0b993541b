/- Kcptun/Fec/Decoder
   source: crates/kcp/src/fec.rs (ShardHeap, DecodeShard, FecDecoder)
   digest: The FEC decoder: shard sets, the recovery of missing data shards, auto-tuning and the
     discarding of old sets. -/

import Kcptun.Fec.AutoTune
import Kcptun.Fec.Encoder

set_option autoImplicit false
set_option relaxedAutoImplicit false

namespace Kcptun.Fec

open Kcptun.Lib Kcptun.Lib.LittleEndian Kcptun.Arq

/-- The packets received for one group, a stack with the last one first, and the set of their
seqids. -/
structure ShardHeap where
  elements : List Bytes := []
  marks : List UInt32 := []
  deriving DecidableEq, Repr

namespace ShardHeap

def len (h : ShardHeap) : ℕ := h.elements.length

def push (h : ShardHeap) (pkt : Bytes) : ShardHeap where
  elements := pkt :: h.elements
  marks := h.marks.insert (fecSeqid pkt)

def pop (h : ShardHeap) : Option (Bytes × ShardHeap) :=
  match h.elements with
  | [] => none
  | x :: rest => some (x, { elements := rest, marks := h.marks.filter (· ≠ fecSeqid x) })

def has (h : ShardHeap) (sn : UInt32) : Bool := h.marks.contains sn

end ShardHeap

/-- One slot of the decode cache: the shard is `buf[start..]`; empty means missing. -/
structure DecodeShard where
  buf : Bytes := []
  start : ℕ := 0
  deriving DecidableEq, Repr

/-- `ShardBuf::shard`. -/
def DecodeShard.shard (s : DecodeShard) : Bytes := s.buf.drop s.start

def DecodeShard.withShard (s : DecodeShard) (shard : Bytes) : DecodeShard :=
  { s with buf := s.buf.take s.start ++ shard }

/-- `Vec::resize` with zeros. -/
def resize (b : Bytes) (n : ℕ) : Bytes := b.take n ++ List.replicate (n - b.length) 0

/-- The decode cache while the packets of a group are popped into it. -/
structure Filling where
  cache : List DecodeShard
  flags : List Bool
  numDataShard : ℕ := 0
  maxlen : ℕ := 0

def Filling.put (shardSize : UInt32) (f : Filling) (pkt : Bytes) : Filling where
  cache := f.cache.set (fecSeqid pkt % shardSize).toNat { buf := pkt, start := FEC_HEADER_SIZE }
  flags := f.flags.set (fecSeqid pkt % shardSize).toNat true
  numDataShard := if fecFlag pkt = TYPE_DATA then f.numDataShard + 1 else f.numDataShard
  maxlen := if pkt.length - FEC_HEADER_SIZE > f.maxlen then pkt.length - FEC_HEADER_SIZE else f.maxlen

/-- Pops all shards from the heap and fills them into the decode cache. The fuel is the number of
packets. -/
def drain (shardSize : UInt32) : ℕ → ShardHeap → Filling → ShardHeap × Filling
  | 0, h, f => (h, f)
  | fuel + 1, h, f =>
    match h.pop with
    | none => (h, f)
    | some (pkt, h) => drain shardSize fuel h (f.put shardSize pkt)

/-- Fills zeros into the tail of each present shard; missing data shards get an empty buffer. -/
def equalize (dataShards maxlen : ℕ) (k : ℕ) (s : DecodeShard) (present : Bool) : DecodeShard :=
  if present then { s with buf := resize s.buf (s.start + maxlen) }
  else if k < dataShards then { buf := [], start := 0 }
  else s

/-- How far group `id` lies behind the newest one, in seqids. -/
def distance (ss : ℕ) (newest id : UInt32) : Int :=
  itimediff (newest * UInt32.ofNat ss) (id * UInt32.ofNat ss)

structure FecDecoder where
  dataShards : ℕ
  parityShards : ℕ
  shardSize : ℕ
  shardSet : List (UInt32 × ShardHeap)
  paws : UInt32
  newestShardId : UInt32
  decodeCache : List DecodeShard
  flagCache : List Bool
  codec : Rs.Codec
  autoTune : AutoTune
  shouldTune : Bool

namespace FecDecoder

def newDecodeCache (shardSize : ℕ) : List DecodeShard := List.replicate shardSize {}

/-- A decoder, or `none` when FEC is disabled. -/
def new (dataShards parityShards : Int) : Option FecDecoder :=
  if dataShards ≤ 0 ∨ parityShards ≤ 0 then none
  else if min (dataShards + parityShards) 9223372036854775807 > 256 then none
  else
    match Rs.Codec.new dataShards.toNat parityShards.toNat with
    | .error _ => none
    | .ok codec =>
      let shardSize := dataShards.toNat + parityShards.toNat
      some {
        dataShards := dataShards.toNat
        parityShards := parityShards.toNat
        shardSize := shardSize
        shardSet := []
        paws := Fec.paws shardSize
        newestShardId := 0
        decodeCache := newDecodeCache shardSize
        flagCache := List.replicate shardSize false
        codec := codec
        autoTune := AutoTune.new
        shouldTune := false }

def mismatch (d : FecDecoder) (seqid : UInt32) (flag : UInt16) : Bool :=
  if seqid % UInt32.ofNat d.shardSize < UInt32.ofNat d.dataShards then flag != TYPE_DATA
  else flag != TYPE_PARITY

def adopt (d : FecDecoder) (autoDs autoPs : ℕ) : FecDecoder :=
  match Rs.Codec.new autoDs autoPs with
  | .error _ => d
  | .ok codec =>
    { d with
      dataShards := autoDs
      parityShards := autoPs
      shardSize := autoDs + autoPs
      shardSet := []
      codec := codec
      decodeCache := newDecodeCache (autoDs + autoPs)
      flagCache := List.replicate (autoDs + autoPs) false
      paws := Fec.paws (autoDs + autoPs)
      shouldTune := false }

def tune (d : FecDecoder) : FecDecoder :=
  let autoDs := d.autoTune.findPeriod true
  let autoPs := d.autoTune.findPeriod false
  if autoDs > 0 ∧ autoPs > 0 ∧ autoDs + autoPs < 256 then
    if autoDs.toNat ≠ d.dataShards ∨ autoPs.toNat ≠ d.parityShards then
      d.adopt autoDs.toNat autoPs.toNat
    else { d with shouldTune := false }
  else d

def getShardId (d : FecDecoder) (seqid : UInt32) : UInt32 := seqid / UInt32.ofNat d.shardSize

/-- The data shards the recovery filled in, in index order. -/
def missingShards (dataShards : ℕ) (cache : List DecodeShard) (flags : List Bool) : List Bytes :=
  ((cache.zip flags).take dataShards).filterMap fun (s, present) =>
    if present then none else some s.buf

/-- Reconstruction over the decode cache; without it, nothing is recovered. -/
def reconstruct (d : FecDecoder) (maxlen : ℕ) : FecDecoder × List Bytes :=
  let cache := (d.decodeCache.zip d.flagCache).mapIdx fun k (s, present) =>
    equalize d.dataShards maxlen k s present
  let (codec, result) := d.codec.reconstructData (cache.map DecodeShard.shard)
  match result with
  | .error _ => ({ d with codec := codec, decodeCache := cache }, [])
  | .ok shards =>
    let cache := List.zipWith DecodeShard.withShard cache shards
    ({ d with codec := codec, decodeCache := cache }, missingShards d.dataShards cache d.flagCache)

/-- Empties the heap of a group with enough shards and recovers its missing data shards. -/
def recover (d : FecDecoder) (h : ShardHeap) : FecDecoder × ShardHeap × List Bytes :=
  let f : Filling := { cache := d.decodeCache.map fun _ => {}, flags := d.flagCache.map fun _ => false }
  let (h, f) := drain (UInt32.ofNat d.shardSize) h.len h f
  let d := { d with decodeCache := f.cache, flagCache := f.flags }
  let (d, recovered) := if f.numDataShard = d.dataShards then (d, []) else d.reconstruct f.maxlen
  ({ d with decodeCache := d.decodeCache.map fun _ => {} }, h, recovered)

/-- `HashMap::insert`. -/
def setShard (d : FecDecoder) (shardId : UInt32) (h : ShardHeap) : FecDecoder :=
  { d with shardSet := (shardId, h) :: d.shardSet.filter fun e => e.1 ≠ shardId }

/-- The heap of a group; a new group starts with an empty one. -/
def shardOf (d : FecDecoder) (shardId : UInt32) : ShardHeap := (d.shardSet.lookup shardId).getD {}

def updateNewest (d : FecDecoder) (shardId : UInt32) : FecDecoder :=
  if itimediff (shardId * UInt32.ofNat d.shardSize)
      (d.newestShardId * UInt32.ofNat d.shardSize) > 0 then
    { d with newestShardId := shardId }
  else d

/-- Removes the shard sets more than `MAX_SHARD_SETS` groups older than the newest one. -/
def discardShards (d : FecDecoder) : FecDecoder :=
  let newest := d.newestShardId * UInt32.ofNat d.shardSize
  let limit : Int := MAX_SHARD_SETS * d.shardSize
  { d with shardSet := d.shardSet.filter fun e =>
      itimediff newest (e.1 * UInt32.ofNat d.shardSize) ≤ limit }

def collect (d : FecDecoder) (pkt : Bytes) : FecDecoder × List Bytes :=
  let shardId := d.getShardId (fecSeqid pkt)
  let shard := d.shardOf shardId
  if shard.has (fecSeqid pkt) then (d.setShard shardId shard, [])
  else
    let shard := shard.push pkt
    let (d, shard, recovered) := if shard.len ≥ d.dataShards then d.recover shard else (d, shard, [])
    (((d.setShard shardId shard).updateNewest shardId).discardShards, recovered)

/-- Decodes one FEC data or parity packet and returns the data shards it made recoverable. -/
def decode (d : FecDecoder) (pkt : Bytes) : FecDecoder × List Bytes :=
  if pkt.length < FEC_HEADER_SIZE then (d, [])
  else
    let inSeqid := fecSeqid pkt
    let inFlag := fecFlag pkt
    let d := { d with autoTune := d.autoTune.sample (inFlag == TYPE_DATA) inSeqid }
    if inSeqid ≥ d.paws then (d, [])
    else
      let d := { d with shouldTune := d.shouldTune || d.mismatch inSeqid inFlag }
      if d.shouldTune then (d.tune, []) else d.collect pkt

def settings (d : FecDecoder) : ℕ × ℕ × ℕ × UInt32 × AutoTune × Bool :=
  (d.dataShards, d.parityShards, d.shardSize, d.paws, d.autoTune, d.shouldTune)

theorem settings_reconstruct (d : FecDecoder) (maxlen : ℕ) :
    (d.reconstruct maxlen).1.settings = d.settings := by
  unfold reconstruct
  dsimp only
  split <;> rfl

private theorem settings_recover (d : FecDecoder) (h : ShardHeap) :
    (d.recover h).1.settings = d.settings := by
  unfold recover
  dsimp only
  generalize hf : (drain (UInt32.ofNat d.shardSize) h.len h _).2 = f
  split_ifs
  · rfl
  · exact settings_reconstruct { d with decodeCache := f.cache, flagCache := f.flags } f.maxlen

theorem settings_updateNewest (d : FecDecoder) (shardId : UInt32) :
    (d.updateNewest shardId).settings = d.settings := by
  unfold updateNewest
  split_ifs <;> rfl

/-- The state after the packet joined its heap, with the heap and what was recovered from it. -/
def join (d : FecDecoder) (pkt : Bytes) : FecDecoder × ShardHeap × List Bytes :=
  let shard := (d.shardOf (d.getShardId (fecSeqid pkt))).push pkt
  if shard.len ≥ d.dataShards then d.recover shard else (d, shard, [])

private theorem settings_join (d : FecDecoder) (pkt : Bytes) :
    (d.join pkt).1.settings = d.settings := by
  unfold join
  dsimp only
  split_ifs
  · exact settings_recover d _
  · rfl

theorem collect_of_has {d : FecDecoder} {pkt : Bytes}
    (h : (d.shardOf (d.getShardId (fecSeqid pkt))).has (fecSeqid pkt) = true) :
    d.collect pkt = (d.setShard (d.getShardId (fecSeqid pkt))
      (d.shardOf (d.getShardId (fecSeqid pkt))), []) := by
  unfold collect
  dsimp only
  rw [if_pos h]

theorem collect_of_not_has {d : FecDecoder} {pkt : Bytes}
    (h : (d.shardOf (d.getShardId (fecSeqid pkt))).has (fecSeqid pkt) = false) :
    d.collect pkt = ((((d.join pkt).1.setShard (d.getShardId (fecSeqid pkt))
      (d.join pkt).2.1).updateNewest
      (d.getShardId (fecSeqid pkt))).discardShards, (d.join pkt).2.2) := by
  unfold collect
  dsimp only
  rw [if_neg (by rw [h]; exact Bool.false_ne_true)]
  rfl

theorem settings_collect (d : FecDecoder) (pkt : Bytes) : (d.collect pkt).1.settings = d.settings := by
  cases h : (d.shardOf (d.getShardId (fecSeqid pkt))).has (fecSeqid pkt) with
  | true =>
    rw [collect_of_has h]
    rfl
  | false =>
    rw [collect_of_not_has h]
    exact (settings_updateNewest _ _).trans (settings_join d pkt)

def sampled (d : FecDecoder) (pkt : Bytes) : FecDecoder :=
  { d with autoTune := d.autoTune.sample (fecFlag pkt == TYPE_DATA) (fecSeqid pkt) }

theorem decode_short {d : FecDecoder} {pkt : Bytes} (h : pkt.length < FEC_HEADER_SIZE) :
    d.decode pkt = (d, []) := if_pos h

theorem decode_beyond {d : FecDecoder} {pkt : Bytes} (h : FEC_HEADER_SIZE ≤ pkt.length)
    (hseq : d.paws ≤ fecSeqid pkt) : d.decode pkt = (d.sampled pkt, []) := by
  unfold decode
  rw [if_neg (Nat.not_lt.mpr h)]
  exact if_pos hseq

private theorem decode_eq {d : FecDecoder} {pkt : Bytes} (h : FEC_HEADER_SIZE ≤ pkt.length)
    (hseq : fecSeqid pkt < d.paws) {f : FecDecoder}
    (hflag : f = { d.sampled pkt with
      shouldTune := d.shouldTune || d.mismatch (fecSeqid pkt) (fecFlag pkt) }) :
    d.decode pkt = if f.shouldTune then (f.tune, []) else f.collect pkt := by
  subst hflag
  unfold decode
  rw [if_neg (Nat.not_lt.mpr h)]
  dsimp only
  rw [if_neg (UInt32.not_le.mpr hseq)]
  rfl

theorem decode_match {d : FecDecoder} {pkt : Bytes} (h : FEC_HEADER_SIZE ≤ pkt.length)
    (hseq : fecSeqid pkt < d.paws) (hsync : d.shouldTune = false)
    (hmatch : d.mismatch (fecSeqid pkt) (fecFlag pkt) = false) :
    d.decode pkt = (d.sampled pkt).collect pkt := by
  rw [decode_eq (f := d.sampled pkt) h hseq]
  · rw [if_neg]
    change ¬ d.shouldTune = true
    rw [hsync]
    exact Bool.false_ne_true
  · have hor : (d.shouldTune || d.mismatch (fecSeqid pkt) (fecFlag pkt)) = d.shouldTune := by
      rw [hmatch, Bool.or_false]
    rw [hor]
    rfl

theorem decode_mismatch {d : FecDecoder} {pkt : Bytes} (h : FEC_HEADER_SIZE ≤ pkt.length)
    (hseq : fecSeqid pkt < d.paws)
    (htune : (d.shouldTune || d.mismatch (fecSeqid pkt) (fecFlag pkt)) = true) :
    d.decode pkt = (({ d.sampled pkt with shouldTune := true } : FecDecoder).tune, []) := by
  rw [decode_eq (f := { d.sampled pkt with shouldTune := true }) h hseq (by rw [htune]), if_pos rfl]

private theorem drain_elements (shardSize : UInt32) (fuel : ℕ) (h : ShardHeap) (f : Filling)
    (hfuel : h.elements.length ≤ fuel) : (drain shardSize fuel h f).1.elements = [] := by
  induction fuel generalizing h f with
  | zero => exact List.length_eq_zero_iff.mp (Nat.le_zero.mp hfuel)
  | succ fuel ih =>
    cases hel : h.elements with
    | nil =>
      have hpop : h.pop = none := by rw [ShardHeap.pop, hel]
      simp only [drain, hpop, hel]
    | cons x rest =>
      have hpop : h.pop = some (x, ⟨rest, h.marks.filter (· ≠ fecSeqid x)⟩) := by
        rw [ShardHeap.pop, hel]
      simp only [drain, hpop]
      refine ih _ _ ?_
      rw [hel, List.length_cons] at hfuel
      exact Nat.le_of_succ_le_succ hfuel

theorem sets_recover (d : FecDecoder) (h : ShardHeap) :
    (d.recover h).1.shardSet = d.shardSet ∧ (d.recover h).1.newestShardId = d.newestShardId ∧
      (d.recover h).2.1.elements = [] := by
  have hel := drain_elements (UInt32.ofNat d.shardSize) h.len h
    { cache := d.decodeCache.map fun _ => {}, flags := d.flagCache.map fun _ => false } le_rfl
  have hrec : ∀ (d' : FecDecoder) (maxlen : ℕ), (d'.reconstruct maxlen).1.shardSet = d'.shardSet ∧
      (d'.reconstruct maxlen).1.newestShardId = d'.newestShardId := by
    intro d' maxlen
    unfold reconstruct
    dsimp only
    split <;> exact ⟨rfl, rfl⟩
  unfold recover
  dsimp only
  generalize drain (UInt32.ofNat d.shardSize) h.len h _ = r at hel
  split_ifs
  · exact ⟨rfl, rfl, hel⟩
  · obtain ⟨h1, h2⟩ := hrec { d with decodeCache := r.2.cache, flagCache := r.2.flags } r.2.maxlen
    exact ⟨h1, h2, hel⟩

theorem sets_join (d : FecDecoder) (pkt : Bytes) (hpos : 0 < d.dataShards) :
    (d.join pkt).1.shardSet = d.shardSet ∧ (d.join pkt).1.newestShardId = d.newestShardId ∧
      (d.join pkt).2.1.len < d.dataShards := by
  unfold join
  dsimp only
  split_ifs with hfull
  · obtain ⟨h1, h2, h3⟩ := sets_recover d ((d.shardOf (d.getShardId (fecSeqid pkt))).push pkt)
    refine ⟨h1, h2, ?_⟩
    rw [ShardHeap.len, h3]
    exact hpos
  · exact ⟨rfl, rfl, Nat.lt_of_not_le hfull⟩

def newestAfter (ss : ℕ) (newest id : UInt32) : UInt32 :=
  if distance ss id newest > 0 then id else newest

theorem sets_collect {d : FecDecoder} {pkt : Bytes} {id : UInt32}
    (hid : d.getShardId (fecSeqid pkt) = id) (hpos : 0 < d.dataShards)
    (hnew : (d.shardOf id).has (fecSeqid pkt) = false) :
    (d.collect pkt).1.newestShardId = newestAfter d.shardSize d.newestShardId id ∧
      (d.collect pkt).1.shardSet =
        ((id, (d.join pkt).2.1) :: d.shardSet.filter fun e => e.1 ≠ id).filter fun e =>
          distance d.shardSize (newestAfter d.shardSize d.newestShardId id) e.1 ≤
            MAX_SHARD_SETS * d.shardSize := by
  subst hid
  obtain ⟨hset, hnewest, -⟩ := sets_join d pkt hpos
  have hsettings := settings_join d pkt
  simp only [settings, Prod.mk.injEq] at hsettings
  obtain ⟨-, -, hsize, -, -, -⟩ := hsettings
  rw [collect_of_not_has hnew]
  set j := d.join pkt
  set id := d.getShardId (fecSeqid pkt)
  have hd2new : ((j.1.setShard id j.2.1).updateNewest id).newestShardId =
      newestAfter d.shardSize d.newestShardId id := by
    rw [updateNewest]
    change (if itimediff (id * UInt32.ofNat j.1.shardSize)
      (j.1.newestShardId * UInt32.ofNat j.1.shardSize) > 0 then _ else _ : FecDecoder).newestShardId = _
    rw [hsize, hnewest, newestAfter, distance]
    split_ifs
    · rfl
    · exact hnewest
  have hd2size : ((j.1.setShard id j.2.1).updateNewest id).shardSize = d.shardSize := by
    rw [updateNewest]
    split_ifs <;> exact hsize
  have hd2set : ((j.1.setShard id j.2.1).updateNewest id).shardSet =
      (id, j.2.1) :: d.shardSet.filter fun e => e.1 ≠ id := by
    rw [← hset, updateNewest]
    split_ifs <;> rfl
  refine ⟨hd2new, ?_⟩
  unfold discardShards
  rw [hd2new, hd2size, hd2set]
  rfl

private theorem lookup_filter (sets : List (UInt32 × ShardHeap)) (p : UInt32 → Bool) (id : UInt32) :
    (sets.filter fun e => p e.1).lookup id = if p id then sets.lookup id else none := by
  induction sets with
  | nil => simp
  | cons e sets ih =>
    rw [List.filter_cons, List.lookup_cons]
    by_cases hid : id = e.1
    · subst hid
      by_cases hp : p e.1
      · rw [if_pos hp, if_pos hp, List.lookup_cons, beq_self_eq_true]
      · rw [if_neg hp, ih, if_neg hp, if_neg hp]
    · have hne : (id == e.1) = false := by simpa using hid
      rw [hne]
      by_cases hp : p e.1
      · rw [if_pos hp, List.lookup_cons, hne, ih]
      · rw [if_neg hp, ih]

private theorem shardOf_setShard (d : FecDecoder) (id k : UInt32) (h : ShardHeap) :
    (d.setShard id h).shardOf k = if k = id then h else d.shardOf k := by
  have hfilter := lookup_filter d.shardSet (fun i => decide (i ≠ id)) k
  unfold shardOf setShard
  rw [List.lookup_cons, hfilter]
  by_cases hk : k = id
  · subst hk
    simp
  · have hne : (k == id) = false := by simpa using hk
    simp [hne, hk]

theorem shardOf_collect {d : FecDecoder} {pkt : Bytes} {id : UInt32}
    (hid : d.getShardId (fecSeqid pkt) = id) (hpos : 0 < d.dataShards)
    (hnew : (d.shardOf id).has (fecSeqid pkt) = false) (k : UInt32) :
    (d.collect pkt).1.shardOf k =
      if distance d.shardSize (newestAfter d.shardSize d.newestShardId id) k ≤
        MAX_SHARD_SETS * d.shardSize then (if k = id then (d.join pkt).2.1 else d.shardOf k)
      else {} := by
  obtain ⟨-, hset⟩ := sets_collect hid hpos hnew
  have hfilter := lookup_filter ((id, (d.join pkt).2.1) :: d.shardSet.filter fun e => e.1 ≠ id)
    (fun i => decide (distance d.shardSize (newestAfter d.shardSize d.newestShardId id) i ≤
      MAX_SHARD_SETS * d.shardSize)) k
  have hput := shardOf_setShard d id k (d.join pkt).2.1
  unfold shardOf setShard at hput
  unfold shardOf
  rw [hset, hfilter]
  by_cases hkeep : distance d.shardSize (newestAfter d.shardSize d.newestShardId id) k ≤
      MAX_SHARD_SETS * d.shardSize
  · rw [if_pos (decide_eq_true hkeep), if_pos hkeep]
    exact hput
  · rw [if_neg (by simpa using hkeep), if_neg hkeep, Option.getD_none]

theorem shardOf_collect_of_has {d : FecDecoder} {pkt : Bytes} {id : UInt32}
    (hid : d.getShardId (fecSeqid pkt) = id) (hdup : (d.shardOf id).has (fecSeqid pkt) = true)
    (k : UInt32) : (d.collect pkt).1.shardOf k = d.shardOf k := by
  subst hid
  rw [collect_of_has hdup, shardOf_setShard]
  split_ifs with hk
  · rw [hk]
  · rfl

theorem decode_cases (d : FecDecoder) (pkt : Bytes) :
    d.decode pkt = (d, []) ∨ d.decode pkt = (d.sampled pkt, []) ∨
      d.decode pkt = (({ d.sampled pkt with shouldTune := true } : FecDecoder).tune, []) ∨
      (fecSeqid pkt < d.paws ∧ d.shouldTune = false ∧
        d.mismatch (fecSeqid pkt) (fecFlag pkt) = false ∧
        d.decode pkt = (d.sampled pkt).collect pkt) := by
  rcases Nat.lt_or_ge pkt.length FEC_HEADER_SIZE with hshort | hlong
  · exact .inl (decode_short hshort)
  by_cases hseq : fecSeqid pkt < d.paws
  · cases htune : d.shouldTune || d.mismatch (fecSeqid pkt) (fecFlag pkt) with
    | true => exact .inr (.inr (.inl (decode_mismatch hlong hseq htune)))
    | false =>
      obtain ⟨hsync, hmatch⟩ := Bool.or_eq_false_iff.mp htune
      exact .inr (.inr (.inr ⟨hseq, hsync, hmatch, decode_match hlong hseq hsync hmatch⟩))
  · exact .inr (.inl (decode_beyond hlong (UInt32.not_lt.mp hseq)))

theorem tune_cases (d : FecDecoder) :
    (∃ b, d.tune = { d with shouldTune := b }) ∨
      ∃ a b : ℕ, 0 < a ∧ 0 < b ∧ a + b < 256 ∧ d.autoTune.findPeriod true = a ∧
        d.autoTune.findPeriod false = b ∧ ¬ (a = d.dataShards ∧ b = d.parityShards) ∧
        d.tune = d.adopt a b := by
  unfold tune
  dsimp only
  split_ifs with hvalid hother
  · refine .inr ⟨_, _, ?_, ?_, ?_, ?_, ?_, ?_, rfl⟩ <;> omega
  · exact .inl ⟨false, rfl⟩
  · exact .inl ⟨d.shouldTune, rfl⟩

end FecDecoder

end Kcptun.Fec
