/- Kcptun/Fec/DecoderInRange
   source: crates/kcp/src/fec.rs (fec_seqid .. FecDecoder::decode), autotune.rs
   digest: The decoder with every index, slice, division and subtraction checked, and that none of
     them fails in a decoder whose caches, codec and ring fit together. -/

import Kcptun.Fec.EndToEnd
import Kcptun.Fec.PeriodSound
import Kcptun.Rs.CodecInRange

set_option autoImplicit false
set_option relaxedAutoImplicit false

namespace Kcptun.Fec

open Kcptun.Lib Kcptun.Lib.LittleEndian Kcptun.Arq

/-- `fec_seqid`; panics on fewer than 4 bytes. -/
def fecSeqidChecked (b : Bytes) : Option UInt32 := do
  return ofLe32 (← b[0]?) (← b[1]?) (← b[2]?) (← b[3]?)

/-- `fec_flag`; panics on fewer than 6 bytes. -/
def fecFlagChecked (b : Bytes) : Option UInt16 := do
  return ofLe16 (← b[4]?) (← b[5]?)

namespace AutoTune

def sampleChecked (t : AutoTune) (bit : Bool) (seq : UInt32) : Option AutoTune :=
  if t.tail < t.pulses.length then some (t.sample bit seq) else none

/-- The copy into `sort_cache`, which has room for the samples of a full ring. -/
def windowChecked (t : AutoTune) : Option (List Pulse) :=
  (List.range t.count).mapM fun i =>
    if i < MAX_AUTO_TUNE_SAMPLES then t.pulses[(t.head + i) % MAX_AUTO_TUNE_SAMPLES]? else none

end AutoTune

/-- The search for the edges: `sorted[0]`, `sorted[left_edge]` and `right_edge - left_edge`. -/
def pulseWidthChecked (bit : Bool) (sorted : List Pulse) : Option (Option ℕ) :=
  if sorted.isEmpty then none
  else
    match findEdge (fun lastPulse p => lastPulse.bit != bit && p.bit == bit) 1 sorted with
    | none => some none
    | some leftEdge =>
      if leftEdge < sorted.length then
        match findEdge (fun lastPulse p => lastPulse.bit == bit && p.bit != bit) (leftEdge + 1)
          (sorted.drop leftEdge) with
        | none => some none
        | some rightEdge => if leftEdge ≤ rightEdge then some (some (rightEdge - leftEdge)) else none
      else none

namespace AutoTune

def findPeriodChecked (t : AutoTune) (bit : Bool) : Option Int :=
  if t.count < 3 then some (-1)
  else
    t.windowChecked.bind fun window => (Gosort.slice Pulse.before window ()).bind fun sorted =>
      (pulseWidthChecked bit sorted.1).map fun width => (width.map Int.ofNat).getD (-1)

end AutoTune

namespace ShardHeap

def pushChecked (h : ShardHeap) (pkt : Bytes) : Option ShardHeap :=
  (fecSeqidChecked pkt).map fun seqid =>
    { elements := pkt :: h.elements, marks := h.marks.insert seqid }

def popChecked (h : ShardHeap) : Option (Option (Bytes × ShardHeap)) :=
  match h.elements with
  | [] => some none
  | x :: rest => (fecSeqidChecked x).map fun seqid =>
      some (x, { elements := rest, marks := h.marks.filter (· ≠ seqid) })

end ShardHeap

/-- `pkt.len() - FEC_HEADER_SIZE`, `decode_cache[idx]` and `flag_cache[idx]`. -/
def Filling.putChecked (shardSize : UInt32) (f : Filling) (pkt : Bytes) : Option Filling :=
  (fecSeqidChecked pkt).bind fun seqid => (fecFlagChecked pkt).bind fun _ =>
    if FEC_HEADER_SIZE ≤ pkt.length ∧ shardSize ≠ 0 ∧
        (seqid % shardSize).toNat < f.cache.length ∧ (seqid % shardSize).toNat < f.flags.length then
      some (f.put shardSize pkt)
    else none

def drainChecked (shardSize : UInt32) : ℕ → ShardHeap → Filling → Option (ShardHeap × Filling)
  | 0, h, f => some (h, f)
  | fuel + 1, h, f => h.popChecked.bind fun popped =>
    match popped with
    | none => some (h, f)
    | some (pkt, h) => (f.putChecked shardSize pkt).bind (drainChecked shardSize fuel h)

namespace FecDecoder

def mismatchChecked (d : FecDecoder) (seqid : UInt32) (flag : UInt16) : Option Bool :=
  if UInt32.ofNat d.shardSize ≠ 0 then some (d.mismatch seqid flag) else none

def getShardIdChecked (d : FecDecoder) (seqid : UInt32) : Option UInt32 :=
  if UInt32.ofNat d.shardSize ≠ 0 then some (d.getShardId seqid) else none

def adoptChecked (d : FecDecoder) (autoDs autoPs : ℕ) : Option FecDecoder :=
  (Rs.Codec.newChecked autoDs autoPs).run.map fun _ => d.adopt autoDs autoPs

def tuneChecked (d : FecDecoder) : Option FecDecoder :=
  (d.autoTune.findPeriodChecked true).bind fun autoDs =>
    (d.autoTune.findPeriodChecked false).bind fun autoPs =>
      if autoDs > 0 ∧ autoPs > 0 ∧ autoDs + autoPs < 256 then
        if autoDs.toNat ≠ d.dataShards ∨ autoPs.toNat ≠ d.parityShards then
          d.adoptChecked autoDs.toNat autoPs.toNat
        else some { d with shouldTune := false }
      else some d

def reconstructChecked (d : FecDecoder) (maxlen : ℕ) : Option (FecDecoder × List Bytes) :=
  let cache := (d.decodeCache.zip d.flagCache).mapIdx fun k (s, present) =>
    equalize d.dataShards maxlen k s present
  (d.codec.reconstructDataChecked (cache.map DecodeShard.shard)).map fun found =>
    match found.2 with
    | .error _ => ({ d with codec := found.1, decodeCache := cache }, [])
    | .ok shards =>
      let cache := List.zipWith DecodeShard.withShard cache shards
      ({ d with codec := found.1, decodeCache := cache }, missingShards d.dataShards cache d.flagCache)

def recoverChecked (d : FecDecoder) (h : ShardHeap) : Option (FecDecoder × ShardHeap × List Bytes) :=
  let f : Filling := { cache := d.decodeCache.map fun _ => {}, flags := d.flagCache.map fun _ => false }
  (drainChecked (UInt32.ofNat d.shardSize) h.len h f).bind fun drained =>
    let d := { d with decodeCache := drained.2.cache, flagCache := drained.2.flags }
    (if drained.2.numDataShard = d.dataShards then some (d, [])
      else d.reconstructChecked drained.2.maxlen).map fun r =>
        ({ r.1 with decodeCache := r.1.decodeCache.map fun _ => {} }, drained.1, r.2)

def collectChecked (d : FecDecoder) (pkt : Bytes) : Option (FecDecoder × List Bytes) :=
  (fecSeqidChecked pkt).bind fun inSeqid => (d.getShardIdChecked inSeqid).bind fun shardId =>
    let shard := d.shardOf shardId
    if shard.has inSeqid then some (d.setShard shardId shard, [])
    else
      (shard.pushChecked pkt).bind fun shard =>
        (if shard.len ≥ d.dataShards then d.recoverChecked shard else some (d, shard, [])).map fun r =>
          (((r.1.setShard shardId r.2.1).updateNewest shardId).discardShards, r.2.2)

/-- `decode`; nothing when an index, a slice, a division or a subtraction fails. -/
def decodeChecked (d : FecDecoder) (pkt : Bytes) : Option (FecDecoder × List Bytes) :=
  if pkt.length < FEC_HEADER_SIZE then some (d, [])
  else
    (fecSeqidChecked pkt).bind fun inSeqid => (fecFlagChecked pkt).bind fun inFlag =>
      (d.autoTune.sampleChecked (inFlag == TYPE_DATA) inSeqid).bind fun autoTune =>
        let d := { d with autoTune := autoTune }
        if inSeqid ≥ d.paws then some (d, [])
        else (d.mismatchChecked inSeqid inFlag).bind fun other =>
          let d := { d with shouldTune := d.shouldTune || other }
          if d.shouldTune then d.tuneChecked.map fun d => (d, []) else d.collectChecked pkt

end FecDecoder

section Header

variable {b : Bytes}

theorem fecSeqidChecked_eq (h : FEC_HEADER_SIZE ≤ b.length) :
    fecSeqidChecked b = some (fecSeqid b) := by
  unfold FEC_HEADER_SIZE at h
  unfold fecSeqidChecked fecSeqid
  rw [List.getElem?_eq_getElem (by omega), List.getElem?_eq_getElem (by omega),
    List.getElem?_eq_getElem (by omega), List.getElem?_eq_getElem (by omega),
    List.getD_eq_getElem _ _ (by omega), List.getD_eq_getElem _ _ (by omega),
    List.getD_eq_getElem _ _ (by omega), List.getD_eq_getElem _ _ (by omega)]
  rfl

theorem fecFlagChecked_eq (h : FEC_HEADER_SIZE ≤ b.length) :
    fecFlagChecked b = some (fecFlag b) := by
  unfold FEC_HEADER_SIZE at h
  unfold fecFlagChecked fecFlag
  rw [List.getElem?_eq_getElem (by omega), List.getElem?_eq_getElem (by omega),
    List.getD_eq_getElem _ _ (by omega), List.getD_eq_getElem _ _ (by omega)]
  rfl

end Header

section Tuner

private theorem findEdge_lt {edge : Pulse → Pulse → Bool} {idx k : ℕ} {pulses : List Pulse}
    (h : findEdge edge idx pulses = some k) : idx ≤ k ∧ k + 1 < idx + pulses.length := by
  obtain ⟨hle, p, q, rest, hdrop, -, -⟩ := findEdge_drop h
  have hlen := congrArg List.length hdrop
  rw [List.length_drop, List.length_cons, List.length_cons] at hlen
  constructor <;> omega

private theorem pulseWidthChecked_eq (bit : Bool) {sorted : List Pulse} (hne : sorted ≠ []) :
    pulseWidthChecked bit sorted = some (pulseWidth bit sorted) := by
  unfold pulseWidthChecked pulseWidth
  rw [if_neg (by rwa [List.isEmpty_iff])]
  cases hleft : findEdge (fun lastPulse p => lastPulse.bit != bit && p.bit == bit) 1 sorted with
  | none => rfl
  | some leftEdge =>
    have hlt := findEdge_lt hleft
    dsimp only
    rw [if_pos (by omega)]
    cases hright : findEdge (fun lastPulse p => lastPulse.bit == bit && p.bit != bit) (leftEdge + 1)
      (sorted.drop leftEdge) with
    | none =>
      have hnone : (findEdge (fun lastPulse p => lastPulse.bit == bit && p.bit != bit) (leftEdge + 1)
        (sorted.drop leftEdge)).bind (fun rightEdge => some (rightEdge - leftEdge)) = none := by
        rw [hright]
        rfl
      exact congrArg some hnone.symm
    | some rightEdge =>
      have hle := (findEdge_lt hright).1
      have hsome : (findEdge (fun lastPulse p => lastPulse.bit == bit && p.bit != bit) (leftEdge + 1)
        (sorted.drop leftEdge)).bind (fun rightEdge => some (rightEdge - leftEdge)) =
          some (rightEdge - leftEdge) := by
        rw [hright]
        rfl
      dsimp only
      rw [if_pos (by omega)]
      exact congrArg some hsome.symm

namespace AutoTune

variable {t : AutoTune}

theorem Ok.sampleChecked_eq (h : t.Ok) (bit : Bool) (seq : UInt32) :
    t.sampleChecked bit seq = some (t.sample bit seq) := by
  apply if_pos
  rw [h.tail_eq, h.length]
  exact Nat.mod_lt _ (by decide)

private theorem Ok.windowChecked_eq (h : t.Ok) : t.windowChecked = some t.window := by
  apply mapM_of_some
  intro i hi
  have hslot : (t.head + i) % MAX_AUTO_TUNE_SAMPLES < t.pulses.length := by
    rw [h.length]
    exact Nat.mod_lt _ (by decide)
  rw [if_pos (lt_of_lt_of_le (List.mem_range.mp hi) h.count_le), List.getElem?_eq_getElem hslot,
    List.getD_eq_getElem _ _ hslot]

private theorem Ok.findPeriodChecked_eq (h : t.Ok) (bit : Bool) :
    t.findPeriodChecked bit = some (t.findPeriod bit) := by
  unfold findPeriodChecked findPeriod
  split_ifs with hfew
  · rfl
  · obtain ⟨sorted, _, hsort, hperm⟩ := Gosort.slice_perm Pulse.before t.window ()
    have hsorted : sortPulses t.window = sorted := by
      unfold sortPulses
      rw [hsort]
      rfl
    have hne : sorted ≠ [] := by
      intro hnil
      have hlen := hperm.length_eq
      rw [hnil, List.length_nil, length_window] at hlen
      omega
    rw [h.windowChecked_eq, Option.bind_some, hsort, Option.bind_some, pulseWidthChecked_eq bit hne,
      hsorted]
    rfl

end AutoTune

end Tuner

section Recovery

variable {ss : ℕ}

private theorem toNat_ofNat_size (hle : ss ≤ 256) : (UInt32.ofNat ss).toNat = ss := by
  rw [UInt32.toNat_ofNat']
  omega

theorem ofNat_size_ne_zero (hpos : 0 < ss) (hle : ss ≤ 256) : UInt32.ofNat ss ≠ 0 := by
  intro hzero
  have hsize := toNat_ofNat_size hle
  rw [hzero] at hsize
  exact hpos.ne hsize

private theorem putChecked_eq (hpos : 0 < ss) (hle : ss ≤ 256) {f : Filling}
    (hcache : f.cache.length = ss)
    (hflags : f.flags.length = ss) {pkt : Bytes} (hlen : FEC_HEADER_SIZE ≤ pkt.length) :
    f.putChecked (UInt32.ofNat ss) pkt = some (f.put (UInt32.ofNat ss) pkt) := by
  have hslot : (fecSeqid pkt % UInt32.ofNat ss).toNat < ss := by
    rw [UInt32.toNat_mod, toNat_ofNat_size hle]
    exact Nat.mod_lt _ hpos
  unfold Filling.putChecked
  rw [fecSeqidChecked_eq hlen, Option.bind_some, fecFlagChecked_eq hlen, Option.bind_some, hcache,
    hflags, if_pos ⟨hlen, ofNat_size_ne_zero hpos hle, hslot, hslot⟩]

private theorem popChecked_eq {h : ShardHeap}
    (hheader : ∀ p ∈ h.elements, FEC_HEADER_SIZE ≤ p.length) : h.popChecked = some h.pop := by
  obtain ⟨elements, marks⟩ := h
  cases elements with
  | nil => rfl
  | cons x rest =>
    unfold ShardHeap.popChecked ShardHeap.pop
    dsimp only
    rw [fecSeqidChecked_eq (hheader x List.mem_cons_self)]
    rfl

private theorem pushChecked_eq {h : ShardHeap} {pkt : Bytes} (hlen : FEC_HEADER_SIZE ≤ pkt.length) :
    h.pushChecked pkt = some (h.push pkt) := by
  unfold ShardHeap.pushChecked
  rw [fecSeqidChecked_eq hlen]
  rfl

private theorem drainChecked_eq (hpos : 0 < ss) (hle : ss ≤ 256) (fuel : ℕ) {h : ShardHeap}
    {f : Filling}
    (hheader : ∀ p ∈ h.elements, FEC_HEADER_SIZE ≤ p.length) (hcache : f.cache.length = ss)
    (hflags : f.flags.length = ss) :
    drainChecked (UInt32.ofNat ss) fuel h f = some (drain (UInt32.ofNat ss) fuel h f) := by
  induction fuel generalizing h f with
  | zero => rfl
  | succ fuel ih =>
    unfold drainChecked drain
    rw [popChecked_eq hheader, Option.bind_some]
    cases hpop : h.pop with
    | none => rfl
    | some popped =>
      obtain ⟨pkt, rest⟩ := popped
      obtain ⟨elements, marks⟩ := h
      cases elements with
      | nil => cases hpop
      | cons x elements =>
        cases hpop
        dsimp only
        rw [putChecked_eq hpos hle hcache hflags (hheader pkt List.mem_cons_self), Option.bind_some]
        exact ih (fun p hp => hheader p (List.mem_cons_of_mem pkt hp)) (List.length_set.trans hcache)
          (List.length_set.trans hflags)

end Recovery

namespace FecDecoder

variable {d : FecDecoder} {ds ps : ℕ} {m : Rs.Matrix}

theorem Ready.size_pos (h : d.Ready ds ps m) : 0 < d.shardSize ∧ d.shardSize ≤ 256 := by
  rw [h.size]
  exact ⟨Nat.add_pos_left h.codec_ok.pos ps, h.size_le⟩

private theorem reconstructChecked_eq (h : d.codec.Ok ds ps m) (hle : ds + ps ≤ 256) (maxlen : ℕ) :
    d.reconstructChecked maxlen = some (d.reconstruct maxlen) := by
  unfold reconstructChecked reconstruct
  dsimp only
  exact congrArg (Option.map _) (Rs.Codec.reconstructDataChecked_eq h hle _)

private theorem Ready.recoverChecked_eq (h : d.Ready ds ps m) {heap : ShardHeap}
    (hheader : ∀ p ∈ heap.elements, FEC_HEADER_SIZE ≤ p.length) :
    d.recoverChecked heap = some (d.recover heap) := by
  unfold FecDecoder.recoverChecked FecDecoder.recover
  dsimp only
  rw [drainChecked_eq h.size_pos.1 h.size_pos.2 heap.len hheader
    (by rw [List.length_map, h.cache, h.size]) (by rw [List.length_map, h.flags, h.size]),
    Option.bind_some]
  generalize drain (UInt32.ofNat d.shardSize) heap.len heap _ = drained
  split_ifs
  · rfl
  · have hreconstruct := @reconstructChecked_eq
      { d with decodeCache := drained.2.cache, flagCache := drained.2.flags } ds ps m h.codec_ok
      h.size_le drained.2.maxlen
    rw [hreconstruct]
    rfl

theorem Ready.collectChecked_eq (h : d.Ready ds ps m) {pkt : Bytes}
    (hlen : FEC_HEADER_SIZE ≤ pkt.length)
    (hheader : ∀ p ∈ (d.shardOf (d.getShardId (fecSeqid pkt))).elements,
      FEC_HEADER_SIZE ≤ p.length) : d.collectChecked pkt = some (d.collect pkt) := by
  have hpush : ∀ p ∈ ((d.shardOf (d.getShardId (fecSeqid pkt))).push pkt).elements,
      FEC_HEADER_SIZE ≤ p.length := List.forall_mem_cons.mpr ⟨hlen, hheader⟩
  unfold FecDecoder.collectChecked FecDecoder.collect getShardIdChecked
  rw [fecSeqidChecked_eq hlen, Option.bind_some,
    if_pos (ofNat_size_ne_zero h.size_pos.1 h.size_pos.2), Option.bind_some]
  dsimp only
  by_cases hdup : (d.shardOf (d.getShardId (fecSeqid pkt))).has (fecSeqid pkt) = true
  · rw [if_pos hdup, if_pos hdup]
  · rw [if_neg hdup, if_neg hdup, pushChecked_eq hlen, Option.bind_some,
      h.recoverChecked_eq hpush]
    split_ifs <;> rfl

theorem tuneChecked_eq (h : d.autoTune.Ok) : d.tuneChecked = some d.tune := by
  unfold tuneChecked tune adoptChecked
  rw [h.findPeriodChecked_eq, Option.bind_some, h.findPeriodChecked_eq, Option.bind_some]
  dsimp only
  rw [Rs.Codec.newChecked_eq]
  split_ifs <;> rfl

end FecDecoder

end Kcptun.Fec
