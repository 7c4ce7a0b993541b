/- Kcptun/Fec/Stream
   source: crates/kcp/src/fec.rs (FecEncoder::encode)
   digest: What one call of the encoder does: the sealed packet, the parity shards of a complete
     group and the invariant the shard cache keeps between calls. -/

import Kcptun.Fec.Encoder
import Kcptun.Rs.Erasure

set_option autoImplicit false
set_option relaxedAutoImplicit false

namespace Kcptun.Fec

open Kcptun.Lib Kcptun.Lib.LittleEndian

section Overwrite

variable {b bytes : Bytes} {k : ℕ}

theorem length_overwrite (h : k + bytes.length ≤ b.length) :
    (overwrite b k bytes).length = b.length := by
  unfold overwrite
  rw [List.length_append, List.length_append, List.length_take, List.length_drop]
  omega

private theorem drop_overwrite (h : k ≤ b.length) :
    (overwrite b k bytes).drop k = bytes ++ b.drop (k + bytes.length) := by
  unfold overwrite
  rw [List.append_assoc, List.drop_append_of_le_length (by rw [List.length_take]; omega),
    List.drop_take_self, List.nil_append]

private theorem getD_modify {α : Type} (l : List α) (k i : ℕ) (f : α → α) (d : α)
    (hi : i < l.length) :
    (l.modify k f).getD i d = if k = i then f (l.getD i d) else l.getD i d := by
  rw [List.getD_eq_getElem?_getD, List.getD_eq_getElem?_getD, List.getElem?_modify,
    List.getElem?_eq_getElem hi]
  split_ifs <;> rfl

private theorem forall_mem_modify {α : Type} {l : List α} {k : ℕ} {f : α → α} {p : α → Prop}
    (h : ∀ a ∈ l, p a) (hf : ∀ a ∈ l, p (f a)) : ∀ a ∈ l.modify k f, p a := by
  intro a ha
  obtain ⟨i, hi, rfl⟩ := List.mem_iff_getElem.mp ha
  rw [List.getElem_modify]
  split_ifs
  · exact hf _ (List.getElem_mem _)
  · exact h _ (List.getElem_mem _)

end Overwrite

@[simp] theorem length_fecHeader (seqid : UInt32) (flag : UInt16) :
    (fecHeader seqid flag).length = 6 := by
  simp [fecHeader]

theorem fecSeqid_fecHeader (seqid : UInt32) (flag : UInt16) (rest : Bytes) :
    fecSeqid (fecHeader seqid flag ++ rest) = seqid := by
  simp only [fecSeqid, fecHeader, le32, List.cons_append, List.nil_append, List.getD_cons_zero,
    List.getD_cons_succ, ofLe32_le32]

theorem fecFlag_fecHeader (seqid : UInt32) (flag : UInt16) (rest : Bytes) :
    fecFlag (fecHeader seqid flag ++ rest) = flag := by
  simp only [fecFlag, fecHeader, le32, le16, List.cons_append, List.nil_append, List.getD_cons_zero,
    List.getD_cons_succ, ofLe16_le16]

/-- The RS shard of a packet before it is padded: the size field and the KCP bytes. -/
def dataShard (payloadOffset : ℕ) (b : Bytes) : Bytes :=
  le16 (UInt16.ofNat (b.length - payloadOffset)) ++ b.drop (payloadOffset + 2)

theorem length_dataShard {po : ℕ} {b : Bytes} (h : po + 2 ≤ b.length) :
    (dataShard po b).length = b.length - po := by
  simp [dataShard]
  omega

def padTo (len : ℕ) (b : Bytes) : Bytes := b ++ List.replicate (len - b.length) 0

@[simp] theorem length_padTo {len : ℕ} {b : Bytes} (h : b.length ≤ len) :
    (padTo len b).length = len := by
  simp [padTo]
  omega

def longest (group : List Bytes) : ℕ := (group.map List.length).foldl max 0

private theorem longest_append (group : List Bytes) (b : Bytes) :
    longest (group ++ [b]) = max (longest group) b.length := by
  simp [longest]

theorem foldl_max_le_iff (lens : List ℕ) (init bound : ℕ) :
    lens.foldl max init ≤ bound ↔ init ≤ bound ∧ ∀ n ∈ lens, n ≤ bound := by
  induction lens generalizing init with
  | nil => simp
  | cons n lens ih =>
    rw [List.foldl_cons, ih, List.forall_mem_cons, max_le_iff, and_assoc]

theorem longest_le_iff {group : List Bytes} {bound : ℕ} :
    longest group ≤ bound ↔ ∀ b ∈ group, b.length ≤ bound := by
  unfold longest
  rw [foldl_max_le_iff, List.forall_mem_map]
  simp

theorem length_le_longest {group : List Bytes} {b : Bytes} (h : b ∈ group) :
    b.length ≤ longest group := longest_le_iff.mp le_rfl b h

section Paws

variable {ss : ℕ}

theorem toNat_paws (hpos : 0 < ss) (hle : ss ≤ 256) : (paws ss).toNat = 4294967295 / ss * ss := by
  have hss : (UInt32.ofNat ss).toNat = ss := by
    rw [UInt32.toNat_ofNat']
    omega
  have hmul : 4294967295 / ss * ss ≤ 4294967295 := Nat.div_mul_le_self _ _
  unfold paws
  rw [UInt32.toNat_mul, UInt32.toNat_div, hss]
  change 4294967295 / ss * ss % 4294967296 = _
  omega

theorem dvd_paws (hpos : 0 < ss) (hle : ss ≤ 256) : ss ∣ (paws ss).toNat := by
  rw [toNat_paws hpos hle]
  exact Nat.dvd_mul_left _ _

theorem lt_paws (hpos : 0 < ss) (hle : ss ≤ 256) : 4294967295 - 256 < (paws ss).toNat := by
  rw [toNat_paws hpos hle]
  have hmod := Nat.mod_lt 4294967295 hpos
  have hdiv := Nat.div_add_mod 4294967295 ss
  rw [Nat.mul_comm] at hdiv
  omega

/-- The seqid of packet `i` of group `g`: groups are numbered on, their seqids wrap at `paws`. -/
def seqOf (ss g i : ℕ) : ℕ := g % (4294967295 / ss) * ss + i

theorem seqOf_lt (hpos : 0 < ss) (hle : ss ≤ 256) (g : ℕ) {i : ℕ} (hi : i < ss) :
    seqOf ss g i < (paws ss).toNat := by
  have hgroups : 0 < 4294967295 / ss := Nat.div_pos (by omega) hpos
  have hlt := Nat.mod_lt g hgroups
  rw [toNat_paws hpos hle]
  calc seqOf ss g i < (g % (4294967295 / ss) + 1) * ss := by
        rw [seqOf, Nat.add_mul]
        omega
    _ ≤ 4294967295 / ss * ss := Nat.mul_le_mul_right ss hlt

theorem seqOf_mod (g : ℕ) {i : ℕ} (hi : i < ss) : seqOf ss g i % ss = i := by
  rw [seqOf, Nat.mul_comm, Nat.mul_add_mod, Nat.mod_eq_of_lt hi]

theorem seqOf_div (g : ℕ) {i : ℕ} (hi : i < ss) : seqOf ss g i / ss = g % (4294967295 / ss) := by
  rw [seqOf, Nat.mul_comm, Nat.mul_add_div (by omega), Nat.div_eq_of_lt hi, Nat.add_zero]

theorem seqOf_eq {g i : ℕ} (h : g * ss + i < 4294967295 / ss * ss) : seqOf ss g i = g * ss + i := by
  have hlt : g < 4294967295 / ss := by
    refine Nat.lt_of_mul_lt_mul_right (a := ss) ?_
    omega
  rw [seqOf, Nat.mod_eq_of_lt hlt]

private theorem toNat_advance {m : UInt32} {g i c : ℕ} (hpos : 0 < ss) (hle : ss ≤ 256)
    (hm : m.toNat = seqOf ss g i) (hc : i + c ≤ ss) :
    ((m + UInt32.ofNat c) % paws ss).toNat =
      if i + c = ss then seqOf ss (g + 1) 0 else seqOf ss g (i + c) := by
  have hlt := (paws ss).toNat_lt
  have hgroups : 0 < 4294967295 / ss := Nat.div_pos (by omega) hpos
  have hmod := Nat.mod_lt g hgroups
  have hend : (g % (4294967295 / ss) + 1) * ss ≤ 4294967295 / ss * ss := Nat.mul_le_mul_right ss hmod
  rw [Nat.add_mul, Nat.one_mul] at hend
  have hpaws := toNat_paws hpos hle
  rw [UInt32.toNat_mod, UInt32.toNat_add, UInt32.toNat_ofNat', Nat.mod_eq_of_lt (a := c) (by omega),
    hm, Nat.mod_eq_of_lt (a := seqOf ss g i + c) (by unfold seqOf; omega)]
  split_ifs with hfull
  · have hsum : seqOf ss g i + c = (g % (4294967295 / ss) + 1) * ss := by
      rw [seqOf, Nat.add_mul]
      omega
    rw [hsum, hpaws, Nat.mul_mod_mul_right, Nat.mod_add_mod]
    rfl
  · rw [Nat.mod_eq_of_lt (by rw [hpaws]; unfold seqOf; omega)]
    unfold seqOf
    omega

end Paws

def shardSizeOf (po : ℕ) (group : List Bytes) : ℕ := longest group - po

/-- The data shards of a group: equal-sized, with zeros at the end. -/
def groupData (po : ℕ) (group : List Bytes) : List Bytes :=
  group.map fun b => padTo (shardSizeOf po group) (dataShard po b)

/-- Parity packet `i` (counted from the first data packet) of group `g`, from the FEC header on. -/
def parityPacket (ss po g : ℕ) (m : Rs.Matrix) (group : List Bytes) (i : ℕ) : Bytes :=
  fecHeader (UInt32.ofNat (seqOf ss g i)) TYPE_PARITY ++
    Rs.codeRow (m.row i) (groupData po group) (shardSizeOf po group)

/-- Data packet `i` of group `g`, from the FEC header on. -/
def dataPacket (ss po g i : ℕ) (b : Bytes) : Bytes :=
  fecHeader (UInt32.ofNat (seqOf ss g i)) TYPE_DATA ++ dataShard po b

namespace FecEncoder

/-- The shard cache of an encoder holds the packets of `group`, the part of a group it has seen. -/
structure Holds (e : FecEncoder) (ds ps ho : ℕ) (m : Rs.Matrix) (group : List Bytes) : Prop where
  data : e.dataShards = ds
  parity : e.parityShards = ps
  size : e.shardSize = ds + ps
  paws_eq : e.paws = Fec.paws (ds + ps)
  header : e.headerOffset = ho
  payload : e.payloadOffset = saturatingAdd ho FEC_HEADER_SIZE
  codec_ok : e.codec.Ok ds ps m
  parity_pos : 0 < ps
  size_le : ds + ps ≤ 256
  cache_length : e.shardCache.length = ds + ps
  slot_length : ∀ s ∈ e.shardCache, s.length = MTU_LIMIT
  len_length : e.shardLen.length = ds + ps
  stored : ∀ i < group.length, e.shardLen.getD i 0 = (group.getD i []).length ∧
    ((e.shardCache.getD i []).take (group.getD i []).length).drop e.payloadOffset =
      dataShard e.payloadOffset (group.getD i [])
  max_eq : e.maxSize = longest group
  admitted : ∀ b ∈ group, e.payloadOffset + 2 ≤ b.length ∧ b.length ≤ MTU_LIMIT

/-- The state of an encoder that has accepted `n` packets, of which `group` are waiting for their
group to be complete. -/
structure Ok (e : FecEncoder) (ds ps ho : ℕ) (m : Rs.Matrix) (n : ℕ) (group : List Bytes) : Prop
    extends Holds e ds ps ho m group where
  count : e.shardCount = n % ds
  group_length : group.length = n % ds
  next_eq : e.next.toNat = seqOf (ds + ps) (n / ds) (n % ds)

def Admits (ho : ℕ) (b : Bytes) : Prop := ho + 8 ≤ b.length ∧ b.length ≤ MTU_LIMIT

instance (ho : ℕ) (b : Bytes) : Decidable (Admits ho b) := inferInstanceAs (Decidable (_ ∧ _))

theorem new_ok {ds ps : ℕ} (hds : 1 ≤ ds) (hps : 1 ≤ ps) (hsum : ds + ps ≤ 256) (ho : ℕ) :
    ∃ e m, new ds ps ho = .ok (some e) ∧ e.Ok ds ps ho m 0 [] ∧
      e.tsLatestPacket = -4611686018427387904 := by
  obtain ⟨codec, m, hnew, hok⟩ := Rs.Codec.new_spec hds hps hsum
  unfold new
  rw [if_neg (by omega), Int.toNat_natCast, Int.toNat_natCast, hnew]
  refine ⟨_, m, rfl, ?_, rfl⟩
  exact {
    data := rfl, parity := rfl, size := rfl, paws_eq := rfl, header := rfl, payload := rfl
    codec_ok := hok, parity_pos := hps, size_le := hsum
    count := (Nat.zero_mod ds).symm
    group_length := (Nat.zero_mod ds).symm
    next_eq := by
      rw [Nat.zero_div, Nat.zero_mod, seqOf, Nat.zero_mod, Nat.zero_mul]
      rfl
    cache_length := List.length_replicate
    slot_length := by
      intro s hs
      rw [List.eq_of_mem_replicate hs]
      exact List.length_replicate
    len_length := List.length_replicate
    stored := fun i hi => absurd hi (Nat.not_lt_zero i)
    max_eq := rfl
    admitted := fun b hb => absurd hb List.not_mem_nil }

variable {e : FecEncoder} {ds ps ho : ℕ} {m : Rs.Matrix} {group : List Bytes} {b : Bytes}

theorem Holds.payload_eq (h : e.Holds ds ps ho m group) (hb : Admits ho b) :
    e.payloadOffset = ho + 6 := by
  have hle := hb.1.trans hb.2
  rw [h.payload, saturatingAdd, FEC_HEADER_SIZE]
  unfold MTU_LIMIT at hle
  omega

private theorem Holds.sealData (h : e.Holds ds ps ho m group) (hb : Admits ho b) :
    e.sealData b = b.take ho ++ fecHeader e.next TYPE_DATA ++ dataShard (ho + 6) b := by
  have hpo := h.payload_eq hb
  have hle := hb.1
  have hin : overwrite b ho (fecHeader e.next TYPE_DATA) =
      (b.take ho ++ fecHeader e.next TYPE_DATA) ++ b.drop (ho + 6) := by
    rw [overwrite, length_fecHeader]
  have hlen : (b.take ho ++ fecHeader e.next TYPE_DATA).length = ho + 6 := by
    rw [List.length_append, List.length_take, length_fecHeader]
    omega
  have hall : ((b.take ho ++ fecHeader e.next TYPE_DATA) ++ b.drop (ho + 6)).length = b.length := by
    rw [List.length_append, hlen, List.length_drop]
    omega
  unfold FecEncoder.sealData
  dsimp only
  rw [h.header, hpo, hin, hall]
  generalize b.take ho ++ fecHeader e.next TYPE_DATA = front at hlen
  rw [overwrite, ← hlen, List.take_left, length_le16, List.drop_append, hlen]
  simp [dataShard]
  omega

@[simp] theorem length_sealData (h : e.Holds ds ps ho m group) (hb : Admits ho b) :
    (e.sealData b).length = b.length := by
  have hle := hb.1
  rw [h.sealData hb, List.length_append, List.length_append, length_fecHeader, List.length_take,
    length_dataShard (by omega)]
  omega

theorem drop_sealData (h : e.Holds ds ps ho m group) (hb : Admits ho b) :
    (e.sealData b).drop ho = fecHeader e.next TYPE_DATA ++ dataShard (ho + 6) b := by
  have hlen : (b.take ho).length = ho := by
    rw [List.length_take]
    have := hb.1
    omega
  rw [h.sealData hb, List.append_assoc, List.drop_append_of_le_length hlen.ge,
    List.drop_take_self, List.nil_append]

private theorem drop_payload_sealData (h : e.Holds ds ps ho m group) (hb : Admits ho b) :
    (e.sealData b).drop e.payloadOffset = dataShard (ho + 6) b := by
  rw [h.payload_eq hb, ← List.drop_drop, drop_sealData h hb, List.drop_append_of_le_length (by simp)]
  rfl

private theorem Holds.store (h : e.Holds ds ps ho m group) (hb : Admits ho b)
    (hcount : e.shardCount = group.length) (hlt : group.length < ds) :
    (e.advance.store (e.sealData b)).Holds ds ps ho m (group ++ [b]) := by
  have hpo := h.payload_eq hb
  have hlen := length_sealData h hb
  have hle := hb.1
  have hmtu := hb.2
  have hslot : ∀ s ∈ e.shardCache, e.payloadOffset + ((e.sealData b).drop e.payloadOffset).length ≤
      s.length := by
    intro s hs
    rw [List.length_drop, hlen, h.slot_length s hs, hpo]
    omega
  exact {
    data := h.data, parity := h.parity, size := h.size, paws_eq := h.paws_eq, header := h.header
    payload := h.payload, codec_ok := h.codec_ok, parity_pos := h.parity_pos, size_le := h.size_le
    cache_length := (List.length_modify _ _ _).trans h.cache_length
    slot_length := forall_mem_modify h.slot_length fun s hs => by
      change (overwrite s e.payloadOffset ((e.sealData b).drop e.payloadOffset)).length = _
      rw [length_overwrite (hslot s hs), h.slot_length s hs]
    len_length := (List.length_set).trans h.len_length
    stored := by
      intro i hi
      rw [List.length_append, List.length_singleton] at hi
      have hcache : i < e.shardCache.length := by
        rw [h.cache_length]
        omega
      change (e.shardLen.set e.shardCount _).getD i 0 = _ ∧
        (((e.shardCache.modify e.shardCount _).getD i []).take _).drop e.payloadOffset =
          dataShard e.payloadOffset _
      rw [getD_modify _ _ _ _ _ hcache, List.getD_eq_getElem?_getD]
      rcases Nat.lt_or_ge i group.length with hold | hnew
      · have hne : e.shardCount ≠ i := by omega
        rw [List.getD_append _ _ _ _ hold, List.getElem?_set_ne hne, if_neg hne,
          ← List.getD_eq_getElem?_getD]
        exact h.stored i hold
      · have heq : i = group.length := by omega
        have hmem : e.shardCache.getD group.length [] ∈ e.shardCache := by
          rw [← heq, List.getD_eq_getElem _ _ hcache]
          exact List.getElem_mem hcache
        subst heq
        rw [hcount, List.getElem?_set_self (by rw [h.len_length]; omega), if_pos rfl,
          List.getD_append_right _ _ _ _ (Nat.le_refl _), Nat.sub_self]
        refine ⟨hlen, ?_⟩
        simp only [List.getD_cons_zero]
        change List.drop e.payloadOffset (List.take b.length (overwrite _ e.payloadOffset
          ((e.sealData b).drop e.payloadOffset))) = _
        rw [List.drop_take, drop_overwrite, drop_payload_sealData h hb, hpo,
          List.take_append_of_le_length]
        · rw [List.take_of_length_le]
          rw [length_dataShard (by omega)]
        · rw [length_dataShard (by omega)]
        · rw [h.slot_length _ hmem, hpo]
          omega
    max_eq := by
      change (if (e.sealData b).length > e.maxSize then (e.sealData b).length else e.maxSize) = _
      rw [longest_append, hlen, h.max_eq]
      split_ifs <;> omega
    admitted := by
      intro c hc
      rcases List.mem_append.mp hc with hold | hnew
      · exact h.admitted c hold
      · rw [List.mem_singleton.mp hnew]
        change e.payloadOffset + 2 ≤ _ ∧ _
        omega }

private theorem foldl_sealParity {ss g : ℕ} (hpos : 0 < ss) (hle : ss ≤ 256) (c : ℕ) {k : ℕ}
    (hk : k + c = ss) (hpaws : e.paws = Fec.paws ss)
    (hnext : e.next.toNat = if k = ss then seqOf ss (g + 1) 0 else seqOf ss g k) :
    let r := (List.range' k c).foldl sealParity e
    r = { e with next := r.next, shardCache := r.shardCache, shardLen := r.shardLen } ∧
      r.next.toNat = seqOf ss (g + 1) 0 ∧ r.shardCache.length = e.shardCache.length ∧
      r.shardLen.length = e.shardLen.length ∧
      ∀ i < e.shardCache.length, r.shardCache.getD i [] =
        if k ≤ i ∧ i < ss then overwrite (e.shardCache.getD i []) e.headerOffset
          (fecHeader (UInt32.ofNat (seqOf ss g i)) TYPE_PARITY)
        else e.shardCache.getD i [] := by
  induction c generalizing e k with
  | zero =>
    refine ⟨rfl, ?_, rfl, rfl, ?_⟩
    · change e.next.toNat = _
      rw [hnext, if_pos (by omega)]
    · intro i hi
      rw [if_neg (by omega)]
      rfl
  | succ c ih =>
    have hkss : k ≠ ss := by omega
    rw [if_neg hkss] at hnext
    have hadv : (e.sealParity k).next.toNat =
        if k + 1 = ss then seqOf ss (g + 1) 0 else seqOf ss g (k + 1) := by
      change ((e.next + 1) % e.paws).toNat = _
      rw [hpaws]
      exact toNat_advance (c := 1) hpos hle hnext (by omega)
    obtain ⟨hr, hnext', hlen, hlen', hget⟩ :=
      ih (e := e.sealParity k) (k := k + 1) (by omega) hpaws hadv
    have hlength : (e.sealParity k).shardCache.length = e.shardCache.length := List.length_modify _ _ _
    refine ⟨hr, hnext', hlen.trans hlength, hlen'.trans List.length_set, ?_⟩
    intro i hi
    have hseq : UInt32.ofNat (seqOf ss g k) = e.next := by
      rw [← hnext, UInt32.ofNat_toNat]
    have hslot : (e.sealParity k).shardCache.getD i [] = if k = i then
        overwrite (e.shardCache.getD i []) e.headerOffset (fecHeader e.next TYPE_PARITY)
        else e.shardCache.getD i [] := getD_modify _ _ _ _ _ hi
    rw [List.range'_succ, List.foldl_cons, hget i (by rwa [hlength]), hslot]
    by_cases hik : k = i
    · subst hik
      rw [if_neg (by omega), if_pos rfl, if_pos (by omega), hseq]
    · rw [if_neg hik]
      by_cases hrange : k + 1 ≤ i ∧ i < ss
      · rw [if_pos hrange, if_pos (by omega)]
        rfl
      · rw [if_neg hrange, if_neg (by omega)]

private theorem Holds.length_groupData (h : e.Holds ds ps ho m group) :
    ∀ d ∈ groupData e.payloadOffset group, d.length = shardSizeOf e.payloadOffset group := by
  intro d hd
  obtain ⟨b, hb, rfl⟩ := List.mem_map.mp hd
  have hmax := length_le_longest hb
  apply length_padTo
  rw [length_dataShard (h.admitted b hb).1, shardSizeOf]
  omega

private theorem getD_padded {i : ℕ} (hi : i < e.shardCache.length) :
    e.padded.getD i [] =
      if i < e.dataShards ∧ e.shardLen.getD i 0 < e.maxSize then
        overwrite (e.shardCache.getD i []) (e.shardLen.getD i 0)
          (List.replicate (e.maxSize - e.shardLen.getD i 0) 0)
      else e.shardCache.getD i [] := by
  simp only [padded, List.getD_eq_getElem?_getD, List.getElem?_map, List.getElem?_zipIdx,
    List.getElem?_eq_getElem hi, Option.map_some, Option.getD_some, Nat.zero_add]

private theorem Holds.length_padded (h : e.Holds ds ps ho m group) (hmtu : e.maxSize ≤ MTU_LIMIT) :
    e.padded.length = ds + ps ∧ ∀ s ∈ e.padded, s.length = MTU_LIMIT := by
  have hlen : e.padded.length = ds + ps := by
    simp only [padded, List.length_map, List.length_zipIdx, h.cache_length]
  refine ⟨hlen, ?_⟩
  intro s hs
  obtain ⟨i, hi, rfl⟩ := List.mem_iff_getElem.mp hs
  have hi' : i < e.shardCache.length := by
    rw [h.cache_length]
    omega
  have hmem : (e.shardCache.getD i []).length = MTU_LIMIT := by
    rw [List.getD_eq_getElem _ _ hi']
    exact h.slot_length _ (List.getElem_mem hi')
  rw [← List.getD_eq_getElem _ [] hi, getD_padded hi']
  split_ifs with hpad
  · rw [length_overwrite, hmem]
    rw [List.length_replicate, hmem]
    omega
  · exact hmem

private theorem Holds.view_data (h : e.Holds ds ps ho m group) (hfull : group.length = ds) {i : ℕ}
    (hi : i < ds) :
    ((e.padded.getD i []).take e.maxSize).drop e.payloadOffset =
      (groupData e.payloadOffset group).getD i [] := by
  have hi' : i < group.length := by omega
  have hcache : i < e.shardCache.length := by
    rw [h.cache_length]
    omega
  obtain ⟨hlen, hview⟩ := h.stored i hi'
  have hmem : group.getD i [] ∈ group := by
    rw [List.getD_eq_getElem _ _ hi']
    exact List.getElem_mem hi'
  have hadm := h.admitted _ hmem
  have hmax : (group.getD i []).length ≤ e.maxSize := by
    rw [h.max_eq]
    exact length_le_longest hmem
  have hslot : (e.shardCache.getD i []).length = MTU_LIMIT := by
    rw [List.getD_eq_getElem _ _ hcache]
    exact h.slot_length _ (List.getElem_mem hcache)
  have hdata : (groupData e.payloadOffset group).getD i [] =
      dataShard e.payloadOffset (group.getD i []) ++
        List.replicate (e.maxSize - (group.getD i []).length) 0 := by
    have hpad : shardSizeOf e.payloadOffset group -
        (dataShard e.payloadOffset (group.getD i [])).length =
          e.maxSize - (group.getD i []).length := by
      rw [length_dataShard hadm.1, shardSizeOf, ← h.max_eq]
      omega
    rw [← hpad, List.getD_eq_getElem?_getD, groupData, List.getElem?_map,
      List.getElem?_eq_getElem hi', List.getD_eq_getElem _ _ hi']
    rfl
  rw [getD_padded hcache, hdata, ← hview, hlen]
  generalize (group.getD i []).length = len at hadm hmax
  split_ifs with hpad
  · have hcut : (overwrite (e.shardCache.getD i []) len (List.replicate (e.maxSize - len) 0)).take
        e.maxSize = (e.shardCache.getD i []).take len ++ List.replicate (e.maxSize - len) 0 := by
      unfold overwrite
      rw [List.take_append_of_le_length, List.take_of_length_le]
      all_goals
        rw [List.length_append, List.length_take, List.length_replicate]
        omega
    rw [hcut, List.drop_append_of_le_length]
    rw [List.length_take]
    omega
  · have heq : e.maxSize = len := by
      rw [h.data] at hpad
      omega
    rw [heq, Nat.sub_self, List.replicate_zero, List.append_nil]

private theorem Holds.views (h : e.Holds ds ps ho m group) (hfull : group.length = ds)
    (hmtu : e.maxSize ≤ MTU_LIMIT) :
    ∃ room, (e.padded.map fun shard => (shard.take e.maxSize).drop e.payloadOffset) =
        groupData e.payloadOffset group ++ room ∧ room.length = ps ∧
      ∀ p ∈ room, p.length = shardSizeOf e.payloadOffset group := by
  obtain ⟨hlen, hslot⟩ := h.length_padded hmtu
  set views := e.padded.map fun shard => (shard.take e.maxSize).drop e.payloadOffset with hviews
  have hvlen : views.length = ds + ps := by rw [hviews, List.length_map, hlen]
  refine ⟨views.drop ds, ?_, by rw [List.length_drop]; omega, ?_⟩
  · have htake : views.take ds = groupData e.payloadOffset group := by
      refine List.ext_getElem ?_ ?_
      · rw [List.length_take, hvlen, groupData, List.length_map, hfull]
        omega
      · intro i h1 h2
        have hi : i < ds := by
          rw [List.length_take] at h1
          omega
        have hview := h.view_data hfull hi
        rw [List.getD_eq_getElem _ _ h2, List.getD_eq_getElem _ _ (by omega)] at hview
        rw [List.getElem_take, ← hview]
        exact List.getElem_map _
    rw [← htake, List.take_append_drop]
  · intro p hp
    obtain ⟨shard, hs, rfl⟩ := List.mem_map.mp (List.mem_of_mem_drop hp)
    rw [List.length_drop, List.length_take, hslot shard hs, shardSizeOf, ← h.max_eq]
    omega

private theorem Holds.maxSize_le (h : e.Holds ds ps ho m group) : e.maxSize ≤ MTU_LIMIT := by
  rw [h.max_eq, longest_le_iff]
  intro b hb
  exact (h.admitted b hb).2

private theorem Holds.le_maxSize (h : e.Holds ds ps ho m group) (hfull : group.length = ds) :
    e.payloadOffset + 2 ≤ e.maxSize := by
  have hds := h.codec_ok.pos
  obtain ⟨b, hb⟩ := List.exists_mem_of_length_pos (by omega : 0 < group.length)
  have := (h.admitted b hb).1
  have := length_le_longest hb
  rw [h.max_eq]
  omega

/-- The cache of a group with what the codec made of it written back. -/
structure Coded (e : FecEncoder) (ds ps : ℕ) (m : Rs.Matrix) (group cache : List Bytes) : Prop where
  length : cache.length = ds + ps
  padded_length : ∀ i < ds + ps, (e.padded.getD i []).length = MTU_LIMIT
  slot : ∀ i < ds + ps, cache.getD i [] = overwrite (e.padded.getD i []) e.payloadOffset
    (Rs.codeRow (m.row i) (groupData e.payloadOffset group) (shardSizeOf e.payloadOffset group))

private theorem Holds.coded (h : e.Holds ds ps ho m group) (hfull : group.length = ds) :
    ∃ cache, e.Coded ds ps m group cache ∧ e.generate =
      let r := (List.range' ds ps).foldl sealParity { e with shardCache := cache }
      (r, (r.shardCache.drop r.dataShards).map fun shard => shard.take r.maxSize) := by
  obtain ⟨hlen, hslot⟩ := h.length_padded h.maxSize_le
  obtain ⟨room, hviews, hroom, hroomlen⟩ := h.views hfull h.maxSize_le
  have hsize : 0 < shardSizeOf e.payloadOffset group := by
    have := h.le_maxSize hfull
    rw [shardSizeOf, ← h.max_eq]
    omega
  have hdlen : (groupData e.payloadOffset group).length = ds := by
    rw [groupData, List.length_map, hfull]
  obtain ⟨coded, henc, hcoded, hrow⟩ := Rs.Codec.encode_spec h.codec_ok hsize hdlen
    h.length_groupData hroom hroomlen
  have hclen : coded.length = ds + ps := by
    rw [hcoded, List.length_append, hdlen, List.length_map, List.length_range']
  set write := fun shard view => overwrite shard e.payloadOffset view with hwrite
  have hzip : (List.zipWith write e.padded coded).length = ds + ps := by
    rw [List.length_zipWith]
    omega
  refine ⟨List.zipWith write e.padded coded, ⟨hzip, ?_, ?_⟩, ?_⟩
  · intro i hi
    rw [List.getD_eq_getElem _ _ (by omega)]
    exact hslot _ (List.getElem_mem _)
  · intro i hi
    rw [← hrow i hi, List.getD_eq_getElem _ _ (by omega), List.getD_eq_getElem _ _ (by omega),
      List.getD_eq_getElem _ _ (by omega)]
    exact List.getElem_zipWith
  · have hrange : List.range' e.dataShards (e.shardSize - e.dataShards) = List.range' ds ps := by
      rw [h.data, h.size, Nat.add_sub_cancel_left]
    unfold FecEncoder.generate
    dsimp only
    rw [hviews, henc]
    dsimp only
    rw [hrange]

/-- The encoder with the parity shards of a group sealed. -/
structure Generated (e r : FecEncoder) (ds ps ho g : ℕ) (m : Rs.Matrix) (group : List Bytes) :
    Prop where
  frame : r = { e with next := r.next, shardCache := r.shardCache, shardLen := r.shardLen }
  next_eq : r.next.toNat = seqOf (ds + ps) (g + 1) 0
  cache_length : r.shardCache.length = ds + ps
  len_length : r.shardLen.length = ds + ps
  slot_length : ∀ i < ds + ps, (r.shardCache.getD i []).length = MTU_LIMIT
  packet : ∀ j < ps, ((r.shardCache.getD (ds + j) []).take e.maxSize).drop ho =
    parityPacket (ds + ps) (ho + 6) g m group (ds + j)

private theorem Coded.slot_length {cache : List Bytes} (hc : e.Coded ds ps m group cache)
    (h : e.Holds ds ps ho m group) (hfull : group.length = ds) :
    ∀ i < ds + ps, (cache.getD i []).length = MTU_LIMIT := by
  intro i hi
  have hle := h.maxSize_le
  have hmin := h.le_maxSize hfull
  rw [hc.slot i hi, length_overwrite, hc.padded_length i hi]
  rw [Rs.length_codeRow, hc.padded_length i hi, shardSizeOf, ← h.max_eq]
  omega

private theorem Coded.packet {cache : List Bytes} (hc : e.Coded ds ps m group cache)
    (h : e.Holds ds ps ho m group) (hfull : group.length = ds) (hpo : e.payloadOffset = ho + 6)
    {g i : ℕ} (hi : i < ds + ps) :
    ((overwrite (cache.getD i []) e.headerOffset
        (fecHeader (UInt32.ofNat (seqOf (ds + ps) g i)) TYPE_PARITY)).take e.maxSize).drop ho =
      parityPacket (ds + ps) (ho + 6) g m group i := by
  have hle := h.maxSize_le
  have hmin := h.le_maxSize hfull
  have hlen := hc.slot_length h hfull i hi
  rw [h.header, List.drop_take, drop_overwrite (by rw [hlen]; omega), length_fecHeader, ← hpo,
    hc.slot i hi, drop_overwrite (by rw [hc.padded_length i hi]; omega), Rs.length_codeRow,
    ← List.append_assoc, List.take_append_of_le_length, List.take_of_length_le]
  · rfl
  all_goals
    rw [List.length_append, length_fecHeader, Rs.length_codeRow, shardSizeOf, ← h.max_eq]
    omega

private theorem Holds.generated (h : e.Holds ds ps ho m group) (hfull : group.length = ds)
    (hpo : e.payloadOffset = ho + 6) {g : ℕ} (hnext : e.next.toNat = seqOf (ds + ps) g ds) :
    ∃ r, Generated e r ds ps ho g m group ∧
      e.generate = (r, (r.shardCache.drop r.dataShards).map fun shard => shard.take r.maxSize) := by
  have hps := h.parity_pos
  have hle := h.maxSize_le
  have hmin := h.le_maxSize hfull
  obtain ⟨cache, hc, hgen⟩ := h.coded hfull
  obtain ⟨hr, hrnext, hrlen, hrlen', hrget⟩ := @foldl_sealParity { e with shardCache := cache } _ g
    (by omega : 0 < ds + ps) h.size_le ps ds rfl h.paws_eq (by rw [if_neg (by omega)]; exact hnext)
  have hslots := hc.slot_length h hfull
  refine ⟨_, ⟨hr, hrnext, hrlen.trans hc.length, hrlen'.trans h.len_length, ?_, ?_⟩, hgen⟩
  · intro i hi
    rw [hrget i (by rw [hc.length]; exact hi)]
    split_ifs
    · rw [length_overwrite, hslots i hi]
      rw [length_fecHeader, hslots i hi, h.header]
      omega
    · exact hslots i hi
  · intro j hj
    rw [hrget (ds + j) (by rw [hc.length]; omega), if_pos (by omega)]
    exact hc.packet h hfull hpo (by omega)

private theorem Generated.holds {r : FecEncoder} {g : ℕ}
    (hr : Generated e r ds ps ho g m group) (h : e.Holds ds ps ho m group) :
    ({ r with shardCount := 0, maxSize := 0 } : FecEncoder).Holds ds ps ho m [] := by
  have hslots : ∀ s ∈ r.shardCache, s.length = MTU_LIMIT := by
    intro s hs
    obtain ⟨i, hi, rfl⟩ := List.mem_iff_getElem.mp hs
    have hlen := hr.slot_length i (hr.cache_length ▸ hi)
    rwa [List.getD_eq_getElem _ _ hi] at hlen
  rw [hr.frame]
  exact {
    data := h.data, parity := h.parity, size := h.size, paws_eq := h.paws_eq, header := h.header
    payload := h.payload, codec_ok := h.codec_ok, parity_pos := h.parity_pos, size_le := h.size_le
    cache_length := hr.cache_length
    slot_length := hslots
    len_length := hr.len_length
    stored := fun i hi => absurd hi (Nat.not_lt_zero i)
    max_eq := rfl
    admitted := fun b hb => absurd hb List.not_mem_nil }

private theorem Generated.packets {r : FecEncoder} {g : ℕ}
    (hr : Generated e r ds ps ho g m group) (h : e.Holds ds ps ho m group) :
    ((r.shardCache.drop r.dataShards).map fun shard => shard.take r.maxSize).map (·.drop ho) =
      (List.range' ds ps).map (parityPacket (ds + ps) (ho + 6) g m group) := by
  have hdata : r.dataShards = ds := by
    rw [hr.frame]
    exact h.data
  have hmax : r.maxSize = e.maxSize := by rw [hr.frame]
  rw [hdata, hmax, List.map_map]
  refine List.ext_getElem ?_ ?_
  · rw [List.length_map, List.length_map, List.length_drop, List.length_range', hr.cache_length]
    omega
  · intro j h1 h2
    have hj : j < ps := by simpa using h2
    have hpacket := hr.packet j hj
    rw [List.getD_eq_getElem _ _ (by rw [hr.cache_length]; omega)] at hpacket
    rw [List.getElem_map, List.getElem_map, List.getElem_drop, List.getElem_range', Nat.one_mul,
      ← hpacket]
    rfl

private theorem Generated.length_packets {r : FecEncoder} {g : ℕ}
    (hr : Generated e r ds ps ho g m group) (h : e.Holds ds ps ho m group) :
    ∀ p ∈ (r.shardCache.drop r.dataShards).map fun shard => shard.take r.maxSize,
      p.length = longest group := by
  intro p hp
  have hle := h.maxSize_le
  obtain ⟨shard, hs, rfl⟩ := List.mem_map.mp hp
  obtain ⟨i, hi, rfl⟩ := List.mem_iff_getElem.mp (List.mem_of_mem_drop hs)
  have hlen := hr.slot_length i (hr.cache_length ▸ hi)
  have hmax : r.maxSize = e.maxSize := by rw [hr.frame]
  rw [List.getD_eq_getElem _ _ hi] at hlen
  rw [List.length_take, hlen, hmax, Nat.min_eq_left hle, h.max_eq]

private theorem Holds.generate (h : e.Holds ds ps ho m group) (hfull : group.length = ds)
    (hpo : e.payloadOffset = ho + 6) {g : ℕ} (hnext : e.next.toNat = seqOf (ds + ps) g ds) :
    ({ e.generate.1 with shardCount := 0, maxSize := 0 } : FecEncoder).Holds ds ps ho m [] ∧
      e.generate.1.next.toNat = seqOf (ds + ps) (g + 1) 0 ∧
      e.generate.2.map (·.drop ho) =
        (List.range' ds ps).map (parityPacket (ds + ps) (ho + 6) g m group) ∧
      ∀ p ∈ e.generate.2, p.length = longest group := by
  obtain ⟨r, hr, hgen⟩ := h.generated hfull hpo hnext
  rw [hgen]
  exact ⟨hr.holds h, hr.next_eq, hr.packets h, hr.length_packets h⟩

private theorem Holds.skip (h : e.Holds ds ps ho m group) {g : ℕ}
    (hnext : e.next.toNat = seqOf (ds + ps) g ds) :
    ({ e.skipParity with shardCount := 0, maxSize := 0 } : FecEncoder).Holds ds ps ho m [] ∧
      e.skipParity.next.toNat = seqOf (ds + ps) (g + 1) 0 := by
  have hps := h.parity_pos
  constructor
  · exact { h with
      stored := fun i hi => absurd hi (Nat.not_lt_zero i)
      max_eq := rfl
      admitted := fun b hb => absurd hb List.not_mem_nil }
  · change ((e.next + UInt32.ofNat e.parityShards) % e.paws).toNat = _
    rw [h.paws_eq, h.parity, toNat_advance (by omega) h.size_le hnext (by omega), if_pos rfl]

private theorem Holds.complete (h : e.Holds ds ps ho m group) (hfull : group.length = ds)
    (hpo : e.payloadOffset = ho + 6) {g : ℕ} (hnext : e.next.toNat = seqOf (ds + ps) g ds)
    (continuous : Bool) :
    (e.complete continuous).1.Holds ds ps ho m [] ∧ (e.complete continuous).1.shardCount = 0 ∧
      (e.complete continuous).1.next.toNat = seqOf (ds + ps) (g + 1) 0 ∧
      (e.complete continuous).2.map (·.drop ho) =
        (if continuous then (List.range' ds ps).map (parityPacket (ds + ps) (ho + 6) g m group)
        else []) ∧
      ∀ p ∈ (e.complete continuous).2, p.length = longest group := by
  cases continuous with
  | false =>
    obtain ⟨hholds, hnext'⟩ := h.skip hnext
    exact ⟨hholds, rfl, hnext', rfl, fun p hp => absurd hp List.not_mem_nil⟩
  | true =>
    obtain ⟨hholds, hnext', hps, hlens⟩ := h.generate hfull hpo hnext
    exact ⟨hholds, rfl, hnext', hps, hlens⟩

theorem succ_mod_of_lt {n ds : ℕ} (h : n % ds + 1 < ds) :
    (n + 1) % ds = n % ds + 1 ∧ (n + 1) / ds = n / ds := by
  have hdiv := Nat.div_add_mod n ds
  have heq : n + 1 = ds * (n / ds) + (n % ds + 1) := by omega
  constructor
  · rw [heq, Nat.mul_add_mod, Nat.mod_eq_of_lt h]
  · rw [heq, Nat.mul_add_div (by omega), Nat.div_eq_of_lt h, Nat.add_zero]

theorem succ_mod_of_eq {n ds : ℕ} (hpos : 0 < ds) (h : n % ds + 1 = ds) :
    (n + 1) % ds = 0 ∧ (n + 1) / ds = n / ds + 1 := by
  have hdiv := Nat.div_add_mod n ds
  have heq : n + 1 = ds * (n / ds + 1) := by
    rw [Nat.mul_add]
    omega
  constructor
  · rw [heq, Nat.mul_mod_right]
  · rw [heq, Nat.mul_div_cancel_left _ hpos]

theorem Ok.sealed {n : ℕ} (h : e.Ok ds ps ho m n group) (hb : Admits ho b) :
    (e.sealData b).drop ho = dataPacket (ds + ps) (ho + 6) (n / ds) (n % ds) b := by
  rw [drop_sealData h.toHolds hb, dataPacket, ← h.next_eq, UInt32.ofNat_toNat]

theorem Holds.encode_error (h : e.Holds ds ps ho m group) (hb : ¬ Admits ho b) (rto : UInt32)
    (now : Int) : ∃ err, e.encode b rto now = .error err := by
  unfold FecEncoder.encode
  split_ifs with hshort hlong
  · exact ⟨_, rfl⟩
  · exact ⟨_, rfl⟩
  · refine absurd ⟨?_, by omega⟩ hb
    rw [h.payload] at hshort
    unfold saturatingAdd FEC_HEADER_SIZE at hshort
    unfold MTU_LIMIT at hlong
    omega

theorem Ok.encode {n : ℕ} (h : e.Ok ds ps ho m n group) (hb : Admits ho b) (rto : UInt32) (now : Int) :
    ∃ e' parity, e.encode b rto now = .ok (e', e.sealData b, parity) ∧ e'.tsLatestPacket = now ∧
      e'.Ok ds ps ho m (n + 1) (if n % ds + 1 = ds then [] else group ++ [b]) ∧
      parity.map (·.drop ho) =
        (if n % ds + 1 = ds ∧ saturatingSub now e.tsLatestPacket < (rto.toNat : Int) then
          (List.range' ds ps).map (parityPacket (ds + ps) (ho + 6) (n / ds) m (group ++ [b]))
        else []) ∧
      ∀ p ∈ parity, p.length = longest (group ++ [b]) := by
  have hpo := h.payload_eq hb
  have hds := h.codec_ok.pos
  have hps := h.parity_pos
  have hmod := Nat.mod_lt n hds
  have hlen := h.group_length
  have hcount := h.count
  have hshort : ¬ b.length < saturatingAdd e.payloadOffset 2 := by
    have := hb.1
    rw [hpo, saturatingAdd]
    omega
  have hlong : ¬ b.length > MTU_LIMIT := by
    have := hb.2
    omega
  have hstore := h.toHolds.store hb (by omega) (by omega)
  set e1 := e.advance.store (e.sealData b) with he1
  have hnext : e1.next.toNat = seqOf (ds + ps) (n / ds) (n % ds + 1) := by
    change ((e.next + UInt32.ofNat 1) % e.paws).toNat = _
    rw [h.paws_eq, toNat_advance (by omega) h.size_le h.next_eq (by omega), if_neg (by omega)]
  have hcount1 : e1.shardCount = n % ds + 1 := by
    change e.shardCount + 1 = _
    rw [hcount]
  have hts : e1.tsLatestPacket = e.tsLatestPacket := rfl
  unfold FecEncoder.encode
  rw [if_neg hshort, if_neg hlong]
  dsimp only
  rw [← he1, hts, hcount1, hstore.data]
  by_cases hfull : n % ds + 1 = ds
  · obtain ⟨hmod', hdiv'⟩ := succ_mod_of_eq hds hfull
    rw [hfull] at hnext
    obtain ⟨hholds, hzero, hnext', hparity, hlens⟩ := hstore.complete
      (by rw [List.length_append, List.length_singleton]; omega) hpo hnext
      (decide (saturatingSub now e.tsLatestPacket < (rto.toNat : Int)))
    rw [if_pos hfull, if_pos hfull]
    refine ⟨_, _, rfl, rfl, ?_, ?_, hlens⟩
    · exact { hholds with
        count := by rw [hmod']; exact hzero
        group_length := by rw [hmod']; rfl
        next_eq := by rw [hmod', hdiv']; exact hnext' }
    · rw [hparity]
      simp only [decide_eq_true_eq, hfull, true_and]
  · obtain ⟨hmod', hdiv'⟩ := @succ_mod_of_lt n ds (by omega)
    rw [if_neg hfull, if_neg hfull, if_neg (fun hc => hfull hc.1)]
    refine ⟨_, _, rfl, rfl, ?_, rfl, fun p hp => absurd hp List.not_mem_nil⟩
    exact { hstore with
      count := by rw [hmod']; exact hcount1
      group_length := by rw [hmod', List.length_append, List.length_singleton, hlen]
      next_eq := by rw [hmod', hdiv']; exact hnext }

end FecEncoder

end Kcptun.Fec
