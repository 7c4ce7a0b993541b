/- Kcptun/Fec/ShardSets
   source: crates/kcp/src/fec.rs (FecDecoder::decode, discard_shards, paws)
   digest: How many shard sets a decoder keeps, and how many packets in each, whatever it is fed:
     distances of shard ids on the circle of seqids. -/

import Kcptun.Fec.Alignment
import Mathlib.Data.Finset.Card

set_option autoImplicit false
set_option relaxedAutoImplicit false

namespace Kcptun.Fec

open Kcptun.Lib Kcptun.Lib.LittleEndian Kcptun.Arq FecDecoder

section Distance

variable {ss : ℕ} {newest newest' id id' : UInt32}

def Valid (ss : ℕ) (id : UInt32) : Prop := id.toNat < 4294967295 / ss

private theorem toNat_position (hpos : 0 < ss) (hle : ss ≤ 256) (h : Valid ss id) :
    (id * UInt32.ofNat ss).toNat = id.toNat * ss ∧ id.toNat * ss + ss ≤ 4294967295 := by
  have hmul : (id.toNat + 1) * ss ≤ 4294967295 / ss * ss := Nat.mul_le_mul_right ss h
  have hdiv : 4294967295 / ss * ss ≤ 4294967295 := Nat.div_mul_le_self _ _
  rw [Nat.add_mul, Nat.one_mul] at hmul
  refine ⟨?_, by omega⟩
  rw [UInt32.toNat_mul, UInt32.toNat_ofNat', Nat.mod_eq_of_lt (a := ss) (by omega),
    Nat.mod_eq_of_lt (by omega)]

theorem distance_eq (hpos : 0 < ss) (hle : ss ≤ 256) (hn : Valid ss newest) (h : Valid ss id) :
    distance ss newest id =
      ((newest.toNat * ss : ℕ) - (id.toNat * ss : ℕ) + 2147483648 : Int) % 4294967296 - 2147483648 := by
  rw [distance, itimediff, Serial.diff_eq, (toNat_position hpos hle hn).1,
    (toNat_position hpos hle h).1]

private theorem distance_spaced (hpos : 0 < ss) (hle : ss ≤ 256) (hn : Valid ss newest)
    (h : Valid ss id) (h' : Valid ss id') (hlt : distance ss newest id ≤ distance ss newest id')
    (hclose : distance ss newest id' < distance ss newest id + ss) : id = id' := by
  rw [distance_eq hpos hle hn h, distance_eq hpos hle hn h'] at hlt hclose
  have hb := (toNat_position hpos hle h).2
  have hb' := (toNat_position hpos hle h').2
  apply UInt32.toNat_inj.mp
  rcases Nat.lt_trichotomy id.toNat id'.toNat with hid | hid | hid
  · have hgap : (id.toNat + 1) * ss ≤ id'.toNat * ss := Nat.mul_le_mul_right ss hid
    rw [Nat.add_mul, Nat.one_mul] at hgap
    omega
  · exact hid
  · have hgap : (id'.toNat + 1) * ss ≤ id.toNat * ss := Nat.mul_le_mul_right ss hid
    rw [Nat.add_mul, Nat.one_mul] at hgap
    omega

private theorem length_le_of_arc (hpos : 0 < ss) (hle : ss ≤ 256) (hn : Valid ss newest)
    {ids : List UInt32} (hnodup : ids.Nodup) (hvalid : ∀ id ∈ ids, Valid ss id) (lo : Int) (c : ℕ)
    (harc : ∀ id ∈ ids, lo ≤ distance ss newest id ∧ distance ss newest id < lo + c * ss) :
    ids.length ≤ c := by
  rw [← List.toFinset_card_of_nodup hnodup, ← Finset.card_range c]
  refine Finset.card_le_card_of_injOn (fun id => ((distance ss newest id - lo) / ss).toNat) ?_ ?_
  · intro id hid
    obtain ⟨hlo, hhi⟩ := harc id (List.mem_toFinset.mp hid)
    have hdiv : (distance ss newest id - lo) / ss < c := by
      rw [Int.ediv_lt_iff_lt_mul (by omega)]
      omega
    have hnonneg : 0 ≤ (distance ss newest id - lo) / ss := Int.ediv_nonneg (by omega) (by omega)
    rw [Finset.mem_coe, Finset.mem_range]
    dsimp only
    omega
  · intro id hid id' hid' heq
    have hmem := List.mem_toFinset.mp (Finset.mem_coe.mp hid)
    have hmem' := List.mem_toFinset.mp (Finset.mem_coe.mp hid')
    have hlo := (harc id hmem).1
    have hlo' := (harc id' hmem').1
    have hq : (distance ss newest id - lo) / ss = (distance ss newest id' - lo) / ss := by
      have h1 : 0 ≤ (distance ss newest id - lo) / ss := Int.ediv_nonneg (by omega) (by omega)
      have h2 : 0 ≤ (distance ss newest id' - lo) / ss := Int.ediv_nonneg (by omega) (by omega)
      dsimp only at heq
      omega
    have hss : (0 : Int) < ss := by omega
    have e1 := Int.mul_ediv_add_emod (distance ss newest id - lo) ss
    have e2 := Int.mul_ediv_add_emod (distance ss newest id' - lo) ss
    have b1 := Int.emod_lt_of_pos (distance ss newest id - lo) hss
    have b2 := Int.emod_lt_of_pos (distance ss newest id' - lo) hss
    have c1 := Int.emod_nonneg (distance ss newest id - lo) hss.ne'
    have c2 := Int.emod_nonneg (distance ss newest id' - lo) hss.ne'
    rw [hq] at e1
    rcases le_total (distance ss newest id) (distance ss newest id') with hcmp | hcmp
    · exact distance_spaced hpos hle hn (hvalid id hmem) (hvalid id' hmem') hcmp (by omega)
    · exact (distance_spaced hpos hle hn (hvalid id' hmem') (hvalid id hmem) hcmp (by omega)).symm

private theorem valid_newestAfter (hn : Valid ss newest) (h : Valid ss id) :
    Valid ss (newestAfter ss newest id) := by
  unfold newestAfter
  split_ifs
  · exact h
  · exact hn

private theorem distance_ne_antipode (hpos : 0 < ss) (hle : ss ≤ 256) (hdvd : ¬ ss ∣ 2147483648)
    (hn : Valid ss newest) (h : Valid ss id) : distance ss newest id ≠ -2147483648 := by
  intro heq
  rw [distance_eq hpos hle hn h] at heq
  have hb := (toNat_position hpos hle h).2
  have hb' := (toNat_position hpos hle hn).2
  rcases Nat.le_total (newest.toNat * ss) (id.toNat * ss) with hcmp | hcmp
  · have hdiff : id.toNat * ss - newest.toNat * ss = 2147483648 := by omega
    rw [← Nat.sub_mul] at hdiff
    exact hdvd ⟨_, by rw [Nat.mul_comm, hdiff]⟩
  · have hdiff : newest.toNat * ss - id.toNat * ss = 2147483648 := by omega
    rw [← Nat.sub_mul] at hdiff
    exact hdvd ⟨_, by rw [Nat.mul_comm, hdiff]⟩

def ahead (ss : ℕ) (newest : UInt32) (ids : List UInt32) : List UInt32 :=
  ids.filter fun id => distance ss newest id < 0

/-- One more group: a jump of almost half the circle turns at most three groups around and leaves
at most three that were around already; any other step adds none. -/
theorem length_ahead_step (hpos : 0 < ss) (hle : ss ≤ 256) (hdvd : ¬ ss ∣ 2147483648)
    (hn : Valid ss newest) (h : Valid ss id) {ids ids' : List UInt32} (hnodup : ids'.Nodup)
    (hvalid : ∀ i ∈ ids, Valid ss i) (hkept : ∀ i ∈ ids, distance ss newest i ≤ 3 * ss)
    (hsub : ∀ i ∈ ids', i = id ∨ i ∈ ids) (hle6 : (ahead ss newest ids).length ≤ 6) :
    (ahead ss (newestAfter ss newest id) ids').length ≤ 6 := by
  have hvalid' : ∀ i ∈ ids', Valid ss i := fun i hi => (hsub i hi).elim (· ▸ h) (hvalid i)
  have hfnodup := hnodup.filter fun i => decide (distance ss (newestAfter ss newest id) i < 0)
  have hself : ¬ distance ss id id < 0 := by
    rw [distance, itimediff, Serial.diff_self]
    omega
  have hanti := distance_ne_antipode hpos hle hdvd hn h
  by_cases hnew : distance ss id newest > 0
  · have hafter : newestAfter ss newest id = id := if_pos hnew
    rw [hafter] at hfnodup ⊢
    -- seen from the new group, everything moves back by the jump
    have hmove : ∀ i, Valid ss i → distance ss id i =
        (distance ss newest i + distance ss id newest + 2147483648) % 4294967296 - 2147483648 := by
      intro i hi
      rw [distance_eq hpos hle h hi, distance_eq hpos hle hn hi, distance_eq hpos hle h hn]
      omega
    have hrange : ∀ i, Valid ss i → -2147483648 ≤ distance ss newest i ∧
        distance ss newest i < 2147483648 := by
      intro i hi
      rw [distance_eq hpos hle hn hi]
      omega
    have hjump : distance ss id newest < 2147483648 := by
      rw [distance_eq hpos hle h hn]
      omega
    have hmem : ∀ i ∈ ahead ss id ids', i ∈ ids ∧ distance ss id i < 0 := by
      intro i hi
      obtain ⟨hi', hlt⟩ := List.mem_filter.mp hi
      have hlt' : distance ss id i < 0 := by simpa using hlt
      refine ⟨(hsub i hi').resolve_left ?_, hlt'⟩
      rintro rfl
      exact hself hlt'
    rcases lt_or_ge (distance ss id newest) (2147483648 - 3 * ss) with hsmall | hbig
    · refine (hfnodup.subperm ?_).length_le.trans hle6
      intro i hi
      obtain ⟨hi', hlt⟩ := hmem i hi
      have h1 := hmove i (hvalid i hi')
      have h2 := hrange i (hvalid i hi')
      have h3 := hkept i hi'
      refine List.mem_filter.mpr ⟨hi', ?_⟩
      simp only [decide_eq_true_eq]
      omega
    · have hsplit := List.length_eq_length_filter_add (fun i => decide (distance ss newest i < 0))
        (l := ahead ss id ids')
      have hfar := length_le_of_arc hpos hle hn (hfnodup.filter fun i =>
        decide (distance ss newest i < 0))
        (fun i hi => hvalid i (hmem i (List.mem_of_mem_filter hi)).1) (-2147483648) 3 ?_
      · have hnear := length_le_of_arc hpos hle hn
          (hfnodup.filter fun i => !decide (distance ss newest i < 0))
          (fun i hi => hvalid i (hmem i (List.mem_of_mem_filter hi)).1) 1 3 ?_
        · unfold ahead at hsplit ⊢
          omega
        · intro i hi
          obtain ⟨hi', hge⟩ := List.mem_filter.mp hi
          obtain ⟨hids, hlt⟩ := hmem i hi'
          have h1 := hmove i (hvalid i hids)
          have h3 := hkept i hids
          have hge' : ¬ distance ss newest i < 0 := by simpa using hge
          push_cast
          omega
      · intro i hi
        obtain ⟨hi', hneg⟩ := List.mem_filter.mp hi
        obtain ⟨hids, hlt⟩ := hmem i hi'
        have h1 := hmove i (hvalid i hids)
        have h2 := hrange i (hvalid i hids)
        have hneg' : distance ss newest i < 0 := by simpa using hneg
        push_cast
        omega
  · have hafter : newestAfter ss newest id = newest := if_neg hnew
    rw [hafter] at hfnodup ⊢
    have hback : ¬ distance ss newest id < 0 := by
      rw [distance_eq hpos hle h hn] at hnew
      rw [distance_eq hpos hle hn h] at hanti ⊢
      omega
    refine (hfnodup.subperm ?_).length_le.trans hle6
    intro i hi
    obtain ⟨hi', hlt⟩ := List.mem_filter.mp hi
    refine List.mem_filter.mpr ⟨(hsub i hi').resolve_left ?_, hlt⟩
    rintro rfl
    exact hback (by simpa using hlt)

end Distance

namespace FecDecoder

/-- What a decoder with the parameters `ds` and `ps` maintains of its shard sets. -/
structure SetsOk (d : FecDecoder) (ds ps : ℕ) : Prop where
  data : d.dataShards = ds
  parity : d.parityShards = ps
  size : d.shardSize = ds + ps
  paws_eq : d.paws = Fec.paws (ds + ps)
  nodup : (d.shardSet.map Prod.fst).Nodup
  valid : ∀ id ∈ d.shardSet.map Prod.fst, Valid (ds + ps) id
  newest : Valid (ds + ps) d.newestShardId
  few : ∀ e ∈ d.shardSet, e.2.elements.length < ds
  kept : ∀ id ∈ d.shardSet.map Prod.fst, distance (ds + ps) d.newestShardId id ≤ 3 * (ds + ps : ℕ)
  ahead_le : ¬ ds + ps ∣ 2147483648 →
    (ahead (ds + ps) d.newestShardId (d.shardSet.map Prod.fst)).length ≤ 6

variable {d : FecDecoder} {ds ps : ℕ} {pkt : Bytes}

private theorem SetsOk.of_eq {d' : FecDecoder} (h : d.SetsOk ds ps)
    (hdata : d'.dataShards = d.dataShards)
    (hparity : d'.parityShards = d.parityShards) (hsize : d'.shardSize = d.shardSize)
    (hpaws : d'.paws = d.paws) (hset : d'.shardSet = d.shardSet)
    (hnewest : d'.newestShardId = d.newestShardId) : d'.SetsOk ds ps := by
  obtain ⟨h1, h2, h3, h4, h5, h6, h7, h8, h9, h10⟩ := h
  exact ⟨hdata.trans h1, hparity.trans h2, hsize.trans h3, hpaws.trans h4, hset ▸ h5, hset ▸ h6,
    hnewest ▸ h7, hset ▸ h8, hset ▸ hnewest ▸ h9, hset ▸ hnewest ▸ h10⟩

private theorem SetsOk.valid_getShardId (h : d.SetsOk ds ps) (hpos : 0 < ds + ps)
    (hle : ds + ps ≤ 256)
    {seqid : UInt32} (hseq : seqid < d.paws) : Valid (ds + ps) (d.getShardId seqid) := by
  have hlt := UInt32.lt_iff_toNat_lt.mp hseq
  rw [h.paws_eq, toNat_paws hpos hle] at hlt
  rw [Valid, getShardId, h.size, UInt32.toNat_div, UInt32.toNat_ofNat',
    Nat.mod_eq_of_lt (a := ds + ps) (by omega)]
  exact Nat.div_lt_of_lt_mul (by rwa [Nat.mul_comm])

private theorem mem_of_lookup {sets : List (UInt32 × ShardHeap)} {id : UInt32} {h : ShardHeap}
    (hl : sets.lookup id = some h) : (id, h) ∈ sets := by
  induction sets with
  | nil => cases hl
  | cons e sets ih =>
    rw [List.lookup_cons] at hl
    split at hl
    · rename_i heq
      have hid : id = e.1 := by simpa using heq
      rw [← Option.some_inj.mp hl, hid]
      exact List.mem_cons_self
    · exact List.mem_cons_of_mem e (ih hl)

private theorem mem_of_has {id seqid : UInt32} (hdup : (d.shardOf id).has seqid = true) :
    (id, d.shardOf id) ∈ d.shardSet := by
  cases hl : d.shardSet.lookup id with
  | none =>
    have hempty : d.shardOf id = {} := by rw [shardOf, hl, Option.getD_none]
    rw [hempty] at hdup
    cases hdup
  | some h =>
    have hsome : d.shardOf id = h := by rw [shardOf, hl, Option.getD_some]
    rw [hsome]
    exact mem_of_lookup hl

private theorem SetsOk.collect (h : d.SetsOk ds ps) (hds : 0 < ds) (hps : 0 < ps)
    (hle : ds + ps ≤ 256) (hseq : fecSeqid pkt < d.paws) : (d.collect pkt).1.SetsOk ds ps := by
  have hpos : 0 < ds + ps := by omega
  set id := d.getShardId (fecSeqid pkt) with hid
  have hvid : Valid (ds + ps) id := h.valid_getShardId hpos hle hseq
  have hfilter : (((d.shardSet.filter fun e => e.1 ≠ id)).map Prod.fst).Sublist
      (d.shardSet.map Prod.fst) := (List.filter_sublist).map _
  have hfresh : id ∉ (d.shardSet.filter fun e => e.1 ≠ id).map Prod.fst := by
    intro hmem
    obtain ⟨e, he, heq⟩ := List.mem_map.mp hmem
    have := (List.mem_filter.mp he).2
    simp [heq] at this
  cases hdup : (d.shardOf id).has (fecSeqid pkt) with
  | true =>
    have hin := mem_of_has hdup
    rw [collect_of_has hdup]
    have hids : ∀ i ∈ ((d.setShard id (d.shardOf id)).shardSet.map Prod.fst),
        i ∈ d.shardSet.map Prod.fst := by
      intro i hi
      rcases List.mem_cons.mp hi with rfl | hi
      · exact List.mem_map_of_mem (f := Prod.fst) hin
      · exact hfilter.subset hi
    have hnodup : ((d.setShard id (d.shardOf id)).shardSet.map Prod.fst).Nodup :=
      List.nodup_cons.mpr ⟨hfresh, h.nodup.sublist hfilter⟩
    refine ⟨h.data, h.parity, h.size, h.paws_eq, hnodup, fun i hi => h.valid i (hids i hi), h.newest,
      ?_, fun i hi => h.kept i (hids i hi), ?_⟩
    · intro e he
      rcases List.mem_cons.mp he with rfl | he
      · exact h.few _ hin
      · exact h.few e (List.mem_of_mem_filter he)
    · intro hdvd
      refine ((hnodup.filter _).subperm ?_).length_le.trans (h.ahead_le hdvd)
      intro i hi
      obtain ⟨hi', hlt⟩ := List.mem_filter.mp hi
      exact List.mem_filter.mpr ⟨hids i hi', hlt⟩
  | false =>
    obtain ⟨-, -, hlen⟩ := sets_join d pkt (by rw [h.data]; exact hds)
    obtain ⟨hnew', hkeep⟩ := sets_collect hid.symm (by rw [h.data]; exact hds) hdup
    have hsettings := settings_collect d pkt
    simp only [settings, Prod.mk.injEq] at hsettings
    obtain ⟨e1, e2, e3, e4, -, -⟩ := hsettings
    rw [h.size] at hnew' hkeep
    set d2 := (d.collect pkt).1 with hd2
    have hsub : (d2.shardSet.map Prod.fst).Sublist
        (id :: (d.shardSet.filter fun e => e.1 ≠ id).map Prod.fst) := by
      rw [hkeep]
      exact List.filter_sublist.map _
    have hids : ∀ i ∈ d2.shardSet.map Prod.fst, i = id ∨ i ∈ d.shardSet.map Prod.fst := by
      intro i hi
      rcases List.mem_cons.mp (hsub.subset hi) with rfl | hi'
      · exact .inl rfl
      · exact .inr (hfilter.subset hi')
    have hnodup : (d2.shardSet.map Prod.fst).Nodup :=
      List.Nodup.sublist hsub (List.nodup_cons.mpr ⟨hfresh, h.nodup.sublist hfilter⟩)
    refine ⟨e1.trans h.data, e2.trans h.parity, e3.trans h.size, e4.trans h.paws_eq, hnodup,
      ?_, ?_, ?_, ?_, ?_⟩
    · intro i hi
      exact (hids i hi).elim (· ▸ hvid) (h.valid i)
    · rw [hnew']
      exact valid_newestAfter h.newest hvid
    · intro e he
      rw [hkeep] at he
      rcases List.mem_cons.mp (List.mem_of_mem_filter he) with rfl | he'
      · exact h.data ▸ hlen
      · exact h.few e (List.mem_of_mem_filter he')
    · intro i hi
      rw [hnew']
      rw [hkeep] at hi
      obtain ⟨e, he, rfl⟩ := List.mem_map.mp hi
      simpa [MAX_SHARD_SETS] using (List.mem_filter.mp he).2
    · intro hdvd
      rw [hnew']
      exact length_ahead_step hpos hle hdvd h.newest hvid hnodup h.valid h.kept hids (h.ahead_le hdvd)

private theorem SetsOk.decode (h : d.SetsOk ds ps) (hds : 0 < ds) (hps : 0 < ps)
    (hle : ds + ps ≤ 256)
    (hdata : (d.decode pkt).1.dataShards = ds) (hparity : (d.decode pkt).1.parityShards = ps) :
    (d.decode pkt).1.SetsOk ds ps := by
  have hsampled : (d.sampled pkt).SetsOk ds ps := h.of_eq rfl rfl rfl rfl rfl rfl
  rcases decode_cases d pkt with heq | heq | heq | ⟨hseq, -, -, heq⟩
  · rw [heq]
    exact h
  · rw [heq]
    exact hsampled
  · rw [heq] at hdata hparity ⊢
    set d' : FecDecoder := { d.sampled pkt with shouldTune := true } with hd'
    have hok : d'.SetsOk ds ps := hsampled.of_eq rfl rfl rfl rfl rfl rfl
    rcases tune_cases d' with ⟨b, htune⟩ | ⟨a, b, ha, hb, hab, -, -, hother, htune⟩
    · rw [htune]
      exact hok.of_eq rfl rfl rfl rfl rfl rfl
    · obtain ⟨codec, m, hnew, -⟩ := Rs.Codec.new_spec ha hb (by omega)
      have hadopt : (d'.adopt a b).dataShards = a ∧ (d'.adopt a b).parityShards = b := by
        unfold adopt
        rw [hnew]
        exact ⟨rfl, rfl⟩
      rw [htune] at hdata hparity
      refine absurd ⟨?_, ?_⟩ hother
      · rw [hok.data, ← hdata, hadopt.1]
      · rw [hok.parity, ← hparity, hadopt.2]
  · rw [heq]
    exact hsampled.collect hds hps hle hseq

private theorem SetsOk.length_le (h : d.SetsOk ds ps) (hds : 0 < ds) (hps : 0 < ps)
    (hle : ds + ps ≤ 256) : d.shardSet.length ≤ 2147483648 / (ds + ps) + 4 ∧
      (¬ ds + ps ∣ 2147483648 → d.shardSet.length ≤ 10) := by
  have hpos : 0 < ds + ps := by omega
  have hrange : ∀ id, Valid (ds + ps) id → -2147483648 ≤ distance (ds + ps) d.newestShardId id := by
    intro id hid
    rw [distance_eq hpos hle h.newest hid]
    omega
  have hlen : d.shardSet.length = (d.shardSet.map Prod.fst).length := (List.length_map _).symm
  constructor
  · have hround := Nat.div_add_mod 2147483648 (ds + ps)
    have hmod := Nat.mod_lt 2147483648 hpos
    have harc := length_le_of_arc hpos hle h.newest h.nodup h.valid (-2147483648)
      (2147483648 / (ds + ps) + 4) fun id hid => ⟨hrange id (h.valid id hid), ?_⟩
    · rwa [← hlen] at harc
    · have hk := h.kept id hid
      have hprod : ((2147483648 / (ds + ps) + 4 : ℕ) : Int) * (ds + ps : ℕ) =
          ((ds + ps) * (2147483648 / (ds + ps)) + 4 * (ds + ps) : ℕ) := by
        push_cast
        ring
      rw [hprod]
      omega
  · intro hdvd
    have hahead := h.ahead_le hdvd
    have hsplit := List.length_eq_length_filter_add
      (fun id => decide (distance (ds + ps) d.newestShardId id < 0)) (l := d.shardSet.map Prod.fst)
    have hbehind := length_le_of_arc hpos hle h.newest
      (h.nodup.filter fun id => !decide (distance (ds + ps) d.newestShardId id < 0))
      (fun id hid => h.valid id (List.mem_of_mem_filter hid)) 0 4 fun id hid => ?_
    · unfold ahead at hahead
      omega
    · obtain ⟨hid', hge⟩ := List.mem_filter.mp hid
      have hk := h.kept id hid'
      have hge' : ¬ distance (ds + ps) d.newestShardId id < 0 := by simpa using hge
      push_cast at hk ⊢
      omega

private theorem SetsOk.run (hds : 0 < ds) (hps : 0 < ps) (hle : ds + ps ≤ 256) (h : d.SetsOk ds ps)
    (pkts : List Bytes) (hkeep : ∀ seen, seen <+: pkts →
      (Lib.run FecDecoder.decode d seen).1.dataShards = ds ∧
        (Lib.run FecDecoder.decode d seen).1.parityShards = ps) :
    (Lib.run FecDecoder.decode d pkts).1.SetsOk ds ps := by
  induction pkts generalizing d with
  | nil => exact h
  | cons pkt pkts ih =>
    obtain ⟨hdata, hparity⟩ := hkeep [pkt] ⟨pkts, rfl⟩
    apply ih (h.decode hds hps hle hdata hparity)
    intro seen hseen
    exact hkeep (pkt :: seen) (List.prefix_cons_inj pkt |>.mpr hseen)

private theorem new_bounds {ds ps : Int} {d : FecDecoder} (h : FecDecoder.new ds ps = some d) :
    ∃ a b : ℕ, ds = a ∧ ps = b ∧ 1 ≤ a ∧ 1 ≤ b ∧ a + b ≤ 256 := by
  unfold FecDecoder.new at h
  split_ifs at h with hpos hsum
  exact ⟨ds.toNat, ps.toNat, by omega, by omega, by omega, by omega, by omega⟩

private theorem setsOk_new (hds : 1 ≤ ds) (hps : 1 ≤ ps) (hle : ds + ps ≤ 256)
    (h : FecDecoder.new ds ps = some d) : d.SetsOk ds ps := by
  obtain ⟨d', m, hnew, hsync, -, -, hset, hnewest, -⟩ := new_spec hds hps hle
  obtain rfl : d' = d := Option.some_inj.mp (hnew.symm.trans h)
  refine ⟨hsync.data, hsync.parity, hsync.size, hsync.paws_eq, ?_, ?_, ?_, ?_, ?_, ?_⟩
  · rw [hset]
    exact List.nodup_nil
  · simp [hset]
  · rw [hnewest]
    exact Nat.div_pos (by omega) (by omega)
  · simp [hset]
  · simp [hset]
  · intro _
    simp [hset, ahead]

end FecDecoder

/-- The memory of a decoder is bounded, whatever packets it is fed while it keeps its parameters. It
holds four sets more than half the sequence space has groups, and no more than ten unless the groups
divide that half. -/
theorem shard_sets_bounded : ∃ K : ℕ, ∀ (ds ps : Int) (d : FecDecoder),
    FecDecoder.new ds ps = some d → ∀ pkts : List Bytes,
      (∀ seen, seen <+: pkts → (run FecDecoder.decode d seen).1.dataShards = ds.toNat ∧
        (run FecDecoder.decode d seen).1.parityShards = ps.toNat) →
      let d' := (run FecDecoder.decode d pkts).1
      d'.shardSet.length ≤ K ∧ (∀ e ∈ d'.shardSet, e.2.elements.length < ds.toNat) ∧
        d'.shardSet.length ≤ 2147483648 / (ds.toNat + ps.toNat) + 4 ∧
        (¬ ds.toNat + ps.toNat ∣ 2147483648 → d'.shardSet.length ≤ 10) := by
  refine ⟨1073741828, ?_⟩
  intro ds ps d hnew pkts hkeep
  obtain ⟨ds, ps, rfl, rfl, hds, hps, hle⟩ := FecDecoder.new_bounds hnew
  have hrun := (FecDecoder.setsOk_new hds hps hle hnew).run hds hps hle pkts hkeep
  obtain ⟨hmany, hfew⟩ := hrun.length_le hds hps hle
  have hhalf : 2147483648 / (ds + ps) ≤ 2147483648 / 2 := Nat.div_le_div_left (by omega) (by omega)
  exact ⟨hmany.trans (by omega), hrun.few, hmany, hfew⟩

/-- Packets for groups of two and one. Three groups come one after the other, a jump makes them old,
two more groups gather round it, and a packet of group 95 is too old to be kept. -/
def jumps : List Bytes :=
  ([0, 3, 9, 300, 303, 294, 285, 1] : List UInt32).map fun seqid =>
    fecHeader seqid TYPE_DATA ++ ([3, 0, 7] : Bytes)

theorem shard_sets_bounded_jumps : ∃ d, FecDecoder.new 2 1 = some d ∧
    (run FecDecoder.decode d (jumps.take 3)).1.shardSet.map Prod.fst = [3, 1, 0] ∧
    (run FecDecoder.decode d (jumps.take 4)).1.shardSet.map Prod.fst = [100] ∧
    (run FecDecoder.decode d jumps).1.shardSet.map Prod.fst = [98, 101, 100] ∧
    (run FecDecoder.decode d jumps).1.shardSet.length ≤ 10 := by
  obtain ⟨K, h⟩ := shard_sets_bounded
  obtain ⟨d, m, hnew, hsync, -⟩ := @FecDecoder.new_spec 2 1 (by decide) (by decide) (by decide)
  have hkeys : (FecDecoder.new 2 1).map (fun d =>
      ((run FecDecoder.decode d (jumps.take 3)).1.shardSet.map Prod.fst,
        (run FecDecoder.decode d (jumps.take 4)).1.shardSet.map Prod.fst,
        (run FecDecoder.decode d jumps).1.shardSet.map Prod.fst)) =
      some ([3, 1, 0], [100], [98, 101, 100]) := by decide +kernel
  have hnew' : FecDecoder.new 2 1 = some d := hnew
  rw [hnew', Option.map_some, Option.some.injEq, Prod.mk.injEq, Prod.mk.injEq] at hkeys
  obtain ⟨hthree, hfour, hall⟩ := hkeys
  refine ⟨d, hnew', hthree, hfour, hall, (h 2 1 d hnew' jumps ?_).2.2.2 (by decide)⟩
  intro seen hseen
  have hlabelled : ∀ p ∈ jumps, Labelled 2 1 p := by decide +kernel
  have hrun := hsync.run (by decide) fun p hp => hlabelled p (hseen.subset hp)
  exact ⟨hrun.data, hrun.parity⟩

end Kcptun.Fec
