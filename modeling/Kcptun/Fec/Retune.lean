/- Kcptun/Fec/Retune
   source: crates/kcp/src/fec.rs (FecDecoder::decode, auto-tuning, discard_shards)
   digest: A decoder that has taken over new parameters against a new decoder: they return the same
     unless the newest shard id, which is kept, reads as a group far ahead. -/

import Kcptun.Fec.EndToEnd

set_option autoImplicit false
set_option relaxedAutoImplicit false

namespace Kcptun.Fec

open Kcptun.Lib Kcptun.Lib.LittleEndian Kcptun.Arq FecDecoder

/-- A packet that fits the parameters, in the lower half of the sequence space. -/
def Consistent (ds ps : ℕ) (pkt : Bytes) : Prop :=
  Labelled ds ps pkt ∧ (fecSeqid pkt).toNat < 2147483648

instance (ds ps : ℕ) (pkt : Bytes) : Decidable (Consistent ds ps pkt) :=
  inferInstanceAs (Decidable (_ ∧ _))

def position (ss : ℕ) (newest : UInt32) : ℕ := (newest * UInt32.ofNat ss).toNat

def lastPosition (ss : ℕ) : ℕ := 2147483647 / ss * ss

namespace FecDecoder

/-- Decoders that differ in their sets, in the newest shard id and in the auto-tuner only. -/
def Alike (d e : FecDecoder) : Prop :=
  ∃ sets newest tuner, d = { e with shardSet := sets, newestShardId := newest, autoTune := tuner }

variable {d e : FecDecoder} {ds ps : ℕ} {p : Bytes}

private theorem Alike.reconstruct (h : d.Alike e) (maxlen : ℕ) :
    (d.reconstruct maxlen).1.Alike (e.reconstruct maxlen).1 ∧
      (d.reconstruct maxlen).2 = (e.reconstruct maxlen).2 := by
  obtain ⟨sets, newest, tuner, rfl⟩ := h
  unfold FecDecoder.reconstruct
  dsimp only
  split <;> exact ⟨⟨_, _, _, rfl⟩, rfl⟩

private theorem Alike.recover (h : d.Alike e) (heap : ShardHeap) :
    (d.recover heap).1.Alike (e.recover heap).1 ∧ (d.recover heap).2 = (e.recover heap).2 := by
  obtain ⟨sets, newest, tuner, rfl⟩ := h
  have hfilled : (({ e with shardSet := sets, newestShardId := newest, autoTune := tuner } :
      FecDecoder).withFilled heap).Alike (e.withFilled heap) := ⟨_, _, _, rfl⟩
  obtain ⟨⟨s, n, t, hrec⟩, hout⟩ := hfilled.reconstruct (e.filled heap).maxlen
  rw [recover_eq, recover_eq]
  split_ifs with hall hall' hall'
  · exact ⟨⟨_, _, _, rfl⟩, rfl⟩
  · exact absurd hall hall'
  · exact absurd hall' hall
  · refine ⟨⟨s, n, t, ?_⟩, ?_⟩
    · exact congrArg FecDecoder.cleared hrec
    · exact congrArg (Prod.mk _) hout

private theorem Alike.sampled (h : d.Alike e) (p : Bytes) : (d.sampled p).Alike (e.sampled p) := by
  obtain ⟨sets, newest, tuner, rfl⟩ := h
  exact ⟨sets, newest, _, rfl⟩

private theorem Alike.setShard (h : d.Alike e) (k : UInt32) (heap : ShardHeap) :
    (d.setShard k heap).Alike (e.setShard k heap) := by
  obtain ⟨sets, newest, tuner, rfl⟩ := h
  exact ⟨_, _, _, rfl⟩

private theorem Alike.updateNewest (h : d.Alike e) (k : UInt32) :
    (d.updateNewest k).Alike (e.updateNewest k) := by
  obtain ⟨sets, newest, tuner, rfl⟩ := h
  unfold FecDecoder.updateNewest
  split_ifs <;> exact ⟨_, _, _, rfl⟩

private theorem Alike.discardShards (h : d.Alike e) : d.discardShards.Alike e.discardShards := by
  obtain ⟨sets, newest, tuner, rfl⟩ := h
  exact ⟨_, _, _, rfl⟩

private theorem Alike.inSync (h : d.Alike e) (he : e.InSync ds ps) : d.InSync ds ps := by
  obtain ⟨sets, newest, tuner, rfl⟩ := h
  exact ⟨he.data, he.parity, he.size, he.paws_eq, he.tune⟩

private theorem Alike.getShardId (h : d.Alike e) (seqid : UInt32) :
    d.getShardId seqid = e.getShardId seqid := by
  obtain ⟨sets, newest, tuner, rfl⟩ := h
  rfl

private theorem Alike.join (h : d.Alike e)
    (hheap : d.shardOf (e.getShardId (fecSeqid p)) = e.shardOf (e.getShardId (fecSeqid p))) :
    (d.join p).1.Alike (e.join p).1 ∧ (d.join p).2 = (e.join p).2 := by
  have hdata : d.dataShards = e.dataShards := by
    obtain ⟨sets, newest, tuner, rfl⟩ := h
    rfl
  unfold FecDecoder.join
  rw [h.getShardId, hheap]
  dsimp only
  rw [hdata]
  split_ifs
  · exact h.recover _
  · exact ⟨h, rfl⟩

private theorem Alike.collect (h : d.Alike e)
    (hheap : d.shardOf (e.getShardId (fecSeqid p)) = e.shardOf (e.getShardId (fecSeqid p))) :
    (d.collect p).1.Alike (e.collect p).1 ∧ (d.collect p).2 = (e.collect p).2 := by
  have hid := h.getShardId (fecSeqid p)
  cases hdup : (e.shardOf (e.getShardId (fecSeqid p))).has (fecSeqid p) with
  | true =>
    rw [collect_of_has hdup, collect_of_has (by rw [hid, hheap]; exact hdup), hid, hheap]
    exact ⟨h.setShard _ _, rfl⟩
  | false =>
    obtain ⟨hjoin, hout⟩ := h.join hheap
    rw [collect_of_not_has hdup, collect_of_not_has (by rw [hid, hheap]; exact hdup), hid, hout]
    exact ⟨((hjoin.setShard _ _).updateNewest _).discardShards, rfl⟩

private theorem decode_consistent (h : d.InSync ds ps) (hpos : 0 < ds + ps) (hle : ds + ps ≤ 256)
    (hp : Consistent ds ps p) : d.decode p = (d.sampled p).collect p := by
  rw [h.decode_eq hle hp.1, if_pos]
  rw [UInt32.lt_iff_toNat_lt, h.paws_eq]
  have hpaws := lt_paws hpos hle
  have hseq := hp.2
  omega

private theorem inSync_collect (h : d.InSync ds ps) (p : Bytes) : (d.collect p).1.InSync ds ps := by
  have hset := settings_collect d p
  simp only [settings, Prod.mk.injEq] at hset
  obtain ⟨h1, h2, h3, h4, -, h6⟩ := hset
  exact ⟨h1.trans h.data, h2.trans h.parity, h3.trans h.size, h4.trans h.paws_eq, h6.trans h.tune⟩

end FecDecoder

section Position

variable {ss : ℕ} {newest id : UInt32}

private theorem distance_position (ss : ℕ) (newest id : UInt32) :
    distance ss newest id =
      ((position ss newest : Int) - position ss id + 2147483648) % 4294967296 - 2147483648 := by
  rw [distance, itimediff, Serial.diff_eq]
  rfl

private theorem position_lt (ss : ℕ) (newest : UInt32) : position ss newest < 4294967296 :=
  UInt32.toNat_lt _

private theorem position_of_below (hle : ss ≤ 256) (h : id.toNat * ss < 2147483648) :
    position ss id = id.toNat * ss := by
  rw [position, UInt32.toNat_mul, UInt32.toNat_ofNat', Nat.mod_eq_of_lt (a := ss) (by omega),
    Nat.mod_eq_of_lt (by omega)]

private theorem le_lastPosition (hpos : 0 < ss) (h : id.toNat * ss < 2147483648) :
    id.toNat * ss ≤ lastPosition ss := by
  refine Nat.mul_le_mul_right ss ((Nat.le_div_iff_mul_le hpos).mpr ?_)
  omega

variable {newest' stale : UInt32}

/-- The two newest groups after a packet of group `id`: the stale one is passed by a later group, or
all groups so far lie at most three behind it; and a stale one in the upper half is passed at once. -/
theorem newest_step (hpos : 0 < ss) (hle : ss ≤ 256) (hbelow : newest'.toNat * ss < 2147483648)
    (hid : id.toNat * ss < 2147483648)
    (h : newest = newest' ∨
      (position ss stale ≤ 3 * ss ∧ newest = stale ∧ newest'.toNat * ss ≤ position ss stale) ∨
      (2147483648 + lastPosition ss < position ss stale ∧ newest = stale ∧ newest' = 0)) :
    newestAfter ss newest id = newestAfter ss newest' id ∨
      (position ss stale ≤ 3 * ss ∧ newestAfter ss newest id = stale ∧
        (newestAfter ss newest' id).toNat * ss ≤ position ss stale) := by
  have hlast := le_lastPosition hpos hid
  have hmax := toNat_newestAfter hpos hle hbelow hid
  have hdist := distance_position ss id newest
  have hlt := position_lt ss newest
  rw [position_of_below hle hid] at hdist
  rcases h with rfl | ⟨hnear, rfl, hold⟩ | ⟨hfar, rfl, rfl⟩
  · exact .inl rfl
  · rcases Nat.lt_or_ge (position ss newest) (id.toNat * ss) with hpass | hbehind
    · refine .inl (UInt32.toNat_inj.mp ?_)
      have hless : newest'.toNat ≤ id.toNat :=
        Nat.le_of_mul_le_mul_right (show newest'.toNat * ss ≤ id.toNat * ss by omega) hpos
      rw [newestAfter, if_pos (by omega), hmax, Nat.max_eq_right hless]
    · refine .inr ⟨hnear, ?_, ?_⟩
      · rw [newestAfter, if_neg (by omega)]
      · rw [hmax]
        rcases max_choice newest'.toNat id.toNat with hc | hc <;> rw [hc]
        · exact hold
        · exact hbehind
  · refine .inl (UInt32.toNat_inj.mp ?_)
    rw [newestAfter, if_pos (by omega), hmax]
    exact (Nat.max_eq_right (Nat.zero_le _)).symm

private theorem kept_iff (hle : ss ≤ 256) (hbelow : newest'.toNat * ss < 2147483648)
    (hid : id.toNat * ss < 2147483648)
    (h : newest = newest' ∨
      (position ss stale ≤ 3 * ss ∧ newest = stale ∧ newest'.toNat * ss ≤ position ss stale)) :
    distance ss newest id ≤ MAX_SHARD_SETS * ss ↔ distance ss newest' id ≤ MAX_SHARD_SETS * ss := by
  rcases h with rfl | ⟨hnear, rfl, hold⟩
  · rfl
  · have hdist := distance_position ss newest id
    have hdist' := distance_position ss newest' id
    rw [position_of_below hle hid] at hdist hdist'
    rw [position_of_below hle hbelow] at hdist'
    unfold MAX_SHARD_SETS
    constructor <;> intro _ <;> push_cast <;> omega

end Position

/-- A decoder with a stale newest group and a new one, after the same packets. -/
structure Twins (ds ps : ℕ) (stale : UInt32) (d e : FecDecoder) : Prop where
  alike : d.Alike e
  sync : e.InSync ds ps
  below : e.newestShardId.toNat * (ds + ps) < 2147483648
  heaps : ∀ k : UInt32, k.toNat * (ds + ps) < 2147483648 → d.shardOf k = e.shardOf k
  newest : d.newestShardId = e.newestShardId ∨
    (position (ds + ps) stale ≤ 3 * (ds + ps) ∧ d.newestShardId = stale ∧
      e.newestShardId.toNat * (ds + ps) ≤ position (ds + ps) stale) ∨
    (2147483648 + lastPosition (ds + ps) < position (ds + ps) stale ∧ d.newestShardId = stale ∧
      e.newestShardId = 0 ∧ ∀ k, e.shardOf k = {})

section Twins

variable {ds ps : ℕ} {stale : UInt32} {d e : FecDecoder} {p : Bytes}

private theorem below_of_consistent (h : e.InSync ds ps) (hle : ds + ps ≤ 256)
    (hp : Consistent ds ps p) : (e.getShardId (fecSeqid p)).toNat * (ds + ps) < 2147483648 := by
  rw [toNat_getShardId h hle]
  exact lt_of_le_of_lt (Nat.div_mul_le_self ..) hp.2

private theorem Twins.sampled (h : Twins ds ps stale d e) (p : Bytes) :
    Twins ds ps stale (d.sampled p) (e.sampled p) := by
  obtain ⟨h1, ⟨h2, h3, h4, h5, h6⟩, h7, h8, h9⟩ := h
  exact ⟨h1.sampled p, ⟨h2, h3, h4, h5, h6⟩, h7, h8, h9⟩

private theorem Twins.collect (hds : 0 < ds) (hle : ds + ps ≤ 256) (h : Twins ds ps stale d e)
    (hp : Consistent ds ps p) :
    (d.collect p).2 = (e.collect p).2 ∧ Twins ds ps stale (d.collect p).1 (e.collect p).1 := by
  have hpos : 0 < ds + ps := by omega
  have hid := below_of_consistent h.sync hle hp
  have hheap := h.heaps _ hid
  obtain ⟨halike, hout⟩ := h.alike.collect hheap
  have hsync := inSync_collect h.sync p
  have hidd := h.alike.getShardId (fecSeqid p)
  refine ⟨hout, ?_⟩
  cases hdup : (e.shardOf (e.getShardId (fecSeqid p))).has (fecSeqid p) with
  | true =>
    have hdupd : (d.shardOf (e.getShardId (fecSeqid p))).has (fecSeqid p) = true := by
      rw [hheap]
      exact hdup
    have hnewest : (e.collect p).1.newestShardId = e.newestShardId := by
      rw [collect_of_has hdup]
      rfl
    have hnewestd : (d.collect p).1.newestShardId = d.newestShardId := by
      rw [collect_of_has (by rw [hidd]; exact hdupd)]
      rfl
    refine ⟨halike, hsync, by rw [hnewest]; exact h.below, ?_, ?_⟩
    · intro k hk
      rw [shardOf_collect_of_has hidd hdupd, shardOf_collect_of_has rfl hdup, h.heaps k hk]
    · rw [hnewest, hnewestd]
      refine h.newest.imp id (Or.imp id ?_)
      rintro ⟨hfar, hstale, hzero, hempty⟩
      rw [hempty] at hdup
      cases hdup
  | false =>
    have hdupd : (d.shardOf (e.getShardId (fecSeqid p))).has (fecSeqid p) = false := by
      rw [hheap]
      exact hdup
    have hdata : 0 < e.dataShards := by
      rw [h.sync.data]
      exact hds
    have hsyncd := h.alike.inSync h.sync
    have hdatad : 0 < d.dataShards := by
      rw [hsyncd.data]
      exact hds
    have hnewest := (sets_collect rfl hdata hdup).1
    have hnewestd := (sets_collect hidd hdatad hdupd).1
    have hheaps := shardOf_collect rfl hdata hdup
    have hheapsd := shardOf_collect hidd hdatad hdupd
    rw [h.sync.size] at hnewest hheaps
    rw [hsyncd.size] at hnewestd hheapsd
    have hstep := newest_step hpos hle h.below hid
      (h.newest.imp id (Or.imp id fun hfar => ⟨hfar.1, hfar.2.1, hfar.2.2.1⟩))
    have hbelow : (newestAfter (ds + ps) e.newestShardId (e.getShardId (fecSeqid p))).toNat *
        (ds + ps) < 2147483648 := by
      rw [toNat_newestAfter hpos hle h.below hid]
      rcases max_choice e.newestShardId.toNat (e.getShardId (fecSeqid p)).toNat with hc | hc <;>
        rw [hc]
      · exact h.below
      · exact hid
    refine ⟨halike, hsync, by rw [hnewest]; exact hbelow, ?_, ?_⟩
    · intro k hk
      have hkept := kept_iff hle hbelow hk hstep
      rw [hheaps, hheapsd, (h.alike.join hheap).2, h.heaps k hk]
      exact if_congr hkept rfl rfl
    · rw [hnewest, hnewestd]
      exact hstep.imp id .inl

private theorem shardOf_collect_single (h : d.InSync 1 ps) (hempty : ∀ k, d.shardOf k = {})
    (k : UInt32) : (d.collect p).1.shardOf k = {} := by
  have hdata : d.dataShards = 1 := h.data
  have hnew : (d.shardOf (d.getShardId (fecSeqid p))).has (fecSeqid p) = false := by
    rw [hempty]
    rfl
  have hjoin : (d.join p).2.1 = {} := by
    have hfull : ((({} : ShardHeap).push p).len ≥ d.dataShards) := by
      rw [hdata]
      exact le_rfl
    have hunmark : unmark (({} : ShardHeap).push p).marks (({} : ShardHeap).push p).elements = [] := by
      apply List.eq_nil_iff_forall_not_mem.mpr
      intro s hs
      obtain ⟨hmark, hne⟩ := mem_unmark.mp hs
      exact hne p List.mem_cons_self (List.mem_singleton.mp hmark)
    unfold FecDecoder.join
    rw [hempty]
    dsimp only
    rw [if_pos hfull, recover_eq, hunmark]
    split_ifs <;> rfl
  rw [shardOf_collect rfl (by rw [hdata]; decide) hnew, hjoin, hempty]
  split_ifs <;> rfl

/-- The groups hold nothing, in either decoder. -/
structure Hollow (ps : ℕ) (d e : FecDecoder) : Prop where
  alike : d.Alike e
  sync : e.InSync 1 ps
  left : ∀ k, d.shardOf k = {}
  right : ∀ k, e.shardOf k = {}

private theorem Hollow.sampled (h : Hollow ps d e) (p : Bytes) :
    Hollow ps (d.sampled p) (e.sampled p) := by
  obtain ⟨h1, ⟨h2, h3, h4, h5, h6⟩, h7, h8⟩ := h
  exact ⟨h1.sampled p, ⟨h2, h3, h4, h5, h6⟩, h7, h8⟩

private theorem Hollow.collect (h : Hollow ps d e) (p : Bytes) :
    (d.collect p).2 = (e.collect p).2 ∧ Hollow ps (d.collect p).1 (e.collect p).1 := by
  obtain ⟨halike, hout⟩ := h.alike.collect (p := p) (by rw [h.left, h.right])
  exact ⟨hout, halike, inSync_collect h.sync p,
    shardOf_collect_single (h.alike.inSync h.sync) h.left, shardOf_collect_single h.sync h.right⟩

end Twins

section Differ

variable {ds ps : ℕ} {m : Rs.Matrix} {d : FecDecoder} {p : Bytes}

/-- A decoder that takes the newest group to be far ahead forgets the packets of group 0 at once. -/
structure Forgets (ds ps : ℕ) (d : FecDecoder) : Prop where
  sync : d.InSync ds ps
  far : 3 * (ds + ps) < position (ds + ps) d.newestShardId
  half : position (ds + ps) d.newestShardId < 2147483648
  empty : d.shardOf 0 = {}

private theorem Forgets.decode (h : Forgets ds ps d) (hds : 2 ≤ ds) (hle : ds + ps ≤ 256)
    (hp : Consistent ds ps p) (hzero : shardIdOf (ds + ps) p = 0) :
    (d.decode p).2 = [] ∧ Forgets ds ps (d.decode p).1 := by
  have hsync : (d.sampled p).InSync ds ps := (Alike.inSync ⟨_, _, _, rfl⟩ h.sync)
  have hid : (d.sampled p).getShardId (fecSeqid p) = 0 := by
    apply UInt32.toNat_inj.mp
    rw [toNat_getShardId hsync hle, hzero]
    rfl
  have hempty : (d.sampled p).shardOf 0 = {} := h.empty
  have hnew : ((d.sampled p).shardOf 0).has (fecSeqid p) = false := by
    rw [hempty]
    rfl
  have hdata : 0 < (d.sampled p).dataShards := by
    rw [hsync.data]
    omega
  have hout : ((d.sampled p).join p).2.2 = [] := by
    unfold FecDecoder.join
    rw [hid, hempty, hsync.data]
    dsimp only
    rw [if_neg]
    show ¬ 1 ≥ ds
    omega
  have hnewest := (sets_collect hid hdata hnew).1
  have hheaps := shardOf_collect hid hdata hnew 0
  have hfar := h.far
  have hhalf := h.half
  have hzeropos : position (ds + ps) 0 = 0 := by simp [position]
  have hback := distance_position (ds + ps) 0 d.newestShardId
  have hahead := distance_position (ds + ps) d.newestShardId 0
  rw [hzeropos] at hback hahead
  have hstay : newestAfter (ds + ps) d.newestShardId 0 = d.newestShardId := if_neg (by omega)
  rw [hsync.size] at hnewest hheaps
  have hsame : (d.sampled p).newestShardId = d.newestShardId := rfl
  rw [hsame, hstay] at hnewest hheaps
  rw [decode_consistent h.sync (by omega) hle hp]
  refine ⟨?_, inSync_collect hsync p, ?_, ?_, ?_⟩
  · rw [collect_of_not_has (by rw [hid]; exact hnew), hout]
  · rwa [hnewest]
  · rwa [hnewest]
  · rw [hheaps, if_neg]
    unfold MAX_SHARD_SETS
    push_cast
    omega

variable {present : ℕ → ℕ → Prop} {pk : ℕ → ℕ → Bytes} {data : ℕ → List Bytes} {len : ℕ → ℕ}
  {received : Finset ℕ} {i : ℕ}

private theorem Sender.consistent (h : Sender ds ps m present pk data len) {g : ℕ}
    (hi : present g i) : Consistent ds ps (pk g i) := by
  refine ⟨h.labelled g i hi, ?_⟩
  rw [h.seqid g i hi]
  exact h.below g i hi

private theorem Sender.ids (h : Sender ds ps m present pk data len) (hi : present 0 i) :
    shardIdOf (ds + ps) (pk 0 i) = 0 ∧ slotOf (ds + ps) (pk 0 i) = i := by
  have hseq := h.seqid 0 i hi
  have hlt := h.slot_lt 0 i hi
  rw [Nat.zero_mul, Nat.zero_add] at hseq
  rw [shardIdOf, slotOf, hseq]
  exact ⟨Nat.div_eq_of_lt hlt, Nat.mod_eq_of_lt hlt⟩

private theorem FecDecoder.Ready.sampled (h : d.Ready ds ps m) (p : Bytes) :
    (d.sampled p).Ready ds ps m := by
  obtain ⟨⟨h1, h2, h3, h4, h5⟩, h6, h7, h8, h9, h10⟩ := h
  exact ⟨⟨h1, h2, h3, h4, h5⟩, h6, h7, h8, h9, h10⟩

/-- A decoder whose newest group is near group 0, or in the upper half, keeps the packets of group
0: those in the slots `received`. -/
structure Gathers (ds ps : ℕ) (m : Rs.Matrix) (present : ℕ → ℕ → Prop) (pk : ℕ → ℕ → Bytes)
    (d : FecDecoder) (received : Finset ℕ) : Prop where
  ready : d.Ready ds ps m
  near : position (ds + ps) d.newestShardId ≤ 3 * (ds + ps) ∨
    2147483648 ≤ position (ds + ps) d.newestShardId
  heap : Current ds present pk 0 (d.shardOf 0) received

private theorem Gathers.decode (h : Gathers ds ps m present pk d received)
    (hsender : Sender ds ps m present pk data len) (hi : present 0 i) (hnew : i ∉ received) :
    Gathers ds ps m present pk (d.decode (pk 0 i)).1 (insert i received) ∧
      Returns ds ps m pk data len 0 received (insert i received) (d.decode (pk 0 i)).2 := by
  have hds := h.ready.codec_ok.pos
  have hle := h.ready.size_le
  obtain ⟨hgroup, hslot⟩ := hsender.ids hi
  have hsent : Sent (ds + ps) present pk (pk 0 i) := by
    unfold Sent
    rw [hgroup, hslot]
    exact ⟨hi, rfl⟩
  have hready := h.ready.sampled (pk 0 i)
  have hid : (d.sampled (pk 0 i)).getShardId (fecSeqid (pk 0 i)) = 0 := by
    apply UInt32.toNat_inj.mp
    rw [toNat_getShardId hready.toInSync hle, hgroup]
    rfl
  have hheap : Current ds present pk 0 ((d.sampled (pk 0 i)).shardOf 0) received := h.heap
  have hlacks : ((d.sampled (pk 0 i)).shardOf 0).has (fecSeqid (pk 0 i)) = false := by
    obtain ⟨idxs, hidxs, hsub, -⟩ := hheap
    refine Bool.eq_false_iff.mpr fun hhas => hnew ?_
    have hmem := (hidxs.has_iff hsender hgroup).mp hhas
    rw [hslot] at hmem
    exact hsub i hmem
  have hpos : 0 < (d.sampled (pk 0 i)).dataShards := by
    rw [hready.data]
    exact hds
  have hjoin := Current.join hready (by rw [hid]; exact hheap) hsender hsent hgroup
    (by rw [hid]; exact hlacks)
  rw [hslot] at hjoin
  have hnewest := (sets_collect hid hpos hlacks).1
  have hheaps := shardOf_collect hid hpos hlacks 0
  rw [hready.size] at hnewest hheaps
  have hsame : (d.sampled (pk 0 i)).newestShardId = d.newestShardId := rfl
  have hzero : position (ds + ps) 0 = 0 := by simp [position]
  have hback := distance_position (ds + ps) d.newestShardId 0
  have hself := distance_position (ds + ps) 0 0
  have hlt := position_lt (ds + ps) d.newestShardId
  rw [hzero] at hback hself
  have hnear := h.near
  rw [hsame] at hnewest hheaps
  rw [decode_consistent h.ready.toInSync (by omega) hle (hsender.consistent hi)]
  refine ⟨⟨hready.collect _, ?_, ?_⟩, ?_⟩
  · rw [hnewest, newestAfter]
    split_ifs
    · rw [hzero]
      exact .inl (Nat.zero_le _)
    · exact hnear
  · rw [hheaps, if_pos, if_pos rfl]
    · exact hjoin.1
    · unfold newestAfter MAX_SHARD_SETS
      split_ifs <;> push_cast <;> omega
  · rw [collect_of_not_has (by rw [hid]; exact hlacks)]
    exact hjoin.2

private theorem Gathers.run (h : Gathers ds ps m present pk d received)
    (hsender : Sender ds ps m present pk data len) {idxs : List ℕ} (hidxs : ∀ i ∈ idxs, present 0 i)
    (hnodup : idxs.Nodup) (hnew : ∀ i ∈ idxs, i ∉ received) :
    Gathers ds ps m present pk (Lib.run FecDecoder.decode d (idxs.map (pk 0))).1
      (received ∪ idxs.toFinset) := by
  induction idxs generalizing d received with
  | nil => simpa using h
  | cons i idxs ih =>
    rw [List.forall_mem_cons] at hidxs hnew
    obtain ⟨hi, hnodup⟩ := List.nodup_cons.mp hnodup
    have hstep := (h.decode hsender hidxs.1 hnew.1).1
    rw [List.map_cons, run_cons, List.toFinset_cons, Finset.union_insert, ← Finset.insert_union]
    apply ih hstep hidxs.2 hnodup
    intro j hj hmem
    rcases Finset.mem_insert.mp hmem with rfl | hold
    · exact hi hj
    · exact hnew.2 j hj hold

private theorem exists_group (m : Rs.Matrix) (hds : 2 ≤ ds) (hps : 0 < ps) (hle : ds + ps ≤ 256) :
    ∃ pkts, (∀ q ∈ pkts, Consistent ds ps q ∧ shardIdOf (ds + ps) q = 0) ∧
      ∀ d : FecDecoder, d.Ready ds ps m → d.shardOf 0 = {} →
        (position (ds + ps) d.newestShardId ≤ 3 * (ds + ps) ∨
          2147483648 ≤ position (ds + ps) d.newestShardId) →
        ∃ o ∈ (run FecDecoder.decode d pkts).2, o ≠ [] := by
  have hlen : (List.replicate ds ([0, 0] : Bytes)).length = ds := List.length_replicate
  have hsender := @sender_slotPacket ds ps 0 m (List.replicate ds [0, 0]) (by omega) hle
    (by rw [hlen, numbersUsed, Nat.div_self (by omega), Nat.mod_self]; omega)
    (fun b hb => by rw [List.eq_of_mem_replicate hb]; decide)
  have hpresent : ∀ i, i ≤ ds → Emitted ds ps (List.replicate ds [0, 0]) 0 i := by
    intro i hi
    unfold Emitted
    rw [hlen]
    omega
  have hidxs : ∀ i ∈ List.range' 1 (ds - 1), i ≤ ds := by
    intro i hi
    rw [List.mem_range'_1] at hi
    omega
  refine ⟨(List.range' 1 (ds - 1)).map (slotPacket ds ps 0 m (List.replicate ds [0, 0]) 0) ++
    [slotPacket ds ps 0 m (List.replicate ds [0, 0]) 0 ds], ?_, ?_⟩
  · refine List.forall_mem_append.mpr ⟨?_, List.forall_mem_singleton.mpr ?_⟩
    · intro q hq
      obtain ⟨i, hi, rfl⟩ := List.mem_map.mp hq
      have hi' := hpresent i (hidxs i hi)
      exact ⟨hsender.consistent hi', (hsender.ids hi').1⟩
    · exact ⟨hsender.consistent (hpresent ds le_rfl), (hsender.ids (hpresent ds le_rfl)).1⟩
  · intro d hready hheap hnear
    have hstart : Gathers ds ps m (Emitted ds ps (List.replicate ds [0, 0]))
        (slotPacket ds ps 0 m (List.replicate ds [0, 0])) d ∅ := by
      refine ⟨hready, hnear, ?_⟩
      rw [hheap]
      exact ⟨[], .empty (by omega), by simp, fun _ i hi => absurd hi (Finset.notMem_empty i)⟩
    have hrun := hstart.run hsender (fun i hi => hpresent i (hidxs i hi))
      List.nodup_range' fun i _ => Finset.notMem_empty i
    rw [Finset.empty_union] at hrun
    have hnew : ds ∉ (List.range' 1 (ds - 1)).toFinset := by
      rw [List.mem_toFinset, List.mem_range'_1]
      omega
    have hcard : (List.range' 1 (ds - 1)).toFinset.card = ds - 1 := by
      rw [List.toFinset_card_of_nodup List.nodup_range', List.length_range']
    have hfirst := (hrun.decode hsender (hpresent ds le_rfl) hnew).2.first (by omega)
      (by rw [Finset.card_insert_of_notMem hnew]; omega)
    rw [run_append_singleton, hfirst]
    refine ⟨_, List.mem_append_right _ (List.mem_singleton_self _), ?_⟩
    -- slot 0 is missing
    refine List.ne_nil_of_mem (List.mem_map_of_mem (a := 0) (List.mem_filter.mpr ⟨?_, ?_⟩))
    · rw [List.mem_range]
      omega
    · rw [decide_eq_true_eq, Finset.mem_insert, List.mem_toFinset, List.mem_range'_1]
      omega

private theorem Forgets.run (h : Forgets ds ps d) (hds : 2 ≤ ds) (hle : ds + ps ≤ 256)
    {pkts : List Bytes} (hpkts : ∀ q ∈ pkts, Consistent ds ps q ∧ shardIdOf (ds + ps) q = 0) :
    ∀ o ∈ (Lib.run FecDecoder.decode d pkts).2, o = [] :=
  run_outputs (Forgets ds ps) (fun q => Consistent ds ps q ∧ shardIdOf (ds + ps) q = 0) (· = [])
    (fun _ _ hq hd => hd.decode hds hle hq.1 hq.2) hpkts h

def lastPacket (ss : ℕ) : Bytes := fecHeader (UInt32.ofNat (lastPosition ss)) TYPE_DATA

private theorem lastPosition_le (ss : ℕ) : lastPosition ss ≤ 2147483647 := Nat.div_mul_le_self _ _

private theorem toNat_lastPacket (ss : ℕ) : (fecSeqid (lastPacket ss)).toNat = lastPosition ss := by
  have hle := lastPosition_le ss
  have hseq : fecSeqid (lastPacket ss) = UInt32.ofNat (lastPosition ss) := ofLe32_le32 _
  rw [hseq, UInt32.toNat_ofNat', Nat.mod_eq_of_lt (by omega)]

private theorem consistent_lastPacket (hds : 0 < ds) : Consistent ds ps (lastPacket (ds + ps)) := by
  have hle := lastPosition_le (ds + ps)
  have hflag : fecFlag (lastPacket (ds + ps)) = TYPE_DATA := fecFlag_fecHeader _ _ []
  unfold Consistent Labelled
  rw [toNat_lastPacket, hflag, lastPosition, Nat.mul_mod_left, if_pos hds, ← lastPosition]
  exact ⟨⟨le_of_eq (length_fecHeader _ _).symm, rfl⟩, by omega⟩

private theorem FecDecoder.Ready.decode_lastPacket (h : d.Ready ds ps m) (hds : 2 ≤ ds)
    (hempty : d.shardSet = []) :
    (d.decode (lastPacket (ds + ps))).1.Ready ds ps m ∧
      (d.decode (lastPacket (ds + ps))).1.shardOf 0 = {} ∧
      position (ds + ps) (d.decode (lastPacket (ds + ps))).1.newestShardId =
        if 2147483648 + lastPosition (ds + ps) < position (ds + ps) d.newestShardId ∨
          position (ds + ps) d.newestShardId < lastPosition (ds + ps) then lastPosition (ds + ps)
        else position (ds + ps) d.newestShardId := by
  have hle := h.size_le
  have hready := h.sampled (lastPacket (ds + ps))
  obtain ⟨id, hid⟩ : ∃ id, (d.sampled (lastPacket (ds + ps))).getShardId
      (fecSeqid (lastPacket (ds + ps))) = id := ⟨_, rfl⟩
  have hnat : id.toNat = 2147483647 / (ds + ps) := by
    rw [← hid, toNat_getShardId hready.toInSync hle, shardIdOf, toNat_lastPacket, lastPosition,
      Nat.mul_div_cancel _ (by omega)]
  have hmul : id.toNat * (ds + ps) = lastPosition (ds + ps) := by rw [hnat, lastPosition]
  have hbelow := lastPosition_le (ds + ps)
  have hheaps (k : UInt32) : (d.sampled (lastPacket (ds + ps))).shardOf k = {} := by
    show (d.shardSet.lookup k).getD {} = {}
    rw [hempty]
    rfl
  have hlacks : ((d.sampled (lastPacket (ds + ps))).shardOf id).has
      (fecSeqid (lastPacket (ds + ps))) = false := by
    rw [hheaps]
    rfl
  have hpos : 0 < (d.sampled (lastPacket (ds + ps))).dataShards := by
    rw [hready.data]
    omega
  have hnewest := (sets_collect hid hpos hlacks).1
  have hgroup := shardOf_collect hid hpos hlacks 0
  have hsame : (d.sampled (lastPacket (ds + ps))).newestShardId = d.newestShardId := rfl
  have hdist := distance_position (ds + ps) id d.newestShardId
  have hlt := position_lt (ds + ps) d.newestShardId
  have hother : (0 : UInt32) ≠ id := by
    rintro rfl
    have hone : 1 ≤ 2147483647 / (ds + ps) := (Nat.le_div_iff_mul_le (by omega)).mpr (by omega)
    rw [← hnat] at hone
    exact absurd hone (by decide)
  rw [position_of_below hle (by omega), hmul] at hdist
  rw [hready.size, hsame] at hnewest
  rw [decode_consistent h.toInSync (by omega) hle (consistent_lastPacket (by omega))]
  refine ⟨hready.collect _, ?_, ?_⟩
  · rw [hgroup, if_neg hother, hheaps, ite_self]
  · rw [hnewest, newestAfter]
    split_ifs with hlater hpass hpass
    · rw [position_of_below hle (by omega), hmul]
    · omega
    · omega
    · rfl

end Differ

def FecDecoder.Adopts (d : FecDecoder) (p : Bytes) (ds ps : ℕ) : Prop :=
  ((d.decode p).1.dataShards = ds ∧ (d.decode p).1.parityShards = ps) ∧
    ¬ (d.dataShards = ds ∧ d.parityShards = ps)

section Adopts

variable {d : FecDecoder} {p : Bytes} {ds ps : ℕ}

/-- A decoder that has taken over parameters is a new one with these, but for the newest shard id and
the samples. -/
theorem FecDecoder.Adopts.spec (h : d.Adopts p ds ps) : 0 < ds ∧ 0 < ps ∧ ds + ps < 256 ∧
    ∃ fresh, FecDecoder.new ds ps = some fresh ∧
      (d.decode p).1 = { fresh with
        newestShardId := d.newestShardId, autoTune := (d.sampled p).autoTune } := by
  obtain ⟨⟨hdata, hparity⟩, hother⟩ := h
  have hkept (hset : (d.decode p).1.settings = (d.sampled p).settings) : False := by
    simp only [settings, Prod.mk.injEq] at hset
    exact hother ⟨hset.1.symm.trans hdata, hset.2.1.symm.trans hparity⟩
  rcases decode_cases d p with hdec | hdec | hdec | ⟨-, -, -, hdec⟩
  · rw [hdec] at hdata hparity
    exact absurd ⟨hdata, hparity⟩ hother
  · exact (hkept (by rw [hdec])).elim
  · rw [hdec] at hdata hparity ⊢
    rcases tune_cases { d.sampled p with shouldTune := true } with
      ⟨b, htune⟩ | ⟨a, b, ha, hb, hsum, -, -, -, htune⟩
    · rw [htune] at hdata hparity
      exact absurd ⟨hdata, hparity⟩ hother
    · obtain ⟨codec, m, hcodec, -⟩ := Rs.Codec.new_spec (show 1 ≤ a by omega) hb (by omega)
      rw [htune] at hdata hparity ⊢
      unfold adopt at hdata hparity ⊢
      rw [hcodec] at hdata hparity ⊢
      obtain rfl : a = ds := hdata
      obtain rfl : b = ps := hparity
      refine ⟨ha, hb, hsum, ?_⟩
      unfold FecDecoder.new
      rw [if_neg (by omega), if_neg (by omega), Int.toNat_natCast, Int.toNat_natCast, hcodec]
      exact ⟨_, rfl, rfl⟩
  · exact (hkept (by rw [hdec]; exact settings_collect _ _)).elim

end Adopts

/-- After a call that takes over new parameters, a decoder returns what a new decoder with these
returns, on every later sequence of consistent packets, if and only if every group is a single data
packet, or the newest shard id that it keeps reads as one of the first groups or as one that every
group passes. -/
theorem retuned_like_new (d : FecDecoder) (p : Bytes) (ds ps : ℕ) (hadopts : d.Adopts p ds ps) :
    ∃ fresh, FecDecoder.new ds ps = some fresh ∧
      ((∀ pkts, (∀ q ∈ pkts, Consistent ds ps q) →
          (run FecDecoder.decode (d.decode p).1 pkts).2 = (run FecDecoder.decode fresh pkts).2) ↔
        ds = 1 ∨ position (ds + ps) d.newestShardId ≤ 3 * (ds + ps) ∨
          2147483648 + lastPosition (ds + ps) < position (ds + ps) d.newestShardId) := by
  obtain ⟨hds, hps, hlt, fresh, hnew, htuned⟩ := hadopts.spec
  have hle : ds + ps ≤ 256 := hlt.le
  obtain ⟨fresh', m, hnew', hsync, hcodec, -, hset, hnewest, hcache, hflags, -⟩ :=
    new_spec hds hps hle
  obtain rfl : fresh' = fresh := Option.some.inj (hnew'.symm.trans hnew)
  have hready : fresh'.Ready ds ps m := by
    refine ⟨hsync, hcodec, ?_, ?_, hps, hle⟩
    · rw [hcache, newDecodeCache, List.length_replicate]
    · rw [hflags, List.length_replicate]
  refine ⟨fresh', hnew, ?_⟩
  rw [htuned]
  generalize (d.sampled p).autoTune = tuner
  set tuned : FecDecoder := { fresh' with newestShardId := d.newestShardId, autoTune := tuner }
    with htuned'
  have halike : tuned.Alike fresh' := ⟨_, _, _, rfl⟩
  have hreadyt : tuned.Ready ds ps m := by
    obtain ⟨⟨h1, h2, h3, h4, h5⟩, h6, h7, h8, h9, h10⟩ := hready
    exact ⟨⟨h1, h2, h3, h4, h5⟩, h6, h7, h8, h9, h10⟩
  have hempty (k : UInt32) : fresh'.shardOf k = {} := by
    rw [shardOf, hset]
    rfl
  have hemptyt (k : UInt32) : tuned.shardOf k = {} := hempty k
  have hzero : position (ds + ps) fresh'.newestShardId = 0 := by
    rw [hnewest]
    simp [position]
  constructor
  · intro hsame
    by_contra hbad
    push Not at hbad
    obtain ⟨hone, hnear, hfar⟩ := hbad
    have htwo : 2 ≤ ds := by omega
    obtain ⟨pkts, hpkts, hgathers⟩ := exists_group m htwo hps hle
    rcases Nat.lt_or_ge (position (ds + ps) d.newestShardId) 2147483648 with hlow | hhigh
    · -- the tuned decoder forgets what the new one gathers
      obtain ⟨o, ho, hne⟩ := hgathers fresh' hready (hempty 0) (.inl (by omega))
      have hforgets : Forgets ds ps tuned := ⟨hreadyt.toInSync, hnear, hlow, hemptyt 0⟩
      rw [← hsame pkts fun q hq => (hpkts q hq).1] at ho
      exact hne (hforgets.run htwo hle hpkts o ho)
    · -- a packet far ahead moves the new decoder only
      obtain ⟨ht1, ht2, ht3⟩ := hreadyt.decode_lastPacket htwo hset
      obtain ⟨hf1, hf2, hf3⟩ := hready.decode_lastPacket htwo hset
      have hlast := lastPosition_le (ds + ps)
      have hpast : 3 * (ds + ps) < lastPosition (ds + ps) := by
        refine Nat.mul_lt_mul_of_pos_right ?_ (by omega)
        refine (Nat.le_div_iff_mul_le (by omega)).mpr ?_
        omega
      have hkept : tuned.newestShardId = d.newestShardId := rfl
      rw [hkept, if_neg (by omega)] at ht3
      rw [hzero, if_pos (.inr (by omega))] at hf3
      obtain ⟨o, ho, hne⟩ := hgathers _ ht1 ht2 (.inr (by rw [ht3]; exact hhigh))
      have hforgets : Forgets ds ps (fresh'.decode (lastPacket (ds + ps))).1 :=
        ⟨hf1.toInSync, by omega, by omega, hf2⟩
      have hboth := hsame (lastPacket (ds + ps) :: pkts)
        (List.forall_mem_cons.mpr ⟨consistent_lastPacket hds, fun q hq => (hpkts q hq).1⟩)
      rw [run_cons, run_cons] at hboth
      rw [(List.cons.inj hboth).2] at ho
      exact hne (hforgets.run htwo hle hpkts o ho)
  · rintro (rfl | hnear) pkts hpkts
    · have hhollow : Hollow ps tuned fresh' := ⟨halike, hsync, hemptyt, hempty⟩
      refine run_simulation (Hollow ps) (Consistent 1 ps) ?_ hpkts hhollow
      intro s t q hq hst
      rw [decode_consistent hst.sync (by omega) hle hq,
        decode_consistent (hst.alike.inSync hst.sync) (by omega) hle hq]
      exact (hst.sampled q).collect q
    · have htwins : Twins ds ps d.newestShardId tuned fresh' := by
        refine ⟨halike, hsync, ?_, ?_, .inr (hnear.imp ?_ ?_)⟩
        · rw [hnewest]
          exact Nat.lt_of_le_of_lt (Nat.zero_mul _).le (by decide)
        · intro k _
          rw [hemptyt, hempty]
        · intro hn
          refine ⟨hn, rfl, ?_⟩
          rw [hnewest]
          exact (Nat.zero_mul _).le.trans (Nat.zero_le _)
        · intro hf
          exact ⟨hf, rfl, hnewest, hempty⟩
      refine run_simulation (Twins ds ps d.newestShardId) (Consistent ds ps) ?_ hpkts htwins
      intro s t q hq hst
      rw [decode_consistent hst.sync (by omega) hle hq,
        decode_consistent (hst.alike.inSync hst.sync) (by omega) hle hq]
      exact (hst.sampled q).collect hds hle hq

/-- Packets from which a decoder reads groups of two data packets and a parity packet. -/
def twoOfThree : List Bytes :=
  [fecHeader 5 TYPE_PARITY, fecHeader 6 TYPE_DATA, fecHeader 7 TYPE_DATA, fecHeader 8 TYPE_PARITY]

def secondAndParity : List Bytes :=
  [fecHeader 1 TYPE_DATA ++ [2, 0], fecHeader 2 TYPE_PARITY ++ [7, 0]]

private theorem recovers_first :
    (FecDecoder.new 2 1).map (fun d => (run FecDecoder.decode d secondAndParity).2) =
      some [[], [[1, 0]]] := by
  decide +kernel

theorem retuned_like_new_near : ∃ d d' : FecDecoder, FecDecoder.new 1 1 = some d ∧
    d' = ((run FecDecoder.decode d twoOfThree).1.decode (fecHeader 9 TYPE_DATA)).1 ∧
    d'.dataShards = 2 ∧ d'.parityShards = 1 ∧
    (run FecDecoder.decode d' secondAndParity).2 = [[], [[1, 0]]] := by
  obtain ⟨d, hnew, hadopts, hnear⟩ : ∃ d, FecDecoder.new 1 1 = some d ∧
      (run FecDecoder.decode d twoOfThree).1.Adopts (fecHeader 9 TYPE_DATA) 2 1 ∧
      position 3 (run FecDecoder.decode d twoOfThree).1.newestShardId ≤ 9 := by
    refine ⟨_, rfl, ⟨?_, ?_⟩, ?_⟩ <;> decide +kernel
  obtain ⟨fresh, hfresh, hiff⟩ := retuned_like_new _ _ 2 1 hadopts
  have hsame := hiff.mpr (.inr (.inl hnear)) secondAndParity (by decide +kernel)
  have hfirst := recovers_first
  rw [show FecDecoder.new 2 1 = some fresh from hfresh, Option.map_some] at hfirst
  exact ⟨d, _, hnew, rfl, hadopts.1.1, hadopts.1.2, hsame.trans (Option.some.inj hfirst)⟩

/-- After seqid 2000 the two differ: the decoder that was tuned takes group 0 to be a thousand
groups old. -/
theorem retuned_forgets : ∃ d fresh d' : FecDecoder, FecDecoder.new 1 1 = some d ∧
    FecDecoder.new 2 1 = some fresh ∧
    d' = (run FecDecoder.decode d (fecHeader 2000 TYPE_DATA :: twoOfThree)).1 ∧
    d'.Adopts (fecHeader 9 TYPE_DATA) 2 1 ∧ (∀ q ∈ secondAndParity, Consistent 2 1 q) ∧
    (run FecDecoder.decode (d'.decode (fecHeader 9 TYPE_DATA)).1 secondAndParity).2 = [[], []] ∧
    (run FecDecoder.decode fresh secondAndParity).2 = [[], [[1, 0]]] := by
  obtain ⟨fresh, hfresh, hfirst⟩ := Option.map_eq_some_iff.mp recovers_first
  refine ⟨_, fresh, _, rfl, hfresh, rfl, ⟨⟨?_, ?_⟩, ?_⟩, ?_, ?_, hfirst⟩ <;> decide +kernel

end Kcptun.Fec
