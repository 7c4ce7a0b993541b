/- Kcptun/Fec/Alignment
   source: crates/kcp/src/fec.rs (FecEncoder, the type check of FecDecoder::decode)
   digest: Whole runs of the encoder: which packets it emits, that their seqids stay aligned with
     the groups, and that a decoder with the same parameters never tunes on them. -/

import Kcptun.Fec.Decoder
import Kcptun.Fec.Stream

set_option autoImplicit false
set_option relaxedAutoImplicit false

namespace Kcptun.Fec

open Kcptun.Lib Kcptun.Lib.LittleEndian

inductive Call
  | encode (b : Bytes) (rto : UInt32) (now : Int)
  | encodeOob (b : Bytes)

inductive Outcome
  | failed (e : Error)
  | sealed (b : Bytes) (parity : List Bytes)
  | oob (b : Bytes)

namespace FecEncoder

/-- One call; a failed one leaves the encoder as it was. -/
def step (e : FecEncoder) : Call → FecEncoder × Outcome
  | .encode b rto now =>
    match e.encode b rto now with
    | .error err => (e, .failed err)
    | .ok (e', b', parity) => (e', .sealed b' parity)
  | .encodeOob b =>
    match e.encodeOob b with
    | .error err => (e, .failed err)
    | .ok b' => (e, .oob b')

end FecEncoder

/-- The sealed packets of a run, each with the parity packets that followed it. -/
def sealedOf (outcomes : List Outcome) : List (Bytes × List Bytes) :=
  outcomes.filterMap fun
    | .sealed b parity => some (b, parity)
    | _ => none

def accepted (ho : ℕ) (calls : List Call) : List Bytes :=
  calls.filterMap fun
    | .encode b _ _ => if FecEncoder.Admits ho b then some b else none
    | .encodeOob _ => none

def groupOf (ds : ℕ) (packets : List Bytes) (g : ℕ) : List Bytes := (packets.drop (g * ds)).take ds

def waiting (ds : ℕ) (packets : List Bytes) : List Bytes := packets.drop (packets.length / ds * ds)

/-- What goes to the wire for packet `n`, the crypto header cut off: its data packet and, after the
last one of a group, the parity packets of the group or none. -/
structure Emits (ds ps ho : ℕ) (m : Rs.Matrix) (packets : List Bytes) (n : ℕ) (o : Bytes × List Bytes) :
    Prop where
  length : o.1.length = (packets.getD n []).length
  data : o.1.drop ho = dataPacket (ds + ps) (ho + 6) (n / ds) (n % ds) (packets.getD n [])
  parity : o.2 = [] ∨ (n % ds + 1 = ds ∧
    o.2.map (·.drop ho) = (List.range' ds ps).map
      (parityPacket (ds + ps) (ho + 6) (n / ds) m (groupOf ds packets (n / ds))))
  parity_length : ∀ p ∈ o.2, p.length = longest (groupOf ds packets (n / ds))

section Groups

variable {ds : ℕ} {packets : List Bytes} {b : Bytes}

private theorem length_waiting : (waiting ds packets).length = packets.length % ds := by
  have := Nat.div_add_mod packets.length ds
  rw [Nat.mul_comm] at this
  rw [waiting, List.length_drop]
  omega

private theorem waiting_append (hds : 0 < ds) (b : Bytes) :
    waiting ds (packets ++ [b]) =
      if packets.length % ds + 1 = ds then [] else waiting ds packets ++ [b] := by
  have hdiv := Nat.div_add_mod packets.length ds
  have hmod := Nat.mod_lt packets.length hds
  have hlen : (packets ++ [b]).length = packets.length + 1 := by simp
  unfold waiting
  rw [hlen]
  split_ifs with hfull
  · obtain ⟨-, hq⟩ := FecEncoder.succ_mod_of_eq hds hfull
    have heq : (packets.length / ds + 1) * ds = packets.length + 1 := by
      rw [Nat.add_mul, Nat.mul_comm]
      omega
    rw [hq, heq]
    exact List.drop_eq_nil_of_le hlen.le
  · obtain ⟨-, hq⟩ := @FecEncoder.succ_mod_of_lt packets.length ds (by omega)
    rw [hq, List.drop_append_of_le_length]
    rw [Nat.mul_comm]
    omega

private theorem waiting_append_eq_groupOf (hfull : packets.length % ds + 1 = ds)
    (later : List Bytes) :
    waiting ds packets ++ [b] = groupOf ds (packets ++ [b] ++ later) (packets.length / ds) := by
  have hdiv := Nat.div_add_mod packets.length ds
  have hlen := @length_waiting ds packets
  have hle : packets.length / ds * ds ≤ packets.length := Nat.div_mul_le_self _ _
  unfold groupOf
  rw [List.append_assoc, List.drop_append_of_le_length hle, ← waiting, ← List.append_assoc,
    List.take_append_of_le_length, List.take_of_length_le]
  all_goals
    rw [List.length_append, hlen, List.length_singleton]
    omega

end Groups

section Runs

variable {ds ps ho : ℕ} {m : Rs.Matrix} {e : FecEncoder}

private theorem FecEncoder.Ok.run {packets : List Bytes} (calls : List Call)
    (h : e.Ok ds ps ho m packets.length (waiting ds packets)) :
    let r := Lib.run FecEncoder.step e calls
    let all := packets ++ accepted ho calls
    r.1.Ok ds ps ho m all.length (waiting ds all) ∧
      (sealedOf r.2).length = (accepted ho calls).length ∧
      ∀ k o, (sealedOf r.2)[k]? = some o → Emits ds ps ho m all (packets.length + k) o := by
  induction calls generalizing e packets with
  | nil =>
    refine ⟨?_, rfl, ?_⟩
    · simpa [accepted] using h
    · intro k o hk
      simp [sealedOf] at hk
  | cons c calls ih =>
    have hds := h.codec_ok.pos
    -- a call that adds nothing to the stream
    have hskip : (e.step c).1 = e → accepted ho (c :: calls) = accepted ho calls →
        (∀ outs, sealedOf ((e.step c).2 :: outs) = sealedOf outs) →
        let r := Lib.run FecEncoder.step e (c :: calls)
        let all := packets ++ accepted ho (c :: calls)
        r.1.Ok ds ps ho m all.length (waiting ds all) ∧
          (sealedOf r.2).length = (accepted ho (c :: calls)).length ∧
          ∀ k o, (sealedOf r.2)[k]? = some o → Emits ds ps ho m all (packets.length + k) o := by
      intro hstate hacc hout
      have hrec := ih h
      intro r all
      have hr : r = ((Lib.run FecEncoder.step e calls).1,
          (e.step c).2 :: (Lib.run FecEncoder.step e calls).2) := by
        change Lib.run FecEncoder.step e (c :: calls) = _
        rw [run_cons, hstate]
      have hall : all = packets ++ accepted ho calls := congrArg (packets ++ ·) hacc
      rw [hr, hall, hacc, hout]
      exact hrec
    cases c with
    | encodeOob b =>
      refine hskip ?_ rfl ?_ <;>
      · simp only [FecEncoder.step]
        split <;> first | rfl | exact fun _ => rfl
    | encode b rto now =>
      by_cases hb : Admits ho b
      · have hacc : accepted ho (.encode b rto now :: calls) = b :: accepted ho calls := by
          simp [accepted, hb]
        obtain ⟨e', parity, henc, -, hok, hparity, hlens⟩ := h.encode hb rto now
        have hstep : e.step (.encode b rto now) = (e', .sealed (e.sealData b) parity) := by
          simp only [FecEncoder.step, henc]
        have hwait : (packets ++ [b]).length = packets.length + 1 := by simp
        rw [← waiting_append hds, ← hwait] at hok
        obtain ⟨hfinal, hlen, hemits⟩ := ih hok
        have hassoc : packets ++ [b] ++ accepted ho calls = packets ++ (b :: accepted ho calls) := by
          simp
        intro r all
        have hr : r = ((Lib.run FecEncoder.step e' calls).1,
            .sealed (e.sealData b) parity :: (Lib.run FecEncoder.step e' calls).2) := by
          change Lib.run FecEncoder.step e (.encode b rto now :: calls) = _
          rw [run_cons, hstep]
        have hall : all = packets ++ [b] ++ accepted ho calls := by
          rw [hassoc]
          exact congrArg (packets ++ ·) hacc
        have hseal : ∀ outs, sealedOf (.sealed (e.sealData b) parity :: outs) =
            (e.sealData b, parity) :: sealedOf outs := fun _ => rfl
        rw [hr, hall, hacc, hseal]
        refine ⟨hfinal, by rw [List.length_cons, List.length_cons, hlen], ?_⟩
        intro k o hk
        cases k with
        | succ k =>
          have hrec := hemits k o (by simpa using hk)
          rw [hwait] at hrec
          rwa [show packets.length + (k + 1) = packets.length + 1 + k by omega]
        | zero =>
          have hpkt : o = (e.sealData b, parity) := by simpa using hk.symm
          have hget : (packets ++ [b] ++ accepted ho calls).getD packets.length [] = b := by
            simp
          subst hpkt
          rw [Nat.add_zero]
          refine ⟨?_, ?_, ?_, ?_⟩
          · rw [hget]
            exact length_sealData h.toHolds hb
          · rw [hget]
            exact h.sealed hb
          · by_cases hfull : packets.length % ds + 1 = ds
            · rw [waiting_append_eq_groupOf hfull (accepted ho calls)] at hparity
              split_ifs at hparity with hc
              · exact .inr ⟨hfull, hparity⟩
              · exact .inl (List.map_eq_nil_iff.mp hparity)
            · rw [if_neg (fun hc => hfull hc.1)] at hparity
              exact .inl (List.map_eq_nil_iff.mp hparity)
          · intro p hp
            by_cases hfull : packets.length % ds + 1 = ds
            · rw [hlens p hp, waiting_append_eq_groupOf hfull (accepted ho calls)]
            · rw [if_neg (fun hc => hfull hc.1)] at hparity
              rw [List.map_eq_nil_iff.mp hparity] at hp
              exact absurd hp List.not_mem_nil
      · obtain ⟨err, herr⟩ := h.toHolds.encode_error hb rto now
        refine hskip ?_ ?_ ?_
        · simp only [FecEncoder.step, herr]
        · simp [accepted, hb]
        · simp only [FecEncoder.step, herr]
          intro _
          rfl

theorem FecEncoder.run_of_new (hds : 1 ≤ ds) (hps : 1 ≤ ps) (hle : ds + ps ≤ 256)
    (hnew : FecEncoder.new ds ps ho = .ok (some e)) (calls : List Call) :
    ∃ m, e.Ok ds ps ho m 0 [] ∧
      (Lib.run FecEncoder.step e calls).1.Ok ds ps ho m (accepted ho calls).length
        (waiting ds (accepted ho calls)) ∧
      (sealedOf (Lib.run FecEncoder.step e calls).2).length = (accepted ho calls).length ∧
      ∀ k o, (sealedOf (Lib.run FecEncoder.step e calls).2)[k]? = some o →
        Emits ds ps ho m (accepted ho calls) k o := by
  obtain ⟨e', m, hnew', hok, -⟩ := FecEncoder.new_ok hds hps hle ho
  obtain rfl : e' = e := by
    rw [hnew] at hnew'
    simpa using hnew'.symm
  have hstart : e'.Ok ds ps ho m ([] : List Bytes).length (waiting ds []) := by
    rw [waiting, List.drop_nil]
    exact hok
  have hrun := hstart.run calls
  simp only [List.nil_append, List.length_nil, Nat.zero_add] at hrun
  exact ⟨m, hok, hrun⟩

end Runs

def Labelled (ds ps : ℕ) (pkt : Bytes) : Prop :=
  FEC_HEADER_SIZE ≤ pkt.length ∧
    fecFlag pkt = if (fecSeqid pkt).toNat % (ds + ps) < ds then TYPE_DATA else TYPE_PARITY

instance (ds ps : ℕ) (pkt : Bytes) : Decidable (Labelled ds ps pkt) :=
  inferInstanceAs (Decidable (_ ∧ _))

/-- The packets of a run, from the FEC header on. -/
def wire (ho : ℕ) (outcomes : List Outcome) : List Bytes :=
  (sealedOf outcomes).flatMap fun o => (o.1 :: o.2).map (·.drop ho)

section Packets

variable {ss po g i : ℕ} {m : Rs.Matrix} {group : List Bytes} {b : Bytes}

theorem toNat_seqOf (hpos : 0 < ss) (hle : ss ≤ 256) (hi : i < ss) :
    (UInt32.ofNat (seqOf ss g i)).toNat = seqOf ss g i := by
  have hlt := seqOf_lt hpos hle g hi
  have := (paws ss).toNat_lt
  rw [UInt32.toNat_ofNat']
  omega

theorem fecSeqid_dataPacket : fecSeqid (dataPacket ss po g i b) = UInt32.ofNat (seqOf ss g i) :=
  fecSeqid_fecHeader _ _ _

theorem fecSeqid_parityPacket :
    fecSeqid (parityPacket ss po g m group i) = UInt32.ofNat (seqOf ss g i) := fecSeqid_fecHeader _ _ _

theorem labelled_dataPacket {ds ps : ℕ} (hle : ds + ps ≤ 256) (hi : i < ds) :
    Labelled ds ps (dataPacket (ds + ps) po g i b) := by
  refine ⟨by simp [dataPacket, FEC_HEADER_SIZE], ?_⟩
  rw [fecSeqid_dataPacket, toNat_seqOf (by omega) hle (by omega), seqOf_mod g (by omega), if_pos hi]
  exact fecFlag_fecHeader _ _ _

theorem labelled_parityPacket {ds ps : ℕ} (hle : ds + ps ≤ 256) (hlo : ds ≤ i) (hi : i < ds + ps) :
    Labelled ds ps (parityPacket (ds + ps) po g m group i) := by
  refine ⟨by simp [parityPacket, FEC_HEADER_SIZE], ?_⟩
  rw [fecSeqid_parityPacket, toNat_seqOf (by omega) hle hi, seqOf_mod g hi, if_neg (by omega)]
  exact fecFlag_fecHeader _ _ _

end Packets

/-- Every packet on the wire is the data packet of an accepted packet or a parity packet of a
complete group. -/
theorem mem_wire {ds ps ho : ℕ} {m : Rs.Matrix} {packets : List Bytes} {outcomes : List Outcome}
    (h : ∀ k o, (sealedOf outcomes)[k]? = some o → Emits ds ps ho m packets k o)
    (hlen : (sealedOf outcomes).length = packets.length) {p : Bytes} (hp : p ∈ wire ho outcomes) :
    (∃ n < packets.length,
      p = dataPacket (ds + ps) (ho + 6) (n / ds) (n % ds) (packets.getD n [])) ∨
    (∃ n < packets.length, n % ds + 1 = ds ∧ ∃ i, ds ≤ i ∧ i < ds + ps ∧
      p = parityPacket (ds + ps) (ho + 6) (n / ds) m (groupOf ds packets (n / ds)) i) := by
  obtain ⟨o, ho, hmem⟩ := List.mem_flatMap.mp hp
  obtain ⟨n, hn, rfl⟩ := List.mem_iff_getElem.mp ho
  have hemit := h n _ (List.getElem?_eq_getElem hn)
  rw [List.map_cons] at hmem
  rcases List.mem_cons.mp hmem with rfl | hpar
  · exact .inl ⟨n, by omega, hemit.data⟩
  · rcases hemit.parity with hnil | ⟨hfull, hpars⟩
    · rw [hnil] at hpar
      exact absurd hpar List.not_mem_nil
    · rw [hpars] at hpar
      obtain ⟨i, hi, rfl⟩ := List.mem_map.mp hpar
      have hrange := List.mem_range'_1.mp hi
      exact .inr ⟨n, by omega, hfull, i, hrange.1, hrange.2, rfl⟩

namespace FecDecoder

/-- A decoder that works with the parameters `ds` and `ps` and has no reason to tune. -/
structure InSync (d : FecDecoder) (ds ps : ℕ) : Prop where
  data : d.dataShards = ds
  parity : d.parityShards = ps
  size : d.shardSize = ds + ps
  paws_eq : d.paws = Fec.paws (ds + ps)
  tune : d.shouldTune = false

variable {d : FecDecoder} {ds ps : ℕ} {pkt : Bytes}

theorem mismatch_iff (hle : d.shardSize ≤ 256) (hds : d.dataShards ≤ d.shardSize) (seqid : UInt32)
    (flag : UInt16) : d.mismatch seqid flag = false ↔
      flag = if seqid.toNat % d.shardSize < d.dataShards then TYPE_DATA else TYPE_PARITY := by
  have hsize : (UInt32.ofNat d.shardSize).toNat = d.shardSize := by
    rw [UInt32.toNat_ofNat']
    omega
  have hdata : (UInt32.ofNat d.dataShards).toNat = d.dataShards := by
    rw [UInt32.toNat_ofNat']
    omega
  have hlt : seqid % UInt32.ofNat d.shardSize < UInt32.ofNat d.dataShards ↔
      seqid.toNat % d.shardSize < d.dataShards := by
    rw [UInt32.lt_iff_toNat_lt, UInt32.toNat_mod, hsize, hdata]
  unfold mismatch
  by_cases hpos : seqid.toNat % d.shardSize < d.dataShards
  · rw [if_pos (hlt.mpr hpos), if_pos hpos, bne_eq_false_iff_eq]
  · rw [if_neg (fun hc => hpos (hlt.mp hc)), if_neg hpos, bne_eq_false_iff_eq]

theorem InSync.decode_eq (h : d.InSync ds ps) (hle : ds + ps ≤ 256) (hpkt : Labelled ds ps pkt) :
    d.decode pkt =
      if fecSeqid pkt < d.paws then (d.sampled pkt).collect pkt else (d.sampled pkt, []) := by
  split_ifs with hseq
  · refine decode_match hpkt.1 hseq h.tune ((mismatch_iff ?_ ?_ _ _).mpr ?_)
    · rw [h.size]
      exact hle
    · rw [h.size, h.data]
      omega
    · rw [h.size, h.data]
      exact hpkt.2
  · exact decode_beyond hpkt.1 (UInt32.not_lt.mp hseq)

private theorem InSync.decode (h : d.InSync ds ps) (hle : ds + ps ≤ 256)
    (hpkt : Labelled ds ps pkt) : (d.decode pkt).1.InSync ds ps := by
  have hsame : ∀ d' : FecDecoder, d'.settings = (d.sampled pkt).settings → d'.InSync ds ps := by
    intro d' hd'
    simp only [settings, Prod.mk.injEq] at hd'
    obtain ⟨h1, h2, h3, h4, -, h6⟩ := hd'
    exact ⟨h1.trans h.data, h2.trans h.parity, h3.trans h.size, h4.trans h.paws_eq, h6.trans h.tune⟩
  rw [h.decode_eq hle hpkt]
  split_ifs
  · exact hsame _ (settings_collect _ _)
  · exact hsame _ rfl

theorem InSync.run (h : d.InSync ds ps) (hle : ds + ps ≤ 256) {pkts : List Bytes}
    (hpkts : ∀ p ∈ pkts, Labelled ds ps p) : (Lib.run FecDecoder.decode d pkts).1.InSync ds ps :=
  run_invariant (fun d : FecDecoder => d.InSync ds ps) (Labelled ds ps)
    (fun _ _ hp hd => hd.decode hle hp) hpkts h

theorem new_spec (hds : 1 ≤ ds) (hps : 1 ≤ ps) (hsum : ds + ps ≤ 256) :
    ∃ d m, FecDecoder.new ds ps = some d ∧ d.InSync ds ps ∧ d.codec.Ok ds ps m ∧
      Rs.Codec.new ds ps = .ok d.codec ∧ d.shardSet = [] ∧ d.newestShardId = 0 ∧
      d.decodeCache = newDecodeCache (ds + ps) ∧ d.flagCache = List.replicate (ds + ps) false ∧
      d.autoTune = AutoTune.new := by
  obtain ⟨codec, m, hnew, hok⟩ := Rs.Codec.new_spec hds hps hsum
  unfold FecDecoder.new
  rw [if_neg (by omega), if_neg (by omega), Int.toNat_natCast, Int.toNat_natCast, hnew]
  exact ⟨_, m, rfl, ⟨rfl, rfl, rfl, rfl, rfl⟩, hok, rfl, rfl, rfl, rfl, rfl, rfl⟩

end FecDecoder

theorem FecEncoder.new_bounds {ds ps : Int} {ho : ℕ} {e : FecEncoder}
    (h : FecEncoder.new ds ps ho = .ok (some e)) :
    ∃ d p : ℕ, ds = d ∧ ps = p ∧ 1 ≤ d ∧ 1 ≤ p ∧ d + p ≤ 256 := by
  unfold FecEncoder.new at h
  split_ifs at h with hpos
  · exact absurd h (by simp)
  · refine ⟨ds.toNat, ps.toNat, by omega, by omega, by omega, by omega, ?_⟩
    by_contra hlarge
    unfold Rs.Codec.new at h
    rw [if_pos (by unfold Rs.MAX_TOTAL_SHARDS; omega)] at h
    exact absurd h (by simp [throw, throwThe, MonadExceptOf.throw, bind, Except.bind])

/-- Sequence numbers stay aligned with the groups over every run of calls, whatever fails, however
often the sequence space wraps: packet `n` is number `n % ds` of group `n / ds`. -/
theorem sequence_aligned (ds ps : Int) (ho : ℕ) (e : FecEncoder)
    (hnew : FecEncoder.new ds ps ho = .ok (some e)) (calls : List Call) :
    let r := run FecEncoder.step e calls
    let ss := ds.toNat + ps.toNat
    let sealed := sealedOf r.2
    (r.1.next < r.1.paws ∧ r.1.next.toNat % ss = r.1.shardCount) ∧
      (∀ n b parity, sealed[n]? = some (b, parity) →
        (fecSeqid (b.drop ho)).toNat % ss = n % ds.toNat ∧
        (∀ j p, parity[j]? = some p → (fecSeqid (p.drop ho)).toNat % ss = ds.toNat + j ∧
          (fecSeqid (p.drop ho)).toNat / ss = (fecSeqid (b.drop ho)).toNat / ss) ∧
        ∀ n' b' parity', sealed[n']? = some (b', parity') → n' / ds.toNat = n / ds.toNat →
          (fecSeqid (b'.drop ho)).toNat / ss = (fecSeqid (b.drop ho)).toNat / ss) ∧
      ∃ d, FecDecoder.new ds ps = some d ∧ ∀ pkts, (∀ p ∈ pkts, p ∈ wire ho r.2) →
        (run FecDecoder.decode d pkts).1.shouldTune = false := by
  obtain ⟨ds, ps, rfl, rfl, hds, hps, hsum⟩ := FecEncoder.new_bounds hnew
  rw [Int.toNat_natCast, Int.toNat_natCast]
  intro r ss sealed
  obtain ⟨m, hok, hend, hlen, hemits⟩ := FecEncoder.run_of_new hds hps hsum hnew calls
  set packets := accepted ho calls with hpackets
  have hmod := Nat.mod_lt packets.length hds
  have hseq : ∀ n b parity, sealed[n]? = some (b, parity) →
      (fecSeqid (b.drop ho)).toNat = seqOf ss (n / ds) (n % ds) := by
    intro n b parity hn
    have hlt := Nat.mod_lt n hds
    rw [(hemits n _ hn).data, fecSeqid_dataPacket, toNat_seqOf (by omega) hsum (by omega)]
  refine ⟨⟨?_, ?_⟩, fun n b parity hn => ⟨?_, ?_, ?_⟩, ?_⟩
  · rw [UInt32.lt_iff_toNat_lt, hend.paws_eq, hend.next_eq]
    exact seqOf_lt (by omega) hsum _ (by omega)
  · rw [hend.next_eq, seqOf_mod _ (by omega), hend.count]
  · have hlt := Nat.mod_lt n hds
    rw [hseq n b parity hn, seqOf_mod _ (by omega)]
  · intro j p hj
    have hlt := Nat.mod_lt n hds
    rcases (hemits n _ hn).parity with hnil | ⟨hfull, hpar⟩
    · have hnil' : parity = [] := hnil
      rw [hnil'] at hj
      exact absurd hj (by simp)
    · have hjp := congrArg (·[j]?) hpar
      simp only [List.getElem?_map, hj, Option.map_some] at hjp
      have hjlt : j < ps := by
        by_contra hge
        rw [List.getElem?_eq_none (by simpa using hge)] at hjp
        simp at hjp
      rw [List.getElem?_range' hjlt] at hjp
      have hpeq : p.drop ho = parityPacket (ds + ps) (ho + 6) (n / ds) m
          (groupOf ds packets (n / ds)) (ds + j) := by simpa using hjp
      have hpseq : (fecSeqid (p.drop ho)).toNat = seqOf ss (n / ds) (ds + j) := by
        rw [hpeq, fecSeqid_parityPacket, toNat_seqOf (by omega) hsum (by omega)]
      rw [hpseq, hseq n b parity hn, seqOf_mod _ (by omega), seqOf_div _ (by omega),
        seqOf_div _ (by omega)]
      exact ⟨rfl, rfl⟩
  · intro n' b' parity' hn' hgroup
    have hlt := Nat.mod_lt n hds
    have hlt' := Nat.mod_lt n' hds
    rw [hseq n b parity hn, hseq n' b' parity' hn', hgroup, seqOf_div _ (by omega),
      seqOf_div _ (by omega)]
  · obtain ⟨d, -, hdec, hsync, -⟩ := FecDecoder.new_spec hds hps hsum
    refine ⟨d, hdec, fun pkts hpkts => (hsync.run hsum ?_).tune⟩
    intro p hp
    rcases mem_wire hemits hlen (hpkts p hp) with ⟨n, -, rfl⟩ | ⟨n, -, -, i, hlo, hi, rfl⟩
    · exact labelled_dataPacket hsum (Nat.mod_lt n hds)
    · exact labelled_parityPacket hsum hlo hi

/-- One data packet, one that is too short and an out-of-band packet. -/
theorem sequence_aligned_one : ∃ e, FecEncoder.new 1 1 0 = .ok (some e) ∧
    let r := run FecEncoder.step e [.encode [0, 0, 0, 0, 0, 0, 0, 0, 7] 500 0, .encode [1] 500 0,
      .encodeOob [0, 0, 0, 0, 0, 0, 0, 0, 9]]
    r.1.next.toNat % 2 = r.1.shardCount := by
  obtain ⟨e, m, hnew, -⟩ := @FecEncoder.new_ok 1 1 le_rfl le_rfl (by decide) 0
  exact ⟨e, hnew, (sequence_aligned 1 1 0 e hnew _).1.2⟩

end Kcptun.Fec
