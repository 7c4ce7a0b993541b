/- Kcptun/Fec/Convergence
   source: crates/kcp/src/fec.rs (auto-tuning in FecDecoder::decode), crates/kcp/src/autotune.rs
   digest: A decoder with other parameters that is fed a stream without a gap takes over the
     parameters of the stream, except for groups of 256 shards. -/

import Kcptun.Fec.EndToEnd
import Kcptun.Fec.HostileInput
import Kcptun.Fec.PeriodFound

set_option autoImplicit false
set_option relaxedAutoImplicit false

namespace Kcptun.Fec

open Kcptun.Lib Kcptun.Lib.LittleEndian Kcptun.Arq

def pulseOf (p : Bytes) : Pulse := ⟨fecFlag p == TYPE_DATA, fecSeqid p⟩

/-- Packets of a stream with `ds` data and `ps` parity shards in a group, from number `s` on, with
no gap and no wrap. -/
structure Feed (ds ps s : ℕ) (pkts : List Bytes) : Prop where
  labelled : ∀ p ∈ pkts, Labelled ds ps p
  seq : ∀ i p, pkts[i]? = some p → (fecSeqid p).toNat = s + i
  below : s + pkts.length ≤ 4294967295

private theorem Labelled.pulseOf {ds ps : ℕ} {p : Bytes} (h : Labelled ds ps p) :
    pulseOf p = ⟨signalAt ds ps (fecSeqid p).toNat, fecSeqid p⟩ := by
  unfold Fec.pulseOf signalAt
  rw [h.2]
  by_cases hpos : (fecSeqid p).toNat % (ds + ps) < ds
  · rw [if_pos hpos, decide_eq_true hpos]
    rfl
  · rw [if_neg hpos, decide_eq_false hpos]
    rfl

private theorem Feed.map_pulseOf {ds ps s : ℕ} {pkts : List Bytes} (h : Feed ds ps s pkts) :
    pkts.map pulseOf = pulsesFrom ds ps s pkts.length := by
  apply List.ext_getElem?
  intro i
  rcases Nat.lt_or_ge i pkts.length with hi | hi
  · have hget := List.getElem?_eq_getElem hi
    have hseq := h.seq i _ hget
    rw [List.getElem?_map, hget, Option.map_some, (h.labelled _ (List.getElem_mem hi)).pulseOf, hseq,
      getElem?_pulsesFrom hi, ← hseq, UInt32.ofNat_toNat]
  · rw [List.getElem?_eq_none (by rwa [List.length_map]),
      List.getElem?_eq_none (by rwa [length_pulsesFrom])]

private theorem Feed.take {ds ps s : ℕ} {pkts : List Bytes} (h : Feed ds ps s pkts) (k : ℕ) :
    Feed ds ps s (pkts.take k) := by
  have hle := List.length_take_le k pkts
  have hbelow := h.below
  refine ⟨fun p hp => h.labelled p (List.mem_of_mem_take hp), fun i p hi => h.seq i p ?_, ?_⟩
  · obtain ⟨hlt, hget⟩ := List.getElem?_eq_some_iff.mp hi
    rw [List.getElem_take] at hget
    rw [List.length_take] at hlt
    exact List.getElem?_eq_some_iff.mpr ⟨by omega, hget⟩
  · have := List.length_take_le' k pkts
    omega

private theorem exists_residue {n r : ℕ} (hr : r < n) (x : ℕ) : ∃ y < n, (x + y) % n = r := by
  have hx := Nat.mod_lt x (show 0 < n by omega)
  rcases Nat.lt_or_ge r (x % n) with hlt | hge
  · refine ⟨n - x % n + r, by omega, ?_⟩
    rw [← Nat.mod_add_mod, show x % n + (n - x % n + r) = n + r by omega, Nat.add_mod_left,
      Nat.mod_eq_of_lt hr]
  · refine ⟨r - x % n, by omega, ?_⟩
    rw [← Nat.mod_add_mod, show x % n + (r - x % n) = r by omega, Nat.mod_eq_of_lt hr]

namespace FecDecoder

variable {d : FecDecoder} {ds ps s a b k : ℕ} {m : Rs.Matrix} {pkts : List Bytes} {pkt : Bytes}

private theorem autoTune_tune (d : FecDecoder) : d.tune.autoTune = d.autoTune := by
  rcases tune_cases d with ⟨flag, htune⟩ | ⟨a, b, -, -, -, -, -, -, htune⟩
  · rw [htune]
  · rw [htune]
    unfold adopt
    split <;> rfl

private theorem autoTune_decode (d : FecDecoder) (h : FEC_HEADER_SIZE ≤ pkt.length) :
    (d.decode pkt).1.autoTune = (d.sampled pkt).autoTune := by
  by_cases hseq : fecSeqid pkt < d.paws
  · cases htune : d.shouldTune || d.mismatch (fecSeqid pkt) (fecFlag pkt) with
    | true =>
      rw [decode_mismatch h hseq htune]
      exact autoTune_tune _
    | false =>
      obtain ⟨hsync, hmatch⟩ := Bool.or_eq_false_iff.mp htune
      have hset := settings_collect (d.sampled pkt) pkt
      simp only [settings, Prod.mk.injEq] at hset
      rw [decode_match h hseq hsync hmatch]
      exact hset.2.2.2.2.1
  · rw [decode_beyond h (UInt32.not_lt.mp hseq)]

private theorem autoTune_run (d : FecDecoder) (h : ∀ p ∈ pkts, FEC_HEADER_SIZE ≤ p.length) :
    (run FecDecoder.decode d pkts).1.autoTune = d.autoTune.samples (pkts.map pulseOf) := by
  induction pkts generalizing d with
  | nil => rfl
  | cons p pkts ih =>
    obtain ⟨hp, hpkts⟩ := List.forall_mem_cons.mp h
    rw [run_cons, ih _ hpkts, autoTune_decode d hp]
    rfl

def after (d : FecDecoder) (pkts : List Bytes) (k : ℕ) : FecDecoder :=
  (run FecDecoder.decode d (pkts.take k)).1

private theorem after_succ (hk : pkts[k]? = some pkt) :
    d.after pkts (k + 1) = ((d.after pkts k).decode pkt).1 := by
  unfold after
  rw [List.take_add_one, hk, run_append_state]
  rfl

private theorem run_after (d : FecDecoder) (pkts : List Bytes) (k : ℕ) :
    (run FecDecoder.decode d pkts).1 = (run FecDecoder.decode (d.after pkts k) (pkts.drop k)).1 := by
  unfold after
  rw [← run_append_state, List.take_append_drop]

private theorem window_after (h : Feed ds ps s pkts) (hok : d.autoTune.Ok) (hk : k ≤ pkts.length)
    (hfull : 258 ≤ k) : (d.after pkts k).autoTune.window = pulsesFrom ds ps (s + (k - 258)) 258 := by
  have hlen : (pkts.take k).length = k := by
    rw [List.length_take]
    omega
  have htake := h.take k
  unfold after
  rw [autoTune_run d fun p hp => (htake.labelled p hp).1, hok.window_samples, htake.map_pulseOf, hlen,
    length_pulsesFrom, Nat.add_sub_assoc (show MAX_AUTO_TUNE_SAMPLES ≤ k from hfull),
    ← AutoTune.length_window, List.drop_length_add_append, drop_pulsesFrom]
  exact congrArg _ (Nat.sub_sub_self hfull)

def params (d : FecDecoder) : ℕ × ℕ × ℕ × UInt32 :=
  (d.dataShards, d.parityShards, d.shardSize, d.paws)

private theorem inSync_adopt (hds : 1 ≤ ds) (hps : 1 ≤ ps) (hle : ds + ps ≤ 256) :
    (d.adopt ds ps).InSync ds ps := by
  obtain ⟨codec, -, hnew, -⟩ := Rs.Codec.new_spec hds hps hle
  unfold adopt
  rw [hnew]
  exact ⟨rfl, rfl, rfl, rfl, rfl⟩

/-- A decoder whose ring holds only samples of the stream takes over its parameters, or the ring
does not show both periods and nothing changes. -/
theorem Safe.tune_window (h : d.Safe a b m) (hds : 1 ≤ ds) (hps : 1 ≤ ps) (hsum : ds + ps < 256)
    (hmax : s + 258 ≤ 4294967296) (hwindow : d.autoTune.window = pulsesFrom ds ps s 258) :
    d.tune.InSync ds ps ∨ (d.tune = d ∧ s % (ds + ps) ≠ ds - 1) := by
  obtain ⟨hdata, hparity⟩ := AutoTune.findPeriod_window hds hps hmax hwindow
  by_cases hfound : d.autoTune.findPeriod true = ds ∧ d.autoTune.findPeriod false = ps
  · left
    unfold FecDecoder.tune
    dsimp only
    rw [hfound.1, hfound.2, if_pos (by omega), Int.toNat_natCast, Int.toNat_natCast]
    split_ifs with hother
    · exact inSync_adopt hds hps hsum.le
    · obtain ⟨rfl, rfl⟩ : ds = d.dataShards ∧ ps = d.parityShards := by omega
      refine ⟨rfl, rfl, ?_, ?_, rfl⟩
      · exact h.ready.size.trans (by rw [← h.ready.data, ← h.ready.parity])
      · exact h.ready.paws_eq.trans (by rw [← h.ready.data, ← h.ready.parity])
  · right
    refine ⟨?_, fun hs => hfound (AutoTune.findPeriod_window_aligned hds hps hsum.le hmax hwindow hs)⟩
    unfold FecDecoder.tune
    dsimp only
    rw [if_neg (by omega)]

private theorem Safe.decode_stuck (h : d.Safe a b m) (hds : 1 ≤ ds) (hps : 1 ≤ ps)
    (hsum : ds + ps < 256) (hlen : FEC_HEADER_SIZE ≤ pkt.length) (hseq : fecSeqid pkt < d.paws)
    (hmax : s + 258 ≤ 4294967296)
    (hwindow : (d.decode pkt).1.autoTune.window = pulsesFrom ds ps s 258)
    (hstuck : ¬ (d.decode pkt).1.InSync ds ps) :
    (d.decode pkt).1.params = d.params ∧
      ((d.shouldTune || d.mismatch (fecSeqid pkt) (fecFlag pkt)) = true →
        (d.decode pkt).1.shouldTune = true ∧ s % (ds + ps) ≠ ds - 1) := by
  rw [autoTune_decode d hlen] at hwindow
  cases htune : d.shouldTune || d.mismatch (fecSeqid pkt) (fecFlag pkt) with
  | true =>
    rw [decode_mismatch hlen hseq htune] at hstuck ⊢
    rcases ((h.sampled pkt).withShouldTune true).tune_window hds hps hsum hmax hwindow with
      hsync | ⟨hsame, hs⟩
    · exact absurd hsync hstuck
    · rw [hsame]
      exact ⟨rfl, fun _ => ⟨rfl, hs⟩⟩
  | false =>
    obtain ⟨hsync, hmatch⟩ := Bool.or_eq_false_iff.mp htune
    have hset := settings_collect (d.sampled pkt) pkt
    simp only [settings, Prod.mk.injEq] at hset
    obtain ⟨h1, h2, h3, h4, -, -⟩ := hset
    rw [decode_match hlen hseq hsync hmatch]
    refine ⟨?_, fun hc => absurd hc Bool.false_ne_true⟩
    unfold params
    rw [h1, h2, h3, h4]
    rfl

private theorem Safe.signal_of_match (h : d.Safe a b m) (hpkt : Labelled ds ps pkt)
    (hmatch : d.mismatch (fecSeqid pkt) (fecFlag pkt) = false) :
    signalAt a b (fecSeqid pkt).toNat = signalAt ds ps (fecSeqid pkt).toNat := by
  have hsize := h.ready.size
  have hdata := h.ready.data
  have hle := h.ready.size_le
  dsimp only at hsize hdata
  have hflag := (mismatch_iff (by omega) (by omega) _ _).mp hmatch
  rw [hsize, hdata, hpkt.2] at hflag
  have hne : TYPE_DATA ≠ TYPE_PARITY := by decide
  unfold signalAt
  refine decide_eq_decide.mpr ⟨?_, ?_⟩
  · intro hpos
    by_contra hneg
    rw [if_pos hpos, if_neg hneg] at hflag
    exact hne hflag.symm
  · intro hpos
    by_contra hneg
    rw [if_pos hpos, if_neg hneg] at hflag
    exact hne hflag

/-- The decoder takes over the parameters of the stream: the first 258 packets fill the ring, the
next 513 show a contradiction, and in one of the 255 windows after that both periods are found. -/
theorem Safe.converges (h : d.Safe a b m) (hds : 1 ≤ ds) (hps : 1 ≤ ps) (hsum : ds + ps < 256)
    (hfeed : Feed ds ps s pkts) (hlen : pkts.length = 2048) :
    (Lib.run FecDecoder.decode d pkts).1.InSync ds ps := by
  by_contra hnot
  have hbelow := hfeed.below
  have hstuck : ∀ k, ¬ (d.after pkts k).InSync ds ps := by
    intro k hsync
    rw [run_after d pkts k] at hnot
    exact hnot (hsync.run hsum.le fun p hp => hfeed.labelled p (List.mem_of_mem_drop hp))
  have hsafe : ∀ k, ∃ a b m, (d.after pkts k).Safe a b m := fun k => h.run _
  have hget : ∀ k < 2048, ∃ p, pkts[k]? = some p ∧ Labelled ds ps p ∧ (fecSeqid p).toNat = s + k := by
    intro k hk
    have hp := List.getElem?_eq_getElem (show k < pkts.length by omega)
    exact ⟨_, hp, hfeed.labelled _ (List.getElem_mem _), hfeed.seq k _ hp⟩
  -- what a packet does that finds the ring full
  have hstep : ∀ k p, 257 ≤ k → k < 1700 → pkts[k]? = some p →
      (d.after pkts (k + 1)).params = (d.after pkts k).params ∧
        (((d.after pkts k).shouldTune || (d.after pkts k).mismatch (fecSeqid p) (fecFlag p)) = true →
          (d.after pkts (k + 1)).shouldTune = true ∧ (s + (k + 1 - 258)) % (ds + ps) ≠ ds - 1) := by
    intro k p hlo hhi hp
    obtain ⟨a, b, m, hk⟩ := hsafe k
    obtain ⟨p', hp', hlabel, hseq⟩ := hget k (by omega)
    obtain rfl := Option.some.inj (hp'.symm.trans hp)
    have hwindow := @window_after d ds ps s (k + 1) pkts hfeed h.tuner (by omega) (by omega)
    have hnext := hstuck (k + 1)
    rw [after_succ hp] at hwindow hnext ⊢
    refine hk.decode_stuck hds hps hsum hlabel.1 ?_ (by omega) hwindow hnext
    have hpos := hk.ready.codec_ok.pos
    have hpaws := lt_paws (show 0 < a + b by omega) hk.ready.size_le
    have hpaws' : (d.after pkts k).paws = Fec.paws (a + b) := hk.ready.paws_eq
    rw [UInt32.lt_iff_toNat_lt, hpaws', hseq]
    omega
  by_cases htune : ∃ k p, 257 ≤ k ∧ k ≤ 800 ∧ pkts[k]? = some p ∧
      ((d.after pkts k).shouldTune || (d.after pkts k).mismatch (fecSeqid p) (fecFlag p)) = true
  · obtain ⟨k, p, hlo, hhi, hp, htune⟩ := htune
    have hblocked : ∀ j, k + 1 ≤ j → j ≤ 1700 →
        (d.after pkts j).shouldTune = true ∧ (s + (j - 258)) % (ds + ps) ≠ ds - 1 := by
      intro j hj
      induction j, hj using Nat.le_induction with
      | base => exact fun _ => (hstep k p hlo (by omega) hp).2 htune
      | succ j hj ih =>
        intro hmax
        obtain ⟨q, hq, -, -⟩ := hget j (by omega)
        refine (hstep j q (by omega) (by omega) hq).2 ?_
        rw [(ih (by omega)).1]
        exact Bool.true_or _
    obtain ⟨y, hy, hres⟩ := exists_residue (show ds - 1 < ds + ps by omega) (s + (k + 1 - 258))
    refine (hblocked (k + 1 + y) (by omega) (by omega)).2 ?_
    rw [show s + (k + 1 + y - 258) = s + (k + 1 - 258) + y by omega]
    exact hres
  · have hquiet : ∀ k p, 257 ≤ k → k ≤ 800 → pkts[k]? = some p → (d.after pkts k).shouldTune = false ∧
        (d.after pkts k).mismatch (fecSeqid p) (fecFlag p) = false := by
      intro k p hlo hhi hp
      have hfalse := Bool.eq_false_iff.mpr fun hc => htune ⟨k, p, hlo, hhi, hp, hc⟩
      exact Bool.or_eq_false_iff.mp hfalse
    have hsame : ∀ k, 257 ≤ k → k ≤ 800 → (d.after pkts k).params = (d.after pkts 257).params := by
      intro k hk
      induction k, hk using Nat.le_induction with
      | base => exact fun _ => rfl
      | succ k hk ih =>
        intro hmax
        obtain ⟨q, hq, -, -⟩ := hget k (by omega)
        rw [(hstep k q hk (by omega) hq).1, ih (by omega)]
    obtain ⟨a', b', m', hstart⟩ := hsafe 257
    have hdata : (d.after pkts 257).dataShards = a' := hstart.ready.data
    have hparity : (d.after pkts 257).parityShards = b' := hstart.ready.parity
    obtain ⟨rfl, rfl⟩ : ds = a' ∧ ps = b' := by
      refine signalAt_injective (s := s + 257) hds hps hstart.ready.codec_ok.pos
        hstart.ready.parity_pos ?_
      intro x hlo hhi
      obtain ⟨p, hp, hlabel, hseq⟩ := hget (x - s) (by omega)
      obtain ⟨a'', b'', m'', hk⟩ := hsafe (x - s)
      have hparams := hsame (x - s) (by omega) (by omega)
      simp only [params, Prod.mk.injEq] at hparams
      obtain rfl : a'' = a' := by
        rw [← hdata, ← hparams.1]
        exact hk.ready.data.symm
      obtain rfl : b'' = b' := by
        rw [← hparity, ← hparams.2.1]
        exact hk.ready.parity.symm
      have hsignal := hk.signal_of_match hlabel (hquiet (x - s) p (by omega) (by omega) hp).2
      rwa [hseq, show s + (x - s) = x by omega] at hsignal
    obtain ⟨p, hp, -, -⟩ := hget 257 (by omega)
    exact hstuck 257
      (hstart.synced (hquiet 257 p (Nat.le_refl _) (by omega) hp).1).toInSync

private theorem shards_decode (d : FecDecoder) (pkt : Bytes) :
    ((d.decode pkt).1.dataShards = d.dataShards ∧ (d.decode pkt).1.parityShards = d.parityShards) ∨
      (d.decode pkt).1.dataShards + (d.decode pkt).1.parityShards < 256 := by
  rcases decode_cases d pkt with hdec | hdec | hdec | ⟨-, -, -, hdec⟩
  · rw [hdec]
    exact .inl ⟨rfl, rfl⟩
  · rw [hdec]
    exact .inl ⟨rfl, rfl⟩
  · rw [hdec]
    dsimp only
    rcases tune_cases { d.sampled pkt with shouldTune := true } with
      ⟨flag, htune⟩ | ⟨a, b, ha, hb, hsum, -, -, -, htune⟩
    · rw [htune]
      exact .inl ⟨rfl, rfl⟩
    · rw [htune]
      have hsync := @inSync_adopt { d.sampled pkt with shouldTune := true } a b ha hb hsum.le
      rw [hsync.data, hsync.parity]
      exact .inr hsum
  · have hset := settings_collect (d.sampled pkt) pkt
    simp only [settings, Prod.mk.injEq] at hset
    rw [hdec]
    exact .inl ⟨hset.1, hset.2.1⟩

private theorem shards_run (d : FecDecoder) (pkts : List Bytes) :
    let d' := (run FecDecoder.decode d pkts).1
    (d'.dataShards = d.dataShards ∧ d'.parityShards = d.parityShards) ∨
      d'.dataShards + d'.parityShards < 256 := by
  refine run_invariant (fun d' : FecDecoder =>
    (d'.dataShards = d.dataShards ∧ d'.parityShards = d.parityShards) ∨
      d'.dataShards + d'.parityShards < 256) (fun _ => True) ?_ (fun _ _ => trivial) (.inl ⟨rfl, rfl⟩)
  intro d' pkt _ hd'
  rcases shards_decode d' pkt with ⟨h1, h2⟩ | hlt
  · rw [h1, h2]
    exact hd'
  · exact .inr hlt

end FecDecoder

private theorem labelled_of_mem_wire {ds ps ho : ℕ} {e : FecEncoder} (hds : 1 ≤ ds) (hps : 1 ≤ ps)
    (hle : ds + ps ≤ 256) (hnew : FecEncoder.new ds ps ho = .ok (some e)) {calls : List Call}
    {p : Bytes} (hp : p ∈ wire ho (run FecEncoder.step e calls).2) :
    Labelled ds ps p ∧ (fecSeqid p).toNat < 4294967295 := by
  obtain ⟨m, -, -, hlen, hemits⟩ := FecEncoder.run_of_new hds hps hle hnew calls
  have hbelow : ∀ g i, i < ds + ps → (UInt32.ofNat (seqOf (ds + ps) g i)).toNat < 4294967295 := by
    intro g i hi
    have hlt := seqOf_lt (by omega) hle g hi
    have hpaws := toNat_paws (show 0 < ds + ps by omega) hle
    have := Nat.div_mul_le_self 4294967295 (ds + ps)
    rw [toNat_seqOf (by omega) hle hi]
    omega
  rcases mem_wire hemits hlen hp with ⟨n, -, rfl⟩ | ⟨n, -, -, i, hlo, hi, rfl⟩
  · have hmod := Nat.mod_lt n hds
    refine ⟨labelled_dataPacket hle hmod, ?_⟩
    rw [fecSeqid_dataPacket]
    exact hbelow _ _ (by omega)
  · refine ⟨labelled_parityPacket hle hlo hi, ?_⟩
    rw [fecSeqid_parityPacket]
    exact hbelow _ _ hi

private theorem feed_of_wire {ds ps ho : ℕ} {e : FecEncoder} (hds : 1 ≤ ds) (hps : 1 ≤ ps)
    (hle : ds + ps ≤ 256) (hnew : FecEncoder.new ds ps ho = .ok (some e)) {calls : List Call}
    {pkts : List Bytes} (hstream : pkts <:+: wire ho (run FecEncoder.step e calls).2)
    (hlen : pkts.length = 2048)
    (hnext : pkts.IsChain fun p q => (fecSeqid q).toNat = (fecSeqid p).toNat + 1) :
    ∃ s, Feed ds ps s pkts := by
  have hwire : ∀ p ∈ pkts, Labelled ds ps p ∧ (fecSeqid p).toNat < 4294967295 := fun p hp =>
    labelled_of_mem_wire hds hps hle hnew (hstream.subset hp)
  have hseq : ∀ i (hi : i < pkts.length), (fecSeqid pkts[i]).toNat = (fecSeqid pkts[0]).toNat + i := by
    intro i
    induction i with
    | zero => exact fun _ => rfl
    | succ i ih =>
      intro hi
      rw [List.isChain_iff_getElem.mp hnext i hi, ih (by omega)]
      rfl
  refine ⟨(fecSeqid pkts[0]).toNat, fun p hp => (hwire p hp).1, ?_, ?_⟩
  · intro i p hi
    obtain ⟨hlt, rfl⟩ := List.getElem?_eq_some_iff.mp hi
    exact hseq i hlt
  · have hlast := hseq 2047 (by omega)
    have hmax := (hwire pkts[2047] (List.getElem_mem _)).2
    omega

/-- Auto-tuning, from any state a decoder can reach: 2048 packets that follow each other on the wire
without a gap leave a decoder with other parameters with those of the stream and out of tuning if and
only if a group has fewer than 256 shards. -/
theorem tune_converges_iff (ds ps : Int) (ho : ℕ) (e : FecEncoder)
    (henc : FecEncoder.new ds ps ho = .ok (some e)) (calls : List Call) (pkts : List Bytes)
    (hstream : pkts <:+: wire ho (run FecEncoder.step e calls).2) (hlen : pkts.length = 2048)
    (hnext : pkts.IsChain fun p q => (fecSeqid q).toNat = (fecSeqid p).toNat + 1)
    (ds' ps' : Int) (d₀ d : FecDecoder) (hdec : FecDecoder.new ds' ps' = some d₀)
    (past : List Bytes) (hd : d = (run FecDecoder.decode d₀ past).1)
    (hother : ¬ ((d.dataShards : Int) = ds ∧ (d.parityShards : Int) = ps)) :
    let d' := (run FecDecoder.decode d pkts).1
    ((d'.dataShards : Int) = ds ∧ (d'.parityShards : Int) = ps ∧ d'.shouldTune = false) ↔
      ds + ps < 256 := by
  obtain ⟨ds, ps, rfl, rfl, hds, hps, hle⟩ := FecEncoder.new_bounds henc
  obtain ⟨s, hfeed⟩ := feed_of_wire hds hps hle henc hstream hlen hnext
  intro d'
  constructor
  · rintro ⟨hdata, hparity, -⟩
    rcases FecDecoder.shards_run d pkts with ⟨h1, h2⟩ | hlt
    · refine absurd ⟨?_, ?_⟩ hother
      · rw [← h1]
        exact hdata
      · rw [← h2]
        exact hparity
    · have hlt : d'.dataShards + d'.parityShards < 256 := hlt
      omega
  · intro hsum
    obtain ⟨_, _, _, hsafe⟩ := FecDecoder.safe_new hdec
    obtain ⟨a, b, m, hsafe⟩ := hsafe.run past
    rw [← hd] at hsafe
    have hsync := hsafe.converges hds hps (by omega) hfeed hlen
    exact ⟨congrArg Nat.cast hsync.data, congrArg Nat.cast hsync.parity, hsync.tune⟩

/-- A packet as short as the encoder takes, always at the same time. -/
def tick : Call := .encode (List.replicate 8 0) 1 0

private theorem wire_append (ho : ℕ) (outs outs' : List Outcome) :
    wire ho (outs ++ outs') = wire ho outs ++ wire ho outs' := by
  simp [wire, sealedOf]

private theorem wire_steady {ds ps : ℕ} (hds : 2 ≤ ds) (hps : 1 ≤ ps) (hle : ds + ps ≤ 256) :
    ∃ e, FecEncoder.new ds ps 0 = .ok (some e) ∧ ∀ n,
      numbersUsed ds ps n ≤ 4294967295 / (ds + ps) * (ds + ps) →
      (wire 0 (run FecEncoder.step e (List.replicate n tick)).2).map (fun p => (fecSeqid p).toNat) =
        List.range' 0 (numbersUsed ds ps n) := by
  obtain ⟨e, m, hnew, hok, -⟩ := FecEncoder.new_ok (show 1 ≤ ds by omega) hps hle 0
  refine ⟨e, hnew, ?_⟩
  intro n hn
  suffices h : ∃ group, (run FecEncoder.step e (List.replicate n tick)).1.Ok ds ps 0 m n group ∧
      (0 < n → (run FecEncoder.step e (List.replicate n tick)).1.tsLatestPacket = 0) ∧
      (wire 0 (run FecEncoder.step e (List.replicate n tick)).2).map (fun p => (fecSeqid p).toNat) =
        List.range' 0 (numbersUsed ds ps n) by
    obtain ⟨-, -, -, h⟩ := h
    exact h
  induction n with
  | zero =>
    refine ⟨[], hok, fun hc => absurd hc (Nat.lt_irrefl 0), ?_⟩
    rw [numbersUsed, Nat.zero_div, Nat.zero_mod, Nat.zero_mul]
    rfl
  | succ n ih =>
    have hmod := Nat.mod_lt n (show 0 < ds by omega)
    -- the number of the data packet and what is used up behind it
    have hused : numbersUsed ds ps (n + 1) =
        if n % ds + 1 = ds then numbersUsed ds ps n + (1 + ps) else numbersUsed ds ps n + 1 := by
      unfold numbersUsed
      split_ifs with hfull
      · obtain ⟨hm, hq⟩ := FecEncoder.succ_mod_of_eq (show 0 < ds by omega) hfull
        rw [hm, hq, Nat.add_mul]
        omega
      · obtain ⟨hm, hq⟩ := @FecEncoder.succ_mod_of_lt n ds (by omega)
        rw [hm, hq]
        rfl
    have hlt : numbersUsed ds ps n < 4294967295 / (ds + ps) * (ds + ps) := by
      split_ifs at hused <;> omega
    obtain ⟨group, hrun, hts, hseqs⟩ := ih hlt.le
    set e' := (run FecEncoder.step e (List.replicate n tick)).1 with he'
    have hadmits : FecEncoder.Admits 0 (List.replicate 8 0) := by decide
    obtain ⟨e'', parity, henc, hts', hok', hparity, -⟩ := hrun.encode hadmits 1 0
    have hstep : FecEncoder.step e' tick =
        (e'', .sealed (e'.sealData (List.replicate 8 0)) parity) := by
      simp only [FecEncoder.step, tick, henc]
    have hdata : (fecSeqid ((e'.sealData (List.replicate 8 0)).drop 0)).toNat =
        numbersUsed ds ps n := by
      rw [hrun.sealed hadmits, fecSeqid_dataPacket, toNat_seqOf (by omega) hle (by omega)]
      exact seqOf_eq hlt
    have hwire : wire 0 [(FecEncoder.step e' tick).2] =
        (e'.sealData (List.replicate 8 0)).drop 0 :: parity.map (·.drop 0) := by
      rw [hstep]
      simp [wire, sealedOf]
    rw [List.replicate_succ', run_append_state, run_append_singleton, wire_append, ← he', hwire]
    refine ⟨_, by rw [run_cons, run_nil, hstep]; exact hok', ?_, ?_⟩
    · intro _
      rw [run_cons, run_nil, hstep]
      exact hts'
    rw [List.map_append, hseqs, List.map_cons, hdata, hparity, hused]
    by_cases hfull : n % ds + 1 = ds
    · have hnow : saturatingSub 0 e'.tsLatestPacket < ((1 : UInt32).toNat : Int) := by
        rw [hts (by
          rcases Nat.eq_zero_or_pos n with rfl | hpos
          · rw [Nat.zero_mod] at hfull
            omega
          · exact hpos)]
        decide
      have hbehind : n / ds * (ds + ps) + ds = numbersUsed ds ps n + 1 := by
        unfold numbersUsed
        omega
      rw [if_pos hfull] at hused
      have hgroup : (List.range' ds ps).map ((fun p => (fecSeqid p).toNat) ∘
          parityPacket (ds + ps) (0 + 6) (n / ds) m (group ++ [List.replicate 8 0])) =
            (List.range' ds ps).map (n / ds * (ds + ps) + ·) := by
        apply List.map_congr_left
        intro i hi
        obtain ⟨-, hhi⟩ := List.mem_range'_1.mp hi
        have hfits : n / ds * (ds + ps) + i < 4294967295 / (ds + ps) * (ds + ps) := by omega
        rw [Function.comp_apply, fecSeqid_parityPacket, toNat_seqOf (by omega) hle (by omega)]
        exact seqOf_eq hfits
      rw [if_pos ⟨hfull, hnow⟩, if_pos hfull, List.map_map, hgroup, List.map_add_range', hbehind,
        ← List.range'_append_1, Nat.zero_add, Nat.add_comm 1 ps, List.range'_succ]
    · rw [if_neg fun hc => hfull hc.1, if_neg hfull, List.map_nil, ← List.range'_append_1, Nat.zero_add]
      rfl

private theorem exists_stream {ds ps : ℕ} (hds : 2 ≤ ds) (hps : 1 ≤ ps) (hle : ds + ps ≤ 256) :
    ∃ (e : FecEncoder) (calls : List Call) (pkts : List Bytes),
      FecEncoder.new ds ps 0 = .ok (some e) ∧ pkts <:+: wire 0 (run FecEncoder.step e calls).2 ∧
      pkts.length = 2048 ∧ pkts.IsChain fun p q => (fecSeqid q).toNat = (fecSeqid p).toNat + 1 := by
  obtain ⟨e, hnew, hwire⟩ := wire_steady hds hps hle
  have hused : numbersUsed ds ps (2048 * ds) = 2048 * (ds + ps) := by
    rw [numbersUsed, Nat.mul_div_cancel _ (by omega), Nat.mul_mod_left, Nat.add_zero]
  have hseqs := hwire (2048 * ds) (by
    have hpaws := lt_paws (show 0 < ds + ps by omega) hle
    rw [toNat_paws (by omega) hle] at hpaws
    omega)
  set all := wire 0 (run FecEncoder.step e (List.replicate (2048 * ds) tick)).2 with hall
  have hlen : all.length = 2048 * (ds + ps) := by
    have := congrArg List.length hseqs
    rwa [List.length_map, List.length_range', hused] at this
  refine ⟨e, _, all.take 2048, hnew, (List.take_prefix _ _).isInfix, ?_, ?_⟩
  · rw [List.length_take, hlen]
    omega
  · have hchain : (all.map fun p => (fecSeqid p).toNat).IsChain fun a b => b = a + 1 := by
      rw [hseqs]
      exact List.isChain_range' 0 _ 1
    rw [List.isChain_map] at hchain
    exact hchain.take 2048

/-- Groups of three shards, and a decoder that was made for groups of two. -/
theorem tune_converges_three : ∃ (pkts : List Bytes) (d : FecDecoder), FecDecoder.new 1 1 = some d ∧
    pkts.length = 2048 ∧ (run FecDecoder.decode d pkts).1.dataShards = 2 ∧
    (run FecDecoder.decode d pkts).1.parityShards = 1 ∧
    (run FecDecoder.decode d pkts).1.shouldTune = false := by
  obtain ⟨e, calls, pkts, henc, hstream, hlen, hnext⟩ :=
    @exists_stream 2 1 (by decide) (by decide) (by decide)
  obtain ⟨d, -, hdec, hsync, -⟩ := @FecDecoder.new_spec 1 1 (by decide) (by decide) (by decide)
  obtain ⟨hdata, hparity, htune⟩ := (tune_converges_iff 2 1 0 e henc calls pkts hstream hlen hnext 1 1
    d d hdec [] rfl fun hc => absurd hc.1 (by rw [hsync.data]; decide)).mpr (by decide)
  exact ⟨pkts, d, hdec, hlen, by omega, by omega, htune⟩

/-- Groups of 256 shards, which encoder and decoder can be made for. -/
theorem tune_never_256 : ∃ (e : FecEncoder) (calls : List Call) (pkts : List Bytes) (d : FecDecoder),
    FecEncoder.new 255 1 0 = .ok (some e) ∧ pkts <:+: wire 0 (run FecEncoder.step e calls).2 ∧
    pkts.length = 2048 ∧ (pkts.IsChain fun p q => (fecSeqid q).toNat = (fecSeqid p).toNat + 1) ∧
    FecDecoder.new 1 1 = some d ∧
    ¬ ((run FecDecoder.decode d pkts).1.dataShards = 255 ∧
      (run FecDecoder.decode d pkts).1.parityShards = 1 ∧
      (run FecDecoder.decode d pkts).1.shouldTune = false) := by
  obtain ⟨e, calls, pkts, henc, hstream, hlen, hnext⟩ :=
    @exists_stream 255 1 (by decide) (by decide) (by decide)
  obtain ⟨d, -, hdec, hsync, -⟩ := @FecDecoder.new_spec 1 1 (by decide) (by decide) (by decide)
  refine ⟨e, calls, pkts, d, henc, hstream, hlen, hnext, hdec, ?_⟩
  rintro ⟨hdata, hparity, -⟩
  have hkept := FecDecoder.shards_run d pkts
  dsimp only at hkept
  rw [hdata, hparity, hsync.data] at hkept
  omega

end Kcptun.Fec
