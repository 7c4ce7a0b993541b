/- Kcptun/Arq/RoundTripTime
   source: crates/kcp/src/kcp.rs (update_ack)
   digest: The round-trip estimator over every sequence of samples: no operation wraps, the averages
     stay between 0 and the largest sample, and the timeout is the exact one. -/

import Kcptun.Lib.FixedWidth
import Kcptun.Arq.AckPath

set_option autoImplicit false
set_option relaxedAutoImplicit false

namespace Kcptun.Arq

open Kcptun.Lib

namespace Kcp

variable {O C : Type}

/-- The two averages of `update_ack`; nothing when an `i32` operation wraps. -/
def averagesChecked (k : Kcp O C) (rtt : Int32) : Option (Int32 × Int32) :=
  if k.rxSrtt = 0 then some (rtt, rtt >>> 1) else
    (i32Checked (rtt.toInt - k.rxSrtt.toInt)).bind fun delta =>
    (i32Checked (k.rxSrtt.toInt + (delta >>> 3).toInt)).bind fun srtt =>
    (if delta < 0 then i32Checked (-delta.toInt) else some delta).bind fun delta =>
    (i32Checked (srtt.toInt - k.rxRttvar.toInt)).bind fun bottom =>
    (i32Checked (delta.toInt - k.rxRttvar.toInt)).bind fun gap =>
    (i32Checked (k.rxRttvar.toInt + (if rtt < bottom then gap >>> 5 else gap >>> 2).toInt)).map
      fun rttvar => (srtt, rttvar)

def updateAckChecked (k : Kcp O C) (rtt : Int32) : Option (Kcp O C) :=
  (k.averagesChecked rtt).bind fun averages =>
  (u32Checked (averages.2.toUInt32.toNat * 4)).bind fun spread =>
  (u32Checked (averages.1.toUInt32.toNat + (imax k.interval spread).toNat)).map fun rto =>
    { k with rxSrtt := averages.1, rxRttvar := averages.2,
             rxRto := ibound k.rxMinrto rto IKCP_RTO_MAX }

structure Averages (k : Kcp O C) (top : ℤ) : Prop where
  srtt : 0 ≤ k.rxSrtt.toInt ∧ k.rxSrtt.toInt ≤ top
  rttvar : 0 ≤ k.rxRttvar.toInt ∧ k.rxRttvar.toInt ≤ top

def ExactRto (k : Kcp O C) : Prop :=
  (k.rxRto.toNat : ℤ) = min (max (k.rxMinrto.toNat : ℤ)
    (k.rxSrtt.toInt + max (k.interval.toNat : ℤ) (4 * k.rxRttvar.toInt))) IKCP_RTO_MAX.toNat

variable {k : Kcp O C} {rtt : Int32} {top : ℤ}

private theorem Averages.mono {top' : ℤ} (h : k.Averages top) (hle : top ≤ top') :
    k.Averages top' :=
  ⟨⟨h.srtt.1, h.srtt.2.trans hle⟩, ⟨h.rttvar.1, h.rttvar.2.trans hle⟩⟩

private theorem averagesChecked_eq (h : k.Averages top) (htop : top < 268435456)
    (hrtt : 0 ≤ rtt.toInt ∧ rtt.toInt ≤ top) :
    k.averagesChecked rtt = some ((k.updateAck rtt).rxSrtt, (k.updateAck rtt).rxRttvar) ∧
      (k.updateAck rtt).Averages top := by
  obtain ⟨hsrtt, hrttvar⟩ := h
  unfold averagesChecked updateAck
  by_cases hfirst : k.rxSrtt = 0
  · simp only [if_pos hfirst]
    have hhalf : (rtt >>> 1).toInt = rtt.toInt / 2 ^ 1 := toInt_shiftRight rtt 1 rfl
    refine ⟨trivial, hrtt, ?_⟩
    show 0 ≤ (rtt >>> 1).toInt ∧ (rtt >>> 1).toInt ≤ top
    omega
  simp only [if_neg hfirst]
  obtain ⟨hdelta, hdelta'⟩ := @i32Checked_sub rtt k.rxSrtt (by omega) (by omega)
  rw [hdelta, Option.bind_some]
  generalize rtt - k.rxSrtt = delta at hdelta' ⊢
  -- the mean moves an eighth of the way to the sample
  have heighth : (delta >>> 3).toInt = delta.toInt / 2 ^ 3 := toInt_shiftRight delta 3 rfl
  have hmean := weighted_step (n := 2 ^ 3) (by decide) hsrtt hrtt
  rw [← hdelta', ← heighth] at hmean
  obtain ⟨hs, hs'⟩ := @i32Checked_add k.rxSrtt (delta >>> 3) (by omega) (by omega)
  rw [hs, Option.bind_some]
  rw [← hs'] at hmean
  generalize k.rxSrtt + (delta >>> 3) = srtt at hmean ⊢
  -- the distance from the sample to the old mean
  have habs : (if delta < 0 then i32Checked (-delta.toInt) else some delta) =
        some (if delta < 0 then -delta else delta) ∧
      0 ≤ (if delta < 0 then -delta else delta).toInt ∧
      (if delta < 0 then -delta else delta).toInt ≤ top := by
    split_ifs with hneg
    · rw [Int32.lt_iff_toInt_lt, Int32.toInt_zero] at hneg
      obtain ⟨hn, hn'⟩ := @i32Checked_neg delta (by omega) (by omega)
      exact ⟨hn, by omega, by omega⟩
    · rw [Int32.lt_iff_toInt_lt, Int32.toInt_zero] at hneg
      exact ⟨rfl, by omega, by omega⟩
  rw [habs.1, Option.bind_some]
  obtain ⟨-, hdist⟩ := habs
  generalize (if delta < 0 then -delta else delta) = dist at hdist ⊢
  obtain ⟨hbottom, -⟩ := @i32Checked_sub srtt k.rxRttvar (by omega) (by omega)
  obtain ⟨hgap, hgap'⟩ := @i32Checked_sub dist k.rxRttvar (by omega) (by omega)
  rw [hbottom, Option.bind_some, hgap, Option.bind_some]
  generalize dist - k.rxRttvar = gap at hgap' ⊢
  -- the variance moves to that distance with either gain
  have hmove : ∀ (s : Int32) (n : ℕ), (s.toBitVec.smod 32#32).toNat = n →
      i32Checked (k.rxRttvar.toInt + (gap >>> s).toInt) = some (k.rxRttvar + (gap >>> s)) ∧
        0 ≤ (k.rxRttvar + (gap >>> s)).toInt ∧ (k.rxRttvar + (gap >>> s)).toInt ≤ top := by
    intro s n hn
    have hshift := toInt_shiftRight gap s hn
    have hstep := weighted_step (n := 2 ^ n) (by positivity) hrttvar hdist
    rw [← hgap', ← hshift] at hstep
    obtain ⟨hadd, hadd'⟩ := @i32Checked_add k.rxRttvar (gap >>> s) (by omega) (by omega)
    exact ⟨hadd, by rw [hadd']; exact hstep⟩
  split_ifs with hlow
  · obtain ⟨hadd, hbound⟩ := hmove 5 5 rfl
    rw [hadd]
    exact ⟨rfl, hmean, hbound⟩
  · obtain ⟨hadd, hbound⟩ := hmove 2 2 rfl
    rw [hadd]
    exact ⟨rfl, hmean, hbound⟩

private theorem toNat_imax (a b : UInt32) : (imax a b).toNat = max a.toNat b.toNat := by
  unfold imax
  split_ifs with hle <;> rw [ge_iff_le, UInt32.le_iff_toNat_le] at hle <;> omega

private theorem toNat_imin (a b : UInt32) : (imin a b).toNat = min a.toNat b.toNat := by
  unfold imin
  split_ifs with hle <;> rw [UInt32.le_iff_toNat_le] at hle <;> omega

private theorem toNat_ibound (lower middle upper : UInt32) :
    (ibound lower middle upper).toNat = min (max lower.toNat middle.toNat) upper.toNat := by
  rw [ibound, toNat_imin, toNat_imax]

private theorem updateAck_eq (k : Kcp O C) (rtt : Int32) : ∃ srtt rttvar : Int32,
    k.updateAck rtt = { k with
      rxSrtt := srtt, rxRttvar := rttvar,
      rxRto := ibound k.rxMinrto
        (srtt.toUInt32 + imax k.interval (rttvar.toUInt32 <<< 2)) IKCP_RTO_MAX } :=
  ⟨_, _, rfl⟩

private theorem updateAckChecked_eq (h : k.Averages top) (htop : top < 268435456)
    (hrtt : 0 ≤ rtt.toInt ∧ rtt.toInt ≤ top) (hinterval : k.interval.toNat ≤ 5000) :
    k.updateAckChecked rtt = some (k.updateAck rtt) ∧ (k.updateAck rtt).Averages top ∧
      (k.updateAck rtt).ExactRto := by
  obtain ⟨hchecked, hbounds⟩ := averagesChecked_eq h htop hrtt
  have hsrtt := hbounds.srtt
  have hrttvar := hbounds.rttvar
  obtain ⟨srtt, rttvar, hstate⟩ := k.updateAck_eq rtt
  unfold updateAckChecked ExactRto
  rw [hchecked]
  rw [hstate] at hsrtt hrttvar hbounds ⊢
  simp only at hsrtt hrttvar ⊢
  rw [toNat_ibound]
  have hmean := toNat_toUInt32 hsrtt.1
  have hvar := toNat_toUInt32 hrttvar.1
  have hspread : (rttvar.toUInt32 <<< 2).toNat = rttvar.toUInt32.toNat * 4 := by
    have hshift : (2 : UInt32).toNat % 32 = 2 := rfl
    rw [UInt32.toNat_shiftLeft, Nat.shiftLeft_eq, hshift]
    omega
  have hofNat : UInt32.ofNat (rttvar.toUInt32.toNat * 4) = rttvar.toUInt32 <<< 2 := by
    rw [← hspread, UInt32.ofNat_toNat]
  have hmax := toNat_imax k.interval (rttvar.toUInt32 <<< 2)
  have hsum : (srtt.toUInt32 + imax k.interval (rttvar.toUInt32 <<< 2)).toNat =
      srtt.toUInt32.toNat + (imax k.interval (rttvar.toUInt32 <<< 2)).toNat := by
    rw [UInt32.toNat_add]
    exact Nat.mod_eq_of_lt (by omega)
  refine ⟨?_, hbounds, ?_⟩
  · rw [Option.bind_some]
    dsimp only
    rw [u32Checked, if_pos (by omega), Option.bind_some, hofNat, u32Checked,
      if_pos (by omega), Option.map_some, UInt32.ofNat_add, UInt32.ofNat_toNat, UInt32.ofNat_toNat]
  · rw [hsum, hmax]
    omega

end Kcp

/-- A sample and the settings in force when it is taken. -/
structure Sample where
  interval : UInt32
  rxMinrto : UInt32
  rtt : Int32
  deriving DecidableEq

/-- A sample of less than 2^28 ms under settings that `nodelay` can leave. -/
structure Sample.Ok (s : Sample) : Prop where
  interval : s.interval.toNat ≤ 5000
  rxMinrto : s.rxMinrto ≤ IKCP_RTO_MAX
  rtt : 0 ≤ s.rtt.toInt ∧ s.rtt.toInt < 268435456

def largest (samples : List Sample) : ℤ := (samples.map fun s => s.rtt.toInt).foldl max 0

private theorem largest_lt {samples : List Sample} (hok : ∀ s ∈ samples, s.Ok) :
    largest samples < 268435456 := by
  have hfold : ∀ (values : List ℤ) (top : ℤ), (∀ v ∈ values, v < 268435456) → top < 268435456 →
      values.foldl max top < 268435456 := by
    intro values
    induction values with
    | nil => exact fun top _ htop => htop
    | cons v values ih =>
      intro top hvalues htop
      exact ih _ (fun w hw => hvalues w (List.mem_cons_of_mem v hw))
        (max_lt htop (hvalues v List.mem_cons_self))
  refine hfold _ 0 ?_ (by decide)
  intro v hv
  obtain ⟨s, hs, rfl⟩ := List.mem_map.mp hv
  exact (hok s hs).rtt.2

namespace Kcp

variable {O C : Type}

def estimate (k : Kcp O C) (s : Sample) : Kcp O C :=
  { k with interval := s.interval, rxMinrto := s.rxMinrto }.updateAck s.rtt

def estimateChecked (k : Kcp O C) (s : Sample) : Option (Kcp O C) :=
  { k with interval := s.interval, rxMinrto := s.rxMinrto }.updateAckChecked s.rtt

structure RtoOk (k : Kcp O C) : Prop where
  exact : k.ExactRto
  lower : k.rxMinrto ≤ k.rxRto
  upper : k.rxRto ≤ IKCP_RTO_MAX

private theorem estimate_eq {k : Kcp O C} {top : ℤ} (h : k.Averages top) (htop : top < 268435456)
    {s : Sample} (hs : s.Ok) :
    k.estimateChecked s = some (k.estimate s) ∧
      (k.estimate s).Averages (max top s.rtt.toInt) ∧ (k.estimate s).RtoOk := by
  have hmono := h.mono (le_max_left top s.rtt.toInt)
  obtain ⟨hchecked, haverages, hrto⟩ := Kcp.updateAckChecked_eq
    (k := { k with interval := s.interval, rxMinrto := s.rxMinrto })
    ⟨hmono.srtt, hmono.rttvar⟩ (max_lt htop hs.rtt.2) ⟨hs.rtt.1, le_max_right _ _⟩ hs.interval
  have hminrto : (k.estimate s).rxMinrto = s.rxMinrto := rfl
  have hexact : (k.estimate s).ExactRto := hrto
  have hle := UInt32.le_iff_toNat_le.mp hs.rxMinrto
  refine ⟨hchecked, haverages, hexact, ?_, ?_⟩
  · unfold ExactRto at hexact
    rw [hminrto] at hexact ⊢
    rw [UInt32.le_iff_toNat_le]
    omega
  · unfold ExactRto at hexact
    rw [UInt32.le_iff_toNat_le]
    omega

private theorem estimates_eq (samples : List Sample) {k : Kcp O C} {top : ℤ} (h : k.Averages top)
    (htop : top < 268435456) (hok : ∀ s ∈ samples, s.Ok) :
    samples.foldlM estimateChecked k = some (samples.foldl estimate k) ∧
      (samples.foldl estimate k).Averages
        ((samples.map fun s => s.rtt.toInt).foldl max top) := by
  induction samples generalizing k top with
  | nil => exact ⟨rfl, h⟩
  | cons s samples ih =>
    have hs := hok s List.mem_cons_self
    obtain ⟨hchecked, haverages, -⟩ := estimate_eq h htop hs
    obtain ⟨hrest, hbounds⟩ := ih haverages (max_lt htop hs.rtt.2)
      fun s' hs' => hok s' (List.mem_cons_of_mem s hs')
    refine ⟨?_, hbounds⟩
    rw [List.foldlM_cons, hchecked]
    exact hrest

/-- Over every sequence of samples from a new connection no operation of the estimator wraps, both
averages lie between 0 and the largest sample so far, and the timeout is the one computed over the
integers, between `rx_minrto` and `IKCP_RTO_MAX`. -/
theorem estimator_exact {O C : Type} (conv : UInt32) (output : O) (clock : C)
    (samples : List Sample) (hok : ∀ s ∈ samples, s.Ok) :
    samples.foldlM estimateChecked (Kcp.withClock conv output clock) =
        some (samples.foldl estimate (Kcp.withClock conv output clock)) ∧
      (samples.foldl estimate (Kcp.withClock conv output clock)).Averages (largest samples) ∧
      (samples ≠ [] → (samples.foldl estimate (Kcp.withClock conv output clock)).RtoOk) := by
  have hstart : (Kcp.withClock conv output clock).Averages 0 := ⟨⟨le_rfl, le_rfl⟩, le_rfl, le_rfl⟩
  obtain ⟨hchecked, haverages⟩ := estimates_eq samples hstart (by decide) hok
  refine ⟨hchecked, haverages, ?_⟩
  intro hne
  obtain ⟨front, last, rfl⟩ := (List.eq_nil_or_concat' samples).resolve_left hne
  have hok' : ∀ s ∈ front, s.Ok := fun s hs => hok s (List.mem_append_left _ hs)
  obtain ⟨-, hfront⟩ := estimates_eq front hstart (by decide) hok'
  rw [List.foldl_append, List.foldl_cons, List.foldl_nil]
  exact (estimate_eq hfront (largest_lt hok') (hok last (by simp))).2.2

theorem estimator_exact_three :
    let samples : List Sample := [⟨100, 100, 40⟩, ⟨10, 30, 7⟩, ⟨10, 30, 0⟩]
    let k := samples.foldl estimate (Kcp.withClock 7 {} ⟨0⟩ : Kcp Unbounded VirtualClock)
    k.Averages 40 ∧ k.RtoOk ∧ k.rxSrtt = 30 ∧ k.rxRttvar = 20 ∧ k.rxRto = 110 := by
  intro samples k
  have hok : ∀ s ∈ samples, s.Ok := by
    intro s hs
    simp only [samples, List.mem_cons, List.not_mem_nil, or_false] at hs
    rcases hs with rfl | rfl | rfl <;> exact ⟨by decide, by decide, by decide⟩
  obtain ⟨-, haverages, hrto⟩ := estimator_exact 7 ({} : Unbounded) (⟨0⟩ : VirtualClock) samples hok
  exact ⟨haverages, hrto (List.cons_ne_nil _ _), by decide⟩

end Kcp

end Kcptun.Arq
