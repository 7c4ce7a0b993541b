/- Kcptun/Fec/PeriodSound
   source: crates/kcp/src/autotune.rs
   digest: Samples of a stream with ds data and ps parity shards in a group, in any order and with
     any of them missing or repeated, never make the detector report another period. -/

import Kcptun.Fec.AutoTune
import Kcptun.Fec.GosortTotal

set_option autoImplicit false
set_option relaxedAutoImplicit false

namespace Kcptun.Fec

private theorem sortPulses_perm (pulses : List Pulse) : (sortPulses pulses).Perm pulses := by
  obtain ⟨sorted, closure, hsort, hperm⟩ := Gosort.slice_perm Pulse.before pulses ()
  unfold sortPulses
  rw [hsort]
  exact hperm

/-- What position `x` of a stream with `ds` data and `ps` parity shards in a group carries. -/
def signalAt (ds ps x : ℕ) : Bool := x % (ds + ps) < ds

/-- Consecutive sequence numbers among these samples are consecutive numbers: the counter does not
wrap inside. -/
def Unwrapped (pulses : List Pulse) : Prop :=
  ∀ p ∈ pulses, ∀ q ∈ pulses, p.seq + 1 = q.seq → q.seq.toNat = p.seq.toNat + 1

theorem unwrapped_of_span {pulses : List Pulse}
    (h : ∀ p ∈ pulses, ∀ q ∈ pulses, p.seq.toNat < q.seq.toNat + 2 ^ 31) : Unwrapped pulses := by
  intro p hp q hq hnext
  have hspan := h p hp q hq
  have hlt := p.seq.toNat_lt
  have hval := congrArg UInt32.toNat hnext
  rw [UInt32.toNat_add] at hval
  change (p.seq.toNat + 1) % 2 ^ 32 = _ at hval
  omega

private theorem Unwrapped.subset {pulses pulses' : List Pulse} (h : Unwrapped pulses)
    (hsub : pulses' ⊆ pulses) : Unwrapped pulses' :=
  fun p hp q hq => h p (hsub hp) q (hsub hq)

theorem findEdge_drop {edge : Pulse → Pulse → Bool} {idx k : ℕ} {pulses : List Pulse}
    (h : findEdge edge idx pulses = some k) :
    idx ≤ k ∧ ∃ p q rest, pulses.drop (k - idx) = p :: q :: rest ∧ p.seq + 1 = q.seq ∧
      edge p q = true := by
  induction idx, pulses using findEdge.induct edge with
  | case1 idx p q rest hnext hedge =>
    rw [findEdge, if_pos hnext, if_pos hedge] at h
    obtain rfl := Option.some.inj h
    exact ⟨Nat.le_refl _, p, q, rest, by rw [Nat.sub_self, List.drop_zero], hnext, hedge⟩
  | case2 idx p q rest hnext hedge ih =>
    rw [findEdge, if_pos hnext, if_neg hedge] at h
    obtain ⟨hle, p', q', rest', hdrop, hnext', hedge'⟩ := ih h
    refine ⟨by omega, p', q', rest', ?_, hnext', hedge'⟩
    rw [show k - idx = k - (idx + 1) + 1 by omega, List.drop_succ_cons]
    exact hdrop
  | case3 idx p q rest hnext =>
    rw [findEdge, if_neg hnext] at h
    cases h
  | case4 idx pulses hshort =>
    rw [findEdge] at h
    · cases h
    · exact hshort

/-- From a sample that carries `bit` to the next edge: `n + 1` consecutive samples carry `bit` and
the one behind them does not. -/
theorem findEdge_run {bit : Bool} {idx k : ℕ} {p : Pulse} {rest : List Pulse}
    (h : findEdge (fun lastPulse p => lastPulse.bit == bit && p.bit != bit) idx (p :: rest) = some k)
    (hbit : p.bit = bit) (hwrap : Unwrapped (p :: rest)) :
    ∃ n, k = idx + n ∧
      (∀ i ≤ n, ∃ e ∈ p :: rest, e.seq.toNat = p.seq.toNat + i ∧ e.bit = bit) ∧
      ∃ e ∈ p :: rest, e.seq.toNat = p.seq.toNat + (n + 1) ∧ e.bit ≠ bit := by
  induction rest generalizing idx p with
  | nil => cases h
  | cons q rest ih =>
    have hq : q ∈ p :: q :: rest := List.mem_cons_of_mem p List.mem_cons_self
    rw [findEdge] at h
    obtain ⟨hnext, h⟩ := Option.ite_none_right_eq_some.mp h
    have hseq := hwrap p List.mem_cons_self q hq hnext
    by_cases hedge : q.bit = bit
    · rw [if_neg (by simp [hedge])] at h
      obtain ⟨n, rfl, hrun, e, he, hend, hne⟩ :=
        ih h hedge (hwrap.subset (List.subset_cons_self p _))
      refine ⟨n + 1, by omega, ?_, e, List.mem_cons_of_mem p he, by omega, hne⟩
      intro i hi
      cases i with
      | zero => exact ⟨p, List.mem_cons_self, rfl, hbit⟩
      | succ i =>
        obtain ⟨e, he, hval, hb⟩ := hrun i (by omega)
        exact ⟨e, List.mem_cons_of_mem p he, by omega, hb⟩
    · rw [if_pos (by simp [hbit, hedge])] at h
      obtain rfl := Option.some.inj h
      refine ⟨0, rfl, fun i hi => ⟨p, List.mem_cons_self, by omega, hbit⟩, q, hq, by omega, hedge⟩

/-- A width that the detector reports was seen: a position without the signal, as many with it as
the width says, and one without it again. -/
theorem pulseWidth_run {bit : Bool} {w : ℕ} {sorted : List Pulse}
    (h : pulseWidth bit sorted = some w) (hwrap : Unwrapped sorted) :
    0 < w ∧ ∃ p ∈ sorted, p.bit ≠ bit ∧
      (∀ i < w, ∃ e ∈ sorted, e.seq.toNat = p.seq.toNat + 1 + i ∧ e.bit = bit) ∧
      ∃ e ∈ sorted, e.seq.toNat = p.seq.toNat + 1 + w ∧ e.bit ≠ bit := by
  obtain ⟨leftEdge, hleft, h⟩ := Option.bind_eq_some_iff.mp h
  obtain ⟨rightEdge, hright, h⟩ := Option.bind_eq_some_iff.mp h
  obtain ⟨hle, p, q, rest, hdrop, hnext, hedge⟩ := findEdge_drop hleft
  have hsub : p :: q :: rest ⊆ sorted := hdrop ▸ List.drop_subset _ _
  have hsub' : q :: rest ⊆ sorted := fun e he => hsub (List.mem_cons_of_mem p he)
  have hbits : p.bit ≠ bit ∧ q.bit = bit := by simpa using hedge
  have htail : sorted.drop leftEdge = q :: rest := by
    rw [show leftEdge = leftEdge - 1 + 1 by omega, ← List.drop_drop, hdrop]
    rfl
  rw [htail] at hright
  obtain ⟨n, hn, hrun, e, he, hend, hne⟩ := findEdge_run hright hbits.2 (hwrap.subset hsub')
  have hp : p ∈ sorted := hsub List.mem_cons_self
  have hseq := hwrap p hp q (hsub' List.mem_cons_self) hnext
  have hw : w = n + 1 := by
    have := Option.some.inj h
    omega
  refine ⟨by omega, p, hp, hbits.1, ?_, e, hsub' he, by omega, hne⟩
  intro i hi
  obtain ⟨e, he, hval, hb⟩ := hrun i (by omega)
  exact ⟨e, hsub' he, by omega, hb⟩

private theorem succ_mod_cases {n x : ℕ} (hn : 0 < n) :
    (x + 1) % n = x % n + 1 ∨ (x + 1) % n = 0 ∧ x % n + 1 = n := by
  have hlt := Nat.mod_lt x hn
  rcases Nat.lt_or_ge (x % n + 1) n with h | h
  · exact .inl (by rw [← Nat.mod_add_mod, Nat.mod_eq_of_lt h])
  · have heq : x % n + 1 = n := by omega
    exact .inr ⟨by rw [← Nat.mod_add_mod, heq, Nat.mod_self], heq⟩

/-- A run of positions that begins with residue `r` and carries one signal up to residue `r + d`,
where the other signal begins, is `d` long. -/
private theorem run_length {s : ℕ → Bool} {b : Bool} {d w : ℕ} (hbefore : ∀ i < d, s i = b)
    (hd : s d ≠ b) (hrun : ∀ i < w, s i = b) (hend : s w ≠ b) : w = d := by
  rcases Nat.lt_trichotomy w d with hlt | heq | hgt
  · exact absurd (hbefore w hlt) hend
  · exact heq
  · exact absurd (hrun d hgt) hd

theorem signalAt_run_true {ds ps x w : ℕ} (hps : 1 ≤ ps) (hw : 0 < w)
    (hbefore : signalAt ds ps x ≠ true) (hrun : ∀ i < w, signalAt ds ps (x + 1 + i) = true)
    (hend : signalAt ds ps (x + 1 + w) ≠ true) : w = ds := by
  have hge : ds ≤ x % (ds + ps) := by simpa [signalAt] using hbefore
  have hlt : (x + 1) % (ds + ps) < ds := by simpa [signalAt] using hrun 0 hw
  have hzero : (x + 1) % (ds + ps) = 0 := by
    rcases succ_mod_cases (x := x) (show 0 < ds + ps by omega) with h | h <;> omega
  have hmod : ∀ i, (x + 1 + i) % (ds + ps) = i % (ds + ps) := by
    intro i
    rw [← Nat.mod_add_mod, hzero, Nat.zero_add]
  refine run_length ?_ ?_ hrun hend
  · intro i hi
    rw [signalAt, hmod, Nat.mod_eq_of_lt (by omega)]
    exact decide_eq_true hi
  · rw [signalAt, hmod, Nat.mod_eq_of_lt (by omega)]
    simp

theorem signalAt_run_false {ds ps x w : ℕ} (hds : 1 ≤ ds) (hw : 0 < w)
    (hbefore : signalAt ds ps x ≠ false) (hrun : ∀ i < w, signalAt ds ps (x + 1 + i) = false)
    (hend : signalAt ds ps (x + 1 + w) ≠ false) : w = ps := by
  have hlt : x % (ds + ps) < ds := by simpa [signalAt] using hbefore
  have hge : ds ≤ (x + 1) % (ds + ps) := by simpa [signalAt] using hrun 0 hw
  have hds' : (x + 1) % (ds + ps) = ds := by
    rcases succ_mod_cases (x := x) (show 0 < ds + ps by omega) with h | h <;> omega
  have hmod : ∀ i, (x + 1 + i) % (ds + ps) = (ds + i) % (ds + ps) := by
    intro i
    rw [← Nat.mod_add_mod, hds']
  refine run_length ?_ ?_ hrun hend
  · intro i hi
    rw [signalAt, hmod, Nat.mod_eq_of_lt (by omega)]
    simp
  · rw [signalAt, hmod, Nat.mod_self]
    simpa using Nat.one_le_iff_ne_zero.mp hds

namespace AutoTune

private theorem findPeriod_cases (t : AutoTune) (bit : Bool) :
    t.findPeriod bit = -1 ∨
      ∃ w : ℕ, pulseWidth bit (sortPulses t.window) = some w ∧ t.findPeriod bit = w := by
  unfold findPeriod
  split_ifs
  · exact .inl rfl
  · cases h : pulseWidth bit (sortPulses t.window) with
    | none => exact .inl rfl
    | some w => exact .inr ⟨w, rfl, rfl⟩

/-- Of samples that follow a signal, the detector reports nothing or the length of a full run of that
signal. -/
theorem findPeriod_run {t : AutoTune} {signal : ℕ → Bool}
    (hsignal : ∀ p ∈ t.window, p.bit = signal p.seq.toNat) (hwrap : Unwrapped t.window)
    (bit : Bool) :
    t.findPeriod bit = -1 ∨ ∃ x w : ℕ, t.findPeriod bit = w ∧ 0 < w ∧ signal x ≠ bit ∧
      (∀ i < w, signal (x + 1 + i) = bit) ∧ signal (x + 1 + w) ≠ bit := by
  have hperm := sortPulses_perm t.window
  refine (t.findPeriod_cases bit).imp_right ?_
  rintro ⟨w, hwidth, hfound⟩
  obtain ⟨hw, p, hp, hbefore, hrun, e, he, hend, hne⟩ :=
    pulseWidth_run hwidth (hwrap.subset hperm.subset)
  refine ⟨p.seq.toNat, w, hfound, hw, ?_, ?_, ?_⟩
  · rwa [← hsignal p (hperm.subset hp)]
  · intro i hi
    obtain ⟨e, he, hval, hb⟩ := hrun i hi
    rw [← hval, ← hsignal e (hperm.subset he), hb]
  · rwa [← hend, ← hsignal e (hperm.subset he)]

/-- Samples of a stream with `ds` data and `ps` parity shards in a group, fed to an empty detector in
any order, with any losses and duplicates: it reports these periods or none. -/
theorem findPeriod_sound {ds ps : ℕ} (hds : 1 ≤ ds) (hps : 1 ≤ ps) (pulses : List Pulse)
    (hsignal : ∀ p ∈ pulses, p.bit = decide (p.seq.toNat % (ds + ps) < ds))
    (hspan : ∀ p ∈ (new.samples pulses).window, ∀ q ∈ (new.samples pulses).window,
      p.seq.toNat < q.seq.toNat + 2 ^ 31) :
    ((new.samples pulses).findPeriod true = -1 ∨ (new.samples pulses).findPeriod true = ds) ∧
      ((new.samples pulses).findPeriod false = -1 ∨
        (new.samples pulses).findPeriod false = ps) := by
  have hsignal' : ∀ p ∈ (new.samples pulses).window, p.bit = signalAt ds ps p.seq.toNat := by
    intro p hp
    rw [ok_new.window_samples pulses] at hp
    exact hsignal p (List.mem_of_mem_drop hp)
  have hwrap := unwrapped_of_span hspan
  refine ⟨(findPeriod_run hsignal' hwrap true).imp_right ?_,
    (findPeriod_run hsignal' hwrap false).imp_right ?_⟩
  · rintro ⟨x, w, hfound, hw, hbefore, hrun, hend⟩
    rw [hfound, signalAt_run_true hps hw hbefore hrun hend]
  · rintro ⟨x, w, hfound, hw, hbefore, hrun, hend⟩
    rw [hfound, signalAt_run_false hds hw hbefore hrun hend]

/-- Two data and one parity shard in a group, shuffled, with a loss and a duplicate behind the right
edges. -/
def shuffled : List Pulse :=
  [⟨true, 9⟩, ⟨true, 6⟩, ⟨true, 9⟩, ⟨false, 2⟩, ⟨true, 4⟩, ⟨false, 5⟩, ⟨true, 3⟩, ⟨true, 1⟩]

theorem findPeriod_sound_shuffled :
    (new.samples shuffled).findPeriod true = 2 ∧ (new.samples shuffled).findPeriod false = 1 ∧
      ((new.samples shuffled).findPeriod true = -1 ∨
        (new.samples shuffled).findPeriod true = (2 : ℕ)) := by
  have h := @findPeriod_sound 2 1 (by decide) (by decide) shuffled (by decide +kernel)
    (by decide +kernel)
  exact ⟨by decide +kernel, by decide +kernel, h.1⟩

end AutoTune

end Kcptun.Fec
