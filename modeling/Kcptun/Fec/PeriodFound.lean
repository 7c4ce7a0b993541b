/- Kcptun/Fec/PeriodFound
   source: crates/kcp/src/autotune.rs
   digest: A full window of consecutive samples that begins on the last data shard of a group shows
     both periods, up to 256 shards in a group; no two parameter pairs carry the same signal. -/

import Kcptun.Fec.PeriodSound
import Mathlib.Data.List.Chain

set_option autoImplicit false
set_option relaxedAutoImplicit false

namespace Kcptun.Fec

open Kcptun.Lib Kcptun.Arq

def Successive (pulses : List Pulse) : Prop := pulses.IsChain fun p q => p.seq + 1 = q.seq

private theorem findEdge_found {edge : Pulse → Pulse → Bool} {idx i : ℕ} {pulses : List Pulse}
    {p q : Pulse}
    (hchain : Successive pulses) (hp : pulses[i]? = some p) (hq : pulses[i + 1]? = some q)
    (hedge : edge p q = true) : ∃ k, findEdge edge idx pulses = some k ∧ idx ≤ k ∧ k ≤ idx + i := by
  induction idx, pulses using findEdge.induct edge generalizing i with
  | case1 idx a b rest hnext hab =>
    rw [findEdge, if_pos hnext, if_pos hab]
    exact ⟨idx, rfl, Nat.le_refl _, Nat.le_add_right _ _⟩
  | case2 idx a b rest hnext hab ih =>
    rw [findEdge, if_pos hnext, if_neg hab]
    cases i with
    | zero =>
      obtain rfl := Option.some.inj hp
      obtain rfl := Option.some.inj hq
      exact absurd hedge hab
    | succ i =>
      obtain ⟨k, hk, hlo, hhi⟩ := ih (List.isChain_cons_cons.mp hchain).2 hp hq
      exact ⟨k, hk, by omega, by omega⟩
  | case3 idx a b rest hnext => exact absurd (List.isChain_cons_cons.mp hchain).1 hnext
  | case4 pulses idx hshort =>
    cases pulses with
    | nil => cases hp
    | cons a rest =>
      cases rest with
      | nil => cases hq
      | cons b rest => exact absurd rfl (hshort a b rest)

private theorem pulseWidth_found {bit : Bool} {i j : ℕ} {pulses : List Pulse} {a b c e : Pulse}
    (hchain : Successive pulses) (ha : pulses[i]? = some a) (hb : pulses[i + 1]? = some b)
    (hleft : a.bit ≠ bit ∧ b.bit = bit) (hij : i < j) (hc : pulses[j]? = some c)
    (he : pulses[j + 1]? = some e) (hright : c.bit = bit ∧ e.bit ≠ bit) :
    ∃ w, pulseWidth bit pulses = some w := by
  obtain ⟨l, hl, -, hle⟩ := @findEdge_found
    (fun lastPulse p => lastPulse.bit != bit && p.bit == bit) 1 i pulses a b hchain ha hb
    (by simp [hleft])
  have hget : ∀ k, l ≤ k → (pulses.drop l)[k - l]? = pulses[k]? := by
    intro k hk
    rw [List.getElem?_drop, Nat.add_sub_cancel' hk]
  obtain ⟨r, hr, -, -⟩ := @findEdge_found
    (fun lastPulse p => lastPulse.bit == bit && p.bit != bit) (l + 1) (j - l) (pulses.drop l) c e
    (hchain.drop l) ((hget j (by omega)).trans hc)
    (by rw [show j - l + 1 = j + 1 - l by omega]; exact (hget (j + 1) (by omega)).trans he)
    (by simp [hright])
  unfold pulseWidth
  rw [hl, Option.bind_eq_bind, Option.bind_some, hr]
  exact ⟨_, rfl⟩

/-- `n` consecutive samples of a stream with `ds` data and `ps` parity shards in a group. -/
def pulsesFrom (ds ps s n : ℕ) : List Pulse :=
  (List.range' s n).map fun x => ⟨signalAt ds ps x, UInt32.ofNat x⟩

section Window

variable {ds ps s n : ℕ}

@[simp] theorem length_pulsesFrom : (pulsesFrom ds ps s n).length = n := by
  simp [pulsesFrom]

theorem getElem?_pulsesFrom {i : ℕ} (hi : i < n) :
    (pulsesFrom ds ps s n)[i]? = some ⟨signalAt ds ps (s + i), UInt32.ofNat (s + i)⟩ := by
  simp [pulsesFrom, List.getElem?_range' hi]

theorem drop_pulsesFrom (k : ℕ) :
    (pulsesFrom ds ps s n).drop k = pulsesFrom ds ps (s + k) (n - k) := by
  simp [pulsesFrom, ← List.map_drop, List.drop_range']

private theorem mem_pulsesFrom {p : Pulse} (h : p ∈ pulsesFrom ds ps s n)
    (hmax : s + n ≤ 4294967296) :
    s ≤ p.seq.toNat ∧ p.seq.toNat < s + n ∧ p.bit = signalAt ds ps p.seq.toNat := by
  obtain ⟨x, hx, rfl⟩ := List.mem_map.mp h
  obtain ⟨hlo, hhi⟩ := List.mem_range'_1.mp hx
  have hval : (UInt32.ofNat x).toNat = x := by
    rw [UInt32.toNat_ofNat']
    omega
  dsimp only
  rw [hval]
  exact ⟨hlo, hhi, rfl⟩

private theorem successive_pulsesFrom : Successive (pulsesFrom ds ps s n) := by
  unfold Successive pulsesFrom
  rw [List.isChain_map]
  refine (List.isChain_range' s n 1).imp ?_
  intro x y hxy
  subst hxy
  exact (UInt32.ofNat_add x 1).symm

private theorem sortPulses_pulsesFrom (hn : n ≤ 2147483648) :
    sortPulses (pulsesFrom ds ps s n) = pulsesFrom ds ps s n := by
  have hordered : Gosort.Ordered Pulse.before ⟨pulsesFrom ds ps s n, ()⟩ := by
    intro i j hij hj
    dsimp only at hj
    rw [length_pulsesFrom] at hj
    have hi := @getElem?_pulsesFrom ds ps s n i (by omega)
    have hj' := @getElem?_pulsesFrom ds ps s n j hj
    have hdiff : itimediff (UInt32.ofNat (s + j)) (UInt32.ofNat (s + i)) = (s + j : ℕ) - (s + i : ℕ) :=
      Serial.diff_of_stands (Serial.stands_ofNat _) (Serial.stands_ofNat _) (by omega) (by omega)
    have hbefore : (Pulse.before () ⟨signalAt ds ps (s + j), UInt32.ofNat (s + j)⟩
        ⟨signalAt ds ps (s + i), UInt32.ofNat (s + i)⟩) = (false, ()) := by
      unfold Pulse.before
      dsimp only
      rw [hdiff, decide_eq_false (by omega)]
    unfold Gosort.less
    dsimp only
    rw [hi, hj']
    dsimp only
    rw [hbefore]
  unfold sortPulses
  rw [Gosort.slice_ordered hordered]
  rfl

private theorem signalAt_group {g : ℕ} (hg : (ds + ps) ∣ g) {i : ℕ} (hi : i < ds + ps) :
    signalAt ds ps (g + i) = decide (i < ds) := by
  rw [signalAt, Nat.add_mod, Nat.mod_eq_zero_of_dvd hg, Nat.zero_add, Nat.mod_mod, Nat.mod_eq_of_lt hi]

theorem signalAt_injective {ds' ps' : ℕ} (hds : 1 ≤ ds) (hps : 1 ≤ ps) (hds' : 1 ≤ ds')
    (hps' : 1 ≤ ps')
    (h : ∀ x, s ≤ x → x ≤ s + 2 * (ds + ps) → signalAt ds' ps' x = signalAt ds ps x) :
    ds = ds' ∧ ps = ps' := by
  have hmod := Nat.mod_lt s (show 0 < ds + ps by omega)
  have hdiv := Nat.div_add_mod s (ds + ps)
  set g := (ds + ps) * (s / (ds + ps) + 1) with hg
  have hgeq : g = s - s % (ds + ps) + (ds + ps) := by
    rw [hg, Nat.mul_add, Nat.mul_one]
    omega
  have hdvd : (ds + ps) ∣ g := Nat.dvd_mul_right _ _
  have hback : (ds + ps) ∣ g - (ds + ps) := Nat.dvd_sub hdvd (Nat.dvd_refl _)
  have hlast : signalAt ds ps (g - 1) = false := by
    rw [show g - 1 = g - (ds + ps) + (ds + ps - 1) by omega, signalAt_group hback (by omega)]
    exact decide_eq_false (by omega)
  have hnext : signalAt ds ps (g + (ds + ps)) = true := by
    rw [← Nat.add_zero (g + (ds + ps)), signalAt_group (Nat.dvd_add hdvd (Nat.dvd_refl _)) (by omega)]
    exact decide_eq_true (by omega)
  constructor
  · refine signalAt_run_true (x := g - 1) hps' hds ?_ ?_ ?_
    · rw [h _ (by omega) (by omega), hlast]
      exact Bool.false_ne_true
    · intro i hi
      rw [show g - 1 + 1 + i = g + i by omega, h _ (by omega) (by omega),
        signalAt_group hdvd (by omega)]
      exact decide_eq_true hi
    · rw [show g - 1 + 1 + ds = g + ds by omega, h _ (by omega) (by omega),
        signalAt_group hdvd (by omega), decide_eq_false (by omega)]
      exact Bool.false_ne_true
  · refine signalAt_run_false (x := g + (ds - 1)) hds' hps ?_ ?_ ?_
    · rw [h _ (by omega) (by omega), signalAt_group hdvd (by omega), decide_eq_true (by omega)]
      exact Bool.false_ne_true.symm
    · intro i hi
      rw [show g + (ds - 1) + 1 + i = g + (ds + i) by omega, h _ (by omega) (by omega),
        signalAt_group hdvd (by omega)]
      exact decide_eq_false (by omega)
    · rw [show g + (ds - 1) + 1 + ps = g + (ds + ps) by omega, h _ (by omega) (by omega), hnext]
      exact Bool.false_ne_true.symm

end Window

namespace AutoTune

variable {t : AutoTune} {ds ps s : ℕ}

theorem findPeriod_window (hds : 1 ≤ ds) (hps : 1 ≤ ps) (hmax : s + 258 ≤ 4294967296)
    (hwindow : t.window = pulsesFrom ds ps s 258) :
    (t.findPeriod true = -1 ∨ t.findPeriod true = ds) ∧
      (t.findPeriod false = -1 ∨ t.findPeriod false = ps) := by
  have hmem : ∀ p ∈ t.window, s ≤ p.seq.toNat ∧ p.seq.toNat < s + 258 ∧
      p.bit = signalAt ds ps p.seq.toNat := fun p hp => mem_pulsesFrom (hwindow ▸ hp) hmax
  have hsignal : ∀ p ∈ t.window, p.bit = signalAt ds ps p.seq.toNat := fun p hp => (hmem p hp).2.2
  have hwrap : Unwrapped t.window := unwrapped_of_span fun p hp q hq => by
    have hp := hmem p hp
    have hq := hmem q hq
    omega
  refine ⟨(findPeriod_run hsignal hwrap true).imp_right ?_,
    (findPeriod_run hsignal hwrap false).imp_right ?_⟩
  · rintro ⟨x, w, hfound, hw, hbefore, hrun, hend⟩
    rw [hfound, signalAt_run_true hps hw hbefore hrun hend]
  · rintro ⟨x, w, hfound, hw, hbefore, hrun, hend⟩
    rw [hfound, signalAt_run_false hds hw hbefore hrun hend]

/-- One that begins on the last data shard of a group shows both: the ring has room for the group
and an edge on either side of it. -/
theorem findPeriod_window_aligned (hds : 1 ≤ ds) (hps : 1 ≤ ps) (hle : ds + ps ≤ 256)
    (hmax : s + 258 ≤ 4294967296) (hwindow : t.window = pulsesFrom ds ps s 258)
    (hs : s % (ds + ps) = ds - 1) :
    t.findPeriod true = ds ∧ t.findPeriod false = ps := by
  have hcount : t.count = 258 := by
    rw [← length_window, hwindow, length_pulsesFrom]
  have hdiv := Nat.div_add_mod s (ds + ps)
  set g := (ds + ps) * (s / (ds + ps)) with hg
  have hdvd : (ds + ps) ∣ g := Nat.dvd_mul_right _ _
  have hnext : (ds + ps) ∣ g + (ds + ps) := Nat.dvd_add hdvd (Nat.dvd_refl _)
  have hsort : sortPulses t.window = pulsesFrom ds ps s 258 := by
    rw [hwindow, sortPulses_pulsesFrom (by omega)]
  -- the samples on both sides of the three edges
  have hget : ∀ i < 258, (pulsesFrom ds ps s 258)[i]? =
      some ⟨signalAt ds ps (s + i), UInt32.ofNat (s + i)⟩ := fun i hi => getElem?_pulsesFrom hi
  have h0 : signalAt ds ps (s + 0) = true := by
    rw [show s + 0 = g + (ds - 1) by omega, signalAt_group hdvd (by omega)]
    exact decide_eq_true (by omega)
  have h1 : signalAt ds ps (s + (0 + 1)) = false := by
    rw [show s + (0 + 1) = g + ds by omega, signalAt_group hdvd (by omega)]
    exact decide_eq_false (by omega)
  have h2 : signalAt ds ps (s + ps) = false := by
    rw [show s + ps = g + (ds + ps - 1) by omega, signalAt_group hdvd (by omega)]
    exact decide_eq_false (by omega)
  have h3 : signalAt ds ps (s + (ps + 1)) = true := by
    rw [show s + (ps + 1) = g + (ds + ps) + 0 by omega, signalAt_group hnext (by omega)]
    exact decide_eq_true (by omega)
  have h4 : signalAt ds ps (s + (ps + ds)) = true := by
    rw [show s + (ps + ds) = g + (ds + ps) + (ds - 1) by omega, signalAt_group hnext (by omega)]
    exact decide_eq_true (by omega)
  have h5 : signalAt ds ps (s + (ps + ds + 1)) = false := by
    rw [show s + (ps + ds + 1) = g + (ds + ps) + ds by omega, signalAt_group hnext (by omega)]
    exact decide_eq_false (by omega)
  have hfound : ∀ bit : Bool, (∃ w, pulseWidth bit (sortPulses t.window) = some w) →
      t.findPeriod bit ≠ -1 := by
    rintro bit ⟨w, hw⟩
    unfold findPeriod
    rw [if_neg (by omega), hw]
    intro hc
    exact absurd hc (by simp)
  obtain ⟨hdata, hparity⟩ := findPeriod_window hds hps hmax hwindow
  refine ⟨hdata.resolve_left (hfound true ?_), hparity.resolve_left (hfound false ?_)⟩
  · rw [hsort]
    exact pulseWidth_found successive_pulsesFrom (hget ps (by omega)) (hget (ps + 1) (by omega))
      ⟨by rw [h2]; exact Bool.false_ne_true, h3⟩ (show ps < ps + ds by omega)
      (hget (ps + ds) (by omega)) (hget (ps + ds + 1) (by omega))
      ⟨h4, by rw [h5]; exact Bool.false_ne_true⟩
  · rw [hsort]
    exact pulseWidth_found successive_pulsesFrom (hget 0 (by omega)) (hget (0 + 1) (by omega))
      ⟨by rw [h0]; exact Bool.false_ne_true.symm, h1⟩ (show 0 < ps by omega)
      (hget ps (by omega)) (hget (ps + 1) (by omega))
      ⟨h2, by rw [h3]; exact Bool.false_ne_true.symm⟩

end AutoTune

end Kcptun.Fec
