/- Kcptun/Rs/Galois
   source: crates/kcp/src/rs/galois.rs
   digest: Arithmetic of bytes through the logarithm tables of the polynomial 0x11D, and that it
     is a field. -/

import Mathlib.Algebra.Field.Basic
import Mathlib.Data.Fintype.Card
import Mathlib.Data.UInt
import Mathlib.Dynamics.PeriodicPts.Defs
import Kcptun.Lib.LittleEndian

set_option autoImplicit false
set_option relaxedAutoImplicit false

namespace Kcptun.Rs

open Kcptun.Lib.LittleEndian (Bytes)

def FIELD_SIZE : ℕ := 256

def GENERATING_POLYNOMIAL : UInt8 := 29

/-- One turn of the loop of `gen_exp_log`: the next power of two. -/
def genNext (x : UInt16) : UInt16 :=
  let x := x <<< 1
  if x ≥ UInt16.ofNat FIELD_SIZE then x ^^^ (0x100 ||| GENERATING_POLYNOMIAL.toUInt16) else x

/-- The loop of `gen_exp_log` from index `i` on, over the two tables. -/
def genExpLog : ℕ → ℕ → UInt16 → List UInt8 × List UInt8 → List UInt8 × List UInt8
  | 0, _, _, tables => tables
  | fuel + 1, i, x, (exp, log) =>
    let exp := exp.set i x.toUInt8
    let log := if i < FIELD_SIZE - 1 then log.set x.toNat (UInt8.ofNat i) else log
    genExpLog fuel (i + 1) (genNext x) (exp, log)

attribute [local simp] genExpLog

def expLog : List UInt8 × List UInt8 :=
  genExpLog FIELD_SIZE 0 1 (List.replicate FIELD_SIZE 0, List.replicate FIELD_SIZE 0)

/-- `EXP_TABLE[i]`: the `i`-th power of two. -/
def expTable (i : ℕ) : UInt8 := expLog.1.getD i 0

/-- `LOG_TABLE[x]`: the logarithm of `x`; that of 0 is 0. -/
def logTable (x : UInt8) : UInt8 := expLog.2.getD x.toNat 0

/-- The product from the tables, which generated `MUL_TABLE`. -/
def mulLogExp (a b : UInt8) : UInt8 :=
  if a = 0 ∨ b = 0 then 0 else expTable (((logTable a).toNat + (logTable b).toNat) % 255)

def galAdd (a b : UInt8) : UInt8 := a ^^^ b

def galMultiply (a b : UInt8) : UInt8 := mulLogExp a b

/-- `1 / a`; the source asserts that `a` is not 0. -/
def galOneOver (a : UInt8) : UInt8 := expTable (logTable a ^^^ 255).toNat

def galExp (a : UInt8) (n : ℕ) : UInt8 :=
  if n = 0 then 1 else if a = 0 then 0
  else expTable (((logTable a).toNat * (n % 255)) % 255)

def galMulSlice (c : UInt8) (input : Bytes) : Bytes :=
  if c = 1 then input else input.map (galMultiply c)

def sliceXor (input out : Bytes) : Bytes := List.zipWith (fun o i => o ^^^ i) out input

def galMulSliceXor (c : UInt8) (input out : Bytes) : Bytes :=
  if c = 1 then sliceXor input out else List.zipWith (fun o i => o ^^^ galMultiply c i) out input

section Tables

def double (x : UInt8) : UInt8 :=
  (x <<< 1) ^^^ (if x.toBitVec.msb then GENERATING_POLYNOMIAL else 0)

def power (i : ℕ) : UInt8 := double^[i] 1

private theorem double_xor (a b : UInt8) : double (a ^^^ b) = double a ^^^ double b := by
  have hshift : (a ^^^ b) <<< 1 = (a <<< 1) ^^^ (b <<< 1) := by
    apply UInt8.toBitVec_inj.mp
    simp [BitVec.shiftLeft_xor_distrib]
  have hmsb : (a ^^^ b).toBitVec.msb = (a.toBitVec.msb ^^ b.toBitVec.msb) := by simp
  have hcancel : ∀ x y c : UInt8, x ^^^ c ^^^ (y ^^^ c) = x ^^^ y := by
    intro x y c
    rw [UInt8.xor_assoc, UInt8.xor_comm y c, ← UInt8.xor_assoc c c y, UInt8.xor_self,
      UInt8.zero_xor]
  simp only [double, hshift, hmsb]
  cases a.toBitVec.msb <;> cases b.toBitVec.msb <;> simp [hcancel] <;> grind

private theorem double_runs :
    (∀ i : Fin 256, genNext (UInt8.ofFin i).toUInt16 = (double (UInt8.ofFin i)).toUInt16) ∧
    double^[255] 1 = 1 ∧ ∀ d ≤ 255, d ∣ 255 → double^[d] 1 = 1 → d = 255 := by
  decide +kernel

private theorem genNext_toUInt16 (x : UInt8) : genNext x.toUInt16 = (double x).toUInt16 :=
  double_runs.1 x.toFin

private theorem power_succ (i : ℕ) : power (i + 1) = double (power i) :=
  Function.iterate_succ_apply' double i 1

private theorem minimalPeriod_double : Function.minimalPeriod double 1 = 255 := by
  have hperiod : Function.IsPeriodicPt double 255 1 := double_runs.2.1
  have hdvd := hperiod.minimalPeriod_dvd
  exact double_runs.2.2 _ (Nat.le_of_dvd (by decide) hdvd) hdvd Function.iterate_minimalPeriod

private theorem power_inj {i j : ℕ} (hi : i < 255) (hj : j < 255) (h : power i = power j) :
    i = j := by
  rw [← minimalPeriod_double] at hi hj
  exact Function.iterate_injOn_Iio_minimalPeriod hi hj h

private theorem power_mod (i : ℕ) : power (i % 255) = power i := by
  have h := Function.iterate_mod_minimalPeriod_eq (f := double) (x := 1) (n := i)
  rwa [minimalPeriod_double] at h

private theorem power_ne_zero (i : ℕ) : power i ≠ 0 := by
  intro hzero
  have hone : power (255 * i) = 1 := by
    rw [← power_mod, Nat.mul_mod_right]
    rfl
  have hmore : power (254 * i + i) = double^[254 * i] (power i) :=
    Function.iterate_add_apply double (254 * i) i 1
  rw [hzero, Function.iterate_fixed (by decide)] at hmore
  rw [show 254 * i + i = 255 * i by omega, hone] at hmore
  exact absurd hmore (by decide)

private theorem exists_power (x : UInt8) (hx : x ≠ 0) : ∃ i < 255, power i = x := by
  let f : Fin 255 → { y : Fin 256 // y ≠ 0 } := fun i => ⟨(power i).toFin, fun h =>
    power_ne_zero i (UInt8.toFin_inj.mp h)⟩
  have hinj : Function.Injective f := by
    intro i j hij
    have heq : (power i).toFin = (power j).toFin := congrArg Subtype.val hij
    exact Fin.ext (power_inj i.2 j.2 (UInt8.toFin_inj.mp heq))
  have hcard : Fintype.card (Fin 255) = Fintype.card { y : Fin 256 // y ≠ 0 } := by
    rw [Fintype.card_fin, Fintype.card_subtype_compl, Fintype.card_fin, Fintype.card_unique]
  have hsurj := ((Fintype.bijective_iff_injective_and_card f).mpr ⟨hinj, hcard⟩).2
  obtain ⟨i, hi⟩ := hsurj ⟨x.toFin, fun h => hx (UInt8.toFin_inj.mp h)⟩
  exact ⟨i, i.2, UInt8.toFin_inj.mp (congrArg Subtype.val hi)⟩

/-- What the loop writes from index `i` on. No entry of the second table is written twice, since
the powers differ. -/
private theorem genExpLog_spec (fuel i : ℕ) (hi : i + fuel = 256) (exp log : List UInt8)
    (hexp : exp.length = 256) (hlog : log.length = 256) :
    let r := genExpLog fuel i (power i).toUInt16 (exp, log)
    (∀ j, j < i → r.1.getD j 0 = exp.getD j 0) ∧
    (∀ j, i ≤ j → j < 256 → r.1.getD j 0 = power j) ∧
    (∀ j, i ≤ j → j < 255 → r.2.getD (power j).toNat 0 = UInt8.ofNat j) ∧
    (∀ x : UInt8, (∀ j, i ≤ j → j < 255 → power j ≠ x) → r.2.getD x.toNat 0 = log.getD x.toNat 0) := by
  induction fuel generalizing i exp log with
  | zero =>
    refine ⟨fun _ _ => rfl, ?_, ?_, fun _ _ => rfl⟩
    · intro j h1 h2
      omega
    · intro j h1 h2
      omega
  | succ fuel ih =>
    have hx : (power i).toUInt16.toUInt8 = power i := by simp
    have hnat : (power i).toUInt16.toNat = (power i).toNat := by simp
    simp only [genExpLog, hx, hnat, genNext_toUInt16, ← power_succ]
    set log' := if i < FIELD_SIZE - 1 then log.set (power i).toNat (UInt8.ofNat i) else log with hl
    have hlog' : log'.length = 256 := by
      rw [hl]
      split_ifs <;> simp [hlog]
    obtain ⟨h1, h2, h3, h4⟩ := ih (i + 1) (by omega) (exp.set i (power i)) log' (by simp [hexp]) hlog'
    have hother : ∀ x : UInt8, (i < 255 → power i ≠ x) → log'.getD x.toNat 0 = log.getD x.toNat 0 := by
      intro x hne
      rw [hl]
      split_ifs with hlt
      · have hne' : (power i).toNat ≠ x.toNat := fun h => hne hlt (UInt8.toNat_inj.mp h)
        simp [List.getD_eq_getElem?_getD, hne']
      · rfl
    refine ⟨?_, ?_, ?_, ?_⟩
    · intro j hj
      rw [h1 j (by omega)]
      have hne : i ≠ j := by omega
      simp [List.getD_eq_getElem?_getD, hne]
    · intro j hj hj'
      rcases Nat.eq_or_lt_of_le hj with rfl | hlt
      · rw [h1 i (by omega)]
        simp [List.getD_eq_getElem?_getD, hexp, hj']
      · exact h2 j hlt hj'
    · intro j hj hj'
      rcases Nat.eq_or_lt_of_le hj with rfl | hlt
      · rw [h4 (power i) fun j hj'' hj''' h => ?_]
        · have hlt := (power i).toNat_lt
          rw [hl, if_pos (by unfold FIELD_SIZE; omega)]
          simp [List.getD_eq_getElem?_getD, hlog, hlt]
        · have := power_inj hj''' hj' h
          omega
      · exact h3 j hlt hj'
    · intro x hx'
      rw [h4 x fun j hj hj' => hx' j (by omega) hj', hother x fun hlt => hx' i le_rfl hlt]

private theorem expTable_eq {i : ℕ} (hi : i < 256) : expTable i = power i :=
  (genExpLog_spec 256 0 rfl _ _ List.length_replicate
    List.length_replicate).2.1 i (by omega) hi

private theorem logTable_power {i : ℕ} (hi : i < 255) : logTable (power i) = UInt8.ofNat i :=
  (genExpLog_spec 256 0 rfl _ _ List.length_replicate
    List.length_replicate).2.2.1 i (by omega) hi

private theorem power_log {x : UInt8} (hx : x ≠ 0) : power (logTable x).toNat = x := by
  obtain ⟨i, hi, rfl⟩ := exists_power x hx
  have hnat : (UInt8.ofNat i).toNat = i := by
    rw [UInt8.toNat_ofNat']
    omega
  rw [logTable_power hi, hnat]

private theorem log_lt {x : UInt8} (hx : x ≠ 0) : (logTable x).toNat < 255 := by
  obtain ⟨i, hi, rfl⟩ := exists_power x hx
  rw [logTable_power hi, UInt8.toNat_ofNat']
  omega

end Tables

attribute [irreducible] expLog power

section Laws

private theorem iterate_power (i j : ℕ) : double^[i] (power j) = power (i + j) := by
  unfold power
  exact (Function.iterate_add_apply double i j 1).symm

private theorem power_zero : power 0 = 1 := by
  unfold power
  rfl

private theorem iterate_xor (n : ℕ) (a b : UInt8) :
    double^[n] (a ^^^ b) = double^[n] a ^^^ double^[n] b := by
  induction n generalizing a b with
  | zero => rfl
  | succ n ih => rw [Function.iterate_succ_apply, Function.iterate_succ_apply,
      Function.iterate_succ_apply, double_xor, ih]

private theorem iterate_zero_byte (n : ℕ) : double^[n] 0 = 0 :=
  Function.iterate_fixed (by decide) n

private theorem galMultiply_eq {a : UInt8} (ha : a ≠ 0) (b : UInt8) :
    galMultiply a b = double^[(logTable a).toNat] b := by
  rcases eq_or_ne b 0 with rfl | hb
  · rw [iterate_zero_byte]
    simp [galMultiply, mulLogExp]
  · have hmod : ((logTable a).toNat + (logTable b).toNat) % 255 < 256 := by omega
    rw [galMultiply, mulLogExp, if_neg (not_or.mpr ⟨ha, hb⟩), expTable_eq hmod, power_mod,
      ← iterate_power, power_log hb]

private theorem galMultiply_power (i j : ℕ) : galMultiply (power i) (power j) = power (i + j) := by
  rw [galMultiply_eq (power_ne_zero i), iterate_power, Nat.add_comm, ← iterate_power,
    power_log (power_ne_zero i), iterate_power, Nat.add_comm]

@[simp] theorem zero_galMultiply (a : UInt8) : galMultiply 0 a = 0 := by
  simp [galMultiply, mulLogExp]

@[simp] theorem galMultiply_zero (a : UInt8) : galMultiply a 0 = 0 := by
  simp [galMultiply, mulLogExp]

theorem galMultiply_comm (a b : UInt8) : galMultiply a b = galMultiply b a := by
  simp only [galMultiply, mulLogExp, or_comm, Nat.add_comm]

private theorem galMultiply_assoc (a b c : UInt8) :
    galMultiply (galMultiply a b) c = galMultiply a (galMultiply b c) := by
  rcases eq_or_ne a 0 with rfl | ha
  · simp
  rcases eq_or_ne b 0 with rfl | hb
  · simp
  rcases eq_or_ne c 0 with rfl | hc
  · simp
  rw [← power_log ha, ← power_log hb, ← power_log hc, galMultiply_power, galMultiply_power,
    galMultiply_power, galMultiply_power, Nat.add_assoc]

theorem galMultiply_xor (a b c : UInt8) :
    galMultiply a (b ^^^ c) = galMultiply a b ^^^ galMultiply a c := by
  rcases eq_or_ne a 0 with rfl | ha
  · simp
  · rw [galMultiply_eq ha, galMultiply_eq ha, galMultiply_eq ha, iterate_xor]

@[simp] theorem one_galMultiply (a : UInt8) : galMultiply 1 a = a := by
  rcases eq_or_ne a 0 with rfl | ha
  · simp
  · have h := galMultiply_power 0 (logTable a).toNat
    rwa [Nat.zero_add, power_log ha, power_zero] at h

private theorem toNat_xor_255 (x : UInt8) : (x ^^^ 255).toNat = 255 - x.toNat := by
  have hnot : x ^^^ 255 = ~~~x := UInt8.xor_neg_one
  rw [hnot, UInt8.toNat_not]
  rfl

theorem galMultiply_galOneOver {a : UInt8} (ha : a ≠ 0) : galMultiply a (galOneOver a) = 1 := by
  have hlt := log_lt ha
  have hinv : galOneOver a = power (255 - (logTable a).toNat) := by
    rw [galOneOver, toNat_xor_255, expTable_eq (by omega)]
  have hmul := galMultiply_power (logTable a).toNat (255 - (logTable a).toNat)
  rw [power_log ha, ← hinv, Nat.add_sub_cancel' hlt.le, ← power_mod, Nat.mod_self,
    power_zero] at hmul
  exact hmul

end Laws

structure Gal where
  byte : UInt8
  deriving DecidableEq, Repr

namespace Gal

instance : Zero Gal := ⟨⟨0⟩⟩
instance : One Gal := ⟨⟨1⟩⟩
instance : Add Gal := ⟨fun a b => ⟨galAdd a.byte b.byte⟩⟩
instance : Neg Gal := ⟨id⟩
instance : Mul Gal := ⟨fun a b => ⟨galMultiply a.byte b.byte⟩⟩
instance : Inv Gal := ⟨fun a => if a = 0 then 0 else ⟨galOneOver a.byte⟩⟩

theorem mk_zero : (⟨0⟩ : Gal) = 0 := rfl
theorem mk_one : (⟨1⟩ : Gal) = 1 := rfl
theorem mk_xor (a b : UInt8) : (⟨a ^^^ b⟩ : Gal) = ⟨a⟩ + ⟨b⟩ := rfl
private theorem mk_galMultiply (a b : UInt8) : (⟨galMultiply a b⟩ : Gal) = ⟨a⟩ * ⟨b⟩ := rfl

theorem ext_byte {a b : Gal} (h : a.byte = b.byte) : a = b := by
  cases a
  cases b
  exact congrArg mk h

theorem mk_eq_zero {a : UInt8} : (⟨a⟩ : Gal) = 0 ↔ a = 0 := by
  rw [← mk_zero, mk.injEq]

instance : Field Gal where
  add_assoc a b c := ext_byte (UInt8.xor_assoc ..)
  zero_add a := ext_byte (UInt8.zero_xor ..)
  add_zero a := ext_byte (UInt8.xor_zero ..)
  add_comm a b := ext_byte (UInt8.xor_comm ..)
  neg_add_cancel a := ext_byte (UInt8.xor_self ..)
  nsmul := nsmulRec
  zsmul := zsmulRec
  left_distrib a b c := ext_byte (galMultiply_xor ..)
  right_distrib a b c := ext_byte (by
    change galMultiply (a.byte ^^^ b.byte) c.byte =
      galMultiply a.byte c.byte ^^^ galMultiply b.byte c.byte
    rw [galMultiply_comm, galMultiply_xor, galMultiply_comm c.byte, galMultiply_comm c.byte])
  zero_mul a := ext_byte (zero_galMultiply a.byte)
  mul_zero a := ext_byte (galMultiply_zero a.byte)
  mul_assoc a b c := ext_byte (galMultiply_assoc ..)
  one_mul a := ext_byte (one_galMultiply a.byte)
  mul_one a := ext_byte ((galMultiply_comm a.byte 1).trans (one_galMultiply a.byte))
  mul_comm a b := ext_byte (galMultiply_comm ..)
  exists_pair_ne := ⟨0, 1, by decide⟩
  mul_inv_cancel a ha := ext_byte (by
    have ha' : a.byte ≠ 0 := fun h => ha (ext_byte h)
    change galMultiply a.byte (if a = 0 then (0 : Gal) else ⟨galOneOver a.byte⟩).byte = 1
    rw [if_neg ha]
    exact galMultiply_galOneOver ha')
  inv_zero := if_pos rfl
  nnqsmul := _
  nnqsmul_def := fun _ _ => rfl
  qsmul := _
  qsmul_def := fun _ _ => rfl

private theorem mk_power_pow (i n : ℕ) : (⟨power i⟩ : Gal) ^ n = ⟨power (i * n)⟩ := by
  induction n with
  | zero => rw [pow_zero, Nat.mul_zero, power_zero, mk_one]
  | succ n ih => rw [pow_succ, ih, ← mk_galMultiply, galMultiply_power, Nat.mul_succ]

theorem mk_galExp (a : UInt8) (n : ℕ) : (⟨galExp a n⟩ : Gal) = (⟨a⟩ : Gal) ^ n := by
  unfold galExp
  split_ifs with hn ha
  · rw [hn, pow_zero, mk_one]
  · rw [ha, mk_zero, zero_pow hn]
  · have hmod : (logTable a).toNat * (n % 255) % 255 < 256 := by omega
    have hsame : (logTable a).toNat * (n % 255) % 255 = (logTable a).toNat * n % 255 :=
      Nat.mul_mod_mod ..
    rw [expTable_eq hmod, hsame, power_mod, ← mk_power_pow, power_log ha]

end Gal

end Kcptun.Rs
