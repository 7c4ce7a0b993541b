/- Kcptun/Lib/FixedWidth
   digest: Checked 32-bit arithmetic: an operation that fits computes the exact integer, and the
     steps of a weighted average stay between its bounds. -/

import Mathlib.Data.UInt
import Mathlib.Tactic.Linarith

set_option autoImplicit false
set_option relaxedAutoImplicit false

namespace Kcptun.Lib

/-- An `i32`; nothing when the exact value does not fit. -/
def i32Checked (x : ℤ) : Option Int32 :=
  if -2147483648 ≤ x ∧ x < 2147483648 then some (Int32.ofInt x) else none

/-- A `u32`; nothing when the exact value does not fit. -/
def u32Checked (x : ℕ) : Option UInt32 :=
  if x < 4294967296 then some (UInt32.ofNat x) else none

private theorem i32Checked_eq {x : ℤ} {v : Int32} (hlow : -2147483648 ≤ x) (hhigh : x < 2147483648)
    (hv : v = Int32.ofInt x) : i32Checked x = some v ∧ v.toInt = x := by
  subst hv
  exact ⟨if_pos ⟨hlow, hhigh⟩, Int32.toInt_ofInt_of_le hlow hhigh⟩

variable {a b : Int32}

theorem i32Checked_add (hlow : -2147483648 ≤ a.toInt + b.toInt)
    (hhigh : a.toInt + b.toInt < 2147483648) :
    i32Checked (a.toInt + b.toInt) = some (a + b) ∧ (a + b).toInt = a.toInt + b.toInt := by
  apply i32Checked_eq hlow hhigh
  rw [Int32.ofInt_add, Int32.ofInt_toInt, Int32.ofInt_toInt]

theorem i32Checked_sub (hlow : -2147483648 ≤ a.toInt - b.toInt)
    (hhigh : a.toInt - b.toInt < 2147483648) :
    i32Checked (a.toInt - b.toInt) = some (a - b) ∧ (a - b).toInt = a.toInt - b.toInt := by
  apply i32Checked_eq hlow hhigh
  rw [Int32.ofInt_sub, Int32.ofInt_toInt, Int32.ofInt_toInt]

theorem i32Checked_neg (hlow : -2147483648 ≤ -a.toInt) (hhigh : -a.toInt < 2147483648) :
    i32Checked (-a.toInt) = some (-a) ∧ (-a).toInt = -a.toInt := by
  apply i32Checked_eq hlow hhigh
  rw [Int32.ofInt_neg, Int32.ofInt_toInt]

theorem toInt_shiftRight (a s : Int32) {n : ℕ} (hn : (s.toBitVec.smod 32#32).toNat = n) :
    (a >>> s).toInt = a.toInt / 2 ^ n := by
  show (BitVec.sshiftRight' a.toBitVec (s.toBitVec.smod 32#32)).toInt = _
  rw [BitVec.sshiftRight', BitVec.toInt_sshiftRight, Int.shiftRight_eq_div_pow, hn]
  rfl

theorem toNat_toUInt32 {a : Int32} (h : 0 ≤ a.toInt) : (a.toUInt32.toNat : ℤ) = a.toInt := by
  have hle : 0 ≤ a := Int32.le_iff_toInt_le.mpr h
  rw [Int32.toNat_toUInt32_of_le hle]
  exact Int.toNat_of_nonneg h

theorem weighted_step {x y low high n : ℤ} (hn : 0 < n) (hx : low ≤ x ∧ x ≤ high)
    (hy : low ≤ y ∧ y ≤ high) : low ≤ x + (y - x) / n ∧ x + (y - x) / n ≤ high := by
  constructor
  · have hstep : min 0 (y - x) ≤ (y - x) / n := by
      rcases le_total 0 (y - x) with hle | hle
      · rw [min_eq_left hle]
        exact Int.ediv_nonneg hle hn.le
      · rw [min_eq_right hle, Int.le_ediv_iff_mul_le hn]
        nlinarith
    omega
  · have hstep : (y - x) / n ≤ max 0 (y - x) := by
      rcases le_total 0 (y - x) with hle | hle
      · rw [max_eq_right hle]
        exact Int.ediv_le_self _ hle
      · rw [max_eq_left hle]
        exact Int.ediv_nonpos_of_nonpos_of_neg hle hn
    omega

end Kcptun.Lib
