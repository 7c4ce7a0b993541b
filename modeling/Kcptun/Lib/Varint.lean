/- Kcptun/Lib/Varint
   digest: Base-128 varints, lowest seven bits first, and that reading back what was put gives the
     number and its length. -/

import Mathlib.Data.UInt
import Mathlib.Tactic.Ring

set_option autoImplicit false
set_option relaxedAutoImplicit false

namespace Kcptun.Lib.Varint

def MAX_VARINT_LEN64 : ℕ := 10

def putUvarintIn : ℕ → ℕ → List UInt8
  | 0, _ => []
  | fuel + 1, v =>
    if v ≥ 0x80 then UInt8.ofNat (v % 128 + 128) :: putUvarintIn fuel (v / 128)
    else [UInt8.ofNat v]

def putUvarint (v : ℕ) : List UInt8 := putUvarintIn MAX_VARINT_LEN64 v

/-- Reads on at byte `i` with the value `x` of the bytes before: the value and how many bytes it
used, zero when the bytes end, negative when the value overflows. -/
def uvarintFrom : ℕ → ℕ → List UInt8 → ℕ × ℤ
  | _, _, [] => (0, 0)
  | i, x, b :: rest =>
    if i = MAX_VARINT_LEN64 then (0, -(i + 1))
    else if b < 0x80 then
      if i = MAX_VARINT_LEN64 - 1 ∧ b > 1 then (0, -(i + 1))
      else (x + b.toNat * 2 ^ (7 * i), i + 1)
    else uvarintFrom (i + 1) (x + b.toNat % 128 * 2 ^ (7 * i)) rest

def uvarint (src : List UInt8) : ℕ × ℤ := uvarintFrom 0 0 src

private theorem toNat_more (v : ℕ) : (UInt8.ofNat (v % 128 + 128)).toNat = v % 128 + 128 := by
  rw [UInt8.toNat_ofNat']
  omega

private theorem not_last_of_more {i v : ℕ} (hv : v * 2 ^ (7 * i) < 2 ^ 64) (hmore : 0x80 ≤ v) :
    i < 9 := by
  by_contra hlast
  have hpow : 2 ^ 63 ≤ 2 ^ (7 * i) := Nat.pow_le_pow_right (by decide) (by omega)
  have hmul := Nat.mul_le_mul hmore hpow
  omega

private theorem uvarintFrom_put (fuel i x v : ℕ) (rest : List UInt8)
    (hi : i + fuel = MAX_VARINT_LEN64) (hv : v * 2 ^ (7 * i) < 2 ^ 64) (hfuel : 0 < fuel) :
    uvarintFrom i x (putUvarintIn fuel v ++ rest) =
      (x + v * 2 ^ (7 * i), ((i + (putUvarintIn fuel v).length : ℕ) : ℤ)) := by
  induction fuel generalizing i x v with
  | zero => omega
  | succ fuel ih =>
    have hlt : i ≠ MAX_VARINT_LEN64 := by omega
    unfold putUvarintIn
    split_ifs with hmore
    · have hnine := not_last_of_more hv hmore
      have hbyte : ¬UInt8.ofNat (v % 128 + 128) < 0x80 := by
        rw [UInt8.lt_iff_toNat_lt, toNat_more]
        exact Nat.not_lt.mpr (Nat.le_add_left _ _)
      have hpow : 2 ^ (7 * (i + 1)) = 128 * 2 ^ (7 * i) := by
        rw [Nat.mul_add, Nat.pow_add]
        ring
      have hsplit : v * 2 ^ (7 * i) =
          v % 128 * 2 ^ (7 * i) + v / 128 * (128 * 2 ^ (7 * i)) := by
        conv_lhs => rw [← Nat.mod_add_div v 128]
        ring
      have hrest := ih (i + 1) (x + v % 128 * 2 ^ (7 * i)) (v / 128) (by omega)
        (by rw [hpow]; omega) (by unfold MAX_VARINT_LEN64 at hi; omega)
      rw [List.cons_append, uvarintFrom, if_neg hlt, if_neg hbyte, toNat_more,
        Nat.add_mod_right, Nat.mod_mod, hrest, hpow, List.length_cons]
      refine Prod.ext (by dsimp only; omega) ?_
      push_cast
      ring
    · have hv128 : (UInt8.ofNat v).toNat = v := by
        rw [UInt8.toNat_ofNat']
        omega
      have hbyte : UInt8.ofNat v < 0x80 := by
        rw [UInt8.lt_iff_toNat_lt, hv128]
        exact Nat.not_le.mp hmore
      have hend : ¬(i = MAX_VARINT_LEN64 - 1 ∧ UInt8.ofNat v > 1) := by
        rintro ⟨rfl, hone⟩
        rw [gt_iff_lt, UInt8.lt_iff_toNat_lt, hv128] at hone
        have htwo : 2 ≤ v := hone
        have hmul := Nat.mul_le_mul_right (2 ^ (7 * (MAX_VARINT_LEN64 - 1))) htwo
        have hnum : 2 * 2 ^ (7 * (MAX_VARINT_LEN64 - 1)) = 2 ^ 64 := by decide
        omega
      rw [List.singleton_append, uvarintFrom, if_neg hlt, if_pos hbyte, if_neg hend, hv128]
      rfl

theorem uvarint_put {v : ℕ} (hv : v < 2 ^ 64) (rest : List UInt8) :
    uvarint (putUvarint v ++ rest) = (v, ((putUvarint v).length : ℤ)) := by
  have h := uvarintFrom_put MAX_VARINT_LEN64 0 0 v rest rfl (by simpa using hv) (by decide)
  simp only [Nat.mul_zero, Nat.pow_zero, Nat.mul_one, Nat.zero_add] at h
  exact h

private theorem length_putUvarintIn_le (fuel v : ℕ) : (putUvarintIn fuel v).length ≤ fuel := by
  induction fuel generalizing v with
  | zero => exact le_rfl
  | succ fuel ih =>
    unfold putUvarintIn
    split_ifs
    · exact Nat.succ_le_succ (ih _)
    · exact Nat.succ_le_succ (Nat.zero_le _)

theorem length_putUvarint_le (v : ℕ) : (putUvarint v).length ≤ MAX_VARINT_LEN64 :=
  length_putUvarintIn_le _ v

theorem putUvarint_ne_nil (v : ℕ) : putUvarint v ≠ [] := by
  unfold putUvarint MAX_VARINT_LEN64 putUvarintIn
  split_ifs <;> exact List.cons_ne_nil _ _

private theorem length_putUvarintIn_le_of_lt {fuel v k : ℕ} (hk : 0 < k) (hv : v < 128 ^ k) :
    (putUvarintIn fuel v).length ≤ k := by
  induction fuel generalizing v k with
  | zero => exact Nat.zero_le k
  | succ fuel ih =>
    obtain ⟨k, rfl⟩ := Nat.exists_eq_succ_of_ne_zero (Nat.ne_of_gt hk)
    unfold putUvarintIn
    split_ifs with hmore
    · rw [Nat.pow_succ] at hv
      have hdiv : v / 128 < 128 ^ k := (Nat.div_lt_iff_lt_mul (by decide)).mpr hv
      have hpos : 0 < k := by
        apply Nat.pos_of_ne_zero
        intro hzero
        rw [hzero, Nat.pow_zero] at hdiv
        omega
      exact Nat.succ_le_succ (ih hpos hdiv)
    · exact Nat.succ_le_succ (Nat.zero_le k)

theorem uvarintFrom_used {src : List UInt8} {i x v : ℕ} {n : ℤ} (h : uvarintFrom i x src = (v, n))
    (hn : 0 < n) : ∃ y k, v = x + y * 128 ^ i ∧ y < 128 ^ k ∧ 0 < k ∧ n = ((i + k : ℕ) : ℤ) ∧
      k ≤ src.length := by
  induction src generalizing i x with
  | nil =>
    obtain ⟨-, rfl⟩ := Prod.mk.inj h
    exact absurd hn (Int.lt_irrefl 0)
  | cons b src ih =>
    have hpow : 2 ^ (7 * i) = 128 ^ i := Nat.pow_mul 2 7 i
    rw [uvarintFrom, hpow] at h
    split_ifs at h with hlast hend hover
    · obtain ⟨-, rfl⟩ := Prod.mk.inj h
      omega
    · obtain ⟨-, rfl⟩ := Prod.mk.inj h
      omega
    · obtain ⟨rfl, rfl⟩ := Prod.mk.inj h
      exact ⟨b.toNat, 1, rfl, UInt8.lt_iff_toNat_lt.mp hend, Nat.one_pos, rfl,
        Nat.succ_le_succ (Nat.zero_le _)⟩
    · obtain ⟨y, k, rfl, hy, hk, rfl, hlen⟩ := ih h
      refine ⟨b.toNat % 128 + y * 128, k + 1, ?_, ?_, Nat.succ_pos k, ?_, Nat.succ_le_succ hlen⟩
      · rw [Nat.pow_succ]
        ring
      · rw [Nat.pow_succ]
        omega
      · rw [Nat.add_assoc, Nat.add_comm 1 k]

theorem length_putUvarint_of_read {src : List UInt8} {v : ℕ} {n : ℤ} (h : uvarint src = (v, n))
    (hn : 0 < n) : (putUvarint v).length ≤ n.toNat ∧ n.toNat ≤ src.length := by
  obtain ⟨y, k, rfl, hy, hk, rfl, hlen⟩ := uvarintFrom_used h hn
  rw [Nat.zero_add, Nat.pow_zero, Nat.mul_one, Nat.zero_add, Int.toNat_natCast]
  exact ⟨length_putUvarintIn_le_of_lt hk hy, hlen⟩

end Kcptun.Lib.Varint
