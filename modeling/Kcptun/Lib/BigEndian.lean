/- Kcptun/Lib/BigEndian
   digest: Numbers as byte strings with the most significant byte first, and their round trips. -/

import Kcptun.Lib.LittleEndian

set_option autoImplicit false
set_option relaxedAutoImplicit false

namespace Kcptun.Lib.BigEndian

open Kcptun.Lib.LittleEndian (Bytes)

def toBe : ℕ → ℕ → Bytes
  | 0, _ => []
  | n + 1, x => UInt8.ofNat (x / 256 ^ n) :: toBe n x

def ofBe (bytes : Bytes) : ℕ := bytes.foldl (fun acc b => acc * 256 + b.toNat) 0

@[simp] theorem length_toBe (n x : ℕ) : (toBe n x).length = n := by
  induction n with
  | zero => rfl
  | succ n ih => rw [toBe, List.length_cons, ih]

private theorem foldl_be (bytes : Bytes) (acc : ℕ) :
    bytes.foldl (fun acc b => acc * 256 + b.toNat) acc =
      acc * 256 ^ bytes.length + ofBe bytes := by
  induction bytes generalizing acc with
  | nil => simp [ofBe]
  | cons b bytes ih =>
    have hzero : ofBe (b :: bytes) = (0 * 256 + b.toNat) * 256 ^ bytes.length + ofBe bytes :=
      ih (0 * 256 + b.toNat)
    rw [List.foldl_cons, ih, hzero, List.length_cons, pow_succ]
    ring

@[simp] theorem ofBe_nil : ofBe [] = 0 := rfl

private theorem ofBe_cons (b : UInt8) (bytes : Bytes) :
    ofBe (b :: bytes) = b.toNat * 256 ^ bytes.length + ofBe bytes := by
  have h : ofBe (b :: bytes) = _ := foldl_be bytes (0 * 256 + b.toNat)
  rwa [Nat.zero_mul, Nat.zero_add] at h

theorem ofBe_lt (bytes : Bytes) : ofBe bytes < 256 ^ bytes.length := by
  induction bytes with
  | nil => exact Nat.one_pos
  | cons b bytes ih =>
    have hb : b.toNat + 1 ≤ 256 := b.toNat_lt
    have hmul := Nat.mul_le_mul_right (256 ^ bytes.length) hb
    rw [ofBe_cons, List.length_cons, pow_succ']
    rw [Nat.add_mul, Nat.one_mul] at hmul
    omega

theorem toBe_add_mul (n x k : ℕ) : toBe n (x + k * 256 ^ n) = toBe n x := by
  induction n generalizing k with
  | zero => rfl
  | succ n ih =>
    have hpow : k * 256 ^ (n + 1) = k * 256 * 256 ^ n := by rw [pow_succ']; ring
    have hhigh : UInt8.ofNat (x / 256 ^ n + k * 256) = UInt8.ofNat (x / 256 ^ n) := by
      apply UInt8.toNat_inj.mp
      rw [UInt8.toNat_ofNat', UInt8.toNat_ofNat']
      omega
    rw [toBe, toBe, hpow, ih, Nat.add_mul_div_right _ _ (Nat.pow_pos (by decide)), hhigh]

theorem toBe_ofBe (bytes : Bytes) : toBe bytes.length (ofBe bytes) = bytes := by
  induction bytes with
  | nil => rfl
  | cons b bytes ih =>
    have hdiv : (b.toNat * 256 ^ bytes.length + ofBe bytes) / 256 ^ bytes.length = b.toNat := by
      rw [Nat.add_comm, Nat.add_mul_div_right _ _ (Nat.pow_pos (by decide)),
        Nat.div_eq_of_lt (ofBe_lt bytes), Nat.zero_add]
    rw [ofBe_cons, List.length_cons, toBe, hdiv, UInt8.ofNat_toNat, Nat.add_comm, toBe_add_mul, ih]

theorem ofBe_toBe {n x : ℕ} (h : x < 256 ^ n) : ofBe (toBe n x) = x := by
  induction n generalizing x with
  | zero =>
    have hx : x = 0 := by simpa using h
    rw [hx]
    rfl
  | succ n ih =>
    have hsplit := Nat.mod_add_div x (256 ^ n)
    have hhigh : x / 256 ^ n < 256 := Nat.div_lt_of_lt_mul (by rwa [pow_succ] at h)
    have hlow : toBe n x = toBe n (x % 256 ^ n) := by
      conv_lhs => rw [← hsplit, Nat.mul_comm]
      exact toBe_add_mul n _ _
    rw [toBe, ofBe_cons, length_toBe, UInt8.toNat_ofNat', Nat.mod_eq_of_lt hhigh, hlow,
      ih (Nat.mod_lt _ (Nat.pow_pos (by decide))), Nat.mul_comm]
    omega

open Kcptun.Lib.LittleEndian (le16 le32 ofLe16 ofLe32 ofLe16_le16 ofLe32_le32)

/-- `u16::to_be_bytes`. -/
def be16 (w : UInt16) : Bytes := (le16 w).reverse

/-- `u32::to_be_bytes`. -/
def be32 (l : UInt32) : Bytes := (le32 l).reverse

/-- `u16::from_be_bytes`. -/
def ofBe16 (a b : UInt8) : UInt16 := ofLe16 b a

/-- `u32::from_be_bytes`. -/
def ofBe32 (a b c d : UInt8) : UInt32 := ofLe32 d c b a

@[simp] theorem length_be16 (w : UInt16) : (be16 w).length = 2 := rfl

@[simp] theorem length_be32 (l : UInt32) : (be32 l).length = 4 := rfl

theorem exists_be16 (w : UInt16) :
    ∃ a b : UInt8, be16 w = [a, b] ∧ ofBe16 a b = w ∧ a.toNat * 256 + b.toNat = w.toNat := by
  refine ⟨UInt8.ofNat (w.toNat / 256), UInt8.ofNat w.toNat, rfl, ofLe16_le16 w, ?_⟩
  have hw := w.toNat_lt
  rw [UInt8.toNat_ofNat', UInt8.toNat_ofNat']
  omega

theorem exists_be32 (l : UInt32) :
    ∃ a b c d : UInt8, be32 l = [a, b, c, d] ∧ ofBe32 a b c d = l :=
  ⟨_, _, _, _, rfl, ofLe32_le32 l⟩

end Kcptun.Lib.BigEndian
