/- Kcptun/Lib/XorLinear
   digest: Maps between words that distribute over exclusive or; they are known from the words with
     one bit set. -/

import Mathlib.Data.Nat.Basic
import Mathlib.Tactic.Ring

set_option autoImplicit false
set_option relaxedAutoImplicit false

namespace Kcptun.Lib

variable {w v u : ℕ}

def XorLinear (f : BitVec w → BitVec v) : Prop := ∀ x y, f (x ^^^ y) = f x ^^^ f y

namespace XorLinear

variable {f g : BitVec w → BitVec v}

private theorem map_zero (hf : XorLinear f) : f 0 = 0 := by
  have h := hf 0 0
  rwa [BitVec.xor_self, BitVec.xor_self] at h

protected theorem id : XorLinear (fun x : BitVec w => x) := fun _ _ => rfl

theorem comp {h : BitVec v → BitVec u} (hh : XorLinear h) (hf : XorLinear f) :
    XorLinear fun x => h (f x) := fun x y => (congrArg h (hf x y)).trans (hh _ _)

theorem xor (hf : XorLinear f) (hg : XorLinear g) : XorLinear fun x => f x ^^^ g x := by
  intro x y
  change f (x ^^^ y) ^^^ g (x ^^^ y) = f x ^^^ g x ^^^ (f y ^^^ g y)
  rw [hf, hg]
  ac_rfl

theorem and (mask : BitVec v) (hf : XorLinear f) : XorLinear fun x => f x &&& mask := by
  intro x y
  ext i
  simp [hf x y, Bool.and_xor_distrib_right]

theorem shiftLeft (k : ℕ) (hf : XorLinear f) : XorLinear fun x => f x <<< k := by
  intro x y
  change f (x ^^^ y) <<< k = f x <<< k ^^^ f y <<< k
  rw [hf, BitVec.shiftLeft_xor_distrib]

theorem shiftRight (k : ℕ) (hf : XorLinear f) : XorLinear fun x => f x >>> k := by
  intro x y
  change f (x ^^^ y) >>> k = f x >>> k ^^^ f y >>> k
  rw [hf, BitVec.ushiftRight_xor_distrib]

theorem low_succ (x : BitVec w) (k : ℕ) :
    (x.setWidth (k + 1)).setWidth w =
      (x.setWidth k).setWidth w ^^^ if x.getLsbD k then BitVec.twoPow w k else 0 := by
  ext i hi
  rw [BitVec.getElem_xor]
  split_ifs with hk
  · simp only [BitVec.getElem_setWidth, BitVec.getLsbD_setWidth, BitVec.getElem_twoPow]
    rcases lt_trichotomy i k with hlt | rfl | hgt
    · simp [hlt, Nat.lt_succ_of_lt hlt, hlt.ne]
    · simp [hk]
    · simp [hgt.ne', not_lt.mpr hgt.le, not_lt.mpr (Nat.succ_le_of_lt hgt)]
  · simp only [BitVec.getElem_setWidth, BitVec.getLsbD_setWidth]
    rcases lt_trichotomy i k with hlt | rfl | hgt
    · simp [hlt, Nat.lt_succ_of_lt hlt]
    · simp [hk]
    · simp [not_lt.mpr hgt.le, not_lt.mpr (Nat.succ_le_of_lt hgt)]

theorem ext_twoPow (hf : XorLinear f) (hg : XorLinear g)
    (h : ∀ k : Fin w, f (BitVec.twoPow w k) = g (BitVec.twoPow w k)) (x : BitVec w) :
    f x = g x := by
  have hlow (k : ℕ) (hk : k ≤ w) :
      f ((x.setWidth k).setWidth w) = g ((x.setWidth k).setWidth w) := by
    induction k with
    | zero =>
      have hzero : (x.setWidth 0).setWidth w = 0 := by simp [BitVec.eq_nil (x.setWidth 0)]
      rw [hzero, hf.map_zero, hg.map_zero]
    | succ k ih =>
      rw [low_succ, hf, hg, ih (by omega)]
      split_ifs
      · rw [h ⟨k, hk⟩]
      · rw [hf.map_zero, hg.map_zero]
  simpa using hlow w le_rfl

theorem involutive {f : BitVec w → BitVec w} (hf : XorLinear f)
    (h : ∀ k : Fin w, f (f (BitVec.twoPow w k)) = BitVec.twoPow w k) : Function.Involutive f :=
  (hf.comp hf).ext_twoPow .id h

end XorLinear

end Kcptun.Lib
