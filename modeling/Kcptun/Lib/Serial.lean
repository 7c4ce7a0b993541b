/- Kcptun/Lib/Serial
   digest: Signed distance of two wrapping 32-bit numbers, reduced to linear integer arithmetic, and
     runs of consecutive numbers. -/

import Mathlib.Tactic.Ring
import Mathlib.Data.UInt

set_option autoImplicit false
set_option relaxedAutoImplicit false

namespace Kcptun.Lib.Serial

/-- The wrapping difference of two 32-bit numbers, read as a signed 32-bit number. -/
def diff (later earlier : UInt32) : Int := (later - earlier).toInt32.toInt

theorem diff_eq (a b : UInt32) :
    diff a b = ((a.toNat : Int) - b.toNat + 2147483648) % 4294967296 - 2147483648 := by
  have ha := a.toNat_lt
  have hb := b.toNat_lt
  have hdiff : diff a b = ((a - b).toBitVec).toInt := rfl
  have hsub : (a - b).toBitVec.toNat = (4294967296 - b.toNat + a.toNat) % 4294967296 := by
    simp
  rw [hdiff, BitVec.toInt_eq_toNat_cond, hsub]
  split <;> omega

theorem diff_lt_zero (a b : UInt32) : diff a b < 0 ↔ 2147483648 ≤ (a - b).toNat := by
  have ha := a.toNat_lt
  have hb := b.toNat_lt
  rw [diff_eq, UInt32.toNat_sub]
  omega

@[simp] theorem diff_self (a : UInt32) : diff a a = 0 := by
  rw [diff_eq]
  omega

def Stands (w : UInt32) (t : Int) : Prop := ((w.toNat : Int) - t) % 4294967296 = 0

theorem stands_ofNat (t : ℕ) : Stands (UInt32.ofNat t) t := by
  rw [Stands, UInt32.toNat_ofNat']
  omega

theorem diff_of_stands {a b : UInt32} {x y : Int} (ha : Stands a x) (hb : Stands b y)
    (hlo : -2147483648 ≤ x - y) (hhi : x - y < 2147483648) : diff a b = x - y := by
  unfold Stands at ha hb
  rw [diff_eq]
  omega

theorem stands_add_diff {a b : UInt32} {y : Int} (hb : Stands b y) : Stands a (y + diff a b) := by
  unfold Stands at hb ⊢
  rw [diff_eq]
  omega

/-- The numbers are `first`, `first + 1`, and so on, wrapping. -/
def Consecutive : UInt32 → List UInt32 → Prop
  | _, [] => True
  | first, n :: rest => n = first ∧ Consecutive (first + 1) rest

theorem Consecutive.drop {first : UInt32} {ns : List UInt32} (h : Consecutive first ns) (n : ℕ)
    (hn : n ≤ ns.length) : Consecutive (first + UInt32.ofNat n) (ns.drop n) := by
  induction n generalizing first ns with
  | zero => simpa using h
  | succ n ih =>
    cases ns with
    | nil => simp at hn
    | cons m rest =>
      have hrec := ih h.2 (by simpa using hn)
      rw [List.drop_succ_cons]
      have hsum : first + UInt32.ofNat (n + 1) = first + 1 + UInt32.ofNat n := by
        rw [UInt32.ofNat_add, UInt32.add_assoc, UInt32.add_comm (UInt32.ofNat n)]
        rfl
      rwa [hsum]

theorem Consecutive.append {first : UInt32} {ns : List UInt32} (h : Consecutive first ns) :
    Consecutive first (ns ++ [first + UInt32.ofNat ns.length]) := by
  induction ns generalizing first with
  | nil => simp [Consecutive]
  | cons n rest ih =>
    refine ⟨h.1, ?_⟩
    have hsum : first + UInt32.ofNat (n :: rest).length = first + 1 + UInt32.ofNat rest.length := by
      rw [List.length_cons, UInt32.ofNat_add, UInt32.add_assoc,
        UInt32.add_comm (UInt32.ofNat rest.length)]
      rfl
    rw [hsum]
    exact ih h.2

theorem Consecutive.getElem {first : UInt32} {ns : List UInt32} (h : Consecutive first ns) {i : ℕ}
    {n : UInt32} (hi : ns[i]? = some n) : n = first + UInt32.ofNat i := by
  obtain ⟨hlt, hget⟩ := List.getElem?_eq_some_iff.mp hi
  have hd := h.drop i (by omega)
  rw [List.drop_eq_getElem_cons hlt, hget] at hd
  exact hd.1

theorem Consecutive.nodup {first : UInt32} {ns : List UInt32} (h : Consecutive first ns)
    (hlen : ns.length ≤ 4294967296) : ns.Nodup := by
  rw [List.nodup_iff_injective_getElem]
  intro i j hij
  have hi := h.getElem (List.getElem?_eq_getElem i.isLt)
  have hj := h.getElem (List.getElem?_eq_getElem j.isLt)
  have heq : UInt32.ofNat i = UInt32.ofNat j := by
    have hsum : first + UInt32.ofNat i = first + UInt32.ofNat j := by
      rw [← hi, ← hj]
      exact hij
    grind
  have hnat := congrArg UInt32.toNat heq
  rw [UInt32.toNat_ofNat', UInt32.toNat_ofNat'] at hnat
  apply Fin.ext
  omega

end Kcptun.Lib.Serial
