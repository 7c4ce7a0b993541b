/- Kcptun/Lib/RangeUpdate
   digest: Elementwise updates of a range of a list: adjacent ranges join, and updates of the same
     range compose. -/

import Mathlib.Data.List.Basic

set_option autoImplicit false
set_option relaxedAutoImplicit false

namespace Kcptun.Lib

variable {α β ε : Type*}

/-- `xs` with the elements at `start..stop` replaced; the new value sees the index and the old one. -/
def onRange (start stop : ℕ) (f : ℕ → α → α) (xs : List α) : List α :=
  xs.mapIdx fun i x => if start ≤ i ∧ i < stop then f i x else x

variable {f g : ℕ → α → α} {xs ys : List α} {a b c start stop : ℕ}

@[simp] theorem length_onRange : (onRange start stop f xs).length = xs.length :=
  List.length_mapIdx

private theorem getElem?_onRange (i : ℕ) : (onRange start stop f xs)[i]? =
    (xs[i]?).map fun x => if start ≤ i ∧ i < stop then f i x else x :=
  List.getElem?_mapIdx

theorem getElem?_onRange_of_not {i : ℕ} (hi : ¬(start ≤ i ∧ i < stop)) :
    (onRange start stop f xs)[i]? = xs[i]? := by
  rw [getElem?_onRange]
  simp only [if_neg hi, Option.map_id']

theorem eq_onRange (hlen : ys.length = xs.length)
    (hys : ∀ i x, xs[i]? = some x → ys[i]? = some (if start ≤ i ∧ i < stop then f i x else x)) :
    ys = onRange start stop f xs := by
  apply List.ext_getElem?
  intro i
  rw [getElem?_onRange]
  cases hx : xs[i]? with
  | some x => exact hys i x hx
  | none =>
    rw [List.getElem?_eq_none_iff] at hx
    exact List.getElem?_eq_none_iff.mpr (hlen ▸ hx)

theorem replace_eq_onRange {pos n : ℕ} {mid : List α} (hmid : mid.length = n)
    (hfit : pos + n ≤ xs.length)
    (hf : ∀ j x, j < n → xs[pos + j]? = some x → mid[j]? = some (f (pos + j) x)) :
    xs.take pos ++ mid ++ xs.drop (pos + n) = onRange pos (pos + n) f xs := by
  refine eq_onRange ?_ ?_
  · rw [List.length_append, List.length_append, List.length_take, List.length_drop]
    omega
  · intro i x hx
    have hmin : min pos xs.length = pos := by omega
    simp only [List.getElem?_append, List.length_append, List.length_take, hmid,
      List.getElem?_take, List.getElem?_drop, hmin]
    by_cases hfront : i < pos
    · rw [if_pos (by omega), if_pos hfront, if_pos hfront, if_neg (by omega)]
      exact hx
    · by_cases hin : i < pos + n
      · obtain ⟨j, rfl⟩ : ∃ j, i = pos + j := ⟨i - pos, by omega⟩
        rw [if_pos hin, if_neg hfront, if_pos (by omega), Nat.add_sub_cancel_left]
        exact hf j x (by omega) hx
      · have hadd : pos + n + (i - (pos + n)) = i := by omega
        rw [if_neg hin, if_neg (by omega), hadd]
        exact hx

theorem onRange_empty : onRange a a f xs = xs := by
  refine (eq_onRange rfl ?_).symm
  intro i x hx
  rw [hx, if_neg (by omega)]

theorem onRange_onRange (hab : a ≤ b) (hbc : b ≤ c) :
    onRange b c f (onRange a b f xs) = onRange a c f xs := by
  refine eq_onRange (by simp) ?_
  intro i x hx
  rw [getElem?_onRange, getElem?_onRange, hx]
  simp only [Option.map_some]
  congr 1
  split_ifs <;> first | rfl | omega

theorem onRange_comp :
    onRange a b g (onRange a b f xs) = onRange a b (fun i x => g i (f i x)) xs := by
  refine eq_onRange (by simp) ?_
  intro i x hx
  rw [getElem?_onRange, getElem?_onRange, hx]
  simp only [Option.map_some]
  congr 1
  split_ifs <;> rfl

theorem onRange_congr (h : ∀ i x, xs[i]? = some x → a ≤ i → i < b → f i x = g i x) :
    onRange a b f xs = onRange a b g xs := by
  refine eq_onRange (by simp) ?_
  intro i x hx
  rw [getElem?_onRange, hx]
  simp only [Option.map_some]
  congr 1
  split_ifs with hi
  · exact h i x hx hi.1 hi.2
  · rfl

theorem mapM_ok {f : α → Except ε β} {g : α → β} (h : ∀ x ∈ xs, f x = .ok (g x)) :
    xs.mapM f = .ok (xs.map g) := by
  induction xs with
  | nil => rfl
  | cons x xs ih =>
    rw [List.forall_mem_cons] at h
    rw [List.mapM_cons, h.1, ih h.2]
    rfl

theorem zip_mapM_ok {γ δ : Type*} {f : α × δ → Except ε β} {h : γ → δ} {g : γ → α → β}
    {zs : List γ} (hf : ∀ z ∈ zs, ∀ x ∈ xs, f (x, h z) = .ok (g z x)) :
    (xs.zip (zs.map h)).mapM f = .ok (List.zipWith g zs xs) := by
  induction xs generalizing zs with
  | nil =>
    rw [List.zip_nil_left, List.zipWith_nil_right]
    rfl
  | cons x xs ih =>
    cases zs with
    | nil => rfl
    | cons z zs =>
      have hrest := ih fun z' hz' x' hx' =>
        hf z' (List.mem_cons_of_mem z hz') x' (List.mem_cons_of_mem x hx')
      rw [List.map_cons, List.zip_cons_cons, List.mapM_cons,
        hf z List.mem_cons_self x List.mem_cons_self, hrest]
      rfl

end Kcptun.Lib
