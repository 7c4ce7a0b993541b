/- Kcptun/Lib/HeapRange
   digest: A binary heap with its greatest element on top in a range of a list, with one place of it
     out of order, and what moving that place down does. -/

import Kcptun.Lib.SortRange

set_option autoImplicit false
set_option relaxedAutoImplicit false

namespace Kcptun.Lib

variable {α : Type*}

def ChildOf (k c : ℕ) : Prop := c = 2 * k + 1 ∨ c = 2 * k + 2

/-- Among the `hi` places from `first` on, no child of a place from `lo` on is after its parent. -/
def HeapIn (le : α → α → Prop) (l : List α) (first lo hi : ℕ) : Prop :=
  ∀ k c x y, lo ≤ k → ChildOf k c → c < hi → l[first + k]? = some x → l[first + c]? = some y → le y x

/-- The same but for the children of `root`, which are not after the parent of `root`. -/
structure HeapBut (le : α → α → Prop) (l : List α) (first lo hi root : ℕ) : Prop where
  off : ∀ k c x y, lo ≤ k → k ≠ root → ChildOf k c → c < hi → l[first + k]? = some x →
    l[first + c]? = some y → le y x
  grand : ∀ g c x y, lo ≤ g → ChildOf g root → ChildOf root c → c < hi → l[first + g]? = some x →
    l[first + c]? = some y → le y x

variable {le : α → α → Prop} {l : List α} {first lo hi root : ℕ}

theorem HeapIn.but (h : HeapIn le l first (lo + 1) hi) : HeapBut le l first lo hi lo := by
  refine ⟨fun k c x y hk hne => h k c x y (by omega), ?_⟩
  intro g c x y hg hroot
  unfold ChildOf at hroot
  omega

theorem HeapBut.done (h : HeapBut le l first lo hi root)
    (hroot : ∀ c x y, ChildOf root c → c < hi → l[first + root]? = some x → l[first + c]? = some y →
      le y x) : HeapIn le l first lo hi := by
  intro k c x y hk hc hlt hx hy
  by_cases hne : k = root
  · rw [hne] at hc hx
    exact hroot c x y hc hlt hx hy
  · exact h.off k c x y hk hne hc hlt hx hy

theorem HeapBut.sink (h : HeapBut le l first lo hi root) {c : ℕ} {x y : α}
    (hc : ChildOf root c) (hlt : c < hi) (hfit : first + hi ≤ l.length)
    (hx : l[first + root]? = some x) (hy : l[first + c]? = some y) (hle : le x y)
    (hother : ∀ d z, ChildOf root d → d < hi → l[first + d]? = some z → le z y) :
    HeapBut le (exchange l (first + root) (first + c)) first lo hi c := by
  have hgt : root < c := by
    unfold ChildOf at hc
    omega
  have hget := getElem?_exchange (l := l) (i := first + root) (j := first + c) (by omega) (by omega)
  have hself : ∀ d, d ≠ c → d ≠ root →
      (exchange l (first + root) (first + c))[first + d]? = l[first + d]? := by
    intro d hdc hdr
    rw [hget, if_neg (by omega), if_neg (by omega)]
  have hup : (exchange l (first + root) (first + c))[first + root]? = some y := by
    rw [hget, if_neg (by omega), if_pos rfl, hy]
  have hdown : (exchange l (first + root) (first + c))[first + c]? = some x := by
    rw [hget, if_pos rfl, hx]
  constructor
  · intro k d u v hk hkc hd hdlt hu hv
    by_cases hkr : k = root
    · rw [hkr] at hd hu
      rw [hup] at hu
      obtain rfl := Option.some.inj hu
      by_cases hdc : d = c
      · rw [hdc, hdown] at hv
        obtain rfl := Option.some.inj hv
        exact hle
      · have hdr : d ≠ root := by
          unfold ChildOf at hd
          omega
        rw [hself d hdc hdr] at hv
        exact hother d v hd hdlt hv
    · rw [hself k hkc hkr] at hu
      by_cases hdr : d = root
      · rw [hdr] at hd hv
        rw [hup] at hv
        obtain rfl := Option.some.inj hv
        exact h.grand k c u y hk hd hc hlt hu hy
      · have hdc : d ≠ c := by
          unfold ChildOf at hc hd
          omega
        rw [hself d hdc hdr] at hv
        exact h.off k d u v hk hkr hd hdlt hu hv
  · intro g d u v hg hgc hd hdlt hu hv
    have hgr : g = root := by
      unfold ChildOf at hc hgc
      omega
    rw [hgr, hup] at hu
    obtain rfl := Option.some.inj hu
    have hdc : d ≠ c ∧ d ≠ root := by
      unfold ChildOf at hd
      omega
    rw [hself d hdc.1 hdc.2] at hv
    exact h.off c d y v (by omega) (by omega) hd hdlt hy hv

theorem HeapIn.le_top (h : HeapIn le l first 0 hi) (hrefl : ∀ x, le x x)
    (htrans : ∀ x y z, le x y → le y z → le x z) (hfit : first + hi ≤ l.length) {top : α}
    (htop : l[first]? = some top) : AllIn (fun x => le x top) l first (first + hi) := by
  have hplace : ∀ k, k < hi → ∀ x, l[first + k]? = some x → le x top := by
    intro k
    induction k using Nat.strongRecOn with
    | ind k ih =>
      intro hk x hx
      by_cases hzero : k = 0
      · rw [hzero, Nat.add_zero, htop] at hx
        obtain rfl := Option.some.inj hx
        exact hrefl top
      · have hparent : ChildOf ((k - 1) / 2) k := by
          unfold ChildOf
          omega
        have hlt : first + (k - 1) / 2 < l.length := by omega
        have hp := List.getElem?_eq_getElem hlt
        exact htrans _ _ _ (h _ k _ x (Nat.zero_le _) hparent hk hp hx)
          (ih ((k - 1) / 2) (by omega) (by omega) _ hp)
  intro k x hk hk' hx
  exact hplace (k - first) (by omega) x (by rwa [Nat.add_sub_cancel' hk])

end Kcptun.Lib
