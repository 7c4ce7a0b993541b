/- Kcptun/Lib/SortRange
   digest: Sorting inside a range of a list: what a change inside the range keeps, what holds of every
     element of a range, and how sorted ranges are put together. -/

import Mathlib.Data.List.Perm.Basic

set_option autoImplicit false
set_option relaxedAutoImplicit false

namespace Kcptun.Lib

variable {α : Type*}

def exchange (l : List α) (i j : ℕ) : List α :=
  match l[i]?, l[j]? with
  | some x, some y => (l.set i y).set j x
  | _, _ => l

private theorem exchange_eq {l : List α} {i j : ℕ} (hi : i < l.length) (hj : j < l.length) :
    exchange l i j = (l.set i l[j]).set j l[i] := by
  unfold exchange
  rw [List.getElem?_eq_getElem hi, List.getElem?_eq_getElem hj]

theorem getElem?_exchange {l : List α} {i j : ℕ} (hi : i < l.length) (hj : j < l.length) (k : ℕ) :
    (exchange l i j)[k]? = if k = j then l[i]? else if k = i then l[j]? else l[k]? := by
  rw [exchange_eq hi hj, List.getElem?_set, List.getElem?_set, List.length_set,
    List.getElem?_eq_getElem hi, List.getElem?_eq_getElem hj]
  by_cases hkj : k = j
  · rw [if_pos hkj.symm, if_pos hkj, if_pos hj]
  · rw [if_neg (Ne.symm hkj), if_neg hkj]
    by_cases hki : k = i
    · rw [if_pos hki.symm, if_pos hki, if_pos hi]
    · rw [if_neg (Ne.symm hki), if_neg hki]

theorem getElem?_exchange_left {l : List α} {i j : ℕ} (hi : i < l.length) (hj : j < l.length) :
    (exchange l i j)[i]? = l[j]? := by
  rw [getElem?_exchange hi hj]
  by_cases hij : i = j
  · rw [if_pos hij, hij]
  · rw [if_neg hij, if_pos rfl]

/-- The list `l'` is `l` with the elements from `lo` up to `hi` in some order. -/
structure Within (lo hi : ℕ) (l' l : List α) : Prop where
  perm : l'.Perm l
  out : ∀ k, k < lo ∨ hi ≤ k → l'[k]? = l[k]?

def AllIn (p : α → Prop) (l : List α) (lo hi : ℕ) : Prop :=
  ∀ k x, lo ≤ k → k < hi → l[k]? = some x → p x

def SortedIn (le : α → α → Prop) (l : List α) (lo hi : ℕ) : Prop :=
  ∀ i j x y, lo ≤ i → i < j → j < hi → l[i]? = some x → l[j]? = some y → le x y

/-- The elements from `lo` up to `mid` are not after those from `mid'` up to `hi`. -/
def BelowIn (le : α → α → Prop) (l : List α) (lo mid mid' hi : ℕ) : Prop :=
  AllIn (fun x => AllIn (fun y => le x y) l mid' hi) l lo mid

namespace Within

variable {lo hi : ℕ} {l l' l'' : List α}

theorem refl (lo hi : ℕ) (l : List α) : Within lo hi l l := ⟨List.Perm.refl l, fun _ _ => rfl⟩

theorem trans (h : Within lo hi l'' l') (h' : Within lo hi l' l) : Within lo hi l'' l :=
  ⟨h.perm.trans h'.perm, fun k hk => (h.out k hk).trans (h'.out k hk)⟩

theorem mono (h : Within lo hi l' l) {lo' hi' : ℕ} (hlo : lo' ≤ lo) (hhi : hi ≤ hi') :
    Within lo' hi' l' l :=
  ⟨h.perm, fun k hk => h.out k (by omega)⟩

theorem length_eq (h : Within lo hi l' l) : l'.length = l.length := h.perm.length_eq

theorem exchange {i j : ℕ} (hil : i < l.length) (hjl : j < l.length) (hir : lo ≤ i ∧ i < hi)
    (hjr : lo ≤ j ∧ j < hi) : Within lo hi (exchange l i j) l := by
  constructor
  · rw [exchange_eq hil hjl]
    exact List.set_set_perm hil hjl
  · intro k hk
    rw [getElem?_exchange hil hjl, if_neg (by omega), if_neg (by omega)]

theorem perm_range (h : Within lo hi l' l) : ((l'.take hi).drop lo).Perm ((l.take hi).drop lo) := by
  have hcut : ∀ m : List α, m = m.take (min lo hi) ++ ((m.take hi).drop lo ++ m.drop hi) := by
    intro m
    conv_lhs => rw [← List.take_append_drop hi m, ← List.take_append_drop lo (m.take hi)]
    rw [List.take_take, List.append_assoc]
  have hfront : l'.take (min lo hi) = l.take (min lo hi) := by
    apply List.ext_getElem?
    intro k
    rw [List.getElem?_take, List.getElem?_take]
    split_ifs with hk
    · exact h.out k (.inl (by omega))
    · rfl
  have hback : l'.drop hi = l.drop hi := by
    apply List.ext_getElem?
    intro k
    rw [List.getElem?_drop, List.getElem?_drop]
    exact h.out _ (.inr (by omega))
  have hperm := h.perm
  rw [hcut l', hcut l, hfront, hback] at hperm
  exact (List.perm_append_right_iff _).mp ((List.perm_append_left_iff _).mp hperm)

theorem allIn (h : Within lo hi l' l) {p : α → Prop} (hp : AllIn p l lo hi) : AllIn p l' lo hi := by
  intro k x hk hk' hx
  have hmem : x ∈ (l'.take hi).drop lo := by
    refine List.mem_iff_getElem?.mpr ⟨k - lo, ?_⟩
    rw [List.getElem?_drop, List.getElem?_take, if_pos (by omega), Nat.add_sub_cancel' hk]
    exact hx
  obtain ⟨i, hi'⟩ := List.mem_iff_getElem?.mp (h.perm_range.mem_iff.mp hmem)
  rw [List.getElem?_drop, List.getElem?_take] at hi'
  split_ifs at hi' with hlt
  exact hp (lo + i) x (by omega) hlt hi'

theorem allIn_of (h : Within lo hi l' l) {p : α → Prop} {a b : ℕ}
    (hrange : (a ≤ lo ∧ hi ≤ b) ∨ b ≤ lo ∨ hi ≤ a) (hp : AllIn p l a b) : AllIn p l' a b := by
  rcases hrange with ⟨ha, hb⟩ | hout
  · exact (h.mono ha hb).allIn hp
  · intro k x hk hk' hx
    rw [h.out k (by omega)] at hx
    exact hp k x hk hk' hx

theorem sortedIn_of (h : Within lo hi l' l) {le : α → α → Prop} {a b : ℕ}
    (hrange : b ≤ lo ∨ hi ≤ a) (hs : SortedIn le l a b) : SortedIn le l' a b := by
  intro i j x y ha hij hb hx hy
  rw [h.out i (by omega)] at hx
  rw [h.out j (by omega)] at hy
  exact hs i j x y ha hij hb hx hy

theorem belowIn_of (h : Within lo hi l' l) {le : α → α → Prop} {a b c d : ℕ}
    (hab : (a ≤ lo ∧ hi ≤ b) ∨ b ≤ lo ∨ hi ≤ a) (hcd : (c ≤ lo ∧ hi ≤ d) ∨ d ≤ lo ∨ hi ≤ c)
    (hb : BelowIn le l a b c d) : BelowIn le l' a b c d := by
  have hinner : AllIn (fun x => AllIn (fun y => le x y) l' c d) l a b := fun k x hk hk' hx =>
    h.allIn_of hcd (hb k x hk hk' hx)
  exact h.allIn_of hab hinner

end Within

section Ranges

variable {p q : α → Prop} {le : α → α → Prop} {l : List α} {lo mid hi : ℕ}

theorem AllIn.mono (h : AllIn p l lo hi) {lo' hi' : ℕ} (hlo : lo ≤ lo') (hhi : hi' ≤ hi) :
    AllIn p l lo' hi' := fun k x hk hk' hx => h k x (by omega) (by omega) hx

theorem AllIn.imp (h : AllIn p l lo hi) (himp : ∀ x, p x → q x) : AllIn q l lo hi :=
  fun k x hk hk' hx => himp x (h k x hk hk' hx)

theorem allIn_empty (h : hi ≤ lo) : AllIn p l lo hi := fun k x hk hk' _ => by omega

theorem AllIn.append (h : AllIn p l lo mid) (h' : AllIn p l mid hi) : AllIn p l lo hi := by
  intro k x hk hk' hx
  by_cases hlt : k < mid
  · exact h k x hk hlt hx
  · exact h' k x (by omega) hk' hx

theorem AllIn.snoc (h : AllIn p l lo hi) (hlast : ∀ x, l[hi]? = some x → p x) :
    AllIn p l lo (hi + 1) :=
  h.append fun k x hk hk' hx => hlast x (by rwa [show k = hi by omega] at hx)

theorem AllIn.cons (h : AllIn p l (lo + 1) hi) (hfirst : ∀ x, l[lo]? = some x → p x) :
    AllIn p l lo hi := by
  have hone : AllIn p l lo (lo + 1) := fun k x hk hk' hx =>
    hfirst x (by rwa [show k = lo by omega] at hx)
  exact hone.append h

theorem SortedIn.mono (h : SortedIn le l lo hi) {lo' hi' : ℕ} (hlo : lo ≤ lo') (hhi : hi' ≤ hi) :
    SortedIn le l lo' hi' := fun i j x y ha hij hb => h i j x y (by omega) hij (by omega)

theorem sortedIn_short (h : hi ≤ lo + 1) : SortedIn le l lo hi :=
  fun i j x y ha hij hb => by omega

theorem BelowIn.mono {mid' a b c d : ℕ} (h : BelowIn le l lo mid mid' hi) (ha : lo ≤ a)
    (hb : b ≤ mid) (hc : mid' ≤ c) (hd : d ≤ hi) : BelowIn le l a b c d :=
  (AllIn.mono h ha hb).imp fun _ hx => hx.mono hc hd

theorem SortedIn.append (h : SortedIn le l lo mid) (h' : SortedIn le l mid hi)
    (hbelow : BelowIn le l lo mid mid hi) : SortedIn le l lo hi := by
  intro i j x y ha hij hb hx hy
  by_cases hj : j < mid
  · exact h i j x y ha hij hj hx hy
  · by_cases hi' : i < mid
    · exact hbelow i x ha hi' hx j y (by omega) hb hy
    · exact h' i j x y (by omega) hij hb hx hy

theorem SortedIn.snoc (h : SortedIn le l lo hi)
    (hlast : ∀ y, l[hi]? = some y → AllIn (fun x => le x y) l lo hi) : SortedIn le l lo (hi + 1) := by
  refine h.append (sortedIn_short (by omega)) ?_
  intro k x hk hk' hx j y hj hj' hy
  obtain rfl : j = hi := by omega
  exact hlast y hy k x hk hk' hx

theorem sortedIn_iff_pairwise : SortedIn le l 0 l.length ↔ l.Pairwise le := by
  rw [List.pairwise_iff_getElem]
  constructor
  · intro h i j hi hj hij
    exact h i j _ _ (Nat.zero_le i) hij hj (List.getElem?_eq_getElem hi) (List.getElem?_eq_getElem hj)
  · intro h i j x y _ hij hj hx hy
    obtain ⟨hi', rfl⟩ := List.getElem?_eq_some_iff.mp hx
    obtain ⟨hj', rfl⟩ := List.getElem?_eq_some_iff.mp hy
    exact h i j hi' hj' hij

/-- Two sorted ranges with an element between them that none of the first is after, and that is after
none of the second. -/
theorem SortedIn.around {p : α} (h : SortedIn le l lo mid) (h' : SortedIn le l (mid + 1) hi)
    (hp : l[mid]? = some p) (htrans : ∀ x y z, le x y → le y z → le x z)
    (hleft : AllIn (fun x => le x p) l lo mid) (hright : AllIn (fun y => le p y) l (mid + 1) hi) :
    SortedIn le l lo hi := by
  intro i j x y ha hij hb hx hy
  by_cases hj : j < mid
  · exact h i j x y ha hij hj hx hy
  · by_cases hi' : mid < i
    · exact h' i j x y hi' hij hb hx hy
    · have hxp : i < mid → le x p := fun hlt => hleft i x ha hlt hx
      have hpy : mid < j → le p y := fun hlt => hright j y hlt hb hy
      by_cases him : i = mid
      · rw [him, hp] at hx
        obtain rfl := Option.some.inj hx
        exact hpy (by omega)
      · by_cases hjm : j = mid
        · rw [hjm, hp] at hy
          obtain rfl := Option.some.inj hy
          exact hxp (by omega)
        · exact htrans x p y (hxp (by omega)) (hpy (by omega))

variable (hrefl : ∀ x, le x x) (htrans : ∀ x y z, le x y → le y z → le x z)
include hrefl

private theorem SortedIn.le_last (h : SortedIn le l lo (hi + 1)) {y : α} (hy : l[hi]? = some y) :
    AllIn (fun x => le x y) l lo (hi + 1) := by
  intro k x hk hk' hx
  by_cases hlt : k < hi
  · exact h k hi x y hk hlt (Nat.lt_succ_self hi) hx hy
  · obtain rfl : k = hi := by omega
    rw [hx] at hy
    obtain rfl := Option.some.inj hy
    exact hrefl x

/-- An element that is before the last one of a sorted range has changed places with it and has been
put into the rest. -/
theorem SortedIn.insert {l' : List α} {j : ℕ} {x y : α} (h : SortedIn le l lo (j + 1))
    (hj : j + 1 < l.length) (hy : l[j]? = some y) (hx : l[j + 1]? = some x) (hle : le x y)
    (hw : Within lo (j + 1) l' (exchange l (j + 1) j)) (hs : SortedIn le l' lo (j + 1)) :
    SortedIn le l' lo (j + 1 + 1) := by
  have hlast : l'[j + 1]? = some y := by
    rw [hw.out (j + 1) (.inr (Nat.le_refl _)), getElem?_exchange hj (by omega), if_neg (by omega),
      if_pos rfl, hy]
  have hall : AllIn (fun z => le z y) (exchange l (j + 1) j) lo (j + 1) := by
    intro k z hk hk' hz
    rw [getElem?_exchange hj (by omega)] at hz
    by_cases hkj : k = j
    · rw [if_pos hkj, hx] at hz
      obtain rfl := Option.some.inj hz
      exact hle
    · rw [if_neg hkj, if_neg (by omega)] at hz
      exact h.le_last hrefl hy k z hk hk' hz
  apply hs.snoc
  intro z hz
  rw [hlast] at hz
  obtain rfl := Option.some.inj hz
  exact hw.allIn hall

include htrans

theorem SortedIn.extend {j : ℕ} {x y : α} (h : SortedIn le l lo (j + 1)) (hy : l[j]? = some y)
    (hx : l[j + 1]? = some x) (hle : le y x) : SortedIn le l lo (j + 1 + 1) := by
  refine h.snoc fun z hz => (h.le_last hrefl hy).imp ?_
  intro w hw
  rw [hx] at hz
  obtain rfl := Option.some.inj hz
  exact htrans w y x hw hle

end Ranges

end Kcptun.Lib
