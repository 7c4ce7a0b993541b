/- Kcptun/Lib/BinaryHeap
   digest: Array min-heaps for a comparison that is an order on the stored values only. -/

import Mathlib.Data.List.Perm.Basic
import Mathlib.Tactic.Ring

set_option autoImplicit false
set_option relaxedAutoImplicit false

namespace Kcptun.Lib.BinaryHeap

variable {α : Type}

/-- `less xs[i] xs[j]`, false when an index is out of range. -/
def lessAt (less : α → α → Bool) (xs : Array α) (i j : ℕ) : Bool :=
  if hi : i < xs.size then if hj : j < xs.size then less xs[i] xs[j] else false else false

/-- Moves the element at `j` towards the root until its parent is not after it. -/
def up (less : α → α → Bool) : ℕ → Array α → ℕ → Array α
  | 0, xs, _ => xs
  | fuel + 1, xs, j =>
    if j > 0 then
      let i := (j - 1) / 2
      if !lessAt less xs j i then xs else up less fuel (xs.swapIfInBounds i j) i
    else xs

def down (less : α → α → Bool) : ℕ → Array α → ℕ → ℕ → Array α
  | 0, xs, _, _ => xs
  | fuel + 1, xs, i, n =>
    let j1 := 2 * i + 1
    if j1 ≥ n then xs else
      let j2 := j1 + 1
      let j := if j2 < n && lessAt less xs j2 j1 then j2 else j1
      if !lessAt less xs j i then xs else down less fuel (xs.swapIfInBounds i j) j n

def push (less : α → α → Bool) (xs : Array α) (x : α) : Array α :=
  up less xs.size (xs.push x) xs.size

def rootLast (less : α → α → Bool) (xs : Array α) : Array α :=
  let n := xs.size - 1
  down less n (xs.swapIfInBounds 0 n) 0 n

def pop (less : α → α → Bool) (xs : Array α) : Option (α × Array α) :=
  (rootLast less xs).back?.map (fun x => (x, (rootLast less xs).pop))

/-- The comparison is asymmetric and its complement transitive among the values of `P`.
A wrapping comparison is an order only there. -/
structure OrderOn (less : α → α → Bool) (P : α → Prop) : Prop where
  asymm : ∀ a b, P a → P b → less a b = true → less b a = false
  negTrans : ∀ a b c, P a → P b → P c → less a b = false → less b c = false → less a c = false

def Ordered (less : α → α → Bool) (xs : Array α) (n : ℕ) : Prop :=
  ∀ j, 0 < j → j < n → lessAt less xs j ((j - 1) / 2) = false

private theorem swapIfInBounds_perm (xs : Array α) (i j : ℕ) : (xs.swapIfInBounds i j).Perm xs := by
  rw [Array.swapIfInBounds_def]
  split_ifs
  · exact Array.swap_perm _ _
  · exact .refl xs
  · exact .refl xs

private theorem up_perm (less : α → α → Bool) (fuel : ℕ) (xs : Array α) (j : ℕ) :
    (up less fuel xs j).Perm xs := by
  induction fuel generalizing xs j with
  | zero => exact .refl xs
  | succ fuel ih =>
    simp only [up]
    split_ifs
    · exact .refl xs
    · exact (ih _ _).trans (swapIfInBounds_perm xs _ _)
    · exact .refl xs

private theorem down_perm (less : α → α → Bool) (fuel : ℕ) (xs : Array α) (i n : ℕ) :
    (down less fuel xs i n).Perm xs := by
  induction fuel generalizing xs i with
  | zero => exact .refl xs
  | succ fuel ih =>
    simp only [down]
    generalize (if (2 * i + 1 + 1 < n && lessAt less xs (2 * i + 1 + 1) (2 * i + 1)) = true
      then 2 * i + 1 + 1 else 2 * i + 1) = j
    split_ifs
    · exact .refl xs
    · exact .refl xs
    · exact (ih _ _).trans (swapIfInBounds_perm xs _ _)

theorem push_perm (less : α → α → Bool) (xs : Array α) (x : α) :
    (push less xs x).Perm (xs.push x) := up_perm less _ _ _

@[simp] theorem size_push (less : α → α → Bool) (xs : Array α) (x : α) :
    (push less xs x).size = xs.size + 1 := by
  simpa using (push_perm less xs x).size_eq

private theorem lessAt_swap (less : α → α → Bool) (xs : Array α) {i j : ℕ} (hi : i < xs.size)
    (hj : j < xs.size) (a b : ℕ) :
    lessAt less (xs.swapIfInBounds i j) a b =
      lessAt less xs (if a = i then j else if a = j then i else a)
        (if b = i then j else if b = j then i else b) := by
  unfold lessAt
  grind

section Order

variable {less : α → α → Bool} {P : α → Prop} {xs : Array α}

private theorem OrderOn.lessAt_asymm (ho : OrderOn less P) (hP : ∀ x ∈ xs, P x) {a b : ℕ}
    (ha : a < xs.size) (hb : b < xs.size) (h : lessAt less xs a b = true) :
    lessAt less xs b a = false := by
  simp only [lessAt, ha, hb, dif_pos] at h ⊢
  exact ho.asymm _ _ (hP _ (Array.getElem_mem ha)) (hP _ (Array.getElem_mem hb)) h

private theorem OrderOn.lessAt_negTrans (ho : OrderOn less P) (hP : ∀ x ∈ xs, P x) {a b c : ℕ}
    (ha : a < xs.size) (hb : b < xs.size) (hc : c < xs.size) (hab : lessAt less xs a b = false)
    (hbc : lessAt less xs b c = false) : lessAt less xs a c = false := by
  simp only [lessAt, ha, hb, hc, dif_pos] at hab hbc ⊢
  exact ho.negTrans _ _ _ (hP _ (Array.getElem_mem ha)) (hP _ (Array.getElem_mem hb))
    (hP _ (Array.getElem_mem hc)) hab hbc

private theorem OrderOn.lessAt_irrefl (ho : OrderOn less P) (hP : ∀ x ∈ xs, P x) {a : ℕ}
    (ha : a < xs.size) : lessAt less xs a a = false := by
  by_contra h
  have ht : lessAt less xs a a = true := by simpa using h
  exact h (ho.lessAt_asymm hP ha ha ht)

private theorem forall_mem_swap (hP : ∀ x ∈ xs, P x) (i j : ℕ) :
    ∀ x ∈ xs.swapIfInBounds i j, P x := by
  intro x hx
  exact hP x ((swapIfInBounds_perm xs i j).mem_iff.mp hx)

theorem Ordered.root_first (ho : OrderOn less P) (hP : ∀ x ∈ xs, P x) {n : ℕ}
    (hn : n ≤ xs.size) (h : Ordered less xs n) (i : ℕ) (hi : i < n) :
    lessAt less xs i 0 = false := by
  induction i using Nat.strongRecOn with
  | ind i ih =>
    by_cases hi0 : i = 0
    · subst hi0
      exact ho.lessAt_irrefl hP (by omega)
    · have hparent := ih ((i - 1) / 2) (by omega) (by omega)
      exact ho.lessAt_negTrans hP (by omega) (by omega) (by omega)
        (h i (by omega) hi) hparent

/-- Only the pair of `j` and its parent may be out of order, and the children of `j` are already
in order with that parent. -/
private structure UpOrder (less : α → α → Bool) (xs : Array α) (n j : ℕ) : Prop where
  off : ∀ i, 0 < i → i < n → i ≠ j → lessAt less xs i ((i - 1) / 2) = false
  grand : 0 < j → ∀ c, 0 < c → c < n → (c - 1) / 2 = j → lessAt less xs c ((j - 1) / 2) = false

private theorem UpOrder.ordered {n j : ℕ} (h : UpOrder less xs n j)
    (hj : 0 < j → lessAt less xs j ((j - 1) / 2) = false) : Ordered less xs n := by
  intro i hi hin
  by_cases hij : i = j
  · subst hij
    exact hj hi
  · exact h.off i hi hin hij

private theorem UpOrder.swap (ho : OrderOn less P) {j : ℕ} (hP : ∀ x ∈ xs, P x)
    (h : UpOrder less xs xs.size j) (hj : 0 < j) (hjs : j < xs.size)
    (hl : lessAt less xs j ((j - 1) / 2) = true) :
    UpOrder less (xs.swapIfInBounds ((j - 1) / 2) j) xs.size ((j - 1) / 2) := by
  obtain ⟨hoff, hgrand⟩ := h
  have hi : (j - 1) / 2 < xs.size := by omega
  have hne : j ≠ (j - 1) / 2 := by omega
  have hback := ho.lessAt_asymm hP hjs hi hl
  constructor
  · intro k hk hkn hkj
    rw [lessAt_swap less xs hi hjs]
    by_cases hkj2 : k = j
    · subst hkj2
      simp only [hkj, if_false, if_true]
      exact hback
    · by_cases hp : (k - 1) / 2 = (j - 1) / 2
      · -- the sibling of `j` now compares with the old element at `j`
        have hsib := hoff k hk hkn hkj2
        rw [hp] at hsib
        simp only [hkj, hkj2, hp, if_true, if_false]
        exact ho.lessAt_negTrans hP hkn hi hjs hsib hback
      · by_cases hp2 : (k - 1) / 2 = j
        · simp only [hkj, hkj2, hp2, if_true, if_false, hne]
          exact hgrand hj k hk hkn hp2
        · simp only [hkj, hkj2, hp, hp2, if_false]
          exact hoff k hk hkn hkj2
  · intro hj2 c hc hcn hcj
    rw [lessAt_swap less xs hi hjs]
    have hpp := hoff _ hj2 hi (by omega)
    have e1 : ((j - 1) / 2 - 1) / 2 ≠ (j - 1) / 2 := by omega
    have e2 : ((j - 1) / 2 - 1) / 2 ≠ j := by omega
    have e3 : c ≠ (j - 1) / 2 := by omega
    simp only [e1, e2, e3, if_false]
    by_cases hcj2 : c = j
    · simp only [hcj2, if_true]
      exact hpp
    · simp only [hcj2, if_false]
      have hc1 := hoff c hc hcn hcj2
      rw [hcj] at hc1
      exact ho.lessAt_negTrans hP hcn hi (by omega) hc1 hpp

private theorem up_ordered (ho : OrderOn less P) (fuel j : ℕ) (hP : ∀ x ∈ xs, P x)
    (hfuel : j ≤ fuel) (hj : j < xs.size) (h : UpOrder less xs xs.size j) :
    Ordered less (up less fuel xs j) xs.size := by
  induction fuel generalizing xs j with
  | zero => exact h.ordered (by omega)
  | succ fuel ih =>
    simp only [up]
    split_ifs with hpos hless
    · exact h.ordered (fun _ => by simpa using hless)
    · have hs : (xs.swapIfInBounds ((j - 1) / 2) j).size = xs.size := by simp
      have hstep := h.swap ho hP hpos hj (by simpa using hless)
      rw [← hs] at hstep
      have hrec := ih ((j - 1) / 2) (forall_mem_swap hP _ _) (by omega) (by omega) hstep
      rwa [hs] at hrec
    · exact h.ordered (by omega)

theorem push_ordered (ho : OrderOn less P) {x : α} (hP : ∀ y ∈ xs, P y) (hx : P x)
    (h : Ordered less xs xs.size) : Ordered less (push less xs x) (xs.size + 1) := by
  have hlast : UpOrder less (xs.push x) (xs.push x).size xs.size := by
    constructor
    · intro i hi hin hij
      rw [Array.size_push] at hin
      have hold := h i hi (by omega)
      have hi' : i < xs.size := by omega
      have hp' : (i - 1) / 2 < xs.size := by omega
      simp only [lessAt, hi', hp', dif_pos] at hold
      simp only [lessAt, Array.size_push, hin, dif_pos, Array.getElem_push, hi', hp']
      rw [dif_pos (by omega)]
      exact hold
    · intro _ c _ hcn hcj
      rw [Array.size_push] at hcn
      omega
  have hPx : ∀ y ∈ xs.push x, P y := by
    intro y hy
    rcases Array.mem_push.mp hy with hy | rfl
    · exact hP y hy
    · exact hx
  have := up_ordered ho xs.size xs.size hPx le_rfl (by simp) hlast
  rwa [Array.size_push] at this

/-- Only the pairs of `i` with its children may be out of order, and those children are already
in order with the parent of `i`. -/
private structure DownOrder (less : α → α → Bool) (xs : Array α) (n i : ℕ) : Prop where
  off : ∀ k, 0 < k → k < n → (k - 1) / 2 ≠ i → lessAt less xs k ((k - 1) / 2) = false
  grand : 0 < i → ∀ c, 0 < c → c < n → (c - 1) / 2 = i → lessAt less xs c ((i - 1) / 2) = false

private theorem DownOrder.ordered {n i : ℕ} (h : DownOrder less xs n i)
    (hi : ∀ c, 0 < c → c < n → (c - 1) / 2 = i → lessAt less xs c i = false) :
    Ordered less xs n := by
  intro k hk hkn
  by_cases hki : (k - 1) / 2 = i
  · rw [hki]
    exact hi k hk hkn hki
  · exact h.off k hk hkn hki

private theorem DownOrder.swap (ho : OrderOn less P) {n i j : ℕ} (hP : ∀ x ∈ xs, P x)
    (hn : n ≤ xs.size) (h : DownOrder less xs n i) (hj : 0 < j) (hjn : j < n)
    (hji : (j - 1) / 2 = i) (hl : lessAt less xs j i = true)
    (hmin : ∀ c, 0 < c → c < n → (c - 1) / 2 = i → lessAt less xs c j = false) :
    DownOrder less (xs.swapIfInBounds i j) n j := by
  obtain ⟨hoff, hgrand⟩ := h
  have hi : i < xs.size := by omega
  have hjs : j < xs.size := by omega
  have hij : i ≠ j := by omega
  constructor
  · intro k hk hkn hkj
    rw [lessAt_swap less xs hi hjs]
    by_cases hki : (k - 1) / 2 = i
    · have hk1 : k ≠ i := by omega
      by_cases hkj2 : k = j
      · simp only [hkj2, hji, hij.symm, if_true, if_false]
        exact ho.lessAt_asymm hP hjs hi hl
      · simp only [hki, hk1, hkj2, if_true, if_false]
        exact hmin k hk hkn hki
    · by_cases hk1 : k = i
      · have e1 : (i - 1) / 2 ≠ j := by omega
        subst hk1
        simp only [hki, e1, if_true, if_false]
        exact hgrand hk j hj hjn hji
      · have hkj2 : k ≠ j := by
          intro hkj3
          subst hkj3
          exact hki hji
        simp only [hki, hk1, hkj, hkj2, if_false]
        exact hoff k hk hkn hki
  · intro _ c hc hcn hcj
    rw [lessAt_swap less xs hi hjs, hji]
    have e1 : c ≠ i := by omega
    have e2 : c ≠ j := by omega
    simp only [e1, e2, if_true, if_false]
    have := hoff c hc hcn (by omega)
    rwa [hcj] at this

private theorem down_ordered (ho : OrderOn less P) (fuel i : ℕ) {n : ℕ} (hP : ∀ x ∈ xs, P x)
    (hn : n ≤ xs.size) (hfuel : n ≤ fuel + i) (h : DownOrder less xs n i) :
    Ordered less (down less fuel xs i n) n := by
  induction fuel generalizing xs i with
  | zero => exact h.ordered (by omega)
  | succ fuel ih =>
    simp only [down]
    split
    · exact h.ordered (by omega)
    · rename_i hj1
      -- the selected child sorts after neither child
      have hmin : ∀ c, 0 < c → c < n → (c - 1) / 2 = i → lessAt less xs c
          (if (2 * i + 1 + 1 < n && lessAt less xs (2 * i + 1 + 1) (2 * i + 1)) = true
            then 2 * i + 1 + 1 else 2 * i + 1) = false := by
        intro c hc hcn hci
        have hcc : c = 2 * i + 1 ∨ c = 2 * i + 1 + 1 := by omega
        split_ifs with hsel
        · rw [Bool.and_eq_true, decide_eq_true_eq] at hsel
          rcases hcc with rfl | rfl
          · exact ho.lessAt_asymm hP (by omega) (by omega) hsel.2
          · exact ho.lessAt_irrefl hP (by omega)
        · rcases hcc with rfl | rfl
          · exact ho.lessAt_irrefl hP (by omega)
          · simpa [hcn] using hsel
      generalize hj : (if (2 * i + 1 + 1 < n && lessAt less xs (2 * i + 1 + 1) (2 * i + 1)) = true
            then 2 * i + 1 + 1 else 2 * i + 1) = j at hmin ⊢
      have hjn : 0 < j ∧ j < n ∧ (j - 1) / 2 = i := by
        split_ifs at hj with hsel
        · rw [Bool.and_eq_true, decide_eq_true_eq] at hsel
          omega
        · omega
      obtain ⟨hj0, hjn, hji⟩ := hjn
      split_ifs with hless
      · apply h.ordered
        intro c hc hcn hci
        exact ho.lessAt_negTrans hP (by omega) (by omega) (by omega) (hmin c hc hcn hci)
          (by simpa using hless)
      · exact ih j (forall_mem_swap hP _ _) (by simpa using hn) (by omega)
          (h.swap ho hP hn hj0 hjn hji (by simpa using hless) hmin)

private theorem down_getElem_of_ge (fuel i n k : ℕ) (hk : n ≤ k) (hi : i < n) :
    (down less fuel xs i n)[k]? = xs[k]? := by
  induction fuel generalizing xs i with
  | zero => rfl
  | succ fuel ih =>
    simp only [down]
    split
    · rfl
    · rename_i hj1
      split_ifs with hsel hless hless
      · rfl
      · rw [Bool.and_eq_true, decide_eq_true_eq] at hsel
        rw [ih _ hsel.1]
        grind
      · rfl
      · rw [ih _ (by omega)]
        grind

end Order

private theorem rootLast_perm (less : α → α → Bool) (xs : Array α) :
    (rootLast less xs).Perm xs :=
  (down_perm _ _ _ _ _).trans (swapIfInBounds_perm _ _ _)

private theorem rootLast_of_pop {less : α → α → Bool} {xs ys : Array α} {x : α}
    (hpop : pop less xs = some (x, ys)) : rootLast less xs = ys.push x := by
  obtain ⟨z, hback, heq⟩ := Option.map_eq_some_iff.mp hpop
  obtain ⟨zs, hzs⟩ := Array.back?_eq_some_iff.mp hback
  rw [hzs, Array.pop_push, Prod.mk.injEq] at heq
  rw [hzs, heq.1, heq.2]

theorem pop_eq_none (less : α → α → Bool) {xs : Array α} :
    pop less xs = none ↔ xs = #[] := by
  rw [pop, Option.map_eq_none_iff, Array.back?_eq_none_iff, ← Array.size_eq_zero_iff,
    (rootLast_perm less xs).size_eq, Array.size_eq_zero_iff]

theorem pop_perm {less : α → α → Bool} {xs ys : Array α} {x : α}
    (hpop : pop less xs = some (x, ys)) : (ys.push x).Perm xs := by
  rw [← rootLast_of_pop hpop]
  exact rootLast_perm less xs

theorem pop_root {less : α → α → Bool} {xs ys : Array α} {x : α}
    (hpop : pop less xs = some (x, ys)) : xs[0]? = some x := by
  have hroot := rootLast_of_pop hpop
  have hsize : xs.size = ys.size + 1 := by simpa using (pop_perm hpop).size_eq.symm
  have hlast : (rootLast less xs)[xs.size - 1]? = some x := by
    rw [hroot, hsize]
    simp
  rw [rootLast] at hlast
  by_cases hone : xs.size = 1
  · rw [← hlast, hone]
    simp only [Nat.sub_self, down]
    grind
  · rw [down_getElem_of_ge _ _ _ _ le_rfl (by omega)] at hlast
    rw [← hlast]
    grind

theorem pop_ordered {less : α → α → Bool} {P : α → Prop} {xs ys : Array α} {x : α}
    (ho : OrderOn less P) (hP : ∀ y ∈ xs, P y) (h : Ordered less xs xs.size)
    (hpop : pop less xs = some (x, ys)) :
    Ordered less ys ys.size ∧ ∀ y ∈ ys, less y x = false := by
  have hsize : xs.size = ys.size + 1 := by simpa using (pop_perm hpop).size_eq.symm
  have hroot := rootLast_of_pop hpop
  have hstart : DownOrder less (xs.swapIfInBounds 0 ys.size) ys.size 0 := by
    constructor
    · intro k hk hkn hk0
      rw [lessAt_swap less xs (by omega) (by omega)]
      have e1 : k ≠ 0 := by omega
      have e2 : k ≠ ys.size := by omega
      have e3 : (k - 1) / 2 ≠ ys.size := by omega
      simp only [e1, e2, e3, hk0, if_false]
      exact h k hk (by omega)
    · intro h0
      omega
  constructor
  · intro j hj hjn
    have hdown := down_ordered ho ys.size 0 (forall_mem_swap hP 0 ys.size)
      (by simp [hsize]) (by omega) hstart j hj hjn
    have hlast : down less ys.size (xs.swapIfInBounds 0 ys.size) 0 ys.size = ys.push x := by
      rw [← hroot, rootLast, hsize, Nat.add_sub_cancel]
    have hp : (j - 1) / 2 < ys.size := by omega
    rw [hlast] at hdown
    have hj' : j < (ys.push x).size := by
      rw [Array.size_push]
      omega
    have hp' : (j - 1) / 2 < (ys.push x).size := by
      rw [Array.size_push]
      omega
    simpa only [lessAt, hjn, hp, hj', hp', and_self, dite_true, Array.getElem_push] using hdown
  · intro y hy
    have hyx : y ∈ xs := (pop_perm hpop).mem_iff.mp (Array.mem_push_of_mem x hy)
    obtain ⟨i, hi, rfl⟩ := Array.getElem_of_mem hyx
    have hfirst := h.root_first ho hP le_rfl i hi
    obtain ⟨h0, hx⟩ := Array.getElem?_eq_some_iff.mp (pop_root hpop)
    simpa [lessAt, hi, h0, hx] using hfirst

end Kcptun.Lib.BinaryHeap
