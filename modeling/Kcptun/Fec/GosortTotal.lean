/- Kcptun/Fec/GosortTotal
   source: crates/kcp/src/gosort.rs
   digest: Whatever the comparison answers, the sort reads and swaps inside the slice only, comes to
     an end and leaves a permutation of what it was given. -/

import Kcptun.Fec.Gosort
import Kcptun.Lib.SortRange
import Mathlib.Algebra.Group.Nat.Defs

set_option autoImplicit false
set_option relaxedAutoImplicit false

namespace Kcptun.Fec.Gosort

open Kcptun.Lib

variable {σ α β γ : Type} {n u v : ℕ}

/-- On every slice of length `n` the code `m` ends without a panic, has only moved elements from `u`
up to `v` around and returns a value that satisfies `Q`. -/
def Moves (u v n : ℕ) (m : SortM σ α β) (Q : β → Prop) : Prop :=
  ∀ s : LessSwap σ α, s.data.length = n →
    ∃ x s', m s = some (x, s') ∧ Within u v s'.data s.data ∧ Q x

/-! The rules for sequencing. -/

namespace Moves

private theorem pure {x : β} {Q : β → Prop} (hx : Q x) : Moves u v n (pure x : SortM σ α β) Q :=
  fun s _ => ⟨x, s, rfl, Within.refl _ _ _, hx⟩

private theorem bind {m : SortM σ α β} {f : β → SortM σ α γ} {P : β → Prop} {Q : γ → Prop}
    (hm : Moves u v n m P) (hf : ∀ x, P x → Moves u v n (f x) Q) : Moves u v n (m >>= f) Q := by
  intro s hs
  obtain ⟨x, s', hrun, hwithin, hx⟩ := hm s hs
  obtain ⟨y, s'', hrun', hwithin', hy⟩ := hf x hx s' (hwithin.length_eq.trans hs)
  refine ⟨y, s'', ?_, hwithin'.trans hwithin, hy⟩
  rw [bind_of_eq hrun, hrun']

private theorem mono {m : SortM σ α β} {P Q : β → Prop} (hm : Moves u v n m P)
    (h : ∀ x, P x → Q x) : Moves u v n m Q := by
  intro s hs
  obtain ⟨x, s', hrun, hwithin, hx⟩ := hm s hs
  exact ⟨x, s', hrun, hwithin, h x hx⟩

private theorem widen {u' v' : ℕ} {m : SortM σ α β} {Q : β → Prop} (hm : Moves u v n m Q)
    (hu : u' ≤ u) (hv : v ≤ v') : Moves u' v' n m Q := by
  intro s hs
  obtain ⟨x, s', hrun, hwithin, hx⟩ := hm s hs
  exact ⟨x, s', hrun, hwithin.mono hu hv, hx⟩

private theorem ite {c : Prop} [Decidable c] {m m' : SortM σ α β} {Q : β → Prop}
    (hm : c → Moves u v n m Q) (hm' : ¬c → Moves u v n m' Q) : Moves u v n (if c then m else m') Q := by
  by_cases h : c
  · rw [if_pos h]
    exact hm h
  · rw [if_neg h]
    exact hm' h

private theorem join {c : Prop} [Decidable c] {m m' : SortM σ α β} {f : β → SortM σ α γ}
    {P : β → Prop} {Q : γ → Prop} (hm : c → Moves u v n m P) (hm' : ¬c → Moves u v n m' P)
    (hf : ∀ x, P x → Moves u v n (f x) Q) :
    Moves u v n (if c then m >>= f else m' >>= f) Q :=
  ite (fun h => (hm h).bind hf) fun h => (hm' h).bind hf

private theorem negate {m : SortM σ α Bool} (hm : Moves u v n m fun _ => True) :
    Moves u v n ((! ·) <$> m) fun _ => True :=
  hm.bind fun _ _ => pure trivial

private theorem forM {is : List γ} {body : γ → SortM σ α PUnit}
    (h : ∀ i ∈ is, Moves u v n (body i) fun _ => True) :
    Moves u v n (is.forM body) fun _ => True := by
  induction is with
  | nil => exact pure trivial
  | cons i is ih =>
    exact (h i List.mem_cons_self).bind fun _ _ => ih fun k hk => h k (List.mem_cons_of_mem i hk)

end Moves

open Moves

variable (cmp : σ → α → α → Bool × σ)

private theorem less_moves {i j : ℕ} (hi : i < n) (hj : j < n) :
    Moves u v n (less cmp i j) fun _ => True := by
  rintro s rfl
  have hrun : less cmp i j s = some ((cmp s.closure s.data[i] s.data[j]).1,
      { s with closure := (cmp s.closure s.data[i] s.data[j]).2 }) := by
    unfold less
    rw [List.getElem?_eq_getElem hi, List.getElem?_eq_getElem hj]
  exact ⟨_, _, hrun, Within.refl _ _ _, trivial⟩

theorem swap_data {i j : ℕ} {s : LessSwap σ α} (hi : i < s.data.length) (hj : j < s.data.length) :
    swap i j s = some ((), { s with data := exchange s.data i j }) := by
  unfold swap exchange
  rw [List.getElem?_eq_getElem hi, List.getElem?_eq_getElem hj]

private theorem swap_moves {i j : ℕ} (hil : i < n) (hjl : j < n) (hir : u ≤ i ∧ i < v)
    (hjr : u ≤ j ∧ j < v) : Moves u v n (swap i j : SortM σ α Unit) fun _ => True := by
  rintro s rfl
  exact ⟨_, _, swap_data hil hjl, Within.exchange hil hjl hir hjr, trivial⟩

private theorem sub_moves {x y : ℕ} (h : y ≤ x) :
    Moves u v n (sub x y : SortM σ α ℕ) (· = x - y) := by
  unfold sub
  rw [if_pos h]
  exact pure rfl

private theorem Moves.afterSub {x y : ℕ} (h : y ≤ x) {f : ℕ → SortM σ α β} {Q : β → Prop}
    (hf : Moves u v n (f (x - y)) Q) : Moves u v n (sub x y >>= f) Q := by
  refine (sub_moves h).bind ?_
  intro z hz
  rw [hz]
  exact hf

/-! Insertion sort and heapsort. -/

private theorem insertDown_moves (a : ℕ) {j : ℕ} (hj : j < n) :
    Moves 0 n n (insertDown cmp a j) fun _ => True := by
  induction j with
  | zero => exact pure trivial
  | succ j ih =>
    refine ite ?_ fun _ => pure trivial
    intro _
    refine (less_moves cmp hj (by omega)).bind fun _ _ => ite ?_ fun _ => pure trivial
    intro _
    exact (swap_moves hj (by omega) (by omega) (by omega)).bind fun _ _ => ih (by omega)

private theorem insertionSortFunc_moves (a : ℕ) {b : ℕ} (hb : b ≤ n) :
    Moves 0 n n (insertionSortFunc cmp a b) fun _ => True := by
  refine forM fun i hi => insertDown_moves cmp a ?_
  have := List.mem_range'_1.mp hi
  omega

private theorem siftDownFunc_moves (root : ℕ) {hi first : ℕ} (hfit : first + hi ≤ n) :
    Moves 0 n n (siftDownFunc cmp root hi first) fun _ => True := by
  induction hm : hi - root using Nat.strongRecOn generalizing root with
  | ind m ih =>
    rw [siftDownFunc]
    refine ite ?_ fun _ => pure trivial
    intro hchild
    dsimp only
    refine join (P := fun right => right = true → 2 * root + 2 < hi)
      (fun h => (less_moves cmp (by omega) (by omega)).mono fun _ _ _ => h)
      (fun _ => pure nofun) fun right hright => ite ?_ ?_
    · intro h
      have := hright h
      refine (less_moves cmp (by omega) (by omega)).bind fun _ _ => ite ?_ fun _ => pure trivial
      intro _
      exact (swap_moves (by omega) (by omega) (by omega) (by omega)).bind fun _ _ =>
        ih (hi - (2 * root + 2)) (by omega) (2 * root + 2) rfl
    · intro _
      refine (less_moves cmp (by omega) (by omega)).bind fun _ _ => ite ?_ fun _ => pure trivial
      intro _
      exact (swap_moves (by omega) (by omega) (by omega) (by omega)).bind fun _ _ =>
        ih (hi - (2 * root + 1)) (by omega) (2 * root + 1) rfl

private theorem heapSortFunc_moves {a b : ℕ} (hab : a ≤ b) (hlong : 1 ≤ b - a) (hb : b ≤ n) :
    Moves 0 n n (heapSortFunc cmp a b) fun _ => True := by
  refine afterSub hab (afterSub hlong ?_)
  refine Moves.bind (forM fun i _ => siftDownFunc_moves cmp i (by omega)) ?_
  intro _ _
  refine forM ?_
  intro i hi
  have hlt : i < b - a := List.mem_range.mp (List.mem_reverse.mp hi)
  exact (swap_moves (by omega) (by omega) (by omega) (by omega)).bind fun _ _ =>
    siftDownFunc_moves cmp 0 (by omega)

/-! Partitioning. -/

private theorem scanUp_moves {test : ℕ → SortM σ α Bool}
    (htest : ∀ i, i < n → Moves 0 n n (test i) fun _ => True) (i : ℕ) {j : ℕ} (hj : j < n) :
    Moves 0 n n (scanUp test i j) fun i' => i ≤ i' ∧ (i' ≤ j + 1 ∨ i' = i) := by
  induction i using scanUp.induct j with
  | case1 i hij ih =>
    rw [scanUp, if_pos hij]
    refine (htest i (by omega)).bind fun _ _ => ite ?_ fun _ => pure (by omega)
    intro _
    exact ih.mono fun i' hi' => by omega
  | case2 i hij =>
    rw [scanUp, if_neg hij]
    exact pure (by omega)

private theorem scanDown_moves {test : ℕ → SortM σ α Bool}
    (htest : ∀ i, i < n → Moves 0 n n (test i) fun _ => True) {i j : ℕ} (hi : 0 < i) (hj : j < n) :
    Moves 0 n n (scanDown test i j) fun j' => j' ≤ j ∧ (i ≤ j' + 1 ∨ j' = j) := by
  induction j with
  | zero =>
    unfold scanDown
    rw [if_neg (by omega)]
    exact pure (by omega)
  | succ j ih =>
    unfold scanDown
    refine ite ?_ fun _ => pure (by omega)
    intro hij
    refine (htest (j + 1) hj).bind fun _ _ => ite ?_ fun _ => pure (by omega)
    intro _
    exact (ih (by omega)).mono fun j' hj' => by omega

private theorem partitionLoop_moves {up down : ℕ → SortM σ α Bool}
    (hup : ∀ i, i < n → Moves 0 n n (up i) fun _ => True)
    (hdown : ∀ i, i < n → Moves 0 n n (down i) fun _ => True) {a b : ℕ} (hb : b ≤ n)
    {fuel i j : ℕ} (hi : a < i ∧ i ≤ b) (hj : a ≤ j ∧ j < b) (hfuel : j + 1 - i < fuel) :
    Moves 0 n n (partitionLoop up down fuel i j) fun r =>
      (a < r.1 ∧ r.1 ≤ b) ∧ a ≤ r.2 ∧ r.2 < b := by
  induction fuel generalizing i j with
  | zero => omega
  | succ fuel ih =>
    unfold partitionLoop
    refine (scanUp_moves hup i (by omega)).bind ?_
    intro i' hi'
    refine (scanDown_moves hdown (by omega) (by omega)).bind ?_
    intro j' hj'
    refine ite (fun _ => pure (by omega)) ?_
    intro hle
    refine (swap_moves (by omega) (by omega) (by omega) (by omega)).bind ?_
    intro _ _
    refine afterSub (by omega) ?_
    exact ih (by omega) (by omega) (by omega)

private theorem partitionFunc_moves {a b pivot : ℕ} (hb : b ≤ n) (hab : a + 1 < b)
    (hpivot : pivot < b) :
    Moves 0 n n (partitionFunc cmp a b pivot) fun r => a ≤ r.1 ∧ r.1 < b := by
  have hup : ∀ i, i < n → Moves 0 n n (less cmp i a) fun _ => True :=
    fun i hi => less_moves cmp hi (by omega)
  have hdown : ∀ i, i < n → Moves 0 n n ((! ·) <$> less cmp i a) fun _ => True :=
    fun i hi => (hup i hi).negate
  unfold partitionFunc
  refine (swap_moves (by omega) (by omega) (by omega) (by omega)).bind fun _ _ => afterSub (by omega) ?_
  refine (scanUp_moves hup (a + 1) (by omega)).bind ?_
  intro i hi
  refine (scanDown_moves hdown (by omega) (by omega)).bind ?_
  intro j hj
  refine ite ?_ ?_
  · intro _
    exact (swap_moves (by omega) (by omega) (by omega) (by omega)).bind fun _ _ =>
      pure ⟨by omega, by omega⟩
  · intro hle
    refine (swap_moves (by omega) (by omega) (by omega) (by omega)).bind ?_
    intro _ _
    refine afterSub (by omega) ?_
    refine (partitionLoop_moves hup hdown hb (a := a) (by omega) (by omega) (by omega)).bind ?_
    intro r hr
    exact (swap_moves (by omega) (by omega) (by omega) (by omega)).bind fun _ _ => pure hr.2

private theorem partitionEqualFunc_moves {a b pivot : ℕ} (hb : b ≤ n) (hab : a + 1 < b)
    (hpivot : pivot < b) :
    Moves 0 n n (partitionEqualFunc cmp a b pivot) fun mid => a < mid ∧ mid ≤ b := by
  have hdown : ∀ i, i < n → Moves 0 n n (less cmp a i) fun _ => True :=
    fun i hi => less_moves cmp (by omega) hi
  unfold partitionEqualFunc
  refine (swap_moves (by omega) (by omega) (by omega) (by omega)).bind fun _ _ => afterSub (by omega) ?_
  refine (partitionLoop_moves (fun i hi => (hdown i hi).negate) hdown hb (a := a) (by omega)
    (by omega) (by omega)).bind fun r hr => pure hr.1

/-! Partial insertion sort. -/

private theorem skipOrdered_moves {i b : ℕ} (hi : 0 < i) (hib : i ≤ b) (hb : b ≤ n) :
    Moves u v n (skipOrdered cmp i b) fun i' => i ≤ i' ∧ i' ≤ b := by
  induction i using skipOrdered.induct b with
  | case1 i hlt ih =>
    rw [skipOrdered, if_pos hlt]
    apply afterSub hi
    refine (less_moves cmp (by omega) (by omega)).bind fun _ _ => ite (fun _ => pure (by omega)) ?_
    intro _
    exact (ih (by omega) (by omega)).mono fun i' hi' => by omega
  | case2 i hlt =>
    rw [skipOrdered, if_neg hlt]
    exact pure (by omega)

private theorem shiftLeft_moves {j : ℕ} (hj : j < n) :
    Moves 0 n n (shiftLeft cmp j) fun _ => True := by
  induction j with
  | zero => exact pure trivial
  | succ j ih =>
    refine (less_moves cmp hj (by omega)).bind fun _ _ => ite ?_ fun _ => pure trivial
    intro _
    exact (swap_moves hj (by omega) (by omega) (by omega)).bind fun _ _ => ih (by omega)

theorem shiftRight_moves {j b : ℕ} (hj : u < j) (hb : b ≤ n) :
    Moves u b n (shiftRight cmp j b) fun _ => True := by
  induction j using shiftRight.induct b with
  | case1 j hlt ih =>
    rw [shiftRight, if_pos hlt]
    refine afterSub (by omega) ?_
    refine (less_moves cmp (by omega) (by omega)).bind fun _ _ => ite ?_ fun _ => pure trivial
    intro _
    exact (swap_moves (by omega) (by omega) (by omega) (by omega)).bind fun _ _ => ih (by omega)
  | case2 j hlt =>
    rw [shiftRight, if_neg hlt]
    exact pure trivial

private theorem partialSteps_moves {a b : ℕ} (hb : b ≤ n) (steps : ℕ) {i : ℕ} (hi : a < i ∧ i ≤ b) :
    Moves 0 n n (partialSteps cmp a b steps i) fun _ => True := by
  induction steps generalizing i with
  | zero => exact pure trivial
  | succ steps ih =>
    unfold partialSteps
    refine (skipOrdered_moves cmp (by omega) hi.2 hb).bind ?_
    intro i' hi'
    refine ite (fun _ => pure trivial) fun hne => afterSub (by omega) ?_
    refine ite (fun _ => pure trivial) fun _ => afterSub (by omega) ?_
    refine (swap_moves (by omega) (by omega) (by omega) (by omega)).bind fun _ _ =>
      afterSub (by omega) ?_
    have hnext := ih (i := i') (by omega)
    have hright : Moves 0 n n (do
        let right ← sub b i'
        if right ≥ 2 then shiftRight cmp (i' + 1) b
        partialSteps cmp a b steps i') fun _ => True :=
      afterSub (by omega) (ite
        (fun _ => ((shiftRight_moves cmp (Nat.lt_succ_self i') hb).widen
          (Nat.zero_le i') hb).bind fun _ _ => hnext) fun _ => hnext)
    exact ite (fun _ => (shiftLeft_moves cmp (by omega)).bind fun _ _ => hright) fun _ => hright

/-! Choosing the pivot. -/

private theorem nextPowerOfTwo_eq (length : ℕ) : nextPowerOfTwo length = 2 ^ bitsLen length := by
  unfold nextPowerOfTwo
  rw [Nat.shiftLeft_eq, Nat.one_mul]

private theorem nextPowerOfTwo_le {length : ℕ} (h : 0 < length) :
    nextPowerOfTwo length ≤ 2 * length := by
  have hpos : 0 < bitsLen length := Nat.size_pos.mpr h
  have hhalf : 2 ^ (bitsLen length - 1) ≤ length := Nat.lt_size.mp (Nat.sub_lt hpos Nat.one_pos)
  calc nextPowerOfTwo length = 2 ^ (bitsLen length - 1 + 1) := by
        rw [nextPowerOfTwo_eq, Nat.sub_add_cancel hpos]
    _ = 2 * 2 ^ (bitsLen length - 1) := by rw [Nat.pow_succ, Nat.mul_comm]
    _ ≤ 2 * length := Nat.mul_le_mul_left 2 hhalf

private theorem breakPatternsFunc_moves {a b : ℕ} (hab : a ≤ b) (hb : b ≤ n) :
    Moves a b n (breakPatternsFunc a b : SortM σ α Unit) fun _ => True := by
  refine afterSub hab (ite ?_ fun _ => pure trivial)
  intro hlong
  refine afterSub (by omega) ?_
  have hindex : ∀ r : UInt64,
      r.toNat &&& (nextPowerOfTwo (b - a) - 1) < nextPowerOfTwo (b - a) := by
    intro r
    rw [nextPowerOfTwo_eq]
    exact Nat.and_lt_two_pow _ (Nat.sub_lt (Nat.two_pow_pos _) Nat.one_pos)
  have hdouble := nextPowerOfTwo_le (show 0 < b - a by omega)
  refine forM ?_
  intro p hp
  have hidx : a ≤ p.1 ∧ p.1 < b := by
    simp only [List.mem_cons, List.not_mem_nil, or_false] at hp
    rcases hp with rfl | rfl | rfl <;> dsimp only <;> omega
  have hother := hindex p.2
  refine swap_moves (by omega) ?_ hidx ?_
  · split_ifs <;> omega
  · split_ifs <;> omega

private theorem order2Func_moves {P : ℕ → Prop} {i j : ℕ} (hi : i < n ∧ P i) (hj : j < n ∧ P j)
    (swaps : ℕ) : Moves u v n (order2Func cmp i j swaps) fun r =>
      (r.1 < n ∧ P r.1) ∧ r.2.1 < n ∧ P r.2.1 :=
  (less_moves cmp hj.1 hi.1).bind fun _ _ => ite (fun _ => pure ⟨hj, hi⟩) fun _ => pure ⟨hi, hj⟩

private theorem medianFunc_moves {P : ℕ → Prop} {i j k : ℕ} (hi : i < n ∧ P i) (hj : j < n ∧ P j)
    (hk : k < n ∧ P k) (swaps : ℕ) :
    Moves u v n (medianFunc cmp i j k swaps) fun r => r.1 < n ∧ P r.1 := by
  refine (order2Func_moves cmp hi hj swaps).bind ?_
  intro r hr
  refine (order2Func_moves cmp hr.2 hk _).bind ?_
  intro r' hr'
  exact (order2Func_moves cmp hr.1 hr'.1 _).bind fun r'' hr'' => pure hr''.2

private theorem medianAdjacentFunc_moves {P : ℕ → Prop} {i : ℕ} (hpos : 0 < i) (hi : i + 1 < n)
    (hP : P (i - 1) ∧ P i ∧ P (i + 1)) (swaps : ℕ) :
    Moves u v n (medianAdjacentFunc cmp i swaps) fun r => r.1 < n ∧ P r.1 :=
  afterSub hpos (medianFunc_moves cmp ⟨by omega, hP.1⟩ ⟨by omega, hP.2.1⟩ ⟨hi, hP.2.2⟩ swaps)

private theorem choosePivotFunc_moves {a b : ℕ} (hab : a < b) (hb : b ≤ n) :
    Moves u v n (choosePivotFunc cmp a b) fun r => a ≤ r.1 ∧ r.1 < b := by
  have hmedian : ∀ {i j k : ℕ} (swaps : ℕ), a ≤ i ∧ i < b → a ≤ j ∧ j < b → a ≤ k ∧ k < b →
      Moves u v n (medianFunc cmp i j k swaps) fun r => a ≤ r.1 ∧ r.1 < b := by
    intro i j k swaps hi hj hk
    have := medianFunc_moves cmp (n := n) (u := u) (v := v) (P := fun i => a ≤ i ∧ i < b) ⟨by omega, hi⟩
      ⟨by omega, hj⟩ ⟨by omega, hk⟩ swaps
    exact this.mono fun r hr => hr.2
  apply afterSub (Nat.le_of_lt hab)
  refine ite (fun _ => pure ⟨Nat.le_add_right _ _, by dsimp only; omega⟩) ?_
  intro h8
  refine ite ?_ ?_
  · intro _
    exact (hmedian 0 (by omega) (by omega) (by omega)).bind fun r hr => pure hr
  · intro h50
    unfold SHORTEST_NINTHER at h50
    have hadjacent : ∀ {i : ℕ} (swaps : ℕ), a < i ∧ i + 1 < b →
        Moves u v n (medianAdjacentFunc cmp i swaps) fun r => a ≤ r.1 ∧ r.1 < b := by
      intro i swaps hi
      have := medianAdjacentFunc_moves cmp (n := n) (u := u) (v := v)
        (P := fun i => a ≤ i ∧ i < b) (i := i)
        (by omega) (by omega) ⟨by omega, by omega, by omega⟩ swaps
      exact this.mono fun r hr => hr.2
    refine (hadjacent 0 (by omega)).bind ?_
    intro i hi
    refine (hadjacent i.2 (by omega)).bind ?_
    intro j hj
    refine (hadjacent j.2 (by omega)).bind ?_
    intro k hk
    exact (hmedian k.2 hi hj hk).bind fun r hr => pure hr

private theorem reverseRange_moves {i j a b : ℕ} (hb : b ≤ n) (hi : a ≤ i) (hj : j < b) :
    Moves a b n (reverseRange i j : SortM σ α Unit) fun _ => True := by
  induction i, j using reverseRange.induct with
  | case1 i j hlt ih =>
    rw [reverseRange, if_pos hlt]
    exact (swap_moves (by omega) (by omega) (by omega) (by omega)).bind fun _ _ =>
      ih (by omega) (by omega)
  | case2 i j hlt =>
    rw [reverseRange, if_neg hlt]
    exact pure trivial

theorem orient_moves {a b : ℕ} (hab : a < b) (hb : b ≤ n) :
    Moves a b n (orient cmp a b) fun r => a ≤ r.1 ∧ r.1 < b := by
  refine (choosePivotFunc_moves cmp hab hb).bind fun r hr => ite ?_ fun _ => pure hr
  intro _
  refine (afterSub (by omega) (reverseRange_moves hb (Nat.le_refl a) (by omega))).bind ?_
  intro _ _
  refine afterSub (by omega) (afterSub hr.1 (afterSub (by omega) (pure ?_)))
  dsimp only
  omega

theorem rebalance_moves {a b limit : ℕ} (hab : a ≤ b) (hb : b ≤ n) (hlimit : 0 < limit)
    (wasBalanced : Bool) :
    Moves a b n (rebalance a b limit wasBalanced : SortM σ α ℕ) fun _ => True :=
  ite (fun _ => pure trivial) fun _ =>
    (breakPatternsFunc_moves hab hb).bind fun _ _ => (sub_moves hlimit).mono fun _ _ => trivial

private theorem equalsPrevious_moves {a pivot : ℕ} (ha : a ≤ pivot) (hpivot : pivot < n) :
    Moves u v n (equalsPrevious cmp a pivot) fun _ => True :=
  ite (fun _ => (less_moves cmp (by omega) hpivot).negate) fun _ => pure trivial

/-! The sort. -/

private theorem pdqsortFunc_moves {fuel a b : ℕ} (hab : a ≤ b) (hb : b ≤ n) (hfuel : b - a < fuel)
    (limit : ℕ) (wasBalanced wasPartitioned : Bool) :
    Moves 0 n n (pdqsortFunc cmp fuel a b limit wasBalanced wasPartitioned) fun _ => True := by
  induction fuel generalizing a b limit wasBalanced wasPartitioned with
  | zero => omega
  | succ fuel ih =>
    unfold pdqsortFunc
    refine afterSub hab (ite (fun _ => insertionSortFunc_moves cmp a hb) ?_)
    intro hlong
    unfold MAX_INSERTION at hlong
    refine ite (fun _ => heapSortFunc_moves cmp hab (by omega) hb) ?_
    intro hlimit
    refine ((rebalance_moves hab hb (by omega) wasBalanced).widen (Nat.zero_le a) hb).bind ?_
    intro limit _
    refine ((orient_moves cmp (by omega) hb).widen (Nat.zero_le a) hb).bind ?_
    intro r hr
    dsimp only
    refine join (P := fun _ => True)
      (fun _ => partialSteps_moves cmp hb MAX_STEPS (by omega)) (fun _ => pure trivial)
      fun _ _ => ite (fun _ => pure trivial) ?_
    intro _
    refine (equalsPrevious_moves cmp hr.1 (by omega)).bind fun _ _ => ite ?_ ?_
    · intro _
      refine (partitionEqualFunc_moves cmp hb (by omega) hr.2).bind ?_
      intro mid hmid
      exact ih hmid.2 hb (by omega) limit _ _
    · intro _
      refine (partitionFunc_moves cmp hb (by omega) hr.2).bind ?_
      intro mid hmid
      refine afterSub hmid.1 (afterSub (by omega) (ite ?_ ?_))
      · intro _
        refine (ih hmid.1 (by omega) (by omega) limit _ _).bind ?_
        intro _ _
        exact ih (by omega) hb (by omega) limit _ _
      · intro _
        refine (ih (by omega) hb (by omega) limit _ _).bind ?_
        intro _ _
        exact ih hmid.1 (by omega) (by omega) limit _ _

theorem slice_perm (data : List α) (closure : σ) :
    ∃ sorted closure', slice cmp data closure = some (sorted, closure') ∧ sorted.Perm data := by
  obtain ⟨_, s, hrun, hwithin, _⟩ := pdqsortFunc_moves cmp (Nat.zero_le data.length)
    (Nat.le_refl _) (show data.length - 0 < data.length + 1 by omega) (bitsLen data.length) true
    true ⟨data, closure⟩ rfl
  refine ⟨s.data, s.closure, ?_, hwithin.perm⟩
  unfold slice
  dsimp only
  rw [hrun]
  rfl

end Kcptun.Fec.Gosort
