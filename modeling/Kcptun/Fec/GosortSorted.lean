/- Kcptun/Fec/GosortSorted
   source: crates/kcp/src/gosort.rs
   digest: Where the comparison is a strict weak order, every part of the sort leaves its range in
     order: insertion, heap, partition, and their recursion. -/

import Kcptun.Fec.GosortTotal
import Kcptun.Lib.HeapRange
import Mathlib.Order.Defs.Unbundled

set_option autoImplicit false
set_option relaxedAutoImplicit false

namespace Kcptun.Fec.Gosort

open Kcptun.Lib

variable {σ α β γ : Type}

/-- On the slice `l`, whatever the closure has captured, `m` ends without a panic; its result and the
slice it leaves satisfy `Q`. -/
def Runs (m : SortM σ α β) (l : List α) (Q : β → List α → Prop) : Prop :=
  ∀ c, ∃ x s, m ⟨l, c⟩ = some (x, s) ∧ Q x s.data

private theorem Moves.runs {u v : ℕ} {m : SortM σ α β} {l : List α} {Q : β → Prop}
    (h : Moves u v l.length m Q) : Runs m l fun x l' => Within u v l' l ∧ Q x := by
  intro c
  obtain ⟨x, s, hrun, hwithin, hx⟩ := h ⟨l, c⟩ rfl
  exact ⟨x, s, hrun, hwithin, hx⟩

/-! The rules for sequencing. -/

namespace Runs

variable {l : List α}

private theorem pure {x : β} {Q : β → List α → Prop} (hx : Q x l) :
    Runs (pure x : SortM σ α β) l Q :=
  fun c => ⟨x, ⟨l, c⟩, rfl, hx⟩

private theorem bind {m : SortM σ α β} {f : β → SortM σ α γ} {P : β → List α → Prop}
    {Q : γ → List α → Prop} (hm : Runs m l P) (hf : ∀ x l', P x l' → Runs (f x) l' Q) :
    Runs (m >>= f) l Q := by
  intro c
  obtain ⟨x, s, hrun, hx⟩ := hm c
  obtain ⟨y, s', hrun', hy⟩ := hf x s.data hx s.closure
  refine ⟨y, s', ?_, hy⟩
  rw [bind_of_eq hrun]
  exact hrun'

private theorem mono {m : SortM σ α β} {P Q : β → List α → Prop} (hm : Runs m l P)
    (h : ∀ x l', P x l' → Q x l') : Runs m l Q := by
  intro c
  obtain ⟨x, s, hrun, hx⟩ := hm c
  exact ⟨x, s, hrun, h x s.data hx⟩

private theorem ite {c : Prop} [Decidable c] {m m' : SortM σ α β} {Q : β → List α → Prop}
    (hm : c → Runs m l Q) (hm' : ¬c → Runs m' l Q) : Runs (if c then m else m') l Q := by
  by_cases h : c
  · rw [if_pos h]
    exact hm h
  · rw [if_neg h]
    exact hm' h

private theorem join {c : Prop} [Decidable c] {m m' : SortM σ α β} {f : β → SortM σ α γ}
    {P : β → List α → Prop} {Q : γ → List α → Prop} (hm : c → Runs m l P) (hm' : ¬c → Runs m' l P)
    (hf : ∀ x l', P x l' → Runs (f x) l' Q) :
    Runs (if c then m >>= f else m' >>= f) l Q :=
  ite (fun h => (hm h).bind hf) fun h => (hm' h).bind hf

private theorem when {c : Prop} [Decidable c] {m : SortM σ α PUnit} {f : PUnit → SortM σ α γ}
    {P : List α → Prop} {Q : γ → List α → Prop} (hm : c → Runs m l fun _ => P) (hl : ¬c → P l)
    (hf : ∀ l', P l' → Runs (f ⟨⟩) l' Q) : Runs (if c then m >>= f else f ⟨⟩) l Q :=
  ite (fun h => (hm h).bind fun _ => hf) fun h => hf l (hl h)

private theorem afterPure {x : β} {f : β → SortM σ α γ} {Q : γ → List α → Prop}
    (hf : Runs (f x) l Q) : Runs (Pure.pure x >>= f) l Q := hf

private theorem afterSub {x y : ℕ} (h : y ≤ x) {f : ℕ → SortM σ α β} {Q : β → List α → Prop}
    (hf : Runs (f (x - y)) l Q) : Runs (sub x y >>= f) l Q := by
  intro c
  obtain ⟨z, s, hrun, hz⟩ := hf c
  refine ⟨z, s, ?_, hz⟩
  rw [bind_of_eq (sub_eq h _)]
  exact hrun

private theorem forUp (body : ℕ → SortM σ α PUnit) (inv : ℕ → List α → Prop) {a n : ℕ}
    (hbody : ∀ i l, a ≤ i → i < a + n → inv i l → Runs (body i) l fun _ l' => inv (i + 1) l')
    (hl : inv a l) : Runs ((List.range' a n).forM body) l fun _ l' => inv (a + n) l' := by
  induction n generalizing a l with
  | zero => exact pure hl
  | succ n ih =>
    rw [List.range'_succ]
    refine (hbody a l (Nat.le_refl a) (by omega) hl).bind ?_
    intro _ l' hl'
    have hrest := ih (a := a + 1) (fun i l hi hlt => hbody i l (by omega) (by omega)) hl'
    rw [show a + (n + 1) = a + 1 + n by omega]
    exact hrest

private theorem forDown (body : ℕ → SortM σ α PUnit) (inv : ℕ → List α → Prop) {n : ℕ}
    (hbody : ∀ i l, i < n → inv (i + 1) l → Runs (body i) l fun _ l' => inv i l')
    (hl : inv n l) : Runs ((List.range n).reverse.forM body) l fun _ l' => inv 0 l' := by
  induction n generalizing l with
  | zero => exact pure hl
  | succ n ih =>
    rw [List.range_succ, List.reverse_concat]
    refine (hbody n l (Nat.lt_succ_self n) hl).bind ?_
    intro _ l' hl'
    exact ih (fun i l hi => hbody i l (by omega)) hl'

end Runs

open Runs

/-! Comparing and exchanging. -/

/-- Whatever the closure has captured, it answers as `lt` does, and `lt` is a strict weak order. -/
structure Comparison (cmp : σ → α → α → Bool × σ) (lt : α → α → Bool) : Prop where
  answer : ∀ c x y, (cmp c x y).1 = lt x y
  order : IsStrictWeakOrder α fun x y => lt x y = true

def NotAfter (lt : α → α → Bool) (x y : α) : Prop := lt y x = false

variable {cmp : σ → α → α → Bool × σ} {lt : α → α → Bool} {l : List α}

private theorem Comparison.refl (h : Comparison cmp lt) (x : α) : NotAfter lt x x := by
  have := h.order
  exact Bool.eq_false_iff.mpr (irrefl_of (fun x y => lt x y = true) x)

private theorem Comparison.of_lt (h : Comparison cmp lt) {x y : α} (hlt : lt x y = true) :
    NotAfter lt x y := by
  have := h.order
  exact Bool.eq_false_iff.mpr fun hgt =>
    irrefl_of (fun x y => lt x y = true) x (trans_of (fun x y => lt x y = true) hlt hgt)

private theorem Comparison.trans (h : Comparison cmp lt) (x y z : α) (hxy : NotAfter lt x y)
    (hyz : NotAfter lt y z) : NotAfter lt x z := by
  have hw := h.order
  have hyx : ¬lt y x = true := Bool.eq_false_iff.mp hxy
  have hzy : ¬lt z y = true := Bool.eq_false_iff.mp hyz
  apply Bool.eq_false_iff.mpr
  intro hzx
  have hnot : ¬lt x y = true := fun hlt => hzy (hw.trans z x y hzx hlt)
  have hnot' : ¬lt y z = true := fun hlt => hyx (hw.trans y z x hlt hzx)
  exact (hw.incomp_trans x y z ⟨hnot, hyx⟩ ⟨hnot', hzy⟩).2 hzx

private theorem less_runs (h : Comparison cmp lt) {i j : ℕ} {x y : α} (hx : l[i]? = some x)
    (hy : l[j]? = some y) {f : Bool → SortM σ α β} {Q : β → List α → Prop}
    (hf : Runs (f (lt x y)) l Q) : Runs (less cmp i j >>= f) l Q := by
  intro c
  obtain ⟨z, s, hrun, hz⟩ := hf (cmp c x y).2
  have hless : less cmp i j ⟨l, c⟩ = some (lt x y, ⟨l, (cmp c x y).2⟩) := by
    unfold less
    rw [hx, hy, ← h.answer c x y]
  refine ⟨z, s, ?_, hz⟩
  rw [bind_of_eq hless]
  exact hrun

private theorem swap_runs {i j : ℕ} (hi : i < l.length) (hj : j < l.length)
    {f : PUnit → SortM σ α β}
    {Q : β → List α → Prop} (hf : Runs (f ⟨⟩) (exchange l i j) Q) : Runs (swap i j >>= f) l Q := by
  intro c
  obtain ⟨z, s, hrun, hz⟩ := hf c
  refine ⟨z, s, ?_, hz⟩
  rw [bind_of_eq (swap_data hi hj)]
  exact hrun

/-! Insertion sort. -/

private theorem insertDown_runs (h : Comparison cmp lt) {a j : ℕ} (haj : a ≤ j) (hj : j < l.length)
    (hs : SortedIn (NotAfter lt) l a j) :
    Runs (insertDown cmp a j) l fun _ l' =>
      Within a (j + 1) l' l ∧ SortedIn (NotAfter lt) l' a (j + 1) := by
  induction j generalizing l with
  | zero => exact pure ⟨Within.refl _ _ _, sortedIn_short (by omega)⟩
  | succ j ih =>
    unfold insertDown
    refine ite ?_ fun hle => pure ⟨Within.refl _ _ _, sortedIn_short (by omega)⟩
    intro hgt
    have hx := List.getElem?_eq_getElem hj
    have hy := List.getElem?_eq_getElem (show j < l.length by omega)
    refine less_runs h hx hy (ite (fun hlt => swap_runs hj (by omega) ?_) ?_)
    · have hpair : Within j (j + 1 + 1) (exchange l (j + 1) j) l :=
        Within.exchange hj (by omega) (by omega) (by omega)
      have hwithin : Within a (j + 1 + 1) (exchange l (j + 1) j) l :=
        hpair.mono (by omega) (Nat.le_refl _)
      have hs' : SortedIn (NotAfter lt) (exchange l (j + 1) j) a j :=
        hpair.sortedIn_of (.inl (Nat.le_refl j)) (hs.mono (Nat.le_refl a) (by omega))
      refine (ih (by omega) (by rw [hwithin.length_eq]; omega) hs').mono ?_
      intro _ l' hl'
      exact ⟨(hl'.1.mono (Nat.le_refl a) (by omega)).trans hwithin,
        hs.insert h.refl hj hy hx (h.of_lt hlt) hl'.1 hl'.2⟩
    · intro hnot
      exact pure ⟨Within.refl _ _ _, hs.extend h.refl h.trans hy hx (Bool.eq_false_iff.mpr hnot)⟩

private theorem insertionSortFunc_runs (h : Comparison cmp lt) {a b : ℕ} (hab : a ≤ b)
    (hb : b ≤ l.length) : Runs (insertionSortFunc cmp a b) l fun _ l' =>
      Within a b l' l ∧ SortedIn (NotAfter lt) l' a b := by
  unfold insertionSortFunc
  by_cases hlt : a < b
  · have hloop := forUp (l := l) (fun i => insertDown cmp a i) (a := a + 1)
      (n := b - (a + 1)) (fun i l' => Within a b l' l ∧ SortedIn (NotAfter lt) l' a i)
      (fun i l' hi hlt hl' => ?_) ⟨Within.refl _ _ _, sortedIn_short (Nat.le_refl _)⟩
    · rwa [show a + 1 + (b - (a + 1)) = b by omega] at hloop
    · have hlength := hl'.1.length_eq
      refine (insertDown_runs h (by omega) (by omega) hl'.2).mono ?_
      intro _ l'' hl''
      exact ⟨(hl''.1.mono (Nat.le_refl a) (by omega)).trans hl'.1, hl''.2⟩
  · rw [show b - (a + 1) = 0 by omega]
    exact pure ⟨Within.refl _ _ _, sortedIn_short (by omega)⟩

/-! Heapsort. -/

private theorem sink_runs (h : Comparison cmp lt) {first low root c hi : ℕ} (hlow : low ≤ root)
    (hc : ChildOf root c) (hlt : c < hi) (hfit : first + hi ≤ l.length) {y : α}
    (hy : l[first + c]? = some y) (hheap : HeapBut (NotAfter lt) l first low hi root)
    (hother : ∀ d z, ChildOf root d → d < hi → l[first + d]? = some z → NotAfter lt z y)
    (ih : HeapBut (NotAfter lt) (exchange l (first + root) (first + c)) first low hi c →
      Runs (siftDownFunc cmp c hi first) (exchange l (first + root) (first + c)) fun _ l' =>
        Within first (first + hi) l' (exchange l (first + root) (first + c)) ∧
          HeapIn (NotAfter lt) l' first low hi) :
    Runs (do
      if ← less cmp (first + root) (first + c) then
        swap (first + root) (first + c)
        siftDownFunc cmp c hi first) l fun _ l' =>
      Within first (first + hi) l' l ∧ HeapIn (NotAfter lt) l' first low hi := by
  have hgt : root < c := by
    unfold ChildOf at hc
    omega
  have hx := List.getElem?_eq_getElem (show first + root < l.length by omega)
  refine less_runs h hx hy (ite ?_ ?_)
  · intro hless
    refine swap_runs (by omega) (by omega) ?_
    refine (ih (hheap.sink hc hlt hfit hx hy (h.of_lt hless) hother)).mono ?_
    intro _ l' hl'
    exact ⟨hl'.1.trans (Within.exchange (by omega) (by omega) (by omega) (by omega)), hl'.2⟩
  · intro hnot
    refine pure ⟨Within.refl _ _ _, hheap.done ?_⟩
    intro d x z hd hdlt hx' hz
    obtain rfl := Option.some.inj (hx.symm.trans hx')
    exact h.trans z y _ (hother d z hd hdlt hz) (Bool.eq_false_iff.mpr hnot)

private theorem siftDownFunc_runs (h : Comparison cmp lt) {first low hi : ℕ} (root : ℕ)
    (hlow : low ≤ root) (hfit : first + hi ≤ l.length)
    (hheap : HeapBut (NotAfter lt) l first low hi root) :
    Runs (siftDownFunc cmp root hi first) l fun _ l' =>
      Within first (first + hi) l' l ∧ HeapIn (NotAfter lt) l' first low hi := by
  induction hm : hi - root using Nat.strongRecOn generalizing root l with
  | ind m ih =>
    rw [siftDownFunc]
    refine ite ?_ ?_
    · intro hchild
      have hsink : ∀ c, ChildOf root c → c < hi → ∀ y, l[first + c]? = some y →
          (∀ d z, ChildOf root d → d < hi → l[first + d]? = some z → NotAfter lt z y) →
          Runs (do
            if ← less cmp (first + root) (first + c) then
              swap (first + root) (first + c)
              siftDownFunc cmp c hi first) l fun _ l' =>
            Within first (first + hi) l' l ∧ HeapIn (NotAfter lt) l' first low hi := by
        intro c hc hlt y hy hother
        have hgt : root < c := by
          unfold ChildOf at hc
          omega
        apply sink_runs h hlow hc hlt hfit hy hheap hother
        intro hbut
        have hwithin : Within first (first + hi) (exchange l (first + root) (first + c)) l :=
          Within.exchange (by omega) (by omega) (by omega) (by omega)
        have hlength := hwithin.length_eq
        exact ih (hi - c) (by omega) c (by omega) (by omega) hbut rfl
      have hx1 := List.getElem?_eq_getElem (show first + (2 * root + 1) < l.length by omega)
      refine ite ?_ ?_
      · intro htwo
        have hx2 := List.getElem?_eq_getElem (show first + (2 * root + 2) < l.length by omega)
        refine less_runs h hx1 hx2 (ite ?_ ?_)
        · intro hless
          refine hsink _ (.inr rfl) htwo _ hx2 ?_
          intro d z hd hdlt hz
          rcases hd with rfl | rfl
          · obtain rfl := Option.some.inj (hx1.symm.trans hz)
            exact h.of_lt hless
          · obtain rfl := Option.some.inj (hx2.symm.trans hz)
            exact h.refl _
        · intro hnot
          refine hsink _ (.inl rfl) hchild _ hx1 ?_
          intro d z hd hdlt hz
          rcases hd with rfl | rfl
          · obtain rfl := Option.some.inj (hx1.symm.trans hz)
            exact h.refl _
          · obtain rfl := Option.some.inj (hx2.symm.trans hz)
            exact Bool.eq_false_iff.mpr hnot
      · intro hone
        refine afterPure (ite (fun hc => absurd hc Bool.false_ne_true) ?_)
        intro _
        refine hsink _ (.inl rfl) hchild _ hx1 ?_
        intro d z hd hdlt hz
        rcases hd with rfl | rfl
        · obtain rfl := Option.some.inj (hx1.symm.trans hz)
          exact h.refl _
        · exact absurd hdlt hone
    · intro hleaf
      refine pure ⟨Within.refl _ _ _, hheap.done ?_⟩
      intro c x y hc hlt
      unfold ChildOf at hc
      omega

/-- The state of heapsort with `i` elements left: they are a heap, none of them is after one of the
others, and the others are in order. -/
structure HeapLeft (lt : α → α → Bool) (l₀ : List α) (a b i : ℕ) (l : List α) : Prop where
  within : Within a b l l₀
  heap : HeapIn (NotAfter lt) l a 0 i
  below : BelowIn (NotAfter lt) l a (a + i) (a + i) b
  sorted : SortedIn (NotAfter lt) l (a + i) b

private theorem HeapLeft.next (h : Comparison cmp lt) {l₀ : List α} {a b i : ℕ} (hb : b ≤ l₀.length)
    (hi : a + i < b) (hl : HeapLeft lt l₀ a b (i + 1) l) :
    Runs (do
      swap a (a + i)
      siftDownFunc cmp 0 i a) l fun _ l' => HeapLeft lt l₀ a b i l' := by
  obtain ⟨hwithin, hheap, hbelow, hsorted⟩ := hl
  have hlength := hwithin.length_eq
  have htop := List.getElem?_eq_getElem (show a < l.length by omega)
  have hlast := List.getElem?_eq_getElem (show a + i < l.length by omega)
  have hget := getElem?_exchange (l := l) (i := a) (j := a + i) (by omega) (by omega)
  have hall := hheap.le_top h.refl h.trans (by omega) htop
  refine swap_runs (by omega) (by omega) ?_
  have hchange : Within a (a + (i + 1)) (exchange l a (a + i)) l :=
    Within.exchange (by omega) (by omega) (by omega) (by omega)
  set l1 := exchange l a (a + i) with hl1
  -- the greatest element stands behind the heap now
  have hgreatest : l1[a + i]? = l[a]? := by rw [hget, if_pos rfl]
  have hbelow1 : BelowIn (NotAfter lt) l1 a (a + (i + 1)) (a + (i + 1)) b :=
    hchange.belowIn_of (.inl ⟨Nat.le_refl _, Nat.le_refl _⟩) (.inr (.inr (Nat.le_refl _))) hbelow
  have hall1 : AllIn (fun x => NotAfter lt x l[a]) l1 a (a + (i + 1)) := hchange.allIn hall
  have hbut : HeapBut (NotAfter lt) l1 a 0 i 0 := by
    constructor
    · intro k c x y _ hk hc hlt hx hy
      have hkc : k ≠ 0 ∧ c ≠ 0 ∧ k < i := by
        unfold ChildOf at hc
        omega
      rw [hget, if_neg (by omega), if_neg (by omega)] at hx hy
      exact hheap k c x y (Nat.zero_le _) hc (by omega) hx hy
    · intro g c x y _ hg
      unfold ChildOf at hg
      omega
  have hlength1 := hchange.length_eq
  refine (siftDownFunc_runs h 0 (Nat.le_refl 0) (by omega) hbut).mono ?_
  intro _ l' hl'
  obtain ⟨hsift, hheap'⟩ := hl'
  have hgreatest' : l'[a + i]? = some l[a] := by
    rw [hsift.out (a + i) (.inr (Nat.le_refl _)), hgreatest, htop]
  refine ⟨(hsift.mono (Nat.le_refl a) (by omega)).trans ((hchange.mono (Nat.le_refl a)
    (by omega)).trans hwithin), hheap', ?_, ?_⟩
  · intro k x hk hk' hx
    have hxtop : NotAfter lt x l[a] := hsift.allIn (hall1.mono (Nat.le_refl a) (by omega)) k x hk hk' hx
    have hbelow' : BelowIn (NotAfter lt) l' a (a + (i + 1)) (a + (i + 1)) b :=
      hsift.belowIn_of (.inl ⟨Nat.le_refl _, by omega⟩) (.inr (.inr (by omega))) hbelow1
    refine AllIn.cons (hbelow' k x hk (by omega) hx) ?_
    intro y hy
    rw [hgreatest'] at hy
    obtain rfl := Option.some.inj hy
    exact hxtop
  · have hsorted' : SortedIn (NotAfter lt) l' (a + (i + 1)) b :=
      hsift.sortedIn_of (.inr (by omega)) (hchange.sortedIn_of (.inr (Nat.le_refl _)) hsorted)
    have hbelow' : BelowIn (NotAfter lt) l' a (a + (i + 1)) (a + (i + 1)) b :=
      hsift.belowIn_of (.inl ⟨Nat.le_refl _, by omega⟩) (.inr (.inr (by omega))) hbelow1
    exact (sortedIn_short (by omega)).append hsorted'
      (hbelow'.mono (by omega) (Nat.le_refl _) (Nat.le_refl _) (Nat.le_refl _))

private theorem heapSortFunc_runs (h : Comparison cmp lt) {a b : ℕ} (hlong : a < b)
    (hb : b ≤ l.length) : Runs (heapSortFunc cmp a b) l fun _ l' =>
      Within a b l' l ∧ SortedIn (NotAfter lt) l' a b := by
  unfold heapSortFunc
  refine afterSub (Nat.le_of_lt hlong) (afterSub (by omega) ?_)
  have hbuild := forDown (l := l) (fun i => siftDownFunc cmp i (b - a) a)
    (n := (b - a - 1) / 2 + 1)
    (fun i l' => Within a b l' l ∧ HeapIn (NotAfter lt) l' a i (b - a)) (fun i l' hi hl' => ?_)
    ⟨Within.refl _ _ _, fun k c x y hk hc hlt => ?_⟩
  · apply Runs.bind hbuild
    intro _ l' hl'
    have hpop := forDown (l := l') (fun i => (do
      swap a (a + i)
      siftDownFunc cmp 0 i a : SortM σ α PUnit)) (n := b - a) (HeapLeft lt l a b)
      (fun i l'' hi hl'' => HeapLeft.next h hb (by omega) hl'') ⟨hl'.1, hl'.2, ?_, ?_⟩
    · refine hpop.mono fun _ l'' hl'' => ⟨hl''.within, ?_⟩
      exact hl''.sorted
    · intro k x hk hk' hx
      exact allIn_empty (by omega)
    · exact sortedIn_short (by omega)
  · have hlength := hl'.1.length_eq
    refine (siftDownFunc_runs h i (Nat.le_refl i) (by omega) hl'.2.but).mono ?_
    intro _ l'' hl''
    exact ⟨(hl''.1.mono (Nat.le_refl a) (by omega)).trans hl'.1, hl''.2⟩
  · unfold ChildOf at hc
    omega

/-! Partitioning: the elements with a property in front of those without it. -/

def Tests (test : ℕ → SortM σ α Bool) (q : α → Prop) (l : List α) : Prop :=
  ∀ i x, l[i]? = some x → Runs (test i) l fun b l' => l' = l ∧ (b = true ↔ q x)

private theorem less_tests (h : Comparison cmp lt) {a : ℕ} {p : α} (hp : l[a]? = some p) :
    Tests (fun i => less cmp i a) (fun x => lt x p = true) l := by
  intro i x hx c
  refine ⟨lt x p, ⟨l, (cmp c x p).2⟩, ?_, rfl, Iff.rfl⟩
  dsimp only [less]
  rw [hx, hp, ← h.answer c x p]

private theorem greater_tests (h : Comparison cmp lt) {a : ℕ} {p : α} (hp : l[a]? = some p) :
    Tests (fun i => less cmp a i) (fun x => lt p x = true) l := by
  intro i x hx c
  refine ⟨lt p x, ⟨l, (cmp c p x).2⟩, ?_, rfl, Iff.rfl⟩
  dsimp only [less]
  rw [hp, hx, ← h.answer c p x]

private theorem Tests.negate {test : ℕ → SortM σ α Bool} {q : α → Prop} (h : Tests test q l) :
    Tests (fun i => (! ·) <$> test i) (fun x => ¬q x) l := by
  intro i x hx
  refine (h i x hx).bind fun b l' hb => pure ⟨hb.1, ?_⟩
  dsimp only
  rw [← hb.2]
  cases b <;> simp

private theorem scanUp_runs {test : ℕ → SortM σ α Bool} {q : α → Prop} (htest : Tests test q l)
    (i : ℕ) {j : ℕ} (hj : j < l.length) :
    Runs (scanUp test i j) l fun i' l' => l' = l ∧ i ≤ i' ∧ (i' ≤ j + 1 ∨ i' = i) ∧ AllIn q l i i' ∧
      (i' ≤ j → AllIn (fun x => ¬q x) l i' (i' + 1)) := by
  induction i using scanUp.induct j with
  | case1 i hij ih =>
    rw [scanUp, if_pos hij]
    have hx := List.getElem?_eq_getElem (show i < l.length by omega)
    refine (htest i _ hx).bind ?_
    rintro b l' ⟨hl, hb⟩
    rw [hl]
    refine ite ?_ ?_
    · intro htrue
      refine ih.mono fun i' l'' hi' => ⟨hi'.1, by omega, by omega, ?_, hi'.2.2.2.2⟩
      apply hi'.2.2.2.1.cons
      intro x hx'
      obtain rfl := Option.some.inj (hx.symm.trans hx')
      exact hb.mp htrue
    · intro hfalse
      refine pure ⟨rfl, Nat.le_refl i, .inr rfl, allIn_empty (Nat.le_refl i), ?_⟩
      intro _
      refine AllIn.cons (allIn_empty (Nat.le_refl _)) ?_
      intro x hx'
      obtain rfl := Option.some.inj (hx.symm.trans hx')
      intro hq
      exact hfalse (hb.mpr hq)
  | case2 i hij =>
    rw [scanUp, if_neg hij]
    exact pure ⟨rfl, Nat.le_refl i, .inr rfl, allIn_empty (Nat.le_refl i), fun hc => absurd hc hij⟩

private theorem scanDown_runs {test : ℕ → SortM σ α Bool} {q : α → Prop}
    (htest : Tests test (fun x => ¬q x) l) {i j : ℕ} (hi : 0 < i) (hj : j < l.length) :
    Runs (scanDown test i j) l fun j' l' => l' = l ∧ j' ≤ j ∧ (i ≤ j' + 1 ∨ j' = j) ∧
      AllIn (fun x => ¬q x) l (j' + 1) (j + 1) ∧ (i ≤ j' → AllIn q l j' (j' + 1)) := by
  induction j with
  | zero =>
    unfold scanDown
    rw [if_neg (by omega)]
    exact pure ⟨rfl, Nat.le_refl 0, .inr rfl, allIn_empty (Nat.le_refl _), fun hc => by omega⟩
  | succ j ih =>
    unfold scanDown
    refine ite ?_ fun hij =>
      pure ⟨rfl, Nat.le_refl _, .inr rfl, allIn_empty (Nat.le_refl _), fun hc => absurd hc hij⟩
    intro hij
    have hx := List.getElem?_eq_getElem hj
    refine (htest (j + 1) _ hx).bind ?_
    rintro b l' ⟨hl, hb⟩
    rw [hl]
    refine ite ?_ ?_
    · intro htrue
      refine (ih (by omega)).mono fun j' l'' hj' => ⟨hj'.1, by omega, by omega, ?_, hj'.2.2.2.2⟩
      apply hj'.2.2.2.1.snoc
      intro x hx'
      obtain rfl := Option.some.inj (hx.symm.trans hx')
      exact hb.mp htrue
    · intro hfalse
      refine pure ⟨rfl, Nat.le_refl _, .inr rfl, allIn_empty (Nat.le_refl _), ?_⟩
      intro _
      refine AllIn.cons (allIn_empty (Nat.le_refl _)) ?_
      intro x hx'
      obtain rfl := Option.some.inj (hx.symm.trans hx')
      by_contra hq
      exact hfalse (hb.mpr hq)

/-- Between `lo` and `i` the elements have the property, and behind `j` up to `b` they have not. -/
structure Parted (q : α → Prop) (lo b : ℕ) (l : List α) (i j : ℕ) : Prop where
  front : AllIn q l lo i
  back : AllIn (fun x => ¬q x) l (j + 1) b

private theorem scans_run {up down : ℕ → SortM σ α Bool} {q : α → Prop} (hup : Tests up q l)
    (hdown : Tests down (fun x => ¬q x) l) {lo b i j : ℕ} (hi : 0 < i)
    (hij : i ≤ j + 1) (hjb : j < b) (hb : b ≤ l.length) (hl : Parted q lo b l i j)
    {f : ℕ → ℕ → SortM σ α β} {Q : β → List α → Prop}
    (hcross : ∀ i' j', i' = j' + 1 → i ≤ i' → i' ≤ b → Parted q lo b l i' j' → Runs (f i' j') l Q)
    (hwrong : ∀ i' j', i' < j' → i ≤ i' → j' ≤ j → Parted q lo b l i' j' →
      AllIn (fun x => ¬q x) l i' (i' + 1) → AllIn q l j' (j' + 1) → Runs (f i' j') l Q) :
    Runs (do
      let i ← scanUp up i j
      let j ← scanDown down i j
      f i j) l Q := by
  obtain ⟨hfront, hback⟩ := hl
  refine (scanUp_runs hup i (by omega)).bind ?_
  rintro i' l' ⟨hl, hle, hrange, hall, hstop⟩
  rw [hl]
  refine (scanDown_runs hdown (show 0 < i' by omega) (by omega)).bind ?_
  rintro j' l'' ⟨hl', hle', hrange', hall', hstop'⟩
  rw [hl']
  have hparted : Parted q lo b l i' j' := by
    refine ⟨hfront.append hall, ?_⟩
    exact AllIn.append (hall'.mono (Nat.le_refl _) (Nat.le_refl (j + 1))) hback
  by_cases hcrossed : j' < i'
  · exact hcross i' j' (by omega) hle (by omega) hparted
  · have hno := hstop (by omega)
    have hyes := hstop' (by omega)
    have hne : i' ≠ j' := by
      rintro rfl
      have hx := List.getElem?_eq_getElem (show i' < l.length by omega)
      exact hno i' _ (Nat.le_refl _) (Nat.lt_succ_self _) hx
        (hyes i' _ (Nat.le_refl _) (Nat.lt_succ_self _) hx)
    exact hwrong i' j' (by omega) hle hle' hparted hno hyes

private theorem Parted.exchange {q : α → Prop} {lo b i j : ℕ} (h : Parted q lo b l i j)
    (hij : i < j) (hjb : j < b) (hb : b ≤ l.length) (hno : AllIn (fun x => ¬q x) l i (i + 1))
    (hyes : AllIn q l j (j + 1)) : Parted q lo b (exchange l i j) (i + 1) (j - 1) := by
  have hget := getElem?_exchange (l := l) (i := i) (j := j) (by omega) (by omega)
  have hout : Within i (j + 1) (Lib.exchange l i j) l :=
    Within.exchange (by omega) (by omega) (by omega) (by omega)
  constructor
  · apply AllIn.snoc (hout.allIn_of (.inr (.inl (Nat.le_refl i))) h.front)
    intro x hx
    rw [hget, if_neg (by omega), if_pos rfl] at hx
    exact hyes j x (Nat.le_refl j) (Nat.lt_succ_self j) hx
  · rw [Nat.sub_add_cancel (by omega)]
    refine AllIn.cons (hout.allIn_of (.inr (.inr (Nat.le_refl _))) h.back) ?_
    intro x hx
    rw [hget, if_pos rfl] at hx
    exact hno i x (Nat.le_refl i) (Nat.lt_succ_self i) hx

private theorem partitionLoop_runs {up down : ℕ → SortM σ α Bool} {q : α → Prop} {a b : ℕ} {p : α}
    (hup : ∀ l, l[a]? = some p → Tests up q l)
    (hdown : ∀ l, l[a]? = some p → Tests down (fun x => ¬q x) l) {fuel i j : ℕ} (hi : a < i)
    (hij : i ≤ j + 1) (hjb : j < b) (hb : b ≤ l.length) (hfuel : j + 1 - i < fuel)
    (hp : l[a]? = some p) (hl : Parted q (a + 1) b l i j) :
    Runs (partitionLoop up down fuel i j) l fun r l' => Within (a + 1) b l' l ∧ r.1 = r.2 + 1 ∧
      a < r.1 ∧ r.1 ≤ b ∧ Parted q (a + 1) b l' r.1 r.2 := by
  induction fuel generalizing i j l with
  | zero => omega
  | succ fuel ih =>
    unfold partitionLoop
    refine scans_run (hup l hp) (hdown l hp) (by omega) hij hjb hb hl ?_ ?_
    · intro i' j' hij' hle hleb hparted
      rw [if_pos (by omega)]
      exact pure ⟨Within.refl _ _ _, hij', by omega, hleb, hparted⟩
    · intro i' j' hij' hle hle' hparted hno hyes
      rw [if_neg (by omega)]
      refine swap_runs (by omega) (by omega) (afterSub (by omega) ?_)
      have hwithin : Within (a + 1) b (Lib.exchange l i' j') l :=
        Within.exchange (by omega) (by omega) (by omega) (by omega)
      refine (ih (by omega) (by omega) (by omega) (by rw [hwithin.length_eq]; exact hb) (by omega)
        ((hwithin.out a (.inl (Nat.lt_succ_self a))).trans hp)
        (hparted.exchange hij' (by omega) hb hno hyes)).mono ?_
      intro r l' hr
      exact ⟨hr.1.trans hwithin, hr.2⟩

structure Split (lt : α → α → Bool) (a b mid : ℕ) (p : α) (l : List α) : Prop where
  pivot : l[mid]? = some p
  left : AllIn (fun x => lt x p = true) l a mid
  right : AllIn (fun x => ¬lt x p = true) l (mid + 1) b

private theorem Parted.split {a b j : ℕ} {p : α} (hp : l[a]? = some p) (haj : a ≤ j) (hjb : j < b)
    (hb : b ≤ l.length) (h : Parted (fun x => lt x p = true) (a + 1) b l (j + 1) j) :
    Split lt a b j p (Lib.exchange l j a) := by
  have hget := getElem?_exchange (l := l) (i := j) (j := a) (by omega) (by omega)
  have hout : Within a (j + 1) (Lib.exchange l j a) l :=
    Within.exchange (by omega) (by omega) (by omega) (by omega)
  refine ⟨?_, ?_, hout.allIn_of (.inr (.inr (Nat.le_refl _))) h.back⟩
  · rw [getElem?_exchange_left (by omega) (by omega), hp]
  · intro k x hk hk' hx
    rw [hget] at hx
    by_cases hka : k = a
    · rw [if_pos hka] at hx
      exact h.front j x (by omega) (Nat.lt_succ_self j) hx
    · rw [if_neg hka, if_neg (by omega)] at hx
      exact h.front k x (by omega) (by omega) hx

private theorem partitionFunc_runs (h : Comparison cmp lt) {a b pivot : ℕ} (hb : b ≤ l.length)
    (hab : a + 1 < b) (hpivot : a ≤ pivot ∧ pivot < b) :
    Runs (partitionFunc cmp a b pivot) l fun r l' => Within a b l' l ∧ (a ≤ r.1 ∧ r.1 < b) ∧
      ∃ p, Split lt a b r.1 p l' := by
  obtain ⟨p, hp⟩ : ∃ p, l[pivot]? = some p := ⟨_, List.getElem?_eq_getElem (by omega)⟩
  unfold partitionFunc
  refine swap_runs (by omega) (by omega) (afterSub (by omega) ?_)
  have hwithin : Within a b (Lib.exchange l a pivot) l :=
    Within.exchange (by omega) (by omega) (by omega) (by omega)
  have hp1 : (Lib.exchange l a pivot)[a]? = some p := by
    rw [getElem?_exchange_left (by omega) (by omega), hp]
  set l1 := Lib.exchange l a pivot with hl1
  have hb1 : b ≤ l1.length := by
    rw [hwithin.length_eq]
    exact hb
  have hup : ∀ l : List α, l[a]? = some p → Tests (fun i => less cmp i a)
      (fun x => lt x p = true) l := fun l hl => less_tests h hl
  have hparted : Parted (fun x => lt x p = true) (a + 1) b l1 (a + 1) (b - 1) :=
    ⟨allIn_empty (Nat.le_refl _), allIn_empty (by omega)⟩
  -- what both ways out of the scans come to
  have hfinish : ∀ l2 j, Within (a + 1) b l2 l1 → a ≤ j → j < b →
      Parted (fun x => lt x p = true) (a + 1) b l2 (j + 1) j → ∀ already,
      Runs (do
        swap j a
        return (j, already) : SortM σ α (ℕ × Bool)) l2 fun r l' => Within a b l' l ∧
          (a ≤ r.1 ∧ r.1 < b) ∧ ∃ p, Split lt a b r.1 p l' := by
    intro l2 j hw haj hjb hpart already
    have hb2 : b ≤ l2.length := by
      rw [hw.length_eq]
      exact hb1
    refine swap_runs (by omega) (by omega) (pure ⟨?_, ⟨haj, hjb⟩, p, ?_⟩)
    · have hlast : Within a b (Lib.exchange l2 j a) l2 :=
        Within.exchange (by omega) (by omega) (by omega) (by omega)
      exact hlast.trans ((hw.mono (by omega) (Nat.le_refl b)).trans hwithin)
    · exact Parted.split ((hw.out a (.inl (Nat.lt_succ_self a))).trans hp1) haj hjb hb2 hpart
  refine scans_run (hup l1 hp1) (hup l1 hp1).negate (by omega) (by omega) (by omega) hb1 hparted
    ?_ ?_
  · intro i' j' hij' hle hleb hpart
    rw [if_pos (by omega)]
    subst hij'
    exact hfinish l1 j' (Within.refl _ _ _) (by omega) (by omega) hpart true
  · intro i' j' hij' hle hle' hpart hno hyes
    rw [if_neg (by omega)]
    refine swap_runs (by omega) (by omega) (afterSub (by omega) ?_)
    have hw2 : Within (a + 1) b (Lib.exchange l1 i' j') l1 :=
      Within.exchange (by omega) (by omega) (by omega) (by omega)
    refine (partitionLoop_runs hup (fun l hl => (hup l hl).negate) (by omega) (by omega) (by omega)
      (by rw [hw2.length_eq]; exact hb1) (by omega)
      ((hw2.out a (.inl (Nat.lt_succ_self a))).trans hp1)
      (hpart.exchange hij' (by omega) hb1 hno hyes)).bind ?_
    rintro ⟨i'', j''⟩ l3 ⟨hw3, heq, hgt, hleb, hpart3⟩
    dsimp only at heq hgt hleb hpart3
    subst heq
    exact hfinish l3 j'' (hw3.trans hw2) (by omega) (by omega) hpart3 false

private theorem Tests.congr {test : ℕ → SortM σ α Bool} {q q' : α → Prop} (h : Tests test q l)
    (hq : ∀ x, q x ↔ q' x) : Tests test q' l := by
  intro i x hx
  exact (h i x hx).mono fun b l' hb => ⟨hb.1, hb.2.trans (hq x)⟩

private theorem partitionEqualFunc_runs (h : Comparison cmp lt) {a b pivot : ℕ} {p : α}
    (hb : b ≤ l.length) (hpivot : a ≤ pivot ∧ pivot < b) (hp : l[pivot]? = some p) :
    Runs (partitionEqualFunc cmp a b pivot) l fun mid l' => Within a b l' l ∧ (a < mid ∧ mid ≤ b) ∧
      AllIn (fun x => NotAfter lt x p) l' a mid ∧ AllIn (fun x => NotAfter lt p x) l' mid b := by
  unfold partitionEqualFunc
  refine swap_runs (by omega) (by omega) (afterSub (by omega) ?_)
  have hwithin : Within a b (Lib.exchange l a pivot) l :=
    Within.exchange (by omega) (by omega) (by omega) (by omega)
  have hp1 : (Lib.exchange l a pivot)[a]? = some p := by
    rw [getElem?_exchange_left (by omega) (by omega), hp]
  have hb1 : b ≤ (Lib.exchange l a pivot).length := by
    rw [hwithin.length_eq]
    exact hb
  have hup : ∀ l : List α, l[a]? = some p → Tests (fun i => (! ·) <$> less cmp a i)
      (fun x => NotAfter lt x p) l := fun l hl =>
    (greater_tests h hl).negate.congr fun x => Bool.not_eq_true (lt p x) ▸ Iff.rfl
  have hdown : ∀ l : List α, l[a]? = some p → Tests (fun j => less cmp a j)
      (fun x => ¬NotAfter lt x p) l := fun l hl =>
    (greater_tests h hl).congr fun x => Bool.not_eq_false (lt p x) ▸ Iff.rfl
  refine (partitionLoop_runs hup hdown (Nat.lt_succ_self a) (by omega) (by omega) hb1 (by omega) hp1
    ⟨allIn_empty (Nat.le_refl _), allIn_empty (by omega)⟩).bind ?_
  rintro ⟨mid, j⟩ l' ⟨hw, heq, hgt, hle, hpart⟩
  dsimp only at heq hgt hle hpart
  refine pure ⟨(hw.mono (Nat.le_succ a) (Nat.le_refl b)).trans hwithin, ⟨hgt, hle⟩, ?_, ?_⟩
  · apply hpart.front.cons
    intro x hx
    rw [hw.out a (.inl (Nat.lt_succ_self a)), hp1] at hx
    obtain rfl := Option.some.inj hx
    exact h.refl p
  · have hback := hpart.back
    rw [← heq] at hback
    exact hback.imp fun x hx => h.of_lt (Bool.of_not_eq_false hx)

/-! Shifting the few elements that stand wrong. -/

private theorem skipOrdered_runs (h : Comparison cmp lt) {a b : ℕ} (hb : b ≤ l.length) (i : ℕ)
    (ha : a < i) (hib : i ≤ b) (hs : SortedIn (NotAfter lt) l a i) :
    Runs (skipOrdered cmp i b) l fun i' l' =>
      l' = l ∧ (a < i' ∧ i' ≤ b) ∧ SortedIn (NotAfter lt) l' a i' := by
  induction i using skipOrdered.induct b with
  | case1 i hlt ih =>
    obtain ⟨k, rfl⟩ : ∃ k, i = k + 1 := ⟨i - 1, by omega⟩
    rw [skipOrdered, if_pos hlt]
    refine afterSub (by omega) ?_
    have hx := List.getElem?_eq_getElem (show k + 1 < l.length by omega)
    have hy := List.getElem?_eq_getElem (show k < l.length by omega)
    refine less_runs h hx hy (ite ?_ ?_)
    · intro _
      exact pure ⟨rfl, ⟨ha, hib⟩, hs⟩
    · intro hnot
      exact ih (by omega) hlt (hs.extend h.refl h.trans hy hx (Bool.eq_false_iff.mpr hnot))
  | case2 i hnot =>
    rw [skipOrdered, if_neg hnot]
    exact pure ⟨rfl, ⟨ha, hib⟩, hs⟩

private theorem shiftLeft_runs (h : Comparison cmp lt) {a j : ℕ} (haj : a ≤ j) (hj : j < l.length)
    (hbelow : BelowIn (NotAfter lt) l 0 a a (j + 1)) (hs : SortedIn (NotAfter lt) l a j) :
    Runs (shiftLeft cmp j) l fun _ l' =>
      Within a (j + 1) l' l ∧ SortedIn (NotAfter lt) l' a (j + 1) := by
  induction j generalizing l with
  | zero => exact pure ⟨Within.refl _ _ _, sortedIn_short (by omega)⟩
  | succ j ih =>
    unfold shiftLeft
    have hx := List.getElem?_eq_getElem hj
    have hy := List.getElem?_eq_getElem (show j < l.length by omega)
    refine less_runs h hx hy (ite ?_ ?_)
    · intro hlt
      have hinside : a ≤ j := by
        by_contra hout
        have hle := hbelow j _ (Nat.zero_le j) (by omega) hy (j + 1) _ haj (Nat.lt_succ_self _) hx
        exact Bool.false_ne_true (hle.symm.trans hlt)
      have hpair : Within j (j + 1 + 1) (exchange l (j + 1) j) l :=
        Within.exchange hj (by omega) (by omega) (by omega)
      have hwithin : Within a (j + 1 + 1) (exchange l (j + 1) j) l :=
        hpair.mono hinside (Nat.le_refl _)
      have hs' : SortedIn (NotAfter lt) (exchange l (j + 1) j) a j :=
        hpair.sortedIn_of (.inl (Nat.le_refl j)) (hs.mono (Nat.le_refl a) (by omega))
      have hbelow' : BelowIn (NotAfter lt) (exchange l (j + 1) j) 0 a a (j + 1) :=
        (hwithin.belowIn_of (.inr (.inl (Nat.le_refl a))) (.inl ⟨Nat.le_refl a, Nat.le_refl _⟩)
          hbelow).mono (Nat.le_refl 0) (Nat.le_refl a) (Nat.le_refl a) (by omega)
      refine swap_runs hj (by omega) ((ih hinside (by rw [hwithin.length_eq]; omega) hbelow'
        hs').mono ?_)
      intro _ l' hl'
      exact ⟨(hl'.1.mono (Nat.le_refl a) (by omega)).trans hwithin,
        hs.insert h.refl hj hy hx (h.of_lt hlt) hl'.1 hl'.2⟩
    · intro hnot
      refine pure ⟨Within.refl _ _ _, ?_⟩
      by_cases hinside : a ≤ j
      · exact hs.extend h.refl h.trans hy hx (Bool.eq_false_iff.mpr hnot)
      · exact sortedIn_short (by omega)

private theorem partialSteps_runs (h : Comparison cmp lt) {a b : ℕ} (hb : b ≤ l.length) (steps : ℕ)
    {i : ℕ} (ha : a < i) (hib : i ≤ b) (hbelow : BelowIn (NotAfter lt) l 0 a a b)
    (hs : SortedIn (NotAfter lt) l a i) :
    Runs (partialSteps cmp a b steps i) l fun done l' =>
      Within a b l' l ∧ (done = true → SortedIn (NotAfter lt) l' a b) := by
  induction steps generalizing i l with
  | zero => exact pure ⟨Within.refl _ _ _, fun hc => absurd hc Bool.false_ne_true⟩
  | succ steps ih =>
    unfold partialSteps
    refine (skipOrdered_runs h hb i ha hib hs).bind ?_
    rintro i' l' ⟨hl, ⟨ha', hib'⟩, hs'⟩
    rw [hl] at hs' ⊢
    refine ite (fun hend => pure ⟨Within.refl _ _ _, fun _ => hend ▸ hs'⟩) ?_
    intro hmid
    refine afterSub (by omega) (ite ?_ ?_)
    · intro _
      exact pure ⟨Within.refl _ _ _, fun hc => absurd hc Bool.false_ne_true⟩
    intro _
    obtain ⟨k, rfl⟩ : ∃ k, i' = k + 1 := ⟨i' - 1, by omega⟩
    refine afterSub (by omega) (swap_runs (by omega) (by omega) (afterSub (by omega) ?_))
    rw [Nat.add_sub_cancel]
    have hpair : Within k (k + 2) (exchange l (k + 1) k) l :=
      Within.exchange (by omega) (by omega) (by omega) (by omega)
    have hwithin : Within a b (exchange l (k + 1) k) l := hpair.mono (by omega) (by omega)
    set l1 := exchange l (k + 1) k with hl1
    have hb1 : b ≤ l1.length := by
      rw [hwithin.length_eq]
      exact hb
    have hbelow1 : BelowIn (NotAfter lt) l1 0 a a b :=
      hwithin.belowIn_of (.inr (.inl (Nat.le_refl a))) (.inl ⟨Nat.le_refl a, Nat.le_refl b⟩) hbelow
    have hs1 : SortedIn (NotAfter lt) l1 a k :=
      hpair.sortedIn_of (.inl (Nat.le_refl k)) (hs'.mono (Nat.le_refl a) (by omega))
    -- the part up to the pair is put in order, the part behind it only changes inside
    refine Runs.when (P := fun l2 => Within a (k + 1) l2 l1 ∧ SortedIn (NotAfter lt) l2 a (k + 1))
      (fun _ => shiftLeft_runs h (by omega) (by omega) (hbelow1.mono (Nat.le_refl 0) (Nat.le_refl a)
        (Nat.le_refl a) (by omega)) hs1)
      (fun hshort => ⟨Within.refl _ _ _, sortedIn_short (by omega)⟩) ?_
    intro l2 hl2
    have hw2 : Within a b l2 l1 := hl2.1.mono (Nat.le_refl a) (by omega)
    have hb2 : b ≤ l2.length := by
      rw [hw2.length_eq]
      exact hb1
    refine afterSub (by omega) (Runs.when (P := fun l3 => Within (k + 1) b l3 l2)
      (fun _ => (shiftRight_moves cmp (Nat.lt_succ_self (k + 1)) hb2).runs.mono
        fun _ _ hw => hw.1) (fun _ => Within.refl _ _ _) ?_)
    intro l3 hw3
    have hw3' : Within a b l3 l1 := (hw3.mono (by omega) (Nat.le_refl b)).trans hw2
    refine (ih (by rw [hw3'.length_eq]; exact hb1) ha' hib' ?_ ?_).mono ?_
    · exact hw3'.belowIn_of (.inr (.inl (Nat.le_refl a))) (.inl ⟨Nat.le_refl a, Nat.le_refl b⟩)
        hbelow1
    · exact hw3.sortedIn_of (.inl (Nat.le_refl _)) hl2.2
    · intro done l4 hl4
      exact ⟨hl4.1.trans (hw3'.trans hwithin), hl4.2⟩

/-! The two parts of a partition. -/

private theorem Split.stays {a b mid : ℕ} {p : α} {l' : List α} (hl : Split lt a b mid p l)
    (hw : Within a mid l' l ∨ Within (mid + 1) b l' l) : Split lt a b mid p l' := by
  rcases hw with hw | hw
  · exact ⟨(hw.out mid (.inr (Nat.le_refl mid))).trans hl.pivot, hw.allIn hl.left,
      hw.allIn_of (.inr (.inr (Nat.le_succ mid))) hl.right⟩
  · exact ⟨(hw.out mid (.inl (Nat.lt_succ_self mid))).trans hl.pivot,
      hw.allIn_of (.inr (.inl (Nat.le_succ mid))) hl.left, hw.allIn hl.right⟩

private theorem Split.below (h : Comparison cmp lt) {a b mid : ℕ} {p : α}
    (hl : Split lt a b mid p l) (hmid : a ≤ mid) (hbelow : BelowIn (NotAfter lt) l 0 a a b) :
    BelowIn (NotAfter lt) l 0 (mid + 1) (mid + 1) b := by
  have hpivot : ∀ x, NotAfter lt x p → AllIn (fun y => NotAfter lt x y) l (mid + 1) b := fun x hx =>
    hl.right.imp fun y hy => h.trans x p y hx (Bool.of_not_eq_true hy)
  have hfront : AllIn (fun x => AllIn (fun y => NotAfter lt x y) l (mid + 1) b) l 0 mid :=
    AllIn.append (hbelow.mono (Nat.le_refl 0) (Nat.le_refl a) (by omega) (Nat.le_refl b))
      (hl.left.imp fun x hx => hpivot x (h.of_lt hx))
  apply hfront.snoc
  intro x hx
  rw [hl.pivot] at hx
  obtain rfl := Option.some.inj hx
  exact hpivot p (h.refl p)

private theorem Split.sorted (h : Comparison cmp lt) {a b mid : ℕ} {p : α}
    (hl : Split lt a b mid p l)
    (hleft : SortedIn (NotAfter lt) l a mid) (hright : SortedIn (NotAfter lt) l (mid + 1) b) :
    SortedIn (NotAfter lt) l a b :=
  hleft.around hright hl.pivot h.trans (hl.left.imp fun _ hx => h.of_lt hx)
    (hl.right.imp fun _ hy => Bool.of_not_eq_true hy)

private theorem equalsPrevious_runs (h : Comparison cmp lt) {a pivot : ℕ} {p : α}
    (hp : l[pivot]? = some p) (ha : a ≤ pivot) :
    Runs (equalsPrevious cmp a pivot) l fun equal l' => l' = l ∧
      (equal = true → ∃ k x, k + 1 = a ∧ l[k]? = some x ∧ NotAfter lt p x) := by
  refine ite ?_ fun _ => pure ⟨rfl, fun hc => absurd hc Bool.false_ne_true⟩
  intro hpos
  obtain ⟨k, rfl⟩ : ∃ k, a = k + 1 := ⟨a - 1, by omega⟩
  have hlength := (List.getElem?_eq_some_iff.mp hp).1
  have hx := List.getElem?_eq_getElem (show k < l.length by omega)
  refine ((less_tests h hp).negate k _ hx).mono fun equal l' hl' => ⟨hl'.1, ?_⟩
  intro heq
  exact ⟨k, _, rfl, hx, Bool.of_not_eq_true (hl'.2.mp heq)⟩

private theorem sortedIn_equal (h : Comparison cmp lt) {a mid k : ℕ} {p x : α} (hk : k + 1 = a)
    (hx : l[k]? = some x) (hpx : NotAfter lt p x) (hbelow : BelowIn (NotAfter lt) l 0 a a mid)
    (hle : AllIn (fun y => NotAfter lt y p) l a mid) : SortedIn (NotAfter lt) l a mid := by
  intro i j y z ha hij hj hy hz
  have hyx : NotAfter lt y x := h.trans y p x (hle i y ha (by omega) hy) hpx
  exact h.trans y x z hyx (hbelow k x (Nat.zero_le k) (by omega) hx j z (by omega) hj hz)

/-! The sort. -/

/-- The code `m` sorts the range from `a` up to `b` of every slice in which nothing before the range
is after any of it. -/
def Sorts (lt : α → α → Bool) (a b : ℕ) (m : SortM σ α β) : Prop :=
  ∀ l : List α, b ≤ l.length → BelowIn (NotAfter lt) l 0 a a b →
    Runs m l fun _ l' => Within a b l' l ∧ SortedIn (NotAfter lt) l' a b

private theorem belowIn_stays {a b u v : ℕ} {l' : List α} (hu : a ≤ u) (hv : v ≤ b)
    (hw : Within u v l' l)
    (h : BelowIn (NotAfter lt) l 0 a a b) : BelowIn (NotAfter lt) l' 0 a a b :=
  (hw.mono hu hv).belowIn_of (.inr (.inl (Nat.le_refl a))) (.inl ⟨Nat.le_refl a, Nat.le_refl b⟩) h

private theorem Sorts.afterEqual (h : Comparison cmp lt) {a b pivot k : ℕ} {p x : α}
    (hb : b ≤ l.length) (hpivot : a ≤ pivot ∧ pivot < b) (hp : l[pivot]? = some p) (hk : k + 1 = a)
    (hx : l[k]? = some x) (hpx : NotAfter lt p x) (hbelow : BelowIn (NotAfter lt) l 0 a a b)
    {rest : ℕ → SortM σ α β} (hrest : ∀ mid, a < mid → mid ≤ b → Sorts lt mid b (rest mid)) :
    Runs (partitionEqualFunc cmp a b pivot >>= rest) l fun _ l' =>
      Within a b l' l ∧ SortedIn (NotAfter lt) l' a b := by
  refine (partitionEqualFunc_runs h hb hpivot hp).bind ?_
  intro mid l₁ hl₁
  obtain ⟨hw₁, ⟨hgt, hle⟩, hfront, hback⟩ := hl₁
  have hbelow₁ := belowIn_stays (Nat.le_refl a) (Nat.le_refl b) hw₁ hbelow
  have hx₁ := (hw₁.out k (.inl (by omega))).trans hx
  have hsorted : SortedIn (NotAfter lt) l₁ a mid := sortedIn_equal h hk hx₁ hpx
    (hbelow₁.mono (Nat.le_refl 0) (Nat.le_refl a) (Nat.le_refl a) hle) hfront
  have hbelow' : BelowIn (NotAfter lt) l₁ 0 mid mid b :=
    AllIn.append (hbelow₁.mono (Nat.le_refl 0) (Nat.le_refl a) (by omega) (Nat.le_refl b))
      (hfront.imp fun y hy => hback.imp fun z hz => h.trans y p z hy hz)
  have hb₁ : b ≤ l₁.length := by
    rw [hw₁.length_eq]
    exact hb
  refine (hrest mid hgt hle l₁ hb₁ hbelow').mono ?_
  intro _ l₂ hl₂
  refine ⟨(hl₂.1.mono (by omega) (Nat.le_refl b)).trans hw₁, ?_⟩
  have hbelow₂ : BelowIn (NotAfter lt) l₂ a mid mid b :=
    (belowIn_stays (Nat.le_refl mid) (Nat.le_refl b) hl₂.1 hbelow').mono (Nat.zero_le a)
      (Nat.le_refl mid) (Nat.le_refl mid) (Nat.le_refl b)
  exact (hl₂.1.sortedIn_of (.inl (Nat.le_refl mid)) hsorted).append hl₂.2 hbelow₂

section Parts

variable {a b mid : ℕ} {p : α} {left right : SortM σ α PUnit}

private theorem Split.leftFirst (h : Comparison cmp lt) (hl : Split lt a b mid p l)
    (hmid : a ≤ mid ∧ mid < b) (hb : b ≤ l.length) (hbelow : BelowIn (NotAfter lt) l 0 a a b)
    (hleft : Sorts lt a mid left) (hright : Sorts lt (mid + 1) b right) :
    Runs (left >>= fun _ => right) l fun _ l' =>
      Within a b l' l ∧ SortedIn (NotAfter lt) l' a b := by
  refine (hleft l (by omega) (hbelow.mono (Nat.le_refl 0) (Nat.le_refl a) (Nat.le_refl a)
    (Nat.le_of_lt hmid.2))).bind ?_
  intro _ l₁ hl₁
  have hw₁ := hl₁.1.mono (Nat.le_refl a) (Nat.le_of_lt hmid.2)
  have hs₁ := hl.stays (.inl hl₁.1)
  have hbelow₁ := belowIn_stays (Nat.le_refl a) (Nat.le_of_lt hmid.2) hl₁.1 hbelow
  have hb₁ : b ≤ l₁.length := by
    rw [hw₁.length_eq]
    exact hb
  refine (hright l₁ hb₁ (hs₁.below h hmid.1 hbelow₁)).mono ?_
  intro _ l₂ hl₂
  refine ⟨(hl₂.1.mono (by omega) (Nat.le_refl b)).trans hw₁, ?_⟩
  exact (hs₁.stays (.inr hl₂.1)).sorted h (hl₂.1.sortedIn_of (.inl (Nat.le_succ mid)) hl₁.2) hl₂.2

private theorem Split.rightFirst (h : Comparison cmp lt) (hl : Split lt a b mid p l)
    (hmid : a ≤ mid ∧ mid < b) (hb : b ≤ l.length) (hbelow : BelowIn (NotAfter lt) l 0 a a b)
    (hleft : Sorts lt a mid left) (hright : Sorts lt (mid + 1) b right) :
    Runs (right >>= fun _ => left) l fun _ l' =>
      Within a b l' l ∧ SortedIn (NotAfter lt) l' a b := by
  refine (hright l hb (hl.below h hmid.1 hbelow)).bind ?_
  intro _ l₁ hl₁
  have hw₁ := hl₁.1.mono (show a ≤ mid + 1 by omega) (Nat.le_refl b)
  have hs₁ := hl.stays (.inr hl₁.1)
  have hbelow₁ := belowIn_stays (show a ≤ mid + 1 by omega) (Nat.le_refl b) hl₁.1 hbelow
  have hmid₁ : mid ≤ l₁.length := by
    rw [hw₁.length_eq]
    omega
  refine (hleft l₁ hmid₁ (hbelow₁.mono (Nat.le_refl 0) (Nat.le_refl a) (Nat.le_refl a)
    (Nat.le_of_lt hmid.2))).mono ?_
  intro _ l₂ hl₂
  refine ⟨(hl₂.1.mono (Nat.le_refl a) (Nat.le_of_lt hmid.2)).trans hw₁, ?_⟩
  exact (hs₁.stays (.inl hl₂.1)).sorted h hl₂.2 (hl₂.1.sortedIn_of (.inr (Nat.le_succ mid)) hl₁.2)

end Parts

private theorem pdqsortFunc_sorts (h : Comparison cmp lt) {fuel a b : ℕ} (hab : a ≤ b)
    (hfuel : b - a < fuel) (limit : ℕ) (wasBalanced wasPartitioned : Bool) :
    Sorts lt a b (pdqsortFunc cmp fuel a b limit wasBalanced wasPartitioned) := by
  induction fuel generalizing a b limit wasBalanced wasPartitioned with
  | zero => omega
  | succ fuel ih =>
    intro l hb hbelow
    unfold pdqsortFunc
    refine afterSub hab (ite (fun _ => insertionSortFunc_runs h hab hb) ?_)
    intro hlong
    unfold MAX_INSERTION at hlong
    refine ite (fun _ => heapSortFunc_runs h (by omega) hb) ?_
    intro hlimit
    -- up to the partition, elements of the range have only changed places
    have hkept : ∀ {l' : List α}, Within a b l' l →
        b ≤ l'.length ∧ BelowIn (NotAfter lt) l' 0 a a b := by
      intro l' hw
      exact ⟨by rw [hw.length_eq]; exact hb, belowIn_stays (Nat.le_refl a) (Nat.le_refl b) hw hbelow⟩
    refine (rebalance_moves hab hb (by omega) wasBalanced).runs.bind ?_
    intro limit l₁ hl₁
    refine (orient_moves cmp (by omega) (hkept hl₁.1).1).runs.bind ?_
    intro r l₂ hl₂
    obtain ⟨hw₂, hpivot⟩ := hl₂
    have hw₂ := hw₂.trans hl₁.1
    dsimp only
    refine join (P := fun done l' => Within a b l' l₂ ∧ (done = true → SortedIn (NotAfter lt) l' a b))
      (fun _ => partialSteps_runs h (hkept hw₂).1 MAX_STEPS (Nat.lt_succ_self a) (by omega)
        (hkept hw₂).2 (sortedIn_short (Nat.le_refl _)))
      (fun _ => pure ⟨Within.refl _ _ _, fun hc => absurd hc Bool.false_ne_true⟩)
      ?_
    intro done l₃ hl₃
    have hw₃ := hl₃.1.trans hw₂
    obtain ⟨hb₃, hbelow₃⟩ := hkept hw₃
    refine ite (fun hdone => pure ⟨hw₃, hl₃.2 hdone⟩) ?_
    intro _
    have hp := List.getElem?_eq_getElem (show r.1 < l₃.length by omega)
    refine (equalsPrevious_runs h hp hpivot.1).bind ?_
    intro equal l' hl'
    obtain ⟨heq, hprevious⟩ := hl'
    rw [heq]
    refine Runs.mono ?_ fun _ l₄ (hl₄ : Within a b l₄ l₃ ∧ SortedIn (NotAfter lt) l₄ a b) =>
      ⟨hl₄.1.trans hw₃, hl₄.2⟩
    refine ite ?_ ?_
    · intro hequal
      obtain ⟨k, x, hk, hx, hpx⟩ := hprevious hequal
      exact Sorts.afterEqual h hb₃ hpivot hp hk hx hpx hbelow₃ fun mid hgt hle =>
        ih hle (by omega) limit _ _
    · intro _
      refine (partitionFunc_runs h hb₃ (by omega) hpivot).bind ?_
      intro r' l₄ hl₄
      obtain ⟨hw₄, hmid, p, hsplit⟩ := hl₄
      obtain ⟨hb₄, hbelow₄⟩ := hkept (hw₄.trans hw₃)
      refine Runs.mono ?_ fun _ l₅ (hl₅ : Within a b l₅ l₄ ∧ SortedIn (NotAfter lt) l₅ a b) =>
        ⟨hl₅.1.trans hw₄, hl₅.2⟩
      refine afterSub hmid.1 (afterSub (by omega) (ite ?_ ?_))
      · intro _
        exact hsplit.leftFirst h hmid hb₄ hbelow₄ (ih hmid.1 (by omega) limit _ _)
          (ih (by omega) (by omega) limit _ _)
      · intro _
        exact hsplit.rightFirst h hmid hb₄ hbelow₄ (ih hmid.1 (by omega) limit _ _)
          (ih (by omega) (by omega) limit _ _)

/-- For every comparison the sort returns, and what it returns is a permutation; for a comparison
that is a strict weak order, whatever the closure has captured, the permutation is in order. -/
theorem slice_sorts (cmp : σ → α → α → Bool × σ) (data : List α) (closure : σ) :
    ∃ sorted closure', slice cmp data closure = some (sorted, closure') ∧ sorted.Perm data ∧
      ∀ lt : α → α → Bool, (∀ c x y, (cmp c x y).1 = lt x y) →
        IsStrictWeakOrder α (fun x y => lt x y = true) →
        sorted.Pairwise fun x y => lt y x = false := by
  obtain ⟨sorted, closure', hrun, hperm⟩ := slice_perm cmp data closure
  refine ⟨sorted, closure', hrun, hperm, ?_⟩
  intro lt hanswer horder
  have hsort := pdqsortFunc_sorts ⟨hanswer, horder⟩ (Nat.zero_le data.length)
    (show data.length - 0 < data.length + 1 by omega) (bitsLen data.length) true true
  obtain ⟨_, s, hrun', hwithin, hsorted⟩ := hsort data (Nat.le_refl _) (allIn_empty (Nat.le_refl 0))
    closure
  unfold slice at hrun
  dsimp only at hrun
  rw [hrun', Option.map_some, Option.some.injEq, Prod.mk.injEq] at hrun
  rw [← hrun.1]
  rw [← hwithin.length_eq] at hsorted
  exact sortedIn_iff_pairwise.mp hsorted

end Kcptun.Fec.Gosort
