/- Kcptun/Lib/Run
   digest: Runs of a deterministic machine over a list of operations, and the rules to reason
     about whole runs. -/

import Mathlib.Data.List.Basic

set_option autoImplicit false
set_option relaxedAutoImplicit false

namespace Kcptun.Lib

variable {σ τ ι ο : Type*}

/-- The state after a list of operations, and what each of them returned. -/
def run (step : σ → ι → σ × ο) : σ → List ι → σ × List ο
  | s, [] => (s, [])
  | s, i :: is =>
    let (s', o) := step s i
    let (s'', os) := run step s' is
    (s'', o :: os)

@[simp] theorem run_nil (step : σ → ι → σ × ο) (s : σ) : run step s [] = (s, []) := rfl

theorem run_cons (step : σ → ι → σ × ο) (s : σ) (i : ι) (is : List ι) :
    run step s (i :: is) =
      ((run step (step s i).1 is).1, (step s i).2 :: (run step (step s i).1 is).2) := rfl

theorem run_invariant {step : σ → ι → σ × ο} (inv : σ → Prop) (allowed : ι → Prop)
    (hstep : ∀ s i, allowed i → inv s → inv (step s i).1) {is : List ι}
    (his : ∀ i ∈ is, allowed i) {s : σ} (hs : inv s) : inv (run step s is).1 := by
  induction is generalizing s with
  | nil => exact hs
  | cons i is ih =>
    rw [run_cons]
    refine ih (fun j hj => his j (List.mem_cons_of_mem i hj)) ?_
    exact hstep s i (his i List.mem_cons_self) hs

theorem run_outputs {step : σ → ι → σ × ο} (inv : σ → Prop) (allowed : ι → Prop) (good : ο → Prop)
    (hstep : ∀ s i, allowed i → inv s → good (step s i).2 ∧ inv (step s i).1) {is : List ι}
    (his : ∀ i ∈ is, allowed i) {s : σ} (hs : inv s) : ∀ o ∈ (run step s is).2, good o := by
  induction is generalizing s with
  | nil =>
    intro o ho
    cases ho
  | cons i is ih =>
    rw [List.forall_mem_cons] at his
    obtain ⟨hgood, hinv⟩ := hstep s i his.1 hs
    rw [run_cons]
    exact List.forall_mem_cons.mpr ⟨hgood, ih his.2 hinv⟩

theorem run_append_singleton (step : σ → ι → σ × ο) (s : σ) (is : List ι) (i : ι) :
    (run step s (is ++ [i])).2 = (run step s is).2 ++ [(step (run step s is).1 i).2] := by
  induction is generalizing s with
  | nil => rfl
  | cons j is ih =>
    rw [List.cons_append, run_cons, run_cons, ih]
    rfl

theorem run_append_state (step : σ → ι → σ × ο) (s : σ) (is js : List ι) :
    (run step s (is ++ js)).1 = (run step (run step s is).1 js).1 := by
  induction is generalizing s with
  | nil => rfl
  | cons i is ih =>
    rw [List.cons_append, run_cons, run_cons]
    exact ih (step s i).1

/-- Two machines that return the same in related states, and stay related, return the same in
whole runs. -/
theorem run_simulation {step : σ → ι → σ × ο} {step' : τ → ι → τ × ο} (rel : σ → τ → Prop)
    (allowed : ι → Prop) (hstep : ∀ s t i, allowed i → rel s t →
      (step s i).2 = (step' t i).2 ∧ rel (step s i).1 (step' t i).1)
    {is : List ι} (his : ∀ i ∈ is, allowed i) {s : σ} {t : τ} (h : rel s t) :
    (run step s is).2 = (run step' t is).2 := by
  induction is generalizing s t with
  | nil => rfl
  | cons i is ih =>
    rw [List.forall_mem_cons] at his
    obtain ⟨hout, hrel⟩ := hstep s t i his.1 h
    rw [run_cons, run_cons, hout, ih his.2 hrel]

theorem run_related {step : σ → ι → σ × ο} {step' : τ → ι → τ × ο} (rel : σ → τ → Prop)
    (hstep : ∀ s t i, rel s t → rel (step s i).1 (step' t i).1) (is : List ι) {s : σ} {t : τ}
    (h : rel s t) : rel (run step s is).1 (run step' t is).1 := by
  induction is generalizing s t with
  | nil => exact h
  | cons i is ih =>
    rw [run_cons, run_cons]
    exact ih (hstep s t i h)

end Kcptun.Lib
