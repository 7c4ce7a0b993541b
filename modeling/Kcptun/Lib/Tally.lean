/- Kcptun/Lib/Tally
   digest: What the tasks of a machine hold in total, and how it changes with one task. -/

import Mathlib.Data.List.Basic

set_option autoImplicit false
set_option relaxedAutoImplicit false

namespace Kcptun.Lib

variable {α : Type*}

def tally (f : α → ℕ) : List α → ℕ
  | [] => 0
  | t :: tasks => f t + tally f tasks

@[simp] theorem tally_nil (f : α → ℕ) : tally f [] = 0 := rfl

@[simp] theorem tally_cons (f : α → ℕ) (t : α) (tasks : List α) :
    tally f (t :: tasks) = f t + tally f tasks := rfl

@[simp] theorem tally_append (f : α → ℕ) (tasks tasks' : List α) :
    tally f (tasks ++ tasks') = tally f tasks + tally f tasks' := by
  induction tasks with
  | nil => rw [List.nil_append, tally_nil, Nat.zero_add]
  | cons t tasks ih => rw [List.cons_append, tally_cons, tally_cons, ih, Nat.add_assoc]

theorem tally_set {f : α → ℕ} {tasks : List α} {i : ℕ} {t : α} (h : tasks[i]? = some t) (t' : α) :
    tally f (tasks.set i t') + f t = tally f tasks + f t' := by
  induction tasks generalizing i with
  | nil => cases h
  | cons u tasks ih =>
    cases i with
    | zero =>
      obtain rfl := Option.some.inj h
      rw [List.set_cons_zero, tally_cons, tally_cons]
      omega
    | succ i =>
      have hrest := ih h
      rw [List.set_cons_succ, tally_cons, tally_cons]
      omega

theorem le_tally {f : α → ℕ} {tasks : List α} {t : α} (h : t ∈ tasks) : f t ≤ tally f tasks := by
  induction tasks with
  | nil => cases h
  | cons u tasks ih =>
    rw [tally_cons]
    rcases List.mem_cons.mp h with rfl | h
    · exact Nat.le_add_right _ _
    · exact Nat.le_trans (ih h) (Nat.le_add_left _ _)

theorem tally_eq_zero_iff {f : α → ℕ} {tasks : List α} :
    tally f tasks = 0 ↔ ∀ t ∈ tasks, f t = 0 := by
  induction tasks with
  | nil => simp
  | cons u tasks ih => rw [tally_cons, Nat.add_eq_zero_iff, ih, List.forall_mem_cons]

end Kcptun.Lib
