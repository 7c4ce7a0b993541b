/- Kcptun/Lib/Chunks
   digest: A list cut into chunks of one length and a shorter rest, and put together again. -/

import Mathlib.Data.List.Basic

set_option autoImplicit false
set_option relaxedAutoImplicit false

namespace Kcptun.Lib

variable {α : Type*} {n : ℕ}

/-- An array of `n` elements. -/
abbrev Chunk (α : Type*) (n : ℕ) := {c : List α // c.length = n}

def chunks (n : ℕ) : (k : ℕ) → (l : List α) → k * n ≤ l.length → List (Chunk α n)
  | 0, _, _ => []
  | k + 1, l, h =>
    ⟨l.take n, by
      rw [Nat.succ_mul] at h
      rw [List.length_take]
      omega⟩ ::
    chunks n k (l.drop n) (by
      rw [Nat.succ_mul] at h
      rw [List.length_drop]
      omega)

/-- `as_chunks`: as many chunks as there are, and the rest. -/
def asChunks (n : ℕ) (l : List α) : List (Chunk α n) × List α :=
  (chunks n (l.length / n) l (Nat.div_mul_le_self _ _), l.drop (l.length / n * n))

def unchunk (cs : List (Chunk α n)) : List α := (cs.map Subtype.val).flatten

@[simp] theorem unchunk_nil : unchunk ([] : List (Chunk α n)) = [] := rfl

@[simp] theorem unchunk_cons (c : Chunk α n) (cs : List (Chunk α n)) :
    unchunk (c :: cs) = c.val ++ unchunk cs := rfl

@[simp] theorem length_unchunk (cs : List (Chunk α n)) : (unchunk cs).length = cs.length * n := by
  induction cs with
  | nil => exact (Nat.zero_mul n).symm
  | cons c cs ih => rw [unchunk_cons, List.length_append, c.2, ih, List.length_cons, Nat.succ_mul,
      Nat.add_comm]

private theorem unchunk_chunks (k : ℕ) (l : List α) (h : k * n ≤ l.length) :
    unchunk (chunks n k l h) = l.take (k * n) := by
  induction k generalizing l with
  | zero => rw [Nat.zero_mul, List.take_zero, chunks, unchunk_nil]
  | succ k ih => rw [chunks, unchunk_cons, ih, Nat.succ_mul, Nat.add_comm, List.take_add]

private theorem chunks_unchunk_append (cs : List (Chunk α n)) (rest : List α) (k : ℕ)
    (hk : k = cs.length)
    (h : k * n ≤ (unchunk cs ++ rest).length) : chunks n k (unchunk cs ++ rest) h = cs := by
  induction cs generalizing k with
  | nil =>
    subst hk
    rfl
  | cons c cs ih =>
    subst hk
    simp only [List.length_cons, unchunk_cons, List.append_assoc, chunks]
    congr 1
    · apply Subtype.ext
      exact List.take_left' c.2
    · simp only [List.drop_left' c.2]
      exact ih cs.length rfl _

theorem unchunk_asChunks (l : List α) : unchunk (asChunks n l).1 ++ (asChunks n l).2 = l := by
  unfold asChunks
  rw [unchunk_chunks, List.take_append_drop]

theorem length_rest_asChunks (hn : 0 < n) (l : List α) : (asChunks n l).2.length < n := by
  unfold asChunks
  rw [List.length_drop]
  have hmod := Nat.mod_lt l.length hn
  rw [Nat.mod_eq_sub_div_mul] at hmod
  exact hmod

theorem asChunks_unchunk_append (cs : List (Chunk α n)) {rest : List α} (h : rest.length < n) :
    asChunks n (unchunk cs ++ rest) = (cs, rest) := by
  have hcount : (unchunk cs ++ rest).length / n = cs.length := by
    rw [List.length_append, length_unchunk, Nat.add_comm, Nat.add_mul_div_right _ _ (by omega),
      Nat.div_eq_of_lt h, Nat.zero_add]
  unfold asChunks
  rw [chunks_unchunk_append cs rest _ hcount, hcount, List.drop_left' (length_unchunk cs)]

end Kcptun.Lib
