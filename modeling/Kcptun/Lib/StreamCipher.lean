/- Kcptun/Lib/StreamCipher
   digest: Transforms of a stream that treat each element at its own position: a key state moves
     on by one element at a time, and the state and the element give the output. -/

import Mathlib.Data.List.Basic
import Mathlib.Logic.Function.Iterate

set_option autoImplicit false
set_option relaxedAutoImplicit false

namespace Kcptun.Lib

variable {σ α β : Type*}

def cryptStream (next : σ → σ) (op : σ → α → β) : σ → List α → List β
  | _, [] => []
  | s, x :: xs => op s x :: cryptStream next op (next s) xs

variable {next : σ → σ} {op : σ → α → β}

@[simp] theorem cryptStream_nil (s : σ) : cryptStream next op s [] = [] := rfl

theorem cryptStream_cons (s : σ) (x : α) (xs : List α) :
    cryptStream next op s (x :: xs) = op s x :: cryptStream next op (next s) xs := rfl

@[simp] theorem length_cryptStream (s : σ) (xs : List α) :
    (cryptStream next op s xs).length = xs.length := by
  induction xs generalizing s with
  | nil => rfl
  | cons x xs ih => rw [cryptStream_cons, List.length_cons, List.length_cons, ih]

theorem cryptStream_append (s : σ) (xs ys : List α) :
    cryptStream next op s (xs ++ ys) =
      cryptStream next op s xs ++ cryptStream next op (next^[xs.length] s) ys := by
  induction xs generalizing s with
  | nil => rfl
  | cons x xs ih =>
    rw [List.cons_append, cryptStream_cons, cryptStream_cons, ih, List.cons_append,
      List.length_cons, Function.iterate_succ_apply]

private theorem cryptStream_take (s : σ) (xs : List α) (n : ℕ) :
    cryptStream next op s (xs.take n) = (cryptStream next op s xs).take n := by
  induction xs generalizing s n with
  | nil => simp
  | cons x xs ih =>
    cases n with
    | zero => rfl
    | succ n => rw [List.take_succ_cons, cryptStream_cons, cryptStream_cons, ih,
        List.take_succ_cons]

theorem cryptStream_inverse {inv : σ → β → α} (hinv : ∀ s x, inv s (op s x) = x) (s : σ)
    (xs : List α) : cryptStream next inv s (cryptStream next op s xs) = xs := by
  induction xs generalizing s with
  | nil => rfl
  | cons x xs ih => rw [cryptStream_cons, cryptStream_cons, hinv, ih]

theorem cryptStream_inverse_prefix {inv : σ → β → α} (hinv : ∀ s x, inv s (op s x) = x) {s : σ}
    {xs : List α} {ys : List β} (hys : ys <+: cryptStream next op s xs) :
    cryptStream next inv s ys = xs.take ys.length := by
  have hle : ys.length ≤ xs.length := by simpa using hys.length_le
  have htake : (cryptStream next op s xs).take ys.length = ys :=
    (List.prefix_iff_eq_take.mp hys).symm
  rw [← cryptStream_inverse hinv s (xs.take ys.length), cryptStream_take, htake]

end Kcptun.Lib
