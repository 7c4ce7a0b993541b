/- Kcptun/Lib/Splice
   digest: Checked accesses: writes into a buffer of fixed length, what a slice of the buffer holds
     afterwards, and loops over accesses. -/

import Mathlib.Data.List.Basic

set_option autoImplicit false
set_option relaxedAutoImplicit false

namespace Kcptun.Lib

variable {α : Type*}

/-- `buf` with `xs` written at `pos`; nothing when `xs` does not fit. -/
def splice (buf : List α) (pos : ℕ) (xs : List α) : Option (List α) :=
  if pos + xs.length ≤ buf.length then some (buf.take pos ++ xs ++ buf.drop (pos + xs.length))
  else none

/-- `buf[start..stop]`; nothing when the range is not in the buffer. -/
def slice (buf : List α) (start stop : ℕ) : Option (List α) :=
  if start ≤ stop ∧ stop ≤ buf.length then some ((buf.take stop).drop start) else none

variable {buf front back xs ys : List α} {pos start stop : ℕ}

theorem splice_append (hpos : front.length = pos) (hle : xs.length ≤ back.length) :
    splice (front ++ back) pos xs = some (front ++ (xs ++ back.drop xs.length)) := by
  subst hpos
  have hfit : front.length + xs.length ≤ (front ++ back).length := by
    rw [List.length_append]
    omega
  rw [splice, if_pos hfit, List.take_left, List.drop_length_add_append, List.append_assoc]

theorem splice_zero (hle : xs.length ≤ buf.length) :
    splice buf 0 xs = some (xs ++ buf.drop xs.length) :=
  @splice_append α [] buf xs 0 rfl hle

theorem slice_mid (hstart : front.length = start) (hstop : start + ys.length = stop) :
    slice (front ++ ys ++ back) start stop = some ys := by
  subst hstart hstop
  have hfit : front.length + ys.length ≤ (front ++ ys ++ back).length := by
    rw [List.length_append, List.length_append]
    omega
  rw [slice, if_pos ⟨Nat.le_add_right _ _, hfit⟩,
    List.take_left' (List.length_append : (front ++ ys).length = _), List.drop_left]

theorem take_drop_split {pos take cap : ℕ} (h : pos + take ≤ cap) : (buf.take cap).drop pos =
    (buf.take (pos + take)).drop pos ++ (buf.take cap).drop (pos + take) := by
  have hfront : (buf.take (pos + take)).drop pos = ((buf.take cap).drop pos).take take := by
    rw [List.drop_take, List.drop_take, List.take_take, Nat.add_sub_cancel_left,
      Nat.min_eq_left (by omega)]
  rw [hfront, ← List.drop_drop, List.take_append_drop]

theorem length_splice {r : List α} (h : splice buf pos xs = some r) : r.length = buf.length := by
  rw [splice] at h
  split_ifs at h with hfit
  cases h
  rw [List.length_append, List.length_append, List.length_take, List.length_drop]
  omega

theorem mapM_of_some {β : Type*} {f : α → Option β} {g : α → β} {l : List α}
    (h : ∀ x ∈ l, f x = some (g x)) : l.mapM f = some (l.map g) := by
  induction l with
  | nil => rfl
  | cons x l ih =>
    rw [List.mapM_cons, h x List.mem_cons_self, ih fun y hy => h y (List.mem_cons_of_mem x hy)]
    rfl

end Kcptun.Lib
