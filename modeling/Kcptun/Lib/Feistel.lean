/- Kcptun/Lib/Feistel
   digest: Feistel networks: two rounds at a time under a list of keys, and that the keys backwards,
     with the halves exchanged, undo them whatever the round function is. -/

import Mathlib.Data.Prod.Basic

set_option autoImplicit false
set_option relaxedAutoImplicit false

namespace Kcptun.Lib.Feistel

variable {α κ : Type*} (xor : α → α → α) (F : κ → α → α)

def twoRounds (p : α × α) (k : κ × κ) : α × α :=
  (xor p.1 (F k.1 p.2), xor p.2 (F k.2 (xor p.1 (F k.1 p.2))))

def rounds (keys : List (κ × κ)) (p : α × α) : α × α := keys.foldl (twoRounds xor F) p

def backwards (keys : List (κ × κ)) : List (κ × κ) := keys.reverse.map Prod.swap

@[simp] theorem backwards_backwards (keys : List (κ × κ)) :
    backwards (backwards keys) = keys := by
  simp [backwards, Function.comp_def]

variable {xor} (hxor : ∀ a b, xor (xor a b) b = a)

include hxor

private theorem twoRounds_undo (p : α × α) (k : κ × κ) :
    twoRounds xor F (twoRounds xor F p k).swap k.swap = p.swap := by
  have hr : xor (xor p.2 (F k.2 (xor p.1 (F k.1 p.2)))) (F k.2 (xor p.1 (F k.1 p.2))) = p.2 :=
    hxor _ _
  simp only [twoRounds, Prod.fst_swap, Prod.snd_swap, hr]
  rw [hxor]
  rfl

theorem rounds_undo (keys : List (κ × κ)) (p : α × α) :
    rounds xor F (backwards keys) (rounds xor F keys p).swap = p.swap := by
  induction keys generalizing p with
  | nil => rfl
  | cons k keys ih =>
    have hsplit : backwards (k :: keys) = backwards keys ++ [k.swap] := by
      simp [backwards]
    have hlater := ih (twoRounds xor F p k)
    rw [hsplit]
    simp only [rounds, List.foldl_append, List.foldl_cons, List.foldl_nil] at hlater ⊢
    rw [hlater, twoRounds_undo F hxor]

theorem rounds_redo (keys : List (κ × κ)) (p : α × α) :
    rounds xor F keys (rounds xor F (backwards keys) p).swap = p.swap := by
  have h := rounds_undo F hxor (backwards keys) p
  rwa [backwards_backwards] at h

end Kcptun.Lib.Feistel
