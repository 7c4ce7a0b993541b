/- Kcptun/Lib/CipherFeedback
   digest: Cipher feedback over any blocks: a block is masked with the image of the ciphertext block
     before it, and the mask cancels itself. -/

import Mathlib.Data.List.Basic

set_option autoImplicit false
set_option relaxedAutoImplicit false

namespace Kcptun.Lib

variable {β : Type*} (mask : β → β → β) (E : β → β)

/-- The ciphertext of a list of blocks; `x` is the ciphertext block before the first one. -/
def feedbackEncrypt : β → List β → List β
  | _, [] => []
  | x, p :: ps => mask p (E x) :: feedbackEncrypt (mask p (E x)) ps

def feedbackDecrypt : β → List β → List β
  | _, [] => []
  | x, c :: cs => mask c (E x) :: feedbackDecrypt c cs

attribute [local simp] feedbackEncrypt feedbackDecrypt

def feedback (x : β) (cs : List β) : β := cs.getLastD x

@[simp] theorem feedback_nil (x : β) : feedback x [] = x := rfl

@[simp] theorem feedback_cons (x c : β) (cs : List β) : feedback x (c :: cs) = feedback c cs :=
  List.getLastD_cons ..

theorem feedback_append (x : β) (cs ds : List β) :
    feedback x (cs ++ ds) = feedback (feedback x cs) ds := by
  induction cs generalizing x with
  | nil => rfl
  | cons c cs ih => rw [List.cons_append, feedback_cons, feedback_cons, ih]

variable {mask E}

@[simp] theorem length_feedbackEncrypt (x : β) (ps : List β) :
    (feedbackEncrypt mask E x ps).length = ps.length := by
  induction ps generalizing x with
  | nil => rfl
  | cons p ps ih => rw [feedbackEncrypt, List.length_cons, List.length_cons, ih]

@[simp] theorem length_feedbackDecrypt (x : β) (cs : List β) :
    (feedbackDecrypt mask E x cs).length = cs.length := by
  induction cs generalizing x with
  | nil => rfl
  | cons c cs ih => rw [feedbackDecrypt, List.length_cons, List.length_cons, ih]

theorem feedbackDecrypt_append (x : β) (cs ds : List β) :
    feedbackDecrypt mask E x (cs ++ ds) =
      feedbackDecrypt mask E x cs ++ feedbackDecrypt mask E (feedback x cs) ds := by
  induction cs generalizing x with
  | nil => rfl
  | cons c cs ih =>
    rw [List.cons_append, feedbackDecrypt, feedbackDecrypt, ih, feedback_cons, List.cons_append]

theorem feedbackDecrypt_eq_zipWith (x : β) (cs : List β) :
    feedbackDecrypt mask E x cs = List.zipWith mask cs ((x :: cs).map E) := by
  induction cs generalizing x with
  | nil => rfl
  | cons c cs ih =>
    rw [feedbackDecrypt, ih]
    rfl

section Cancel

variable (hcancel : ∀ p k, mask (mask p k) k = p)
include hcancel

theorem feedbackDecrypt_feedbackEncrypt (x : β) (ps : List β) :
    feedbackDecrypt mask E x (feedbackEncrypt mask E x ps) = ps := by
  induction ps generalizing x with
  | nil => rfl
  | cons p ps ih => rw [feedbackEncrypt, feedbackDecrypt, hcancel, ih]

theorem feedbackEncrypt_feedbackDecrypt (x : β) (cs : List β) :
    feedbackEncrypt mask E x (feedbackDecrypt mask E x cs) = cs := by
  induction cs generalizing x with
  | nil => rfl
  | cons c cs ih => rw [feedbackDecrypt, feedbackEncrypt, hcancel, ih]

end Cancel

end Kcptun.Lib
