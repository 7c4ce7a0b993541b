/- Kcptun/Lib/Wakeup
   digest: A caller that waits for a notification: it registers before it looks at the state, and
     whoever changes the state notifies it afterwards. No wake-up is lost in between. -/

import Mathlib.Data.List.Basic

set_option autoImplicit false
set_option relaxedAutoImplicit false

namespace Kcptun.Lib

/-- A future that waits for a notification. It is done at once when it finds a permit. -/
inductive Notified where
  | waiting
  | notified
  | done
deriving DecidableEq, Repr

/-- Where a caller is: before a turn, registered, parked after a look that found nothing to do, or
at work after one that did. -/
inductive Turn where
  | out
  | armed (f : Notified)
  | parked (f : Notified)
  | busy (f : Notified)
deriving DecidableEq, Repr

/-- The one caller of a notification: the stored permit, its place in the loop, and how many
notifications others have still to send. -/
structure Caller where
  permit : Bool := false
  turn : Turn := .out
  owed : ℕ := 0
deriving DecidableEq, Repr

namespace Caller

/-- Creates the future and registers it; a stored permit completes it. -/
def enter (c : Caller) : Option Caller :=
  match c.turn with
  | .out => some { c with permit := false, turn := .armed (if c.permit then .done else .waiting) }
  | _ => none

def check (ready : Bool) (c : Caller) : Option Caller :=
  match c.turn with
  | .armed f => some { c with turn := if ready then .busy f else .parked f }
  | _ => none

/-- The future completes, and the loop starts over. -/
def resume (c : Caller) : Option Caller :=
  match c.turn with
  | .parked .notified | .parked .done => some { c with turn := .out }
  | _ => none

/-- The permit that dropping a future leaves: a notification that nobody has seen is passed on. -/
def leaves (permit : Bool) : Notified → Bool
  | .notified => true
  | _ => permit

/-- Drops the future, at the end of the work or because the call is given up. -/
def release (c : Caller) : Option Caller :=
  match c.turn with
  | .out => none
  | .armed f | .parked f | .busy f => some { c with permit := leaves c.permit f, turn := .out }

/-- `notify_one`: the registered future gets the notification, or the permit is stored. -/
def notifyOne (c : Caller) : Caller :=
  match c.turn with
  | .armed .waiting => { c with turn := .armed .notified }
  | .parked .waiting => { c with turn := .parked .notified }
  | .busy .waiting => { c with turn := .busy .notified }
  | _ => { c with permit := true }

/-- Notifications are decided on; they are sent later. -/
def owe (c : Caller) (n : ℕ) : Caller := { c with owed := c.owed + n }

def pay (c : Caller) : Option Caller :=
  if c.owed = 0 then none else some ({ c with owed := c.owed - 1 }).notifyOne

/-- While the caller sleeps although there is something to do, a notification is under way. -/
def Awake (ready : Bool) (c : Caller) : Prop :=
  c.turn = .parked .waiting → ready = true → 0 < c.owed

variable {c c' : Caller} {ready ready' : Bool}

theorem awake_enter (h : c.enter = some c') : c'.Awake ready := by
  unfold enter at h
  split at h
  · cases h
    intro hturn
    cases hturn
  · cases h

theorem awake_check (h : c.check ready = some c') : c'.Awake ready := by
  unfold check at h
  split at h
  · cases h
    intro hturn hready
    subst hready
    cases hturn
  · cases h

theorem check_ready (h : c.check true = some c') {f : Notified} : c'.turn ≠ .parked f := by
  unfold check at h
  split at h
  · cases h
    intro hturn
    cases hturn
  · cases h

theorem awake_resume (h : c.resume = some c') : c'.Awake ready := by
  unfold resume at h
  split at h
  · cases h
    intro hturn
    cases hturn
  · cases h
    intro hturn
    cases hturn
  · cases h

theorem awake_release (h : c.release = some c') : c'.Awake ready := by
  unfold release at h
  split at h
  · cases h
  all_goals
    cases h
    intro hturn
    cases hturn

theorem awake_pay (h : c.pay = some c') : c'.Awake ready := by
  unfold pay at h
  split_ifs at h
  cases h
  intro hturn
  unfold notifyOne at hturn
  split at hturn
  · cases hturn
  · cases hturn
  · cases hturn
  next _ hne _ => exact (hne hturn).elim

theorem Awake.owe (h : c.Awake ready) {n : ℕ} (hready : ready' = true → ready = true ∨ 0 < n) :
    (c.owe n).Awake ready' := by
  intro hturn hready'
  rcases hready hready' with hbefore | hnew
  · exact Nat.add_pos_left (h hturn hbefore) n
  · exact Nat.add_pos_right c.owed hnew

/-- A notification under way gets the caller to work: it is sent, the future completes, and the next
turn finds what there is to do. -/
theorem wakes (hturn : c.turn = .parked .waiting) (howed : 0 < c.owed) :
    ∃ c₁ c₂ c₃ c₄ f, c.pay = some c₁ ∧ c₁.resume = some c₂ ∧ c₂.enter = some c₃ ∧
      c₃.check true = some c₄ ∧ c₄.turn = .busy f := by
  obtain ⟨permit, turn, owed⟩ := c
  subst hturn
  have hpay : pay ⟨permit, .parked .waiting, owed⟩ = some ⟨permit, .parked .notified, owed - 1⟩ := by
    unfold pay
    rw [if_neg (Nat.ne_of_gt howed)]
    rfl
  exact ⟨_, _, _, _, _, hpay, rfl, rfl, rfl, rfl⟩

end Caller

end Kcptun.Lib
