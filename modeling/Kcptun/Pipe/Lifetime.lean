/- Kcptun/Pipe/Lifetime
   source: crates/std/src/pipe.rs (Progress, Probe, Timing, Life, Lifetime)
   digest: When the pipe ends: the grace after the first finished direction, the probes of both ends
     while a direction is parked, and the rule for a direction that stalls. -/

import Kcptun.Pipe.Transfer
import Mathlib.Logic.Function.Basic

set_option autoImplicit false
set_option relaxedAutoImplicit false

namespace Kcptun.Pipe

open Kcptun.Lib (IoError)

/-- The two ends; a direction is named by what it copies from and to. -/
inductive End where
  | alice
  | bob
  deriving DecidableEq, Repr

inductive Dir where
  | ab
  | ba
  deriving DecidableEq, Repr

def Dir.src : Dir → End
  | .ab => .alice
  | .ba => .bob

def Dir.dst : Dir → End
  | .ab => .bob
  | .ba => .alice

inductive Progress where
  | fine
  | credit
  deriving DecidableEq, Repr

structure Probe (ε : Type) where
  failed : Option ε := none
  finished : Bool := false
  starving : Bool := false
  unsent : Option ℕ := none
  progress : Progress := .fine

/-- Durations and clock readings in nanoseconds. -/
structure Timing where
  watch : ℕ
  socketStall : ℕ
  deriving DecidableEq, Repr

def SECOND : ℕ := 1000000000
def MIN_WATCH : ℕ := 1000000

/-- `Timing::DEFAULT`. -/
def Timing.default : Timing where
  watch := SECOND
  socketStall := 30 * SECOND

def closeWaitDuration (closeWait : Int) : ℕ := (max closeWait 0).toNat * SECOND

/-- How long the stall rule waits; `none` where it never ends the pipe. -/
def Timing.stallLimit (timing : Timing) (progress : Progress) (closeWait : Int) : Option ℕ :=
  match progress with
  | .fine => some (max timing.socketStall (closeWaitDuration closeWait))
  | .credit => none

inductive Life where
  | opened
  | closing (grace : Option ℕ)
  deriving DecidableEq, Repr

structure Lifetime where
  closeWait : Int
  timing : Timing
  life : Life := .opened
  watch : Option ℕ := none
  watching : Bool := false
  unsent : End → Option ℕ := fun _ => none
  drainedAt : Option ℕ := none
  signalledAt : Dir → Option ℕ := fun _ => none

/-- What the clock, the timers and the probes say in one turn. -/
structure LifeAnswers (ε : Type) where
  now : ℕ
  tick : Bool := false
  grace : Bool := false
  probe : End → Probe ε

/-- What a turn leaves, and the direction it found stalled. -/
structure Checked (ε : Type) where
  life : Lifetime
  transfer : Dir → Transfer ε
  stalled : Option Dir

/-- The end signal of a direction: it is parked, and its source has stopped or starves its session. -/
def signal {ε : Type} (t : Transfer ε) (source : Probe ε) : Bool :=
  t.parked && (source.finished || source.starving)

def shrank : Option ℕ → Option ℕ → Bool
  | some before, some after => after < before
  | _, _ => false

namespace Lifetime

variable {ε : Type}

def new (closeWait : Int) (timing : Timing) : Lifetime where
  closeWait := closeWait
  timing := { timing with watch := max timing.watch MIN_WATCH }

/-- Starts the grace, once. -/
def beginClosing (l : Lifetime) : Lifetime :=
  match l.life with
  | .opened =>
    { l with
      watch := none
      life := .closing (if l.closeWait > 0 then some (closeWaitDuration l.closeWait) else none) }
  | .closing _ => l

/-- Rule 6 for one direction: when its end signal was first seen, and whether the limit has run out
since then and since the last movement. -/
def stallExpired (l : Lifetime) (dir : Dir) (t : Transfer ε) (source : Probe ε) (limit : Option ℕ)
    (movedAt now : ℕ) : Lifetime × Bool :=
  match limit.filter fun _ => signal t source with
  | none => ({ l with signalledAt := Function.update l.signalledAt dir none }, false)
  | some limit =>
    ({ l with signalledAt :=
        Function.update l.signalledAt dir (some ((l.signalledAt dir).getD now)) },
      now - max movedAt ((l.signalledAt dir).getD now) ≥ limit)

/-- Rule 5: a failed end is the result of the direction that reads it. -/
def reportFailures (transfer : Dir → Transfer ε) (probe : End → Probe ε) (dir : Dir) : Transfer ε :=
  match (probe dir.src).failed with
  | some err => (transfer dir).report (.conn err)
  | none => transfer dir

def drained (l : Lifetime) (probe : End → Probe ε) : Bool :=
  shrank (l.unsent .alice) (probe .alice).unsent || shrank (l.unsent .bob) (probe .bob).unsent

def noteUnsent (l : Lifetime) (a : LifeAnswers ε) : Lifetime :=
  { l with
    drainedAt := if l.drained a.probe then some a.now else l.drainedAt
    unsent := fun e => (a.probe e).unsent }

def movedAt (l : Lifetime) (transfer : Dir → Transfer ε) : ℕ :=
  max (max (transfer .ab).movedAt (transfer .ba).movedAt) (l.drainedAt.getD 0)

/-- Rule 6 for one direction, after a probe. -/
def expire (l : Lifetime) (transfer : Dir → Transfer ε) (a : LifeAnswers ε) (dir : Dir) :
    Lifetime × Bool :=
  l.stallExpired dir (transfer dir) (a.probe dir.src)
    (l.timing.stallLimit (a.probe dir.dst).progress l.closeWait) (l.movedAt transfer) a.now

def check (l : Lifetime) (transfer : Dir → Transfer ε) (a : LifeAnswers ε) : Checked ε :=
  if (a.probe .alice).failed.isSome || (a.probe .bob).failed.isSome then
    ⟨l.beginClosing, reportFailures transfer a.probe, none⟩
  else
    let ab := (l.noteUnsent a).expire transfer a .ab
    if ab.2 then
      ⟨ab.1, Function.update transfer .ab ((transfer .ab).report stalled), some .ab⟩
    else
      let ba := ab.1.expire transfer a .ba
      if ba.2 then
        ⟨ba.1, Function.update transfer .ba ((transfer .ba).report stalled), some .ba⟩
      else ⟨ba.1, transfer, none⟩

/-- The ticker of a pipe with a parked direction; the first park after a quiet spell gets a full
period. -/
def arm (l : Lifetime) (now : ℕ) : Lifetime :=
  let deadline := l.watch.getD (now + l.timing.watch)
  { l with
    watch := some (if !l.watching ∧ deadline ≤ now then now + l.timing.watch else deadline)
    watching := true }

/-- The front of `poll`: `none` when both directions are done. -/
def begin (l : Lifetime) (transfer : Dir → Transfer ε) : Option Lifetime :=
  if (transfer .ab).isDone && (transfer .ba).isDone then none
  else if (transfer .ab).isDone || (transfer .ba).isDone then some l.beginClosing
  else some l

def probes (l : Lifetime) (transfer : Dir → Transfer ε) (a : LifeAnswers ε) : Bool :=
  l.life == .opened && ((transfer .ab).parked || (transfer .ba).parked) && a.tick

def turn (l : Lifetime) (transfer : Dir → Transfer ε) (a : LifeAnswers ε) : Checked ε × Flow :=
  match l.life with
  | .closing grace => (⟨l, transfer, none⟩, if grace.isNone || a.grace then .ready else .pending)
  | .opened =>
    if !(transfer .ab).parked && !(transfer .ba).parked then
      (⟨{ l with watching := false }, transfer, none⟩, .pending)
    else if !a.tick then (⟨l.arm a.now, transfer, none⟩, .pending)
    else
      let checked :=
        ({ l.arm a.now with watch := some (a.now + l.timing.watch) } : Lifetime).check transfer a
      (checked, if checked.stalled.isSome then .ready else .again)

/-- Nothing of a direction changes but its result, and an error stays. -/
def Reported (t t' : Transfer ε) : Prop :=
  ∃ result, t' = { t with result := result } ∧ (t.result ≠ none → result ≠ none)

private theorem Reported.refl (t : Transfer ε) : Reported t t := ⟨t.result, rfl, id⟩

private theorem reported_report (t : Transfer ε) (e : IoError ε) : Reported t (t.report e) :=
  ⟨_, rfl, fun _ => t.result_report e⟩

private theorem reported_update (transfer : Dir → Transfer ε) (dir dir' : Dir) (e : IoError ε) :
    Reported (transfer dir) (Function.update transfer dir' ((transfer dir').report e) dir) := by
  rw [Function.update_apply]
  split_ifs with heq
  · rw [heq]
    exact reported_report _ e
  · exact .refl _

private theorem reported_check (l : Lifetime) (transfer : Dir → Transfer ε) (a : LifeAnswers ε)
    (dir : Dir) : Reported (transfer dir) ((l.check transfer a).transfer dir) := by
  unfold check
  dsimp only
  split_ifs
  · change Reported (transfer dir) (reportFailures transfer a.probe dir)
    unfold reportFailures
    cases (a.probe dir.src).failed with
    | none => exact .refl _
    | some e => exact reported_report _ _
  · exact reported_update transfer dir .ab stalled
  · exact reported_update transfer dir .ba stalled
  · exact .refl _

theorem reported_turn (l : Lifetime) (transfer : Dir → Transfer ε) (a : LifeAnswers ε) (dir : Dir) :
    Reported (transfer dir) ((l.turn transfer a).1.transfer dir) := by
  unfold turn
  cases l.life with
  | closing grace => exact .refl _
  | opened =>
    dsimp only
    by_cases hquiet : (!(transfer .ab).parked && !(transfer .ba).parked) = true
    · rw [if_pos hquiet]
      exact .refl _
    rw [if_neg hquiet]
    by_cases htick : (!a.tick) = true
    · rw [if_pos htick]
      exact .refl _
    rw [if_neg htick]
    exact reported_check _ transfer a dir

/-- The stamp of a direction after a probe that looked at it: none, or its signal was seen and the
stamp is the old one or new. -/
def Restamped (l : Lifetime) (transfer : Dir → Transfer ε) (a : LifeAnswers ε)
    (stamps : Dir → Option ℕ) (dir : Dir) : Prop :=
  stamps dir = none ∨ (signal (transfer dir) (a.probe dir.src) = true ∧
    stamps dir = some ((l.signalledAt dir).getD a.now))

/-- Why a probe finds a direction stalled: its signal is there, and its limit has run out since the
stamp and the last movement. -/
def Expired (l : Lifetime) (transfer : Dir → Transfer ε) (a : LifeAnswers ε) (dir : Dir) : Prop :=
  signal (transfer dir) (a.probe dir.src) = true ∧
    ∃ limit, l.timing.stallLimit (a.probe dir.dst).progress l.closeWait = some limit ∧
      limit ≤ a.now - max ((l.noteUnsent a).movedAt transfer) ((l.signalledAt dir).getD a.now)

inductive Probed (l : Lifetime) (transfer : Dir → Transfer ε) (a : LifeAnswers ε) : Checked ε → Prop
  | failed : Probed l transfer a ⟨l.beginClosing, reportFailures transfer a.probe, none⟩
  | stalled (l' : Lifetime) (transfer' : Dir → Transfer ε) (dir : Dir) (h : l.Expired transfer a dir) :
    Probed l transfer a ⟨l', transfer', some dir⟩
  | passed (stamps : Dir → Option ℕ) (h : ∀ dir, l.Restamped transfer a stamps dir) :
    Probed l transfer a ⟨{ l.noteUnsent a with signalledAt := stamps }, transfer, none⟩

private theorem stallExpired_cases (l : Lifetime) (dir : Dir) (t : Transfer ε) (source : Probe ε)
    (limit : Option ℕ) (movedAt now : ℕ) :
    l.stallExpired dir t source limit movedAt now =
        ({ l with signalledAt := Function.update l.signalledAt dir none }, false) ∨
      (signal t source = true ∧ ∃ lim, limit = some lim ∧
        l.stallExpired dir t source limit movedAt now =
          ({ l with signalledAt :=
              Function.update l.signalledAt dir (some ((l.signalledAt dir).getD now)) },
            decide (now - max movedAt ((l.signalledAt dir).getD now) ≥ lim))) := by
  unfold stallExpired
  cases hfilter : limit.filter fun _ => signal t source with
  | none => exact .inl rfl
  | some lim =>
    obtain ⟨hlim, hsignal⟩ := Option.filter_eq_some_iff.mp hfilter
    exact .inr ⟨hsignal, lim, hlim, rfl⟩

private theorem expire_cases (l : Lifetime) (transfer : Dir → Transfer ε) (a : LifeAnswers ε)
    (dir : Dir) : ∃ stamp, (l.expire transfer a dir).1 =
        { l with signalledAt := Function.update l.signalledAt dir stamp } ∧
      l.Restamped transfer a (Function.update l.signalledAt dir stamp) dir ∧
      ((l.expire transfer a dir).2 = true →
        signal (transfer dir) (a.probe dir.src) = true ∧
        ∃ limit, l.timing.stallLimit (a.probe dir.dst).progress l.closeWait = some limit ∧
          limit ≤ a.now - max (l.movedAt transfer) ((l.signalledAt dir).getD a.now)) := by
  unfold expire
  rcases l.stallExpired_cases dir (transfer dir) (a.probe dir.src)
    (l.timing.stallLimit (a.probe dir.dst).progress l.closeWait) (l.movedAt transfer) a.now with
    hr | ⟨hsignal, limit, hlimit, hr⟩
  · rw [hr]
    exact ⟨none, rfl, .inl (Function.update_self _ _ _), fun hc => absurd hc Bool.false_ne_true⟩
  · rw [hr]
    refine ⟨some ((l.signalledAt dir).getD a.now), rfl,
      .inr ⟨hsignal, Function.update_self _ _ _⟩, fun hc => ⟨hsignal, limit, hlimit, ?_⟩⟩
    exact of_decide_eq_true hc

theorem check_probed (l : Lifetime) (transfer : Dir → Transfer ε) (a : LifeAnswers ε) :
    Probed l transfer a (l.check transfer a) := by
  unfold check
  by_cases hfailed : ((a.probe .alice).failed.isSome || (a.probe .bob).failed.isSome) = true
  · rw [if_pos hfailed]
    exact .failed
  rw [if_neg hfailed]
  dsimp only
  obtain ⟨ab, hab, hstampAb, hexpireAb⟩ := (l.noteUnsent a).expire_cases transfer a .ab
  by_cases hstallAb : ((l.noteUnsent a).expire transfer a .ab).2 = true
  · rw [if_pos hstallAb]
    exact .stalled _ _ .ab (hexpireAb hstallAb)
  rw [if_neg hstallAb]
  obtain ⟨ba, hba, hstampBa, hexpireBa⟩ :=
    ((l.noteUnsent a).expire transfer a .ab).1.expire_cases transfer a .ba
  rw [hab] at hstampBa hexpireBa hba ⊢
  -- the stamp of the other direction is still the old one
  have hother : Function.update l.signalledAt .ab ab .ba = l.signalledAt .ba :=
    Function.update_of_ne Dir.noConfusion _ _
  split_ifs with hstallBa
  · obtain ⟨hsignal, limit, hlimit, hle⟩ := hexpireBa hstallBa
    refine .stalled _ _ .ba ⟨hsignal, limit, hlimit, ?_⟩
    change limit ≤ a.now - max ((l.noteUnsent a).movedAt transfer)
      ((Function.update l.signalledAt .ab ab .ba).getD a.now) at hle
    rwa [hother] at hle
  · rw [hba]
    refine .passed (Function.update (Function.update l.signalledAt .ab ab) .ba ba) ?_
    intro dir
    cases dir with
    | ab =>
      have hkept : Function.update (Function.update l.signalledAt .ab ab) .ba ba .ab =
          Function.update l.signalledAt .ab ab .ab := Function.update_of_ne Dir.noConfusion _ _
      unfold Restamped
      rw [hkept]
      exact hstampAb
    | ba =>
      unfold Restamped at hstampBa ⊢
      change Function.update (Function.update l.signalledAt .ab ab) .ba ba .ba = none ∨ _ ∧
        Function.update (Function.update l.signalledAt .ab ab) .ba ba .ba =
          some ((Function.update l.signalledAt .ab ab .ba).getD a.now) at hstampBa
      rwa [hother] at hstampBa

end Lifetime

end Kcptun.Pipe
