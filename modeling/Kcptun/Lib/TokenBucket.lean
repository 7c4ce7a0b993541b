/- Kcptun/Lib/TokenBucket
   digest: A bucket that fills at a rate up to a cap and may be overdrawn: what is released in a
     window of time, when each request waits until the bucket has paid for it. -/

import Mathlib.Algebra.Order.Field.Basic
import Mathlib.Algebra.Order.BigOperators.Group.List
import Mathlib.Data.List.DropRight
import Mathlib.Tactic.Linarith
import Mathlib.Tactic.Ring

set_option autoImplicit false
set_option relaxedAutoImplicit false

namespace Kcptun.Lib.TokenBucket

variable {K : Type*} [Field K]

structure Release (K : Type*) where
  time : K
  amount : K

def total (releases : List (Release K)) : K := (releases.map Release.amount).sum

@[simp] theorem total_nil : total ([] : List (Release K)) = 0 := rfl

@[simp] theorem total_cons (r : Release K) (releases : List (Release K)) :
    total (r :: releases) = r.amount + total releases := by
  rw [total, total, List.map_cons, List.sum_cons]

@[simp] theorem total_singleton (r : Release K) : total [r] = r.amount := by
  rw [total_cons, total_nil, add_zero]

@[simp] theorem total_append (front releases : List (Release K)) :
    total (front ++ releases) = total front + total releases := by
  rw [total, total, total, List.map_append, List.sum_append]

variable [LinearOrder K] [IsStrictOrderedRing K]

/-- What is released from `start` on for a time of `d`, both ends included. -/
def within (start d : K) (releases : List (Release K)) : K :=
  total (releases.filter fun r => start ≤ r.time ∧ r.time ≤ start + d)

def filled (rate cap level elapsed : K) : K := min (level + rate * elapsed) cap

section Totals

variable {releases front : List (Release K)}

private theorem total_le_of_sublist (h : front.Sublist releases)
    (hpos : ∀ r ∈ releases, 0 ≤ r.amount) : total front ≤ total releases := by
  refine (h.map Release.amount).sum_le_sum ?_
  intro a ha
  obtain ⟨r, hr, rfl⟩ := List.mem_map.mp ha
  exact hpos r hr

theorem within_le_total (start d : K) (hpos : ∀ r ∈ releases, 0 ≤ r.amount) :
    within start d releases ≤ total (releases.dropWhile fun r => r.time < start) := by
  have hfront : (releases.takeWhile fun r => r.time < start).filter
      (fun r => start ≤ r.time ∧ r.time ≤ start + d) = [] := by
    apply List.filter_eq_nil_iff.mpr
    intro r hr h
    have hbefore := List.mem_takeWhile_imp (p := fun r : Release K => decide (r.time < start)) hr
    exact absurd (of_decide_eq_true h).1 (not_le.mpr (of_decide_eq_true hbefore))
  have hsplit : within start d releases = total ((releases.dropWhile fun r => r.time < start).filter
      fun r => start ≤ r.time ∧ r.time ≤ start + d) := by
    rw [within]
    conv_lhs => rw [← List.takeWhile_append_dropWhile (p := fun r : Release K => r.time < start)
      (l := releases)]
    rw [List.filter_append, hfront, List.nil_append]
  rw [hsplit]
  exact total_le_of_sublist List.filter_sublist fun r hr =>
    hpos r ((List.dropWhile_suffix _).subset hr)

end Totals

section Runs

variable (rate cap slack late : K)

/-- Runs of one caller. Each request is made no earlier than the release before it; its wait pays
what the bucket is overdrawn, short of what fills up in `slack`, and its release comes at most
`late` after the wait. The bucket holds `level` at the time `last`, and `free` is when the caller
goes on. -/
inductive Paced : K → K → K → List (Release K) → Prop where
  | start (t : K) : Paced cap t t []
  | take {level last free now amount level' wait time : K} {releases : List (Release K)}
      (h : Paced level last free releases) (hnow : free ≤ now) (hamount : 0 ≤ amount)
      (hlevel : level' = filled rate cap level (now - last) - amount)
      (hwait : 0 ≤ level' ∧ wait = 0 ∨ level' + rate * wait ≤ 0)
      (hpaid : 0 ≤ level' + rate * (wait + slack))
      (htime : now + wait ≤ time) (hlate : time ≤ now + wait + late) :
      Paced level' now time (releases ++ [⟨time, amount⟩])

variable {rate cap slack late : K} {level last free : K} {releases : List (Release K)}

omit [IsStrictOrderedRing K] in
private theorem filled_le_cap (rate cap level elapsed : K) : filled rate cap level elapsed ≤ cap :=
  min_le_right _ _

omit [IsStrictOrderedRing K] in
private theorem filled_le (rate cap level elapsed : K) :
    filled rate cap level elapsed ≤ level + rate * elapsed := min_le_left _ _

theorem Paced.level_le (h : Paced rate cap slack late level last free releases) :
    level ≤ cap := by
  cases h with
  | start => exact le_rfl
  | @take level₀ last₀ free₀ _ amount _ wait _ releases h hnow hamount hlevel =>
    have hfilled := filled_le_cap rate cap level₀ (last - last₀)
    linarith

omit [IsStrictOrderedRing K] in
private theorem Paced.amount_nonneg (h : Paced rate cap slack late level last free releases) :
    ∀ r ∈ releases, 0 ≤ r.amount := by
  induction h with
  | start t =>
    intro r hr
    cases hr
  | take h hnow hamount hlevel hwait hpaid htime hlate ih =>
    intro r hr
    rcases List.mem_append.mp hr with hr | hr
    · exact ih r hr
    · rw [List.mem_singleton.mp hr]
      exact hamount

theorem Paced.paid (h : Paced rate cap slack late level last free releases) (hrate : 0 ≤ rate)
    (hcap : 0 ≤ cap) (hslack : 0 ≤ slack) : 0 ≤ level + rate * (free - last + slack) := by
  cases h with
  | start t =>
    rw [sub_self, zero_add]
    exact add_nonneg hcap (mul_nonneg hrate hslack)
  | take h hnow hamount hlevel hwait hpaid htime hlate =>
    refine hpaid.trans (add_le_add_right (mul_le_mul_of_nonneg_left ?_ hrate) _)
    linarith

/-- From any release on, what is released and what is left come from the allowance of that release
and from what has filled up since. -/
theorem Paced.covered (h : Paced rate cap slack late level last free releases) (hrate : 0 ≤ rate)
    {most : K} (hcap : cap ≤ most) (hmost : ∀ r ∈ releases, r.amount ≤ most)
    {before after : List (Release K)} {r : Release K} (hsplit : releases = before ++ r :: after) :
    total (r :: after) + level ≤ most + rate * (last - r.time + late) := by
  induction h generalizing after with
  | start t =>
    have hlen := congrArg List.length hsplit
    simp at hlen
  | @take level last free now amount level' wait time releases h hnow hamount hlevel hwait hpaid
      htime hlate ih =>
    rcases List.eq_nil_or_concat after with rfl | ⟨after, r', rfl⟩
    · -- the release itself
      obtain ⟨-, heq⟩ := List.append_inj' hsplit rfl
      obtain ⟨rfl, -⟩ := List.cons.inj heq
      have hamount' := hmost _ (List.mem_append_right releases List.mem_cons_self)
      have hfilled := filled_le_cap rate cap level (now - last)
      have hdebt : amount + level' + rate * wait ≤ most := by
        rcases hwait with ⟨hlevel', rfl⟩ | hwait
        · rw [mul_zero, add_zero, hlevel]
          linarith
        · linarith
      have hspan : 0 ≤ rate * (now + wait + late - time) := mul_nonneg hrate (by linarith)
      rw [total_singleton]
      show amount + level' ≤ most + rate * (now - time + late)
      linarith
    · -- one release more behind it
      have hassoc : before ++ r :: after.concat r' = (before ++ r :: after) ++ [r'] := by
        rw [List.concat_eq_append, List.append_assoc, List.cons_append]
      rw [hassoc] at hsplit
      obtain ⟨hfront, heq⟩ := List.append_inj' hsplit rfl
      obtain ⟨rfl, -⟩ := List.cons.inj heq
      have hih := ih (fun r hr => hmost r (List.mem_append_left _ hr)) hfront
      have hfilled := filled_le rate cap level (now - last)
      rw [List.concat_eq_append, ← List.cons_append, total_append, total_singleton]
      show _ + amount + level' ≤ _
      rw [hlevel]
      linarith

/-- What is released in a window is at most the cap or the largest request, with what fills up in
the time of the window, the slack of a wait and the delay of a release. -/
theorem Paced.within_le (h : Paced rate cap slack late level last free releases) (hrate : 0 ≤ rate)
    (hzero : 0 ≤ cap) (hslack : 0 ≤ slack) (hlate : 0 ≤ late) {most : K} (hcap : cap ≤ most)
    (hmost : ∀ r ∈ releases, r.amount ≤ most) (start : K) {d : K} (hd : 0 ≤ d) :
    within start d releases ≤ most + rate * (d + slack + late) := by
  have hspare : 0 ≤ rate * (d + slack + late) := mul_nonneg hrate (by linarith)
  induction h with
  | start t =>
    rw [within, List.filter_nil, total_nil]
    linarith
  | @take level last free now amount level' wait time releases h hnow hamount hlevel hwait hpaid
      htime hlate' ih =>
    have hrun : Paced rate cap slack late level' now time (releases ++ [⟨time, amount⟩]) :=
      .take h hnow hamount hlevel hwait hpaid htime hlate'
    by_cases hin : start ≤ time ∧ time ≤ start + d
    · obtain ⟨hafter, hbefore⟩ := hin
      have hle := within_le_total start d hrun.amount_nonneg
      cases hdrop : (releases ++ [(⟨time, amount⟩ : Release K)]).dropWhile
          fun r => r.time < start with
      | nil =>
        rw [hdrop, total_nil] at hle
        linarith
      | cons r after =>
        rw [hdrop] at hle
        have hfirst : start ≤ r.time := by
          have hhead := List.head?_dropWhile_not (fun r : Release K => decide (r.time < start))
            (releases ++ [⟨time, amount⟩])
          rw [hdrop] at hhead
          simpa using hhead
        have hsplit := (List.takeWhile_append_dropWhile
          (p := fun r : Release K => decide (r.time < start))
          (l := releases ++ [⟨time, amount⟩])).symm
        rw [hdrop] at hsplit
        have hcovered := hrun.covered hrate hcap hmost hsplit
        have hpaid' := hrun.paid hrate hzero hslack
        have hspan : 0 ≤ rate * (start + d - time + (r.time - start)) :=
          mul_nonneg hrate (by linarith)
        linarith
    · have hskip : within start d (releases ++ [⟨time, amount⟩]) = within start d releases := by
        rw [within, within, List.filter_append, List.filter_cons_of_neg, List.filter_nil,
          List.append_nil]
        simpa using hin
      rw [hskip]
      exact ih fun r hr => hmost r (List.mem_append_left _ hr)

end Runs

end Kcptun.Lib.TokenBucket
