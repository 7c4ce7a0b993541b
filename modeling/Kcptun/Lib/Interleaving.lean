/- Kcptun/Lib/Interleaving
   digest: Runs of tasks that share a state: a labelled step is enabled or not, a schedule is a
     list of labels, and invariants hold along every schedule. -/

import Mathlib.Data.List.Basic

set_option autoImplicit false
set_option relaxedAutoImplicit false

namespace Kcptun.Lib

variable {σ α : Type*}

/-- The state a schedule leads to; `none` when one of its steps is not enabled. -/
def exec (next : σ → α → Option σ) : σ → List α → Option σ
  | s, [] => some s
  | s, a :: as => (next s a).bind fun s' => exec next s' as

def Along (next : σ → α → Option σ) (ok : σ → α → Prop) : σ → List α → Prop
  | _, [] => True
  | s, a :: as => ok s a ∧ ∀ s', next s a = some s' → Along next ok s' as

variable {next : σ → α → Option σ} {ok : σ → α → Prop}

theorem exec_cons_iff {s s'' : σ} {a : α} {as : List α} :
    exec next s (a :: as) = some s'' ↔ ∃ s', next s a = some s' ∧ exec next s' as = some s'' := by
  simp only [exec, Option.bind_eq_some_iff]

theorem exec_append_iff {s s'' : σ} {as bs : List α} :
    exec next s (as ++ bs) = some s'' ↔
      ∃ s', exec next s as = some s' ∧ exec next s' bs = some s'' := by
  induction as generalizing s with
  | nil => simp [exec]
  | cons a as ih =>
    rw [List.cons_append, exec_cons_iff]
    constructor
    · rintro ⟨s1, hstep, hrest⟩
      obtain ⟨s2, has, hbs⟩ := ih.mp hrest
      exact ⟨s2, exec_cons_iff.mpr ⟨s1, hstep, has⟩, hbs⟩
    · rintro ⟨s2, has, hbs⟩
      obtain ⟨s1, hstep, hrest⟩ := exec_cons_iff.mp has
      exact ⟨s1, hstep, ih.mpr ⟨s2, hrest, hbs⟩⟩

theorem along_cons_iff {s : σ} {a : α} {as : List α} :
    Along next ok s (a :: as) ↔ ok s a ∧ (next s a).elim True fun s' => Along next ok s' as := by
  cases hnext : next s a <;> simp [Along, hnext]

instance decidableAlong (next : σ → α → Option σ) (ok : σ → α → Prop)
    [∀ s a, Decidable (ok s a)] : ∀ (s : σ) (as : List α), Decidable (Along next ok s as)
  | _, [] => .isTrue trivial
  | s, a :: as =>
    have : Decidable ((next s a).elim True fun s' => Along next ok s' as) :=
      match next s a with
      | none => .isTrue trivial
      | some s' => decidableAlong next ok s' as
    decidable_of_iff _ along_cons_iff.symm

theorem Along.imp {ok' : σ → α → Prop} (himp : ∀ s a, ok s a → ok' s a) {s : σ} {as : List α}
    (h : Along next ok s as) : Along next ok' s as := by
  induction as generalizing s with
  | nil => trivial
  | cons a as ih => exact ⟨himp s a h.1, fun s' hs' => ih (h.2 s' hs')⟩

theorem Along.and_forall {good : α → Prop} {s : σ} {as : List α} (h : Along next ok s as)
    (hgood : ∀ a ∈ as, good a) : Along next (fun s a => ok s a ∧ good a) s as := by
  induction as generalizing s with
  | nil => trivial
  | cons a as ih =>
    rw [List.forall_mem_cons] at hgood
    exact ⟨⟨h.1, hgood.1⟩, fun s' hs' => ih (h.2 s' hs') hgood.2⟩

theorem exec_invariant (inv : σ → Prop)
    (hstep : ∀ s a s', inv s → ok s a → next s a = some s' → inv s') {s s' : σ} {as : List α}
    (hs : inv s) (hok : Along next ok s as) (hrun : exec next s as = some s') : inv s' := by
  induction as generalizing s with
  | nil =>
    cases hrun
    exact hs
  | cons a as ih =>
    obtain ⟨s1, hnext, hrest⟩ := exec_cons_iff.mp hrun
    obtain ⟨hallowed, hlater⟩ := hok
    exact ih (hstep s a s1 hs hallowed hnext) (hlater s1 hnext) hrest

theorem exec_invariant_all (inv : σ → Prop)
    (hstep : ∀ s a s', inv s → next s a = some s' → inv s') {s s' : σ} {as : List α}
    (hs : inv s) (hrun : exec next s as = some s') : inv s' := by
  have hok : Along next (fun _ _ => True) s as := by
    clear hrun hs
    induction as generalizing s with
    | nil => trivial
    | cons a as ih => exact ⟨trivial, fun s1 _ => ih⟩
  exact exec_invariant inv (fun s a s' hi _ hn => hstep s a s' hi hn) hs hok hrun

theorem exec_before (within : σ → Prop) (hback : ∀ s a s', next s a = some s' → within s' → within s)
    {s s' : σ} {as : List α} (hrun : exec next s as = some s') (hend : within s') : within s := by
  induction as generalizing s with
  | nil =>
    cases hrun
    exact hend
  | cons a as ih =>
    obtain ⟨s1, hnext, hrest⟩ := exec_cons_iff.mp hrun
    exact hback s a s1 hnext (ih hrest)

theorem exec_invariant_within (inv within : σ → Prop) (good : α → Prop)
    (hback : ∀ s a s', next s a = some s' → within s' → within s)
    (hstep : ∀ s a s', inv s → good a → next s a = some s' → within s' → inv s') {s s' : σ}
    {as : List α} (hgood : ∀ a ∈ as, good a) (hs : inv s) (hrun : exec next s as = some s')
    (hend : within s') : inv s' := by
  induction as generalizing s with
  | nil =>
    cases hrun
    exact hs
  | cons a as ih =>
    rw [List.forall_mem_cons] at hgood
    obtain ⟨s1, hnext, hrest⟩ := exec_cons_iff.mp hrun
    have hwithin := exec_before within hback hrest hend
    exact ih hgood.2 (hstep s a s1 hs hgood.1 hnext hwithin) hrest

/-- Where the allowed steps keep an invariant and any other step breaks what it gives, a schedule is
allowed exactly when nothing breaks on the way. -/
theorem along_iff_throughout (inv good : σ → Prop) (hgood : ∀ s, inv s → good s)
    (hstep : ∀ s a s', inv s → ok s a → next s a = some s' → inv s')
    (hbreak : ∀ s a s', inv s → ¬ok s a → next s a = some s' → ¬good s') {s s' : σ} {as : List α}
    (hs : inv s) (hrun : exec next s as = some s') :
    Along next ok s as ↔ ∀ front, front <+: as → ∀ t, exec next s front = some t → good t := by
  induction as generalizing s with
  | nil =>
    refine ⟨?_, fun _ => trivial⟩
    intro _ front hfront t ht
    obtain rfl := List.prefix_nil.mp hfront
    cases ht
    exact hgood s hs
  | cons a as ih =>
    obtain ⟨s1, hnext, hrest⟩ := exec_cons_iff.mp hrun
    constructor
    · rintro ⟨hok, hlater⟩ front hfront t ht
      cases front with
      | nil =>
        cases ht
        exact hgood s hs
      | cons b front =>
        obtain ⟨rfl, hrest'⟩ := List.cons_prefix_cons.mp hfront
        obtain ⟨t1, ht1, ht⟩ := exec_cons_iff.mp ht
        obtain rfl := Option.some.inj (hnext.symm.trans ht1)
        have hs1 := hstep s b s1 hs hok hnext
        exact (ih hs1 hrest).mp (hlater s1 hnext) front hrest' t ht
    · intro hall
      have hok : ok s a := by
        by_contra hno
        refine hbreak s a s1 hs hno hnext (hall [a] ⟨as, rfl⟩ s1 ?_)
        exact exec_cons_iff.mpr ⟨s1, hnext, rfl⟩
      refine ⟨hok, ?_⟩
      intro t1 ht1
      obtain rfl := Option.some.inj (hnext.symm.trans ht1)
      refine (ih (hstep s a s1 hs hok hnext) hrest).mpr ?_
      intro front hfront t ht
      apply hall (a :: front) (List.cons_prefix_cons.mpr ⟨rfl, hfront⟩) t
      exact exec_cons_iff.mpr ⟨s1, hnext, ht⟩

theorem exec_total (inv : σ → Prop)
    (hstep : ∀ s a, inv s → ∃ s', next s a = some s' ∧ inv s') (as : List α) {s : σ} (hs : inv s) :
    ∃ s', exec next s as = some s' ∧ inv s' := by
  induction as generalizing s with
  | nil => exact ⟨s, rfl, hs⟩
  | cons a as ih =>
    obtain ⟨s1, hnext, h1⟩ := hstep s a hs
    obtain ⟨s2, hexec, h2⟩ := ih h1
    exact ⟨s2, exec_cons_iff.mpr ⟨s1, hnext, hexec⟩, h2⟩

end Kcptun.Lib
