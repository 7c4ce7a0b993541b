/- Kcptun/Lib/RoundRobin
   digest: A list of members served in turn by a cursor, where members join at the back and leave
     when they are served: who is served before whom. -/

import Mathlib.Data.List.Nodup

set_option autoImplicit false
set_option relaxedAutoImplicit false

namespace Kcptun.Lib

/-- The members before the cursor and those from the cursor on. -/
structure Turns (α : Type*) where
  passed : List α
  ahead : List α

namespace Turns

variable {α : Type*}

def members (t : Turns α) : List α := t.passed ++ t.ahead

def wrap (t : Turns α) : Turns α :=
  match t.ahead with
  | [] => ⟨[], t.passed⟩
  | _ :: _ => t

def join (t : Turns α) (x : α) : Turns α := ⟨t.passed, t.ahead ++ [x]⟩

def keep (passed : List α) (x : α) (rest : List α) : Turns α := wrap ⟨passed ++ [x], rest⟩

def leave (passed : List α) (rest : List α) : Turns α := wrap ⟨passed, rest⟩

@[simp] theorem members_wrap (t : Turns α) : t.wrap.members = t.members := by
  obtain ⟨passed, ahead⟩ := t
  cases ahead <;> simp [wrap, members]

theorem ahead_wrap {t : Turns α} (h : t.wrap.ahead = []) : t.wrap.passed = [] := by
  obtain ⟨passed, ahead⟩ := t
  cases ahead with
  | nil => rfl
  | cons x xs => cases h

def Awaits (a b : α) (t : Turns α) : Prop :=
  (∃ xs ys, t.ahead = xs ++ a :: ys ∧ b ∉ xs) ∨
    (∃ xs ys, t.passed = xs ++ a :: ys ∧ b ∈ ys)

variable {a b x : α} {t : Turns α} {passed rest : List α}

theorem Awaits.join (h : Awaits a b t) (x : α) : Awaits a b (t.join x) := by
  rcases h with ⟨xs, ys, heq, hb⟩ | h
  · exact .inl ⟨xs, ys ++ [x], by simp [Turns.join, heq], hb⟩
  · exact .inr h

private theorem Awaits.wrap (h : Awaits a b t) (hnodup : t.members.Nodup) : Awaits a b t.wrap := by
  obtain ⟨passed, ahead⟩ := t
  cases ahead with
  | cons x xs => exact h
  | nil =>
    rcases h with ⟨xs, ys, heq, -⟩ | ⟨xs, ys, heq, hb⟩
    · simp at heq
    · refine .inl ⟨xs, ys, heq, ?_⟩
      intro hmem
      have hpassed : passed = xs ++ a :: ys := heq
      rw [members, List.append_nil, hpassed, List.nodup_append] at hnodup
      exact hnodup.2.2 b hmem b (List.mem_cons_of_mem a hb) rfl

theorem Awaits.served (h : Awaits a b ⟨passed, x :: rest⟩)
    (hnodup : (members ⟨passed, x :: rest⟩).Nodup) (hx : x ≠ a) :
    x ≠ b ∧ Awaits a b (keep passed x rest) ∧ Awaits a b (leave passed rest) := by
  have hne : x ≠ b := by
    rcases h with ⟨xs, ys, heq, hb⟩ | ⟨xs, ys, heq, hb⟩
    · cases xs with
      | nil => exact absurd (List.cons.inj heq).1 hx
      | cons y xs =>
        rintro rfl
        exact hb ((List.cons.inj heq).1 ▸ List.mem_cons_self)
    · rintro rfl
      have hpassed : passed = xs ++ a :: ys := heq
      rw [members, List.nodup_append] at hnodup
      refine hnodup.2.2 x ?_ x List.mem_cons_self rfl
      simp [hpassed, hb]
  have hkeep : Awaits a b ⟨passed ++ [x], rest⟩ ∧ Awaits a b ⟨passed, rest⟩ := by
    rcases h with ⟨xs, ys, heq, hb⟩ | ⟨xs, ys, heq, hb⟩
    · cases xs with
      | nil => exact absurd (List.cons.inj heq).1 hx
      | cons y xs =>
        have hrest := (List.cons.inj heq).2
        have hb' : b ∉ xs := fun hmem => hb (List.mem_cons_of_mem y hmem)
        exact ⟨.inl ⟨xs, ys, hrest, hb'⟩, .inl ⟨xs, ys, hrest, hb'⟩⟩
    · have hpassed : passed = xs ++ a :: ys := heq
      exact ⟨.inr ⟨xs, ys ++ [x], by simp [hpassed], by simp [hb]⟩, .inr ⟨xs, ys, hpassed, hb⟩⟩
  have hnodup' : (passed ++ rest).Nodup := by
    apply List.Nodup.sublist (List.Sublist.append_left (List.sublist_cons_self x rest) passed)
    exact hnodup
  refine ⟨hne, hkeep.1.wrap ?_, hkeep.2.wrap hnodup'⟩
  simpa [members] using hnodup

theorem awaits_keep (hnodup : (members ⟨passed, x :: rest⟩).Nodup)
    (ha : a ∈ members ⟨passed, x :: rest⟩) (hx : a ≠ x) : Awaits a x (keep passed x rest) := by
  have hstay : Awaits a x ⟨passed ++ [x], rest⟩ := by
    rcases List.mem_append.mp ha with hmem | hmem
    · obtain ⟨xs, ys, heq⟩ := List.append_of_mem hmem
      have hpassed : passed = xs ++ a :: ys := heq
      exact .inr ⟨xs, ys ++ [x], by simp [hpassed], by simp⟩
    · have hrest : a ∈ rest := (List.mem_cons.mp hmem).resolve_left hx
      obtain ⟨xs, ys, heq⟩ := List.append_of_mem hrest
      rw [members, List.nodup_append, List.nodup_cons] at hnodup
      exact .inl ⟨xs, ys, heq, fun hmem => hnodup.2.1.1 (by simp [heq, hmem])⟩
  apply hstay.wrap
  simpa [members] using hnodup

/-- Who is served and leaves comes after the members that stand behind it, and after all of them if
it was the last one. -/
theorem awaits_leave (hnodup : (members ⟨passed, x :: rest⟩).Nodup)
    (ha : a ∈ rest ∨ (a ∈ passed ∧ rest = [])) : Awaits a x (leave passed rest) := by
  rw [members, List.nodup_append, List.nodup_cons] at hnodup
  rcases ha with hmem | ⟨hmem, rfl⟩
  · obtain ⟨xs, ys, heq⟩ := List.append_of_mem hmem
    refine .inl ⟨xs, ys, ?_, fun hx => hnodup.2.1.1 (by simp [heq, hx])⟩
    cases rest with
    | nil => cases hmem
    | cons y rest => exact heq
  · obtain ⟨xs, ys, heq⟩ := List.append_of_mem hmem
    exact .inl ⟨xs, ys, heq, fun hx => hnodup.2.2 x (by simp [heq, hx]) x List.mem_cons_self rfl⟩

section Map

variable {β : Type*} (f : α → β)

def map (t : Turns α) : Turns β := ⟨t.passed.map f, t.ahead.map f⟩

theorem members_map (t : Turns α) : (t.map f).members = t.members.map f :=
  (List.map_append (f := f)).symm

private theorem map_wrap (t : Turns α) : t.wrap.map f = (t.map f).wrap := by
  obtain ⟨passed, ahead⟩ := t
  cases ahead <;> rfl

theorem map_join (t : Turns α) (x : α) : (t.join x).map f = (t.map f).join (f x) := by
  simp [Turns.map, Turns.join]

theorem map_keep (passed : List α) (x : α) (rest : List α) :
    (keep passed x rest).map f = keep (passed.map f) (f x) (rest.map f) := by
  rw [keep, map_wrap, keep, Turns.map, List.map_append]
  rfl

theorem map_leave (passed rest : List α) :
    (leave passed rest).map f = leave (passed.map f) (rest.map f) := by
  rw [leave, map_wrap, leave, Turns.map]

end Map

end Turns

end Kcptun.Lib
