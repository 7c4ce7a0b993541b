/- Kcptun/Lib/Linked
   digest: Doubly linked lists in a store: every entry knows its neighbours; appending to the list,
     taking an entry out of it, and walking it. -/

import Mathlib.Data.List.Nodup

set_option autoImplicit false
set_option relaxedAutoImplicit false

namespace Kcptun.Lib

variable {ι α : Type*}

/-- What a store holds for an entry: its value and its neighbours. -/
structure Link (ι α : Type*) where
  value : α
  prev : Option ι
  next : Option ι

/-- The first entry, `n` if there is none. -/
def headId (xs : List (ι × α)) (n : Option ι) : Option ι := (xs.head?.map Prod.fst).or n

/-- The last entry, `p` if there is none. -/
def lastId (xs : List (ι × α)) (p : Option ι) : Option ι := (xs.getLast?.map Prod.fst).or p

/-- The entries `xs` are linked in this order, between `p` and `n`. -/
def Linked (get : ι → Option (Link ι α)) : Option ι → List (ι × α) → Option ι → Prop
  | _, [], _ => True
  | p, x :: xs, n => get x.1 = some ⟨x.2, p, headId xs n⟩ ∧ Linked get (some x.1) xs n

variable {get get' : ι → Option (Link ι α)} {p n : Option ι} {xs ys : List (ι × α)} {x : ι × α}

@[simp] theorem headId_nil (n : Option ι) : headId ([] : List (ι × α)) n = n := rfl

@[simp] theorem headId_cons (x : ι × α) (xs : List (ι × α)) (n : Option ι) :
    headId (x :: xs) n = some x.1 := rfl

@[simp] theorem lastId_nil (p : Option ι) : lastId ([] : List (ι × α)) p = p := rfl

@[simp] theorem lastId_append_singleton (xs : List (ι × α)) (x : ι × α) (p : Option ι) :
    lastId (xs ++ [x]) p = some x.1 := by
  simp [lastId]

theorem lastId_cons (x : ι × α) (xs : List (ι × α)) (p : Option ι) :
    lastId (x :: xs) p = lastId xs (some x.1) := by
  cases xs with
  | nil => rfl
  | cons y ys => simp [lastId, List.getLast?_cons]

theorem headId_append (xs ys : List (ι × α)) (n : Option ι) :
    headId (xs ++ ys) n = headId xs (headId ys n) := by
  cases xs <;> rfl

theorem Linked.congr (h : Linked get p xs n) (heq : ∀ x ∈ xs, get' x.1 = get x.1) :
    Linked get' p xs n := by
  induction xs generalizing p with
  | nil => trivial
  | cons x xs ih =>
    rw [List.forall_mem_cons] at heq
    exact ⟨heq.1.trans h.1, ih h.2 heq.2⟩

theorem linked_append : Linked get p (xs ++ ys) n ↔
    Linked get p xs (headId ys n) ∧ Linked get (lastId xs p) ys n := by
  induction xs generalizing p with
  | nil => simp [Linked]
  | cons x xs ih =>
    rw [List.cons_append, Linked, Linked, ih, headId_append, lastId_cons, and_assoc]

theorem Linked.get_of_mem (h : Linked get p xs n) (hx : x ∈ xs) :
    ∃ q r, get x.1 = some ⟨x.2, q, r⟩ := by
  obtain ⟨ys, zs, rfl⟩ := List.append_of_mem hx
  exact ⟨_, _, (linked_append.mp h).2.1⟩

theorem Linked.relast (h : Linked get p xs n) (hnodup : (xs.map Prod.fst).Nodup) {n' : Option ι}
    (hlast : ∀ x q, xs.getLast? = some x → get x.1 = some ⟨x.2, q, n⟩ →
      get' x.1 = some ⟨x.2, q, n'⟩)
    (heq : ∀ x ∈ xs, some x.1 ≠ xs.getLast?.map Prod.fst → get' x.1 = get x.1) :
    Linked get' p xs n' := by
  rcases List.eq_nil_or_concat xs with rfl | ⟨ys, y, rfl⟩
  · trivial
  · rw [List.concat_eq_append] at *
    rw [linked_append] at h ⊢
    rw [List.map_append, List.nodup_append] at hnodup
    refine ⟨h.1.congr fun x hx => heq x (List.mem_append_left _ hx) ?_, ?_, trivial⟩
    · rw [List.getLast?_concat]
      intro hsame
      exact hnodup.2.2 x.1 (List.mem_map_of_mem hx) y.1 (by simp) (by simpa using hsame)
    · exact hlast y _ List.getLast?_concat h.2.1

theorem Linked.rehead (h : Linked get p xs n) (hnodup : (xs.map Prod.fst).Nodup) {p' : Option ι}
    (hhead : ∀ x r, xs.head? = some x → get x.1 = some ⟨x.2, p, r⟩ → get' x.1 = some ⟨x.2, p', r⟩)
    (heq : ∀ x ∈ xs, some x.1 ≠ xs.head?.map Prod.fst → get' x.1 = get x.1) :
    Linked get' p' xs n := by
  cases xs with
  | nil => trivial
  | cons y ys =>
    refine ⟨hhead y _ rfl h.1, h.2.congr fun x hx => heq x (List.mem_cons_of_mem y hx) ?_⟩
    intro hsame
    have hid : x.1 = y.1 := by simpa using hsame
    rw [List.map_cons, List.nodup_cons] at hnodup
    exact hnodup.1 (hid ▸ List.mem_map_of_mem hx)

/-- Follows the successors, at most `fuel` of them. -/
def walk (get : ι → Option (Link ι α)) : ℕ → Option ι → List (ι × α)
  | fuel + 1, some id =>
    match get id with
    | none => []
    | some link => (id, link.value) :: walk get fuel link.next
  | _, _ => []

theorem Linked.walk_eq (h : Linked get p xs none) {fuel : ℕ} (hfuel : xs.length ≤ fuel) :
    walk get fuel (headId xs none) = xs := by
  induction xs generalizing p fuel with
  | nil => cases fuel <;> rfl
  | cons x xs ih =>
    cases fuel with
    | zero => simp at hfuel
    | succ fuel =>
      rw [headId_cons, walk, h.1]
      dsimp only
      rw [ih h.2 (Nat.le_of_succ_le_succ hfuel)]

end Kcptun.Lib
