/- Kcptun/Lib/TwoEnded
   digest: Iterators that lend the slots of an array from both ends: two of them chained are one over
     both arrays, for every client. -/

import Mathlib.Data.List.Basic

set_option autoImplicit false
set_option relaxedAutoImplicit false

namespace Kcptun.Lib

variable {α ι κ : Type}

inductive Side
  | front
  | back
  deriving DecidableEq, Repr

/-- An iterator over an array: the slots lent from the front, those to come, and those lent from the
back, as the client left them. -/
structure SliceIter (α : Type) where
  front : List α
  rest : List α
  back : List α

namespace SliceIter

def ofSlots (slots : List α) : SliceIter α := ⟨[], slots, []⟩

def slots (it : SliceIter α) : List α := it.front ++ it.rest ++ it.back

/-- The next slot of a side, and the iterator once the client has left a value there. -/
def pull (side : Side) (it : SliceIter α) : Option (α × (α → SliceIter α)) :=
  match side with
  | .front =>
    match it.rest with
    | [] => none
    | x :: rest => some (x, fun y => ⟨it.front ++ [y], rest, it.back⟩)
  | .back =>
    match it.rest.reverse with
    | [] => none
    | x :: rest => some (x, fun y => ⟨it.front, rest.reverse, y :: it.back⟩)

private theorem pull_front (front back : List α) (x : α) (rest : List α) :
    pull .front ⟨front, x :: rest, back⟩ = some (x, fun y => ⟨front ++ [y], rest, back⟩) := rfl

private theorem pull_back (front back : List α) (x : α) (rest : List α) :
    pull .back ⟨front, rest ++ [x], back⟩ = some (x, fun y => ⟨front, rest, y :: back⟩) := by
  simp [pull]

end SliceIter

structure Chain (α : Type) where
  a : SliceIter α
  b : SliceIter α

namespace Chain

def ofSlots (a b : List α) : Chain α := ⟨.ofSlots a, .ofSlots b⟩

def pull (side : Side) (c : Chain α) : Option (α × (α → Chain α)) :=
  match side with
  | .front =>
    match c.a.pull .front with
    | some (x, put) => some (x, fun y => ⟨put y, c.b⟩)
    | none => (c.b.pull .front).map fun p => (p.1, fun y => ⟨c.a, p.2 y⟩)
  | .back =>
    match c.b.pull .back with
    | some (x, put) => some (x, fun y => ⟨c.a, put y⟩)
    | none => (c.a.pull .back).map fun p => (p.1, fun y => ⟨p.2 y, c.b⟩)

end Chain

/-- A client of an iterator: which side it asks, what it leaves in the slot it is lent, and how it
goes on with what it has seen. -/
inductive Client (α : Type) where
  | stop
  | ask (side : Side) (leave : α → α) (next : Option α → Client α)

/-- What a client sees, and the iterator when it stops. -/
def drive (pull : Side → ι → Option (α × (α → ι))) : Client α → ι → List (Option α) × ι
  | .stop, it => ([], it)
  | .ask side leave next, it =>
    match pull side it with
    | none =>
      let rest := drive pull (next none) it
      (none :: rest.1, rest.2)
    | some (x, put) =>
      let rest := drive pull (next (some x)) (put (leave x))
      (some x :: rest.1, rest.2)

/-- A loop over one side that a callback ends by returning `false`. The callback may go by all it has
been called with before; these elements are returned. -/
def visit (pull : Side → ι → Option (α × (α → ι))) (side : Side) (f : List α → α → Bool × α) :
    ℕ → List α → ι → List α × ι
  | 0, seen, it => (seen, it)
  | n + 1, seen, it =>
    match pull side it with
    | none => (seen, it)
    | some (x, put) =>
      if (f seen x).1 then visit pull side f n (seen ++ [x]) (put (f seen x).2)
      else (seen ++ [x], put (f seen x).2)

section Agree

variable {pull : Side → ι → Option (α × (α → ι))} {pull' : Side → κ → Option (α × (α → κ))}

def Agree (pull : Side → ι → Option (α × (α → ι))) (pull' : Side → κ → Option (α × (α → κ)))
    (rel : ι → κ → Prop) : Prop :=
  ∀ side it it', rel it it' → (pull side it = none ∧ pull' side it' = none) ∨
    ∃ x put put', pull side it = some (x, put) ∧ pull' side it' = some (x, put') ∧
      ∀ y, rel (put y) (put' y)

variable {rel : ι → κ → Prop}

theorem drive_agree (h : Agree pull pull' rel) (c : Client α) {it : ι} {it' : κ} (hrel : rel it it') :
    (drive pull c it).1 = (drive pull' c it').1 ∧
      rel (drive pull c it).2 (drive pull' c it').2 := by
  induction c generalizing it it' with
  | stop => exact ⟨rfl, hrel⟩
  | ask side leave next ih =>
    unfold drive
    rcases h side it it' hrel with ⟨hnone, hnone'⟩ | ⟨x, put, put', hsome, hsome', hput⟩
    · rw [hnone, hnone']
      obtain ⟨hseen, hend⟩ := ih none hrel
      exact ⟨congrArg (none :: ·) hseen, hend⟩
    · rw [hsome, hsome']
      obtain ⟨hseen, hend⟩ := ih (some x) (hput (leave x))
      exact ⟨congrArg (some x :: ·) hseen, hend⟩

theorem visit_agree (h : Agree pull pull' rel) (side : Side) (f : List α → α → Bool × α) (n : ℕ)
    (seen : List α) {it : ι} {it' : κ} (hrel : rel it it') :
    (visit pull side f n seen it).1 = (visit pull' side f n seen it').1 ∧
      rel (visit pull side f n seen it).2 (visit pull' side f n seen it').2 := by
  induction n generalizing seen it it' with
  | zero => exact ⟨rfl, hrel⟩
  | succ n ih =>
    unfold visit
    rcases h side it it' hrel with ⟨hnone, hnone'⟩ | ⟨x, put, put', hsome, hsome', hput⟩
    · rw [hnone, hnone']
      exact ⟨rfl, hrel⟩
    · rw [hsome, hsome']
      dsimp only
      split_ifs
      · exact ih _ (hput _)
      · exact ⟨rfl, hput _⟩

end Agree

/-- The chain `c`, whose arrays have `m` and `k` slots, stands where the iterator `it` over both arrays
stands. -/
structure Joined (m k : ℕ) (c : Chain α) (it : SliceIter α) : Prop where
  length_a : c.a.slots.length = m
  length_b : c.b.slots.length = k
  front : it.front = c.a.front ++ c.b.front
  rest : it.rest = c.a.rest ++ c.b.rest
  back : it.back = c.a.back ++ c.b.back
  first : c.a.rest ≠ [] → c.b.front = []
  last : c.b.rest ≠ [] → c.a.back = []
  sides : c.b.front = [] ∨ c.a.back = []

theorem joined_ofSlots (a b : List α) : Joined a.length b.length (.ofSlots a b) (.ofSlots (a ++ b)) :=
  ⟨congrArg List.length (List.append_nil a), congrArg List.length (List.append_nil b), rfl, rfl,
    rfl, fun _ => rfl, fun _ => rfl, .inl rfl⟩

theorem Joined.slots {m k : ℕ} {c : Chain α} {it : SliceIter α} (h : Joined m k c it) :
    c.a.slots ++ c.b.slots = it.slots := by
  obtain ⟨-, -, hfront, hrest, hback, hfirst, hlast, hsides⟩ := h
  unfold SliceIter.slots
  rw [hfront, hrest, hback]
  by_cases ha : c.a.back = []
  · rw [ha]
    by_cases hb : c.a.rest = []
    · simp [hb]
    · simp [hfirst hb]
  · have hb : c.b.rest = [] := by
      by_contra hne
      exact ha (hlast hne)
    simp [hb, hsides.resolve_right ha]

theorem joined_agree (m k : ℕ) : Agree (α := α) Chain.pull SliceIter.pull (Joined m k) := by
  intro side c it h
  obtain ⟨⟨afront, arest, aback⟩, bfront, brest, bback⟩ := c
  obtain ⟨front, rest, back⟩ := it
  obtain ⟨hm, hk, hfront, hrest, hback, hfirst, hlast, hsides⟩ := h
  dsimp only [SliceIter.slots] at hm hk hfront hrest hback hfirst hlast hsides
  subst hfront hrest hback
  cases side with
  | front =>
    cases arest with
    | cons x arest =>
      obtain rfl := hfirst (List.cons_ne_nil x arest)
      refine .inr ⟨x, _, _, rfl, rfl, fun y => ⟨?_, hk, ?_, rfl, rfl, fun _ => rfl, hlast,
        .inl rfl⟩⟩
      · simpa [SliceIter.slots] using hm
      · simp
    | nil =>
      cases brest with
      | nil => exact .inl ⟨rfl, rfl⟩
      | cons x brest =>
        obtain rfl := hlast (List.cons_ne_nil x brest)
        refine .inr ⟨x, _, _, rfl, rfl, fun y => ⟨hm, ?_, List.append_assoc _ _ _, rfl, rfl,
          fun hne => absurd rfl hne, fun _ => rfl, .inr rfl⟩⟩
        simpa [SliceIter.slots] using hk
  | back =>
    rcases List.eq_nil_or_concat' brest with rfl | ⟨brest, x, rfl⟩
    · rcases List.eq_nil_or_concat' arest with rfl | ⟨arest, x, rfl⟩
      · exact .inl ⟨rfl, rfl⟩
      · obtain rfl := hfirst (List.append_ne_nil_of_right_ne_nil _ (List.cons_ne_nil x []))
        refine .inr ⟨x, fun y => ⟨⟨afront, arest, y :: aback⟩, ⟨[], [], bback⟩⟩,
          fun y => ⟨afront ++ [], arest, y :: (aback ++ bback)⟩, ?_, ?_, ?_⟩
        · simp [Chain.pull, SliceIter.pull]
        · simp [SliceIter.pull]
        · intro y
          refine ⟨?_, hk, rfl, (List.append_nil _).symm, rfl, fun _ => rfl,
            fun hne => absurd rfl hne, .inl rfl⟩
          simpa [SliceIter.slots] using hm
    · obtain rfl := hlast (List.append_ne_nil_of_right_ne_nil _ (List.cons_ne_nil x []))
      refine .inr ⟨x, fun y => ⟨⟨afront, arest, []⟩, ⟨bfront, brest, y :: bback⟩⟩,
        fun y => ⟨afront ++ bfront, arest ++ brest, y :: bback⟩, ?_, ?_, ?_⟩
      · simp [Chain.pull, SliceIter.pull]
      · simp [SliceIter.pull]
      · intro y
        refine ⟨hm, ?_, rfl, rfl, rfl, hfirst, fun _ => rfl, .inr rfl⟩
        simpa [SliceIter.slots] using hk

/-- The callback on a list, from its head. -/
def visitList (f : List α → α → Bool × α) : List α → List α → List α × List α
  | seen, [] => (seen, [])
  | seen, x :: xs =>
    if (f seen x).1 then
      let rest := visitList f (seen ++ [x]) xs
      (rest.1, (f seen x).2 :: rest.2)
    else (seen ++ [x], (f seen x).2 :: xs)

theorem visit_front (f : List α → α → Bool × α) (n : ℕ) (seen front rest back : List α)
    (hn : rest.length ≤ n) :
    (visit SliceIter.pull .front f n seen ⟨front, rest, back⟩).1 = (visitList f seen rest).1 ∧
      (visit SliceIter.pull .front f n seen ⟨front, rest, back⟩).2.slots =
        front ++ (visitList f seen rest).2 ++ back := by
  induction n generalizing seen front rest with
  | zero =>
    obtain rfl := List.length_eq_zero_iff.mp (Nat.le_zero.mp hn)
    exact ⟨rfl, rfl⟩
  | succ n ih =>
    cases rest with
    | nil => exact ⟨rfl, rfl⟩
    | cons x rest =>
      unfold visit visitList
      rw [SliceIter.pull_front]
      dsimp only
      split_ifs
      · obtain ⟨hseen, hslots⟩ := ih (seen ++ [x]) (front ++ [(f seen x).2]) rest
          (Nat.le_of_succ_le_succ hn)
        refine ⟨hseen, hslots.trans ?_⟩
        simp
      · refine ⟨rfl, ?_⟩
        simp [SliceIter.slots]

theorem visit_back (f : List α → α → Bool × α) (n : ℕ) (seen front rest back : List α)
    (hn : rest.length ≤ n) :
    (visit SliceIter.pull .back f n seen ⟨front, rest, back⟩).1 =
        (visitList f seen rest.reverse).1 ∧
      (visit SliceIter.pull .back f n seen ⟨front, rest, back⟩).2.slots =
        front ++ (visitList f seen rest.reverse).2.reverse ++ back := by
  induction n generalizing seen back rest with
  | zero =>
    obtain rfl := List.length_eq_zero_iff.mp (Nat.le_zero.mp hn)
    exact ⟨rfl, rfl⟩
  | succ n ih =>
    rcases List.eq_nil_or_concat' rest with rfl | ⟨rest, x, rfl⟩
    · exact ⟨rfl, rfl⟩
    · rw [List.reverse_concat]
      unfold visit visitList
      rw [SliceIter.pull_back]
      dsimp only
      rw [List.length_append, List.length_singleton] at hn
      split_ifs
      · obtain ⟨hseen, hslots⟩ := ih (seen ++ [x]) rest ((f seen x).2 :: back)
          (Nat.le_of_succ_le_succ hn)
        refine ⟨hseen, hslots.trans ?_⟩
        simp
      · refine ⟨rfl, ?_⟩
        simp [SliceIter.slots]

end Kcptun.Lib
