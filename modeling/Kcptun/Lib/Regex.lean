/- Kcptun/Lib/Regex
   digest: Patterns of repeated classes, options and groups, matched leftmost first with greedy
     repetition: the ways to match in order of preference, and which of them is the first. -/

import Mathlib.Data.List.Basic
import Mathlib.Data.List.TakeWhile

set_option autoImplicit false
set_option relaxedAutoImplicit false

namespace Kcptun.Lib

inductive Regex (α : Type*) where
  | rep (p : α → Bool) (lo : ℕ) (hi : Option ℕ)
  | seq (r s : Regex α)
  | opt (r : Regex α)
  | group (n : ℕ) (r : Regex α)

namespace Regex

variable {α : Type*}

/-- One way to match at the front of a text: what is matched, the groups, what is left. -/
structure Match (α : Type*) where
  text : List α
  groups : List (ℕ × List α)
  rest : List α
  deriving DecidableEq

/-- The text of a group, empty if it took no part. -/
def Match.get (m : Match α) (n : ℕ) : List α := (m.groups.lookup n).getD []

def Match.append (m m' : Match α) : Match α :=
  ⟨m.text ++ m'.text, m.groups ++ m'.groups, m'.rest⟩

/-- How many symbols of the class stand in front, not more than `hi`. -/
def most (p : α → Bool) (hi : Option ℕ) (s : List α) : ℕ :=
  match hi with
  | none => (s.takeWhile p).length
  | some hi => min (s.takeWhile p).length hi

/-- All ways to match in order of preference: more repetitions before fewer, the option before
nothing. -/
def ways : Regex α → List α → List (Match α)
  | rep p lo hi, s =>
    ((List.range' lo (most p hi s + 1 - lo)).reverse).map fun k => ⟨s.take k, [], s.drop k⟩
  | seq r r', s => (ways r s).flatMap fun m => (ways r' m.rest).map m.append
  | opt r, s => ways r s ++ [⟨[], [], s⟩]
  | group n r, s => (ways r s).map fun m => { m with groups := (n, m.text) :: m.groups }

attribute [local simp] ways

def first (r : Regex α) (s : List α) : Option (Match α) := (ways r s).head?

def find (r : Regex α) : List α → Option (Match α)
  | [] => first r []
  | c :: s => (first r (c :: s)).or (find r s)

variable {r r' : Regex α} {s : List α} {p : α → Bool}

theorem most_le (p : α → Bool) (hi : Option ℕ) (s : List α) : most p hi s ≤ s.length := by
  have hle : (s.takeWhile p).length ≤ s.length := (List.takeWhile_prefix p).length_le
  cases hi with
  | none => exact hle
  | some hi => exact (min_le_left _ _).trans hle

theorem first_rep {lo : ℕ} {hi : Option ℕ} (h : lo ≤ most p hi s) :
    first (rep p lo hi) s = some ⟨s.take (most p hi s), [], s.drop (most p hi s)⟩ := by
  have hcount : most p hi s + 1 - lo = most p hi s - lo + 1 := by omega
  have hlast : lo + 1 * (most p hi s - lo) = most p hi s := by omega
  rw [first, ways, hcount, List.range'_concat, hlast, List.reverse_concat, List.map_cons,
    List.head?_cons]

theorem first_rep_none {lo : ℕ} {hi : Option ℕ} (h : most p hi s < lo) :
    first (rep p lo hi) s = none := by
  have hcount : most p hi s + 1 - lo = 0 := by omega
  rw [first, ways, hcount]
  rfl

theorem ways_once (p : α → Bool) (c : α) (s : List α) :
    ways (rep p 1 (some 1)) (c :: s) = if p c then [⟨[c], [], s⟩] else [] := by
  split_ifs with hc
  · have hmost : most p (some 1) (c :: s) = 1 := by simp [most, hc]
    rw [ways, hmost]
    rfl
  · have hmost : most p (some 1) (c :: s) = 0 := by simp [most, hc]
    rw [ways, hmost]
    rfl

theorem ways_once_nil (p : α → Bool) : ways (rep p 1 (some 1)) [] = [] := by
  have hmost : most p (some 1) [] = 0 := by simp [most]
  rw [ways, hmost]
  rfl

private theorem first_seq (r r' : Regex α) (s : List α) :
    first (seq r r') s = (ways r s).findSome? fun m => (first r' m.rest).map m.append := by
  rw [first, ways, List.head?_flatMap]
  congr 1
  funext m
  rw [List.head?_map]
  rfl

theorem first_seq_total (htotal : ∀ t, (first r' t).isSome) (s : List α) :
    first (seq r r') s = (first r s).bind fun m => (first r' m.rest).map m.append := by
  rw [first_seq, first]
  cases ways r s with
  | nil => rfl
  | cons m ms =>
    obtain ⟨m', hm'⟩ := Option.isSome_iff_exists.mp (htotal m.rest)
    simp [hm']

theorem first_seq_of_total {m m' : Match α} (htotal : ∀ t, (first r' t).isSome)
    (hm : first r s = some m) (hm' : first r' m.rest = some m') :
    first (seq r r') s = some (m.append m') := by
  rw [first_seq_total htotal, hm, Option.bind_some, hm', Option.map_some]

theorem first_seq_of_ways {m : Match α} (h : ways r s = [m]) (r' : Regex α) :
    first (seq r r') s = (first r' m.rest).map m.append := by
  rw [first_seq, h, List.findSome?_singleton]

theorem first_seq_none (h : first r s = none) : first (seq r r') s = none := by
  rw [first_seq, List.head?_eq_none_iff.mp h]
  rfl

theorem first_group (n : ℕ) (r : Regex α) (s : List α) :
    first (group n r) s =
      (first r s).map fun m => { m with groups := (n, m.text) :: m.groups } := by
  rw [first, ways, List.head?_map, first]

theorem first_opt (r : Regex α) (s : List α) :
    first (opt r) s = some ((first r s).getD ⟨[], [], s⟩) := by
  rw [first, first, ways]
  cases ways r s <;> rfl

theorem first_opt_isSome (r : Regex α) (s : List α) : (first (opt r) s).isSome := by
  rw [first_opt]
  rfl

theorem first_seq_isSome (h : ∀ t, (first r t).isSome) (h' : ∀ t, (first r' t).isSome)
    (s : List α) : (first (seq r r') s).isSome := by
  obtain ⟨m, hm⟩ := Option.isSome_iff_exists.mp (h s)
  obtain ⟨m', hm'⟩ := Option.isSome_iff_exists.mp (h' m.rest)
  rw [first_seq_total h', hm, Option.bind_some, hm']
  rfl

private theorem ways_group_rep (n : ℕ) (p : α → Bool) (s : List α) :
    ways (group n (rep p 0 none)) s = ((List.range ((s.takeWhile p).length + 1)).reverse).map
      fun k => ⟨s.take k, [(n, s.take k)], s.drop k⟩ := by
  rw [ways, ways, List.map_map, most, Nat.sub_zero, List.range_eq_range']
  rfl

theorem first_greedy {n k : ℕ} {m : Match α} (hk : k ≤ (s.takeWhile p).length)
    (hmatch : first r' (s.drop k) = some m)
    (hlater : ∀ j, k < j → j ≤ (s.takeWhile p).length → first r' (s.drop j) = none) :
    first (seq (group n (rep p 0 none)) r') s =
      some (Match.append ⟨s.take k, [(n, s.take k)], s.drop k⟩ m) := by
  have hgo (count : ℕ) (hcount : k < count) (hle : count ≤ (s.takeWhile p).length + 1) :
      ((List.range count).reverse.map fun j =>
        (⟨s.take j, [(n, s.take j)], s.drop j⟩ : Match α)).findSome?
          (fun m => (first r' m.rest).map m.append) =
        some (Match.append ⟨s.take k, [(n, s.take k)], s.drop k⟩ m) := by
    induction count with
    | zero => omega
    | succ count ih =>
      rw [List.range_succ, List.reverse_concat, List.map_cons, List.findSome?_cons]
      rcases Nat.lt_succ_iff_lt_or_eq.mp hcount with hlt | rfl
      · rw [hlater count hlt (by omega)]
        exact ih hlt (by omega)
      · rw [hmatch]
        rfl
  rw [first_seq, ways_group_rep]
  exact hgo _ (by omega) le_rfl

theorem first_greedy_none {n : ℕ}
    (h : ∀ j, j ≤ (s.takeWhile p).length → first r' (s.drop j) = none) :
    first (seq (group n (rep p 0 none)) r') s = none := by
  rw [first_seq, ways_group_rep, List.findSome?_eq_none_iff]
  intro m hm
  obtain ⟨j, hj, rfl⟩ := List.mem_map.mp hm
  rw [List.mem_reverse, List.mem_range] at hj
  rw [h j (by omega)]
  rfl

theorem find_of_first {m : Match α} (h : first r s = some m) : find r s = some m := by
  cases s with
  | nil => exact h
  | cons c s => rw [find, h, Option.some_or]

theorem find_append {front back : List α}
    (h : ∀ j < front.length, first r (front.drop j ++ back) = none) :
    find r (front ++ back) = find r back := by
  induction front with
  | nil => rfl
  | cons c front ih =>
    have hhere := h 0 (Nat.succ_pos _)
    rw [List.drop_zero, List.cons_append] at hhere
    rw [List.cons_append, find, hhere, Option.none_or]
    exact ih fun j hj => h (j + 1) (Nat.succ_lt_succ hj)

theorem find_none (h : ∀ j ≤ s.length, first r (s.drop j) = none) : find r s = none := by
  induction s with
  | nil => exact h 0 le_rfl
  | cons c s ih =>
    have hhere := h 0 (Nat.zero_le _)
    rw [List.drop_zero] at hhere
    rw [find, hhere, Option.none_or]
    exact ih fun j hj => h (j + 1) (Nat.succ_le_succ hj)

end Regex

end Kcptun.Lib
