/- Kcptun/Lib/Arrivals
   digest: A stream that arrives in pieces: one read of it, reads that are repeated until enough has
     been got, and that these do not depend on the pieces. -/

import Mathlib.Data.List.Basic

set_option autoImplicit false
set_option relaxedAutoImplicit false

namespace Kcptun.Lib

/-- What a connection brings next: a piece of the stream, empty where the stream ends, or a
failure. Past the last arrival the stream has ended. -/
inductive Arrival (α ε : Type*) where
  | data (seg : List α)
  | fails (e : ε)
deriving DecidableEq, Repr

/-- The stream whatever its pieces: its elements, and the points at which it ends or fails. -/
inductive Item (α ε : Type*) where
  | elem (a : α)
  | stop (why : Option ε)
deriving DecidableEq, Repr

variable {α ε : Type*}

def elems (xs : List α) : List (Item α ε) := xs.map .elem

def Arrival.items : Arrival α ε → List (Item α ε)
  | .data [] => [.stop none]
  | .data (a :: seg) => elems (a :: seg)
  | .fails e => [.stop (some e)]

def stream (conn : List (Arrival α ε)) : List (Item α ε) := conn.flatMap Arrival.items

def readOnce : List (Arrival α ε) → ℕ → Except ε (List α) × List (Arrival α ε)
  | [], _ => (.ok [], [])
  | .fails e :: conn, _ => (.error e, conn)
  | .data seg :: conn, len =>
    if seg.length ≤ len then (.ok seg, conn) else (.ok (seg.take len), .data (seg.drop len) :: conn)

/-- Reads `need` elements of the stream: those it got, where it stopped short, and what is left. -/
def full : List (Item α ε) → ℕ → List α × Option (Option ε) × List (Item α ε)
  | items, 0 => ([], none, items)
  | [], _ + 1 => ([], some none, [])
  | .stop why :: items, _ + 1 => ([], some why, items)
  | .elem a :: items, need + 1 => (a :: (full items need).1, (full items need).2)

/-- Repeats reads until `need` elements have been got; every turn gets one. -/
def fullReads : ℕ → List (Arrival α ε) → ℕ → List α × Option (Option ε) × List (Arrival α ε)
  | 0, conn, _ => ([], none, conn)
  | fuel + 1, conn, need =>
    if need = 0 then ([], none, conn)
    else
      match readOnce conn need with
      | (.error e, conn) => ([], some (some e), conn)
      | (.ok [], conn) => ([], some none, conn)
      | (.ok (a :: xs), conn) =>
        let r := fullReads fuel conn (need - (xs.length + 1))
        (a :: xs ++ r.1, r.2)

attribute [local simp] readOnce full fullReads

/-- The stream stops here, and goes on with `rest`. -/
inductive StopsAt : List (Item α ε) → Option ε → List (Item α ε) → Prop
  | past : StopsAt [] none []
  | here (why : Option ε) (rest : List (Item α ε)) : StopsAt (.stop why :: rest) why rest

/-- What a read with room for `len` elements finds in a stream. -/
inductive Found (len : ℕ) : List (Item α ε) → Except ε (List α) → List (Item α ε) → Prop
  | ended {items rest : List (Item α ε)} (h : StopsAt items none rest) :
      Found len items (.ok []) rest
  | failed {items rest : List (Item α ε)} {e : ε} (h : StopsAt items (some e) rest) :
      Found len items (.error e) rest
  | got {xs : List α} {rest : List (Item α ε)} (hne : xs ≠ []) (hle : xs.length ≤ len) :
      Found len (elems xs ++ rest) (.ok xs) rest

section Streams

variable {xs ys : List α} {conn : List (Arrival α ε)} {items rest : List (Item α ε)} {len need : ℕ}

@[simp] theorem elems_nil : (elems [] : List (Item α ε)) = [] := rfl

theorem elems_append : (elems (xs ++ ys) : List (Item α ε)) = elems xs ++ elems ys :=
  List.map_append

theorem items_data (h : xs ≠ []) : (Arrival.data xs : Arrival α ε).items = elems xs := by
  cases xs with
  | nil => exact absurd rfl h
  | cons a xs => rfl

theorem readOnce_found (conn : List (Arrival α ε)) (hlen : len ≠ 0) :
    Found len (stream conn) (readOnce conn len).1 (stream (readOnce conn len).2) := by
  cases conn with
  | nil => exact .ended .past
  | cons arrival conn =>
    cases arrival with
    | fails e => exact .failed (.here (some e) _)
    | data seg =>
      rw [readOnce]
      by_cases hseg : seg = []
      · subst hseg
        rw [if_pos (show ([] : List α).length ≤ len from Nat.zero_le len)]
        exact .ended (.here none _)
      have hpos : 0 < seg.length := List.length_pos_iff.mpr hseg
      have hstream : stream (.data seg :: conn) = elems seg ++ stream conn := by
        unfold stream
        rw [List.flatMap_cons, items_data hseg]
      rw [hstream]
      split_ifs with hle
      · exact .got hseg hle
      · have hdrop : seg.drop len ≠ [] := by
          rw [Ne, List.drop_eq_nil_iff]
          exact hle
        have htake : (seg.take len).length = len := List.length_take_of_le (by omega)
        have hrest : (stream (.data (seg.drop len) :: conn) : List (Item α ε)) =
            elems (seg.drop len) ++ stream conn := by
          unfold stream
          rw [List.flatMap_cons, items_data hdrop]
        have hsplit : (elems seg ++ stream conn : List (Item α ε)) =
            elems (seg.take len) ++ stream (.data (seg.drop len) :: conn) := by
          rw [hrest, ← List.append_assoc, ← elems_append, List.take_append_drop]
        dsimp only
        rw [hsplit]
        refine .got (fun hnil => hlen ?_) (Nat.le_of_eq htake)
        rw [← htake, hnil]
        rfl

@[simp] theorem full_zero (items : List (Item α ε)) : full items 0 = ([], none, items) := by
  cases items <;> rfl

theorem StopsAt.full {why : Option ε} (h : StopsAt items why rest) (hneed : need ≠ 0) :
    full items need = ([], some why, rest) := by
  obtain ⟨need, rfl⟩ := Nat.exists_eq_succ_of_ne_zero hneed
  cases h with
  | past => rfl
  | here => rfl

theorem full_elems (hle : xs.length ≤ need) : full (elems xs ++ items) need =
    (xs ++ (full items (need - xs.length)).1, (full items (need - xs.length)).2) := by
  induction xs generalizing need with
  | nil => rfl
  | cons a xs ih =>
    cases need with
    | zero => exact absurd hle (Nat.not_succ_le_zero _)
    | succ need =>
      have htail := ih (Nat.le_of_succ_le_succ hle)
      have hcons : (elems (a :: xs) ++ items : List (Item α ε)) = .elem a :: (elems xs ++ items) :=
        rfl
      rw [hcons, full, htail, List.length_cons, Nat.add_sub_add_right]
      rfl

theorem full_within (hle : need ≤ xs.length) :
    full (elems xs ++ items) need = (xs.take need, none, elems (xs.drop need) ++ items) := by
  have hlen : (xs.take need).length = need := List.length_take_of_le hle
  have hsplit : (elems xs ++ items : List (Item α ε)) =
      elems (xs.take need) ++ (elems (xs.drop need) ++ items) := by
    rw [← List.append_assoc, ← elems_append, List.take_append_drop]
  rw [hsplit, full_elems (Nat.le_of_eq hlen), hlen, Nat.sub_self, full_zero, List.append_nil]

theorem full_short {why : Option ε} (hshort : xs.length < need) (h : StopsAt items why rest) :
    full (elems xs ++ items) need = (xs, some why, rest) := by
  rw [full_elems (Nat.le_of_lt hshort), h.full (Nat.sub_ne_zero_of_lt hshort), List.append_nil]

theorem length_full_le (items : List (Item α ε)) (need : ℕ) :
    (full items need).1.length ≤ need := by
  induction need generalizing items with
  | zero =>
    rw [full_zero]
    exact Nat.le_refl 0
  | succ need ih =>
    cases items with
    | nil => exact Nat.zero_le _
    | cons item items =>
      cases item with
      | stop why => exact Nat.zero_le _
      | elem a => exact Nat.succ_le_succ (ih items)

theorem full_complete (items : List (Item α ε)) (need : ℕ) :
    (full items need).2.1 = none ↔ (full items need).1.length = need := by
  induction need generalizing items with
  | zero =>
    rw [full_zero]
    exact ⟨fun _ => rfl, fun _ => rfl⟩
  | succ need ih =>
    have hstop : ∀ {why : Option ε} {n : ℕ}, some why = none ↔ ([] : List α).length = n + 1 :=
      fun {why n} => ⟨fun h => (Option.some_ne_none why h).elim, fun h => by cases h⟩
    cases items with
    | nil => exact hstop
    | cons item items =>
      cases item with
      | stop why => exact hstop
      | elem a =>
        refine (ih items).trans ?_
        exact (Nat.add_left_inj (n := 1)).symm

theorem full_split (items : List (Item α ε)) (need : ℕ) (h : (full items need).2.1 = none) :
    items = elems (full items need).1 ++ (full items need).2.2 := by
  induction need generalizing items with
  | zero =>
    rw [full_zero]
    rfl
  | succ need ih =>
    cases items with
    | nil => cases h
    | cons item items =>
      cases item with
      | stop why => cases h
      | elem a => exact congrArg (Item.elem a :: ·) (ih items h)

theorem fullReads_eq {fuel : ℕ} (conn : List (Arrival α ε)) (hfuel : need ≤ fuel) :
    ((fullReads fuel conn need).1, (fullReads fuel conn need).2.1,
      stream (fullReads fuel conn need).2.2) = full (stream conn) need := by
  induction fuel generalizing conn need with
  | zero =>
    obtain rfl : need = 0 := Nat.le_zero.mp hfuel
    rw [full_zero]
    rfl
  | succ fuel ih =>
    rw [fullReads]
    by_cases hneed : need = 0
    · rw [if_pos hneed, hneed, full_zero]
    rw [if_neg hneed]
    have hfound := readOnce_found conn hneed
    generalize hread : readOnce conn need = r at hfound
    obtain ⟨result, conn'⟩ := r
    generalize hstream : stream conn = items at hfound ⊢
    dsimp only at hfound
    cases result with
    | error e =>
      cases hfound with
      | failed h => exact (h.full hneed).symm
    | ok xs =>
      cases xs with
      | nil =>
        cases hfound with
        | ended h => exact (h.full hneed).symm
        | got hne _ => exact absurd rfl hne
      | cons a xs =>
        cases hfound with
        | got _ hle =>
          rw [full_elems hle, ← ih conn' (by rw [List.length_cons] at *; omega)]
          rfl

def elemCount : List (Item α ε) → ℕ
  | [] => 0
  | .elem _ :: items => elemCount items + 1
  | .stop _ :: items => elemCount items

theorem elemCount_append (items rest : List (Item α ε)) :
    elemCount (items ++ rest) = elemCount items + elemCount rest := by
  induction items with
  | nil => exact (Nat.zero_add _).symm
  | cons item items ih =>
    cases item with
    | elem a =>
      rw [List.cons_append, elemCount, elemCount, ih]
      omega
    | stop why => exact ih

theorem elemCount_elems (xs : List α) : elemCount (elems xs : List (Item α ε)) = xs.length := by
  induction xs with
  | nil => rfl
  | cons a xs ih => exact congrArg (· + 1) ih

theorem elemCount_full {items : List (Item α ε)} {need : ℕ} (h : (full items need).2.1 = none) :
    elemCount items = need + elemCount (full items need).2.2 := by
  induction need generalizing items with
  | zero => rw [full_zero, Nat.zero_add]
  | succ need ih =>
    cases items with
    | nil => cases h
    | cons item items =>
      cases item with
      | stop why => cases h
      | elem a =>
        rw [elemCount, ih h, full]
        exact Nat.add_right_comm need _ 1

end Streams

end Kcptun.Lib
