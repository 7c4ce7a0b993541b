/- Kcptun/Arq/RingRefines
   source: crates/kcp/src/ringbuffer.rs
   digest: The ring buffer is a list: after every sequence of operations it has answered what the list
     answers, a slot of its array is free, and the slots outside the window hold the default. -/

import Kcptun.Arq.RingBuffer
import Kcptun.Lib.Fifo
import Kcptun.Lib.Run
import Mathlib.Tactic.SplitIfs

set_option autoImplicit false
set_option relaxedAutoImplicit false

namespace Kcptun.Arq

open Kcptun.Lib

variable {α : Type}

/-! An array cut into parts. -/

private theorem take_append_drop_append (l rest : List α) (n : ℕ) :
    l.take n ++ (l.drop n ++ rest) = l ++ rest := by
  rw [← List.append_assoc, List.take_append_drop]

private theorem drop_min_length (l : List α) (n : ℕ) : l.drop (min n l.length) = l.drop n := by
  rcases Nat.le_total n l.length with hle | hle
  · rw [Nat.min_eq_left hle]
  · rw [Nat.min_eq_right hle, List.drop_eq_nil_of_le (Nat.le_refl _), List.drop_eq_nil_of_le hle]

private theorem sliceOf_mid (a b c : List α) {i j : ℕ} (hi : i = a.length)
    (hj : j = a.length + b.length) : sliceOf (a ++ b ++ c) i j = some b := by
  have htake : (a ++ b ++ c).take j = a ++ b := List.take_left' (by rw [List.length_append, hj])
  unfold sliceOf
  rw [if_pos ⟨by omega, by simp only [List.length_append]; omega⟩, htake, List.drop_left' hi.symm]

private theorem sliceOf_front (b c : List α) : sliceOf (b ++ c) 0 b.length = some b :=
  sliceOf_mid [] b c rfl (Nat.zero_add _).symm

private theorem set_mid (a : List α) (x y : α) (c : List α) {i : ℕ} (hi : i = a.length) :
    (a ++ x :: c).set i y = a ++ y :: c := by
  rw [List.set_append_right _ _ (Nat.le_of_eq hi.symm), hi, Nat.sub_self, List.set_cons_zero]

private theorem getElem?_mid (a : List α) (x : α) (c : List α) {i : ℕ} (hi : i = a.length) :
    (a ++ x :: c)[i]? = some x := by
  rw [List.getElem?_append_right (Nat.le_of_eq hi.symm), hi, Nat.sub_self, List.getElem?_cons_zero]

variable [Inhabited α]

private theorem fillRange_mid (a b c : List α) {i j : ℕ} (hi : i = a.length)
    (hj : j = a.length + b.length) :
    fillRange (a ++ b ++ c) i j = some (a ++ List.replicate b.length default ++ c) := by
  have htake : (a ++ b ++ c).take i = a := by
    rw [List.append_assoc]
    exact List.take_left' hi.symm
  have hdrop : (a ++ b ++ c).drop j = c := List.drop_left' (by rw [List.length_append, hj])
  unfold fillRange
  rw [if_pos ⟨by omega, by simp only [List.length_append]; omega⟩, htake, hdrop, hi, hj,
    Nat.add_sub_cancel_left]

private theorem fillRange_front (b c : List α) :
    fillRange (b ++ c) 0 b.length = some (List.replicate b.length default ++ c) :=
  fillRange_mid [] b c rfl (Nat.zero_add _).symm

private theorem fillRange_back (a b : List α) {i j : ℕ} (hi : i = a.length)
    (hj : j = (a ++ b).length) :
    fillRange (a ++ b) i j = some (a ++ List.replicate b.length default) := by
  rw [List.length_append] at hj
  have hmid := fillRange_mid a b [] hi hj
  rwa [List.append_nil, List.append_nil] at hmid

/-- How a list lies in the array: straight, or from the end of the array on to its start; the other
slots hold the default, and there is at least one. -/
inductive Holds : RingBuffer α → List α → Prop
  | straight (before : ℕ) (l : List α) (free : ℕ) (hfree : 0 < free) :
    Holds ⟨before, before + l.length,
      List.replicate before default ++ l ++ List.replicate free default⟩ l
  | wrapped (front back : List α) (free : ℕ) (hfree : 0 < free) (hfront : front ≠ []) :
    Holds ⟨back.length + free, back.length, back ++ List.replicate free default ++ front⟩
      (front ++ back)

namespace Holds

variable {r : RingBuffer α} {l : List α}

private theorem of_straight (before free : ℕ) (hfree : 0 < free) (hhead : r.head = before)
    (htail : r.tail = before + l.length)
    (helements : r.elements = List.replicate before default ++ l ++ List.replicate free default) :
    Holds r l := by
  obtain ⟨head, tail, elements⟩ := r
  dsimp only at hhead htail helements
  subst hhead htail helements
  exact straight _ l free hfree

private theorem of_wrapped (front back : List α) (free : ℕ) (hfree : 0 < free) (hfront : front ≠ [])
    (hhead : r.head = back.length + free) (htail : r.tail = back.length)
    (helements : r.elements = back ++ List.replicate free default ++ front)
    (hl : l = front ++ back) : Holds r l := by
  obtain ⟨head, tail, elements⟩ := r
  dsimp only at hhead htail helements
  subst hhead htail helements hl
  exact wrapped front back free hfree hfront

theorem lt_size (h : Holds r l) : l.length < r.elements.length := by
  cases h <;> simp <;> omega

theorem len_eq (h : Holds r l) : r.len = some l.length := by
  cases h with
  | straight before l free hfree =>
    unfold RingBuffer.len
    dsimp only
    rw [if_pos (Nat.le_add_right _ _), Nat.add_sub_cancel_left]
  | wrapped front back free hfree hfront =>
    unfold RingBuffer.len checkedSub
    simp only [List.length_append, List.length_replicate]
    rw [if_neg (by omega), if_pos (by omega), Option.map_some]
    congr 1
    omega

theorem isEmpty_eq (h : Holds r l) : r.isEmpty = l.isEmpty := by
  cases h with
  | straight before l free hfree => cases l <;> simp [RingBuffer.isEmpty]
  | wrapped front back free hfree hfront =>
    have hne : front ++ back ≠ [] := List.append_ne_nil_of_left_ne_nil hfront back
    simp only [RingBuffer.isEmpty, List.isEmpty_eq_false_iff.mpr hne, beq_eq_false_iff_ne]
    omega

theorem slices (h : Holds r l) : ∃ a b, r.asSlices = some (a, b) ∧ l = a ++ b ∧
    ∀ a' b', a'.length = a.length → b'.length = b.length → Holds (r.putSlices a' b') (a' ++ b') ∧
      (r.putSlices a' b').elements.length = r.elements.length := by
  cases h with
  | straight before l free hfree =>
    have hle : before ≤ before + l.length := Nat.le_add_right _ _
    have hbefore : before = (List.replicate before (default : α)).length := by
      rw [List.length_replicate]
    refine ⟨l, [], ?_, (List.append_nil l).symm, ?_⟩
    · unfold RingBuffer.asSlices
      rw [if_pos hle, sliceOf_mid _ l _ hbefore (by rw [← hbefore]), Option.map_some]
    · intro a' b' ha hb
      obtain rfl := List.length_eq_zero_iff.mp hb
      have hput : (RingBuffer.mk before (before + l.length)
          (List.replicate before default ++ l ++ List.replicate free default)).putSlices a' [] =
          ⟨before, before + a'.length,
            List.replicate before default ++ a' ++ List.replicate free default⟩ := by
        unfold RingBuffer.putSlices
        dsimp only
        rw [if_pos hle, ha, List.drop_left' (by rw [List.length_append, ← hbefore]),
          List.append_assoc _ l, List.take_left' hbefore.symm]
      rw [hput, List.append_nil]
      refine ⟨straight before a' free hfree, ?_⟩
      simp only [List.length_append, ha]
  | wrapped front back free hfree hfront =>
    have hlt : ¬back.length + free ≤ back.length := by omega
    have hmid : back.length + free = (back ++ List.replicate free (default : α)).length := by
      rw [List.length_append, List.length_replicate]
    refine ⟨front, back, ?_, rfl, ?_⟩
    · unfold RingBuffer.asSlices
      dsimp only
      rw [if_neg hlt, if_pos (by simp only [List.length_append, List.length_replicate]; omega),
        List.take_left' hmid.symm, List.drop_left' hmid.symm]
      rw [sliceOf_front, Option.map_some]
    · intro a' b' ha hb
      have hput : (RingBuffer.mk (back.length + free) back.length
          (back ++ List.replicate free default ++ front)).putSlices a' b' =
          ⟨b'.length + free, b'.length, b' ++ List.replicate free default ++ a'⟩ := by
        unfold RingBuffer.putSlices
        dsimp only
        rw [if_neg hlt, hb, List.take_left' hmid.symm, List.drop_left' rfl]
      have hne : a' ≠ [] := by
        rw [← List.length_pos_iff, ha]
        exact List.length_pos_iff.mpr hfront
      rw [hput]
      refine ⟨wrapped a' b' free hfree hne, ?_⟩
      simp only [List.length_append, ha, hb]

private theorem slotAt (h : Holds r l) {index : ℕ} (hindex : index < l.length) :
    r.elements[r.slotAt index]? = l[index]? ∧
      ∀ v, Holds { r with elements := r.elements.set (r.slotAt index) v } (l.set index v) := by
  cases h with
  | straight before l free hfree =>
    have hslot : (RingBuffer.mk before (before + l.length)
        (List.replicate before default ++ l ++ List.replicate free default)).slotAt index =
        before + index := by
      unfold RingBuffer.slotAt
      rw [if_neg (by simp only [List.length_append, List.length_replicate]; omega)]
    have hbefore : (List.replicate before (default : α)).length ≤ before + index := by
      rw [List.length_replicate]
      exact Nat.le_add_right _ _
    rw [hslot]
    dsimp only
    rw [List.append_assoc, List.getElem?_append_right hbefore, List.length_replicate,
      Nat.add_sub_cancel_left, List.getElem?_append_left hindex]
    refine ⟨rfl, ?_⟩
    intro v
    rw [List.set_append_right _ _ hbefore, List.length_replicate, Nat.add_sub_cancel_left,
      List.set_append_left _ _ hindex, ← List.append_assoc]
    have hset := straight before (l.set index v) free hfree
    rwa [List.length_set] at hset
  | wrapped front back free hfree hfront =>
    rw [List.length_append] at hindex
    have hlength : (back ++ List.replicate free (default : α)).length = back.length + free := by
      rw [List.length_append, List.length_replicate]
    by_cases hin : index < front.length
    · have hslot : (RingBuffer.mk (back.length + free) back.length
          (back ++ List.replicate free default ++ front)).slotAt index =
          back.length + free + index := by
        unfold RingBuffer.slotAt
        rw [if_neg (by simp only [List.length_append, List.length_replicate]; omega)]
      have hle : (back ++ List.replicate free (default : α)).length ≤ back.length + free + index := by
        rw [hlength]
        exact Nat.le_add_right _ _
      rw [hslot]
      dsimp only
      rw [List.getElem?_append_right hle, hlength, Nat.add_sub_cancel_left,
        List.getElem?_append_left hin]
      refine ⟨rfl, ?_⟩
      intro v
      rw [List.set_append_right _ _ hle, hlength, Nat.add_sub_cancel_left,
        List.set_append_left _ _ hin]
      refine wrapped (front.set index v) back free hfree fun hnil => hfront ?_
      rwa [List.set_eq_nil_iff] at hnil
    · have hslot : (RingBuffer.mk (back.length + free) back.length
          (back ++ List.replicate free default ++ front)).slotAt index =
          index - front.length := by
        unfold RingBuffer.slotAt
        rw [if_pos (by simp only [List.length_append, List.length_replicate]; omega)]
        simp only [List.length_append, List.length_replicate]
        omega
      have hback : index - front.length < back.length := by omega
      rw [hslot]
      dsimp only
      rw [List.append_assoc, List.getElem?_append_left hback,
        List.getElem?_append_right (Nat.le_of_not_lt hin)]
      refine ⟨rfl, ?_⟩
      intro v
      rw [List.set_append_left _ _ hback, List.set_append_right _ _ (Nat.le_of_not_lt hin),
        ← List.append_assoc]
      have hset := wrapped front (back.set (index - front.length) v) free hfree hfront
      rwa [List.length_set] at hset

theorem get_eq (h : Holds r l) (index : ℕ) : r.get index = some l[index]? := by
  unfold RingBuffer.get
  simp only [h.len_eq, Option.bind_eq_bind, Option.bind_some]
  split_ifs with hout
  · rw [List.getElem?_eq_none hout]
    rfl
  · have hin : index < l.length := Nat.lt_of_not_le hout
    rw [(h.slotAt hin).1, List.getElem?_eq_getElem hin]
    rfl

theorem getMut_holds (h : Holds r l) (index : ℕ) (leave : α → α) : ∃ r',
    r.getMut index leave = some (l[index]?, r') ∧ Holds r' (l.modify index leave) ∧
      r'.elements.length = r.elements.length := by
  unfold RingBuffer.getMut
  simp only [h.len_eq, Option.bind_eq_bind, Option.bind_some]
  split_ifs with hout
  · rw [List.getElem?_eq_none hout, List.modify_eq_self hout]
    exact ⟨r, rfl, h, rfl⟩
  · have hin : index < l.length := Nat.lt_of_not_le hout
    obtain ⟨hget, hset⟩ := h.slotAt hin
    rw [hget, List.modify_eq_set, List.getElem?_eq_getElem hin]
    exact ⟨_, rfl, hset _, List.length_set⟩

private theorem slotAt_zero (h : Holds r l) : r.slotAt 0 = r.head := by
  unfold RingBuffer.slotAt
  cases h with
  | straight before l free hfree =>
    rw [if_neg (by simp only [List.length_append, List.length_replicate]; omega), Nat.add_zero]
  | wrapped front back free hfree hfront =>
    have := List.length_pos_iff.mpr hfront
    rw [if_neg (by simp only [List.length_append, List.length_replicate]; omega), Nat.add_zero]

theorem peek_eq (h : Holds r l) : r.peek = some l.head? := by
  unfold RingBuffer.peek
  rw [h.isEmpty_eq]
  cases l with
  | nil => rfl
  | cons x l =>
    have hhead := (h.slotAt (Nat.zero_lt_succ _)).1
    rw [h.slotAt_zero] at hhead
    rw [if_neg (by simp), hhead]
    rfl

theorem peekMut_holds (h : Holds r l) (leave : α → α) : ∃ r',
    r.peekMut leave = some (l.head?, r') ∧ Holds r' (l.modifyHead leave) ∧
      r'.elements.length = r.elements.length := by
  unfold RingBuffer.peekMut
  rw [h.isEmpty_eq]
  cases l with
  | nil => exact ⟨r, rfl, h, rfl⟩
  | cons x l =>
    obtain ⟨hhead, hset⟩ := h.slotAt (Nat.zero_lt_succ _)
    rw [h.slotAt_zero] at hhead hset
    rw [if_neg (by simp), hhead]
    exact ⟨_, rfl, hset (leave x), List.length_set⟩

/-! The iterators. -/

/-- What is lent is `lent`, between `before` and `after`. -/
def Lends (size : ℕ) (it : RingBuffer.Lent α) (before lent after : List α) : Prop :=
  ∃ a b, it.chain = .ofSlots a b ∧ lent = a ++ b ∧ ∀ c : Chain α, c.a.slots.length = a.length →
    c.b.slots.length = b.length →
    Holds (it.giveBack c) (before ++ (c.a.slots ++ c.b.slots) ++ after) ∧
      (it.giveBack c).elements.length = size

theorem iterMut_lends (h : Holds r l) :
    ∃ it, r.iterMut = some it ∧ Lends r.elements.length it [] l [] := by
  obtain ⟨a, b, hslices, hl, hput⟩ := h.slices
  unfold RingBuffer.iterMut
  rw [hslices]
  refine ⟨_, rfl, a, b, rfl, hl, ?_⟩
  intro c ha hb
  rw [List.nil_append, List.append_nil]
  exact hput _ _ ha hb

theorem iterMutFrom_lends (h : Holds r l) (skip : ℕ) : ∃ it,
    r.iterMutFrom skip = some it ∧ Lends r.elements.length it (l.take skip) (l.drop skip) [] := by
  obtain ⟨a, b, hslices, rfl, hput⟩ := h.slices
  unfold RingBuffer.iterMutFrom
  simp only [hslices, Option.bind_eq_bind, Option.bind_some]
  split_ifs with hin
  · refine ⟨_, rfl, a.drop skip, b, rfl, List.drop_append_of_le_length hin, ?_⟩
    intro c ha hb
    obtain ⟨hholds, hsize⟩ := hput (a.take skip ++ c.a.slots) c.b.slots
      (by rw [List.length_append, ha, List.length_take, List.length_drop]; omega) hb
    rw [List.append_assoc] at hholds
    rw [List.take_append_of_le_length hin, List.append_nil]
    exact ⟨hholds, hsize⟩
  · have htake : a ++ b.take (min (skip - a.length) b.length) = (a ++ b).take skip := by
      rw [List.take_append, List.take_of_length_le (show a.length ≤ skip by omega), ← List.take_take,
        List.take_length]
    have hdrop : b.drop (min (skip - a.length) b.length) = (a ++ b).drop skip := by
      rw [List.drop_append, List.drop_eq_nil_of_le (show a.length ≤ skip by omega), drop_min_length,
        List.nil_append]
    refine ⟨_, rfl, [], b.drop (min (skip - a.length) b.length), rfl, ?_, ?_⟩
    · rw [hdrop, List.nil_append]
    · intro c ha hb
      obtain hnil : c.a.slots = [] := List.length_eq_zero_iff.mp ha
      obtain ⟨hholds, hsize⟩ := hput (c.a.slots ++ a.drop 0)
        (b.take (min (skip - a.length) b.length) ++ c.b.slots)
        (by rw [hnil, List.nil_append, List.drop_zero])
        (by rw [List.length_append, hb, List.length_take, List.length_drop]; omega)
      refine ⟨?_, hsize⟩
      have hwhole : (a ++ b).take skip ++ (c.a.slots ++ c.b.slots) ++ [] =
          c.a.slots ++ a.drop 0 ++
            (b.take (min (skip - a.length) b.length) ++ c.b.slots) := by
        rw [hnil, ← htake, List.drop_zero]
        simp only [List.nil_append, List.append_nil, List.append_assoc]
      rw [hwhole]
      exact hholds

theorem iterMutTo_lends (h : Holds r l) (n : ℕ) : ∃ it,
    r.iterMutTo n = some it ∧ Lends r.elements.length it [] (l.take n) (l.drop n) := by
  have htake : l.take n = l.take (min n l.length) := by rw [← List.take_take, List.take_length]
  have hdrop : l.drop n = l.drop (min n l.length) := (drop_min_length l n).symm
  have hle : min n l.length ≤ l.length := Nat.min_le_right _ _
  unfold RingBuffer.iterMutTo
  simp only [h.len_eq, Option.bind_eq_bind, Option.bind_some]
  rw [htake, hdrop]
  generalize min n l.length = m at hle
  obtain ⟨a, b, hslices, rfl, hput⟩ := h.slices
  rw [List.length_append] at hle
  simp only [hslices, Option.bind_some]
  split_ifs with hin hfit
  · refine ⟨_, rfl, a.take m, [], rfl, ?_, ?_⟩
    · rw [List.take_append_of_le_length hin, List.append_nil]
    · intro c ha hb
      obtain hnil : c.b.slots = [] := List.length_eq_zero_iff.mp hb
      obtain ⟨hholds, hsize⟩ := hput (c.a.slots ++ a.drop m) (c.b.slots ++ b.drop 0)
        (by rw [List.length_append, ha, List.length_take, List.length_drop]; omega)
        (by rw [hnil, List.nil_append, List.drop_zero])
      refine ⟨?_, hsize⟩
      rw [List.drop_append_of_le_length hin]
      simpa [hnil] using hholds
  · refine ⟨_, rfl, a, b.take (m - a.length), rfl, ?_, ?_⟩
    · rw [List.take_append, List.take_of_length_le (show a.length ≤ m by omega)]
    · intro c ha hb
      obtain ⟨hholds, hsize⟩ := hput c.a.slots (c.b.slots ++ b.drop (m - a.length)) ha
        (by rw [List.length_append, hb, List.length_take, List.length_drop]; omega)
      refine ⟨?_, hsize⟩
      rw [List.drop_append, List.drop_eq_nil_of_le (show a.length ≤ m by omega)]
      simpa using hholds
  · omega

theorem iter_drive (h : Holds r l) (client : Client α) : ∃ chain, r.iter = some chain ∧
    (Lib.drive Chain.pull client chain).1 =
      (Lib.drive SliceIter.pull client (.ofSlots l)).1 := by
  obtain ⟨a, b, hslices, rfl, -⟩ := h.slices
  unfold RingBuffer.iter
  rw [hslices]
  exact ⟨_, rfl, (drive_agree (joined_agree _ _) client (joined_ofSlots a b)).1⟩

/-- Every client of what is lent sees what it would see of a list, and leaves what it would leave
there. -/
theorem Lends.drive {size : ℕ} {it : RingBuffer.Lent α} {before lent after : List α}
    (h : Lends size it before lent after) (client : Client α) :
    (Lib.drive Chain.pull client it.chain).1 =
        (Lib.drive SliceIter.pull client (.ofSlots lent)).1 ∧
      Holds (it.giveBack (Lib.drive Chain.pull client it.chain).2)
        (before ++ (Lib.drive SliceIter.pull client (.ofSlots lent)).2.slots ++ after) ∧
      (it.giveBack (Lib.drive Chain.pull client it.chain).2).elements.length = size := by
  obtain ⟨a, b, hchain, rfl, hback⟩ := h
  obtain ⟨hseen, hjoined⟩ := drive_agree (joined_agree _ _) client (joined_ofSlots a b)
  obtain ⟨hholds, hsize⟩ := hback _ hjoined.length_a hjoined.length_b
  rw [hjoined.slots] at hholds
  rw [hchain]
  exact ⟨hseen, hholds, hsize⟩

private theorem forEachFrom_holds (h : Holds r l) (side : Side) (f : List α → α → Bool × α) : ∃ r',
    r.forEachFrom side f =
        some ((visit SliceIter.pull side f r.elements.length [] (.ofSlots l)).1, r') ∧
      Holds r' (visit SliceIter.pull side f r.elements.length [] (.ofSlots l)).2.slots ∧
      r'.elements.length = r.elements.length := by
  obtain ⟨it, hit, a, b, hchain, rfl, hback⟩ := h.iterMut_lends
  obtain ⟨hseen, hjoined⟩ :=
    visit_agree (joined_agree _ _) side f r.elements.length [] (joined_ofSlots a b)
  obtain ⟨hholds, hsize⟩ := hback _ hjoined.length_a hjoined.length_b
  rw [hjoined.slots, List.nil_append, List.append_nil] at hholds
  unfold RingBuffer.forEachFrom
  rw [hit, ← hseen, ← hchain]
  rw [← hchain] at hholds hsize
  exact ⟨_, rfl, hholds, hsize⟩

theorem forEach_holds (h : Holds r l) (f : List α → α → Bool × α) : ∃ r',
    r.forEach f = some ((visitList f [] l).1, r') ∧ Holds r' (visitList f [] l).2 ∧
      r'.elements.length = r.elements.length := by
  obtain ⟨r', hr', hholds, hsize⟩ := h.forEachFrom_holds .front f
  obtain ⟨hseen, hslots⟩ := visit_front f _ [] [] l [] (Nat.le_of_lt h.lt_size)
  rw [List.nil_append, List.append_nil] at hslots
  refine ⟨r', ?_, ?_, hsize⟩
  · rw [← hseen]
    exact hr'
  · rw [← hslots]
    exact hholds

theorem forEachReverse_holds (h : Holds r l) (f : List α → α → Bool × α) : ∃ r',
    r.forEachReverse f = some ((visitList f [] l.reverse).1, r') ∧
      Holds r' (visitList f [] l.reverse).2.reverse ∧
      r'.elements.length = r.elements.length := by
  obtain ⟨r', hr', hholds, hsize⟩ := h.forEachFrom_holds .back f
  obtain ⟨hseen, hslots⟩ := visit_back f _ [] [] l [] (Nat.le_of_lt h.lt_size)
  rw [List.nil_append, List.append_nil] at hslots
  refine ⟨r', ?_, ?_, hsize⟩
  · rw [← hseen]
    exact hr'
  · rw [← hslots]
    exact hholds

/-! The operations that move the window. -/

theorem new_holds (size : ℕ) : Holds (RingBuffer.new size : RingBuffer α) [] := by
  have hpos : 0 < max size RINGBUFFER_MIN := by
    unfold RINGBUFFER_MIN
    omega
  exact straight 0 [] _ hpos

private theorem moveTo_holds (h : Holds r l) {size : ℕ} (hsize : l.length < size) : ∃ r',
    r.moveTo size = some r' ∧ Holds r' l ∧ r'.elements.length = size := by
  obtain ⟨a, b, hslices, rfl, -⟩ := h.slices
  unfold RingBuffer.moveTo resizeWith
  simp only [h.len_eq, hslices, Option.bind_eq_bind, Option.bind_some]
  rw [List.take_of_length_le (Nat.le_of_lt hsize)]
  have hstraight := straight 0 (a ++ b) (size - (a ++ b).length) (by omega)
  rw [Nat.zero_add] at hstraight
  refine ⟨_, rfl, hstraight, ?_⟩
  simp only [List.length_append, List.length_replicate] at hsize ⊢
  omega

theorem vacant (h : Holds r l) {i : ℕ} (hi : i < r.elements.length) (hout : ¬r.InWindow i) :
    r.elements[i]? = some default := by
  cases h with
  | straight before l free hfree =>
    have hwindow : ¬(before ≤ i ∧ i < before + l.length) := by
      unfold RingBuffer.InWindow at hout
      rwa [if_pos (Nat.le_add_right _ _)] at hout
    simp only [List.length_append, List.length_replicate] at hi
    dsimp only
    rw [List.append_assoc, List.getElem?_append, List.getElem?_append]
    simp only [List.length_replicate, List.getElem?_replicate]
    split_ifs <;> first | rfl | omega
  | wrapped front back free hfree hfront =>
    have hwindow : ¬(back.length + free ≤ i ∨ i < back.length) := by
      unfold RingBuffer.InWindow at hout
      rwa [if_neg (by dsimp only; omega)] at hout
    dsimp only
    rw [List.append_assoc, List.getElem?_append, List.getElem?_append]
    simp only [List.length_replicate, List.getElem?_replicate]
    split_ifs <;> first | rfl | omega

private theorem blank {l : List α} {n : ℕ} (hn : 0 < n) (hl : l = List.replicate n default) :
    Holds ⟨0, 0, l⟩ [] := by
  rw [hl]
  exact straight 0 [] n hn

theorem clear_holds (h : Holds r l) : ∃ r',
    r.clear = some r' ∧ Holds r' [] ∧ r'.elements.length = r.elements.length := by
  unfold RingBuffer.clear
  cases h with
  | straight before l free hfree =>
    have hbefore : before = (List.replicate before (default : α)).length := by
      rw [List.length_replicate]
    dsimp only
    rw [if_pos (Nat.le_add_right _ _), fillRange_mid _ l _ hbefore (by rw [← hbefore]),
      Option.map_some]
    refine ⟨_, rfl, blank (n := before + l.length + free) (by omega) ?_, ?_⟩
    · rw [List.replicate_append_replicate, List.replicate_append_replicate]
    · simp only [List.length_append, List.length_replicate]
  | wrapped front back free hfree hfront =>
    have hmid : back.length + free = (back ++ List.replicate free (default : α)).length := by
      rw [List.length_append, List.length_replicate]
    dsimp only
    rw [if_neg (by omega), fillRange_back _ front hmid rfl]
    simp only [Option.bind_eq_bind, Option.bind_some]
    rw [List.append_assoc, fillRange_front]
    refine ⟨_, rfl, blank (n := back.length + (free + front.length)) (by omega) ?_, ?_⟩
    · rw [List.replicate_append_replicate, List.replicate_append_replicate]
    · simp only [List.length_append, List.length_replicate]
      omega

theorem pop_holds (h : Holds r l) : ∃ r',
    r.pop = some (l.head?, r') ∧ Holds r' l.tail ∧ r'.elements.length = r.elements.length := by
  unfold RingBuffer.pop
  rw [h.isEmpty_eq]
  cases h with
  | straight before l free hfree =>
    cases l with
    | nil => exact ⟨_, rfl, straight before [] free hfree, rfl⟩
    | cons x l =>
      have hbefore : before = (List.replicate before (default : α)).length := by
        rw [List.length_replicate]
      rw [if_neg (by simp)]
      simp only [List.append_assoc, List.cons_append, Option.bind_eq_bind,
        getElem?_mid _ x _ hbefore, set_mid _ x default _ hbefore, Option.bind_some]
      rw [RingBuffer.succ_of_lt (by
        simp only [List.length_append, List.length_cons, List.length_replicate]
        omega)]
      refine ⟨_, rfl, of_straight (before + 1) free hfree rfl ?_ ?_, ?_⟩
      · change before + (l.length + 1) = before + 1 + l.length
        omega
      · rw [List.replicate_succ', List.tail_cons]
        simp
      · simp
  | wrapped front back free hfree hfront =>
    cases front with
    | nil => exact absurd rfl hfront
    | cons x front =>
      have hmid : back.length + free = (back ++ List.replicate free (default : α)).length := by
        rw [List.length_append, List.length_replicate]
      rw [if_neg (by simp)]
      simp only [Option.bind_eq_bind, getElem?_mid _ x _ hmid, set_mid _ x default _ hmid,
        Option.bind_some, List.cons_append, List.head?_cons, List.tail_cons]
      cases front with
      | nil =>
        rw [RingBuffer.succ_last (by simp only [List.length_append, List.length_cons,
          List.length_replicate, List.length_nil])]
        refine ⟨_, rfl, of_straight 0 (free + 1) (Nat.succ_pos free) rfl (Nat.zero_add _).symm ?_, ?_⟩
        · rw [List.replicate_succ']
          simp
        · simp
      | cons y front =>
        rw [RingBuffer.succ_of_lt (by
          simp only [List.length_append, List.length_cons, List.length_replicate]
          omega)]
        refine ⟨_, rfl, of_wrapped (y :: front) back (free + 1) (Nat.succ_pos free)
          (List.cons_ne_nil y front) rfl rfl ?_ rfl, ?_⟩
        · rw [List.replicate_succ']
          simp
        · simp

private theorem isFull_eq (h : Holds r l) :
    r.isFull = some (decide (l.length + 1 = r.elements.length)) := by
  have hsize := h.lt_size
  unfold RingBuffer.isFull
  cases h with
  | straight before l free hfree =>
    simp only [List.length_append, List.length_replicate] at hsize ⊢
    by_cases hlast : free = 1
    · rw [RingBuffer.succ_last (by simp only [List.length_append, List.length_replicate]; omega),
        Option.map_some, Option.some_inj, Bool.eq_iff_iff, beq_iff_eq, decide_eq_true_iff]
      omega
    · rw [RingBuffer.succ_of_lt (by simp only [List.length_append, List.length_replicate]; omega),
        Option.map_some, Option.some_inj, Bool.eq_iff_iff, beq_iff_eq, decide_eq_true_iff]
      omega
  | wrapped front back free hfree hfront =>
    have hpos := List.length_pos_iff.mpr hfront
    simp only [List.length_append, List.length_replicate] at hsize ⊢
    rw [RingBuffer.succ_of_lt (by simp only [List.length_append, List.length_replicate]; omega),
      Option.map_some, Option.some_inj, Bool.eq_iff_iff, beq_iff_eq, decide_eq_true_iff]
    omega

private theorem place (h : Holds r l) (hroom : l.length + 1 < r.elements.length) (v : α) :
    r.tail < r.elements.length ∧ ∃ tail, r.succ r.tail = some tail ∧
      Holds { r with elements := r.elements.set r.tail v, tail := tail } (l ++ [v]) := by
  cases h with
  | straight before l free hfree =>
    obtain ⟨free, rfl⟩ := Nat.exists_eq_succ_of_ne_zero (Nat.ne_of_gt hfree)
    have htail : before + l.length = (List.replicate before (default : α) ++ l).length := by
      rw [List.length_append, List.length_replicate]
    simp only [List.length_append, List.length_replicate] at hroom
    refine ⟨by simp only [List.length_append, List.length_replicate]; omega, ?_⟩
    rw [List.replicate_succ]
    by_cases hlast : free = 0
    · subst hlast
      refine ⟨0, RingBuffer.succ_last ?_, of_wrapped (l ++ [v]) [] before (by omega)
        (List.append_ne_nil_of_right_ne_nil l (List.cons_ne_nil v []))
        (Nat.zero_add before).symm rfl ?_ (List.append_nil _).symm⟩
      · simp only [List.length_append, List.length_replicate, List.length_cons]
      · dsimp only
        rw [set_mid _ default v _ htail]
        simp
    · refine ⟨before + l.length + 1, RingBuffer.succ_of_lt ?_, of_straight before free
        (Nat.pos_of_ne_zero hlast) rfl ?_ ?_⟩
      · simp only [List.length_append, List.length_replicate, List.length_cons]
        omega
      · rw [List.length_append, List.length_singleton]
        rfl
      · rw [set_mid _ default v _ htail]
        simp
  | wrapped front back free hfree hfront =>
    obtain ⟨free, rfl⟩ := Nat.exists_eq_succ_of_ne_zero (Nat.ne_of_gt hfree)
    have hpos := List.length_pos_iff.mpr hfront
    simp only [List.length_append, List.length_replicate] at hroom
    refine ⟨by simp only [List.length_append, List.length_replicate]; omega, back.length + 1,
      RingBuffer.succ_of_lt ?_, ?_⟩
    · simp only [List.length_append, List.length_replicate]
      omega
    · refine of_wrapped front (back ++ [v]) free (by omega) hfront ?_ ?_ ?_
        (List.append_assoc _ _ _)
      · rw [List.length_append, List.length_singleton]
        change back.length + (free + 1) = _
        omega
      · rw [List.length_append, List.length_singleton]
      · dsimp only
        rw [List.replicate_succ, List.append_assoc, List.cons_append, set_mid _ default v _ rfl]
        simp

private theorem lt_growTo (n : ℕ) : n < RingBuffer.growTo n ∨ n = 0 := by
  unfold RingBuffer.growTo RINGBUFFER_MIN RINGBUFFER_EXP
  split_ifs <;> omega

theorem push_holds (h : Holds r l) (v : α) : ∃ r', r.push v = some r' ∧ Holds r' (l ++ [v]) ∧
    r'.elements.length = if l.length + 1 = r.elements.length then RingBuffer.growTo r.elements.length
      else r.elements.length := by
  have hsize := h.lt_size
  unfold RingBuffer.push
  simp only [h.isFull_eq, Option.bind_eq_bind, Option.bind_some, decide_eq_true_eq]
  by_cases hfull : l.length + 1 = r.elements.length
  · have hgrow := lt_growTo r.elements.length
    obtain ⟨r', hr', hholds, hlength⟩ :=
      h.moveTo_holds (show l.length < RingBuffer.growTo r.elements.length by omega)
    obtain ⟨htail, tail, hsucc, hplaced⟩ := hholds.place (by omega) v
    rw [if_pos hfull, if_pos hfull, RingBuffer.grow, hr', Option.bind_some, if_pos htail, hsucc]
    exact ⟨_, rfl, hplaced, List.length_set.trans hlength⟩
  · obtain ⟨htail, tail, hsucc, hplaced⟩ := h.place (by omega) v
    rw [if_neg hfull, if_neg hfull]
    change ∃ r', (if r.tail < r.elements.length then _ else _) = _ ∧ _
    rw [if_pos htail, hsucc]
    exact ⟨_, rfl, hplaced, List.length_set⟩

theorem shrinkTo_holds (h : Holds r l) (size : ℕ) : ∃ r',
    r.shrinkTo size = some (decide (r'.elements.length < r.elements.length), r') ∧ Holds r' l ∧
      r'.elements.length =
        min r.elements.length (max (max size RINGBUFFER_MIN) (l.length + 1)) := by
  unfold RingBuffer.shrinkTo
  simp only [h.len_eq, Option.bind_eq_bind, Option.bind_some]
  split_ifs with hsmall
  · refine ⟨r, ?_, h, (Nat.min_eq_left hsmall).symm⟩
    rw [decide_eq_false (Nat.lt_irrefl _)]
    rfl
  · obtain ⟨r', hr', hholds, hlength⟩ :=
      h.moveTo_holds (show l.length < max (max size RINGBUFFER_MIN) (l.length + 1) by omega)
    refine ⟨r', ?_, hholds, ?_⟩
    · rw [hr', decide_eq_true (by omega)]
      rfl
    · rw [hlength]
      omega

theorem discard_holds (h : Holds r l) (n : ℕ) : ∃ r',
    r.discard n = some (min n l.length, r') ∧ Holds r' (l.drop n) ∧
      r'.elements.length = r.elements.length := by
  have hempty := h.clear_holds
  unfold RingBuffer.discard
  simp only [h.len_eq, Option.bind_eq_bind, Option.bind_some]
  by_cases hall : min n l.length = l.length
  · obtain ⟨r', hr', hholds, hlength⟩ := hempty
    rw [if_pos hall, hr', List.drop_eq_nil_of_le (by omega)]
    exact ⟨r', rfl, hholds, hlength⟩
  have hlt : n < l.length := by omega
  rw [if_neg hall, Nat.min_eq_left (Nat.le_of_lt hlt)]
  clear hempty hall
  cases h with
  | straight before l free hfree =>
    have hbefore : before = (List.replicate before (default : α)).length := by
      rw [List.length_replicate]
    have htake : (l.take n).length = n := List.length_take_of_le (Nat.le_of_lt hlt)
    have hcut : List.replicate before default ++ l ++ List.replicate free default =
        List.replicate before default ++ l.take n ++ (l.drop n ++ List.replicate free default) := by
      simp only [List.append_assoc, take_append_drop_append]
    rw [if_pos (by simp only [List.length_append, List.length_replicate]; omega)]
    dsimp only
    rw [hcut, fillRange_mid _ _ _ hbefore (by rw [← hbefore, htake]), htake]
    refine ⟨_, rfl, of_straight (before + n) free hfree rfl ?_ ?_, ?_⟩
    · rw [List.length_drop]
      change before + l.length = _
      omega
    · simp only [List.replicate_append_replicate, List.append_assoc]
    · simp only [List.length_append, htake, List.length_replicate]
  | wrapped front back free hfree hfront =>
    have hmid : back.length + free = (back ++ List.replicate free (default : α)).length := by
      rw [List.length_append, List.length_replicate]
    rw [List.length_append] at hlt
    by_cases hin : n < front.length
    · have htake : (front.take n).length = n := List.length_take_of_le (Nat.le_of_lt hin)
      have hcut : back ++ List.replicate free default ++ front =
          back ++ List.replicate free default ++ front.take n ++ front.drop n := by
        rw [List.append_assoc _ (front.take n), List.take_append_drop]
      rw [if_pos (by simp only [List.length_append, List.length_replicate]; omega)]
      dsimp only
      rw [hcut, fillRange_mid _ _ _ hmid (by rw [← hmid, htake]), htake]
      have hne : front.drop n ≠ [] := by
        rw [← List.length_pos_iff, List.length_drop]
        omega
      refine ⟨_, rfl, of_wrapped (front.drop n) back (free + n) (by omega) hne ?_ rfl ?_
        (List.drop_append_of_le_length (Nat.le_of_lt hin)), ?_⟩
      · exact Nat.add_assoc _ _ _
      · dsimp only
        rw [List.append_assoc back, List.replicate_append_replicate]
      · simp only [List.length_append, htake, List.length_replicate]
    · have hrest : ((back.take (n - front.length))).length = n - front.length :=
        List.length_take_of_le (by omega)
      rw [if_neg (by simp only [List.length_append, List.length_replicate]; omega)]
      dsimp only
      have hsub : checkedSub (back.length + free + n)
          (back ++ List.replicate free default ++ front).length = some (n - front.length) := by
        unfold checkedSub
        simp only [List.length_append, List.length_replicate]
        rw [if_pos (by omega)]
        congr 1
        omega
      rw [hsub, Option.bind_some, fillRange_back _ front hmid rfl, Option.bind_some]
      have hcut : back ++ List.replicate free default ++ List.replicate front.length default =
          back.take (n - front.length) ++ (back.drop (n - front.length) ++
            List.replicate free default ++ List.replicate front.length default) := by
        simp only [List.append_assoc, take_append_drop_append]
      have hfill := fillRange_front (back.take (n - front.length)) (back.drop (n - front.length) ++
        List.replicate free default ++ List.replicate front.length (default : α))
      rw [hrest] at hfill
      rw [hcut, hfill]
      refine ⟨_, rfl, of_straight (n - front.length) (free + front.length) (by omega) rfl ?_ ?_, ?_⟩
      · rw [List.length_drop, List.length_append]
        change back.length = _
        omega
      · rw [List.drop_append, List.drop_eq_nil_of_le (Nat.le_of_not_lt hin), List.nil_append]
        simp only [List.append_assoc, List.replicate_append_replicate]
      · simp only [List.length_append, List.length_replicate, List.length_drop]
        omega

end Holds

end Kcptun.Arq
