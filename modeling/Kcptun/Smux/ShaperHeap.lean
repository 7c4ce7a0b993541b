/- Kcptun/Smux/ShaperHeap
   source: crates/smux/src/shaper.rs (WriteRequest, ShaperHeap), crates/smux/src/session.rs (ClassId)
   digest: The heap of write requests of one stream: its indices stay in range, and it returns the
     first request whenever the sequence numbers in it are less than half the space apart. -/

import Kcptun.Lib.BinaryHeap
import Kcptun.Lib.Serial
import Mathlib.Data.List.Nodup

set_option autoImplicit false
set_option relaxedAutoImplicit false

namespace Kcptun.Smux

open Kcptun.Lib

/-- Priority class: control frames of a stream go before its data frames. -/
inductive ClassId
  | ctrl
  | data
  deriving DecidableEq, Repr

/-- `a < b`, the order of the discriminants. -/
def ClassId.lt : ClassId → ClassId → Bool
  | .ctrl, .data => true
  | _, _ => false

def itimediff (later earlier : UInt32) : Int := Serial.diff later earlier

/-- One queued frame: the keys it is ordered by and the body of the caller. -/
structure WriteRequest (T : Type) where
  class_ : ClassId
  sid : UInt32
  seq : UInt32
  body : T
  deriving DecidableEq, Repr

/-- Class first, then the wrapping sequence compare. -/
def WriteRequest.before {T : Type} (a b : WriteRequest T) : Bool :=
  if a.class_ ≠ b.class_ then a.class_.lt b.class_ else itimediff b.seq a.seq > 0

structure ShaperHeap (T : Type) where
  items : Array (WriteRequest T) := #[]
  deriving DecidableEq, Repr

namespace ShaperHeap

variable {T : Type}

def isEmpty (h : ShaperHeap T) : Bool := h.items.isEmpty

/-- `items[i]` sorts before `items[j]`; fails when an index is out of range, as does `swap`. -/
def less (items : Array (WriteRequest T)) (i j : ℕ) : Option Bool := do
  let a ← items[i]?
  let b ← items[j]?
  return a.before b

def swap (items : Array (WriteRequest T)) (i j : ℕ) : Option (Array (WriteRequest T)) :=
  if i < items.size ∧ j < items.size then some (items.swapIfInBounds i j) else none

/-- Sifts up from `j`; `fuel` bounds the number of turns of the loop. -/
def up : ℕ → Array (WriteRequest T) → ℕ → Option (Array (WriteRequest T))
  | 0, items, j => if j = 0 then some items else none
  | fuel + 1, items, j =>
    if j = 0 then some items
    else do
      let i := (j - 1) / 2
      if !(← less items j i) then return items
      up fuel (← swap items i j) i

def child (items : Array (WriteRequest T)) (i n : ℕ) : Option ℕ :=
  let j1 := 2 * i + 1
  let j2 := j1 + 1
  if j2 < n then (less items j2 j1).map fun right => if right then j2 else j1 else some j1

def down : ℕ → Array (WriteRequest T) → ℕ → ℕ → Option (Array (WriteRequest T))
  | 0, items, i, n => if 2 * i + 1 ≥ n then some items else none
  | fuel + 1, items, i, n =>
    if 2 * i + 1 ≥ n then some items
    else do
      let j ← child items i n
      if !(← less items j i) then return items
      down fuel (← swap items i j) j n

/-- Appends, then sifts up. -/
def push (h : ShaperHeap T) (req : WriteRequest T) : Option (ShaperHeap T) :=
  let items := h.items.push req
  (up (items.size - 1) items (items.size - 1)).map ShaperHeap.mk

/-- Removes the smallest request; nothing when the heap is empty. -/
def pop (h : ShaperHeap T) : Option (Option (WriteRequest T × ShaperHeap T)) :=
  if h.items.size = 0 then some none
  else do
    let n := h.items.size - 1
    let items ← swap h.items 0 n
    let items ← down n items 0 n
    return items.back?.map fun req => (req, { items := items.pop })

variable {items : Array (WriteRequest T)} {i j n : ℕ}

private theorem less_eq (hi : i < items.size) (hj : j < items.size) :
    less items i j = some (BinaryHeap.lessAt WriteRequest.before items i j) := by
  unfold less BinaryHeap.lessAt
  rw [dif_pos hi, dif_pos hj, Array.getElem?_eq_getElem hi, Array.getElem?_eq_getElem hj]
  rfl

private theorem swap_eq (hi : i < items.size) (hj : j < items.size) :
    swap items i j = some (items.swapIfInBounds i j) := if_pos ⟨hi, hj⟩

private theorem up_eq (fuel : ℕ) (hfuel : j ≤ fuel) (hj : j < items.size) :
    up fuel items j = some (BinaryHeap.up WriteRequest.before fuel items j) := by
  induction fuel generalizing items j with
  | zero =>
    rw [up, if_pos (by omega)]
    rfl
  | succ fuel ih =>
    rw [up, BinaryHeap.up]
    by_cases hzero : j = 0
    · rw [if_pos hzero, if_neg (by omega)]
    · have hi : (j - 1) / 2 < items.size := by omega
      have hrec := @ih (items.swapIfInBounds ((j - 1) / 2) j) ((j - 1) / 2) (by omega)
        (by simpa using hi)
      rw [if_neg hzero, if_pos (by omega)]
      simp only [less_eq hj hi, swap_eq hi hj, hrec, Option.bind_eq_bind, Option.bind_some]
      split_ifs <;> rfl

private theorem child_eq (hn : n ≤ items.size) :
    child items i n = some (if (2 * i + 1 + 1 < n && BinaryHeap.lessAt WriteRequest.before items
      (2 * i + 1 + 1) (2 * i + 1)) = true then 2 * i + 1 + 1 else 2 * i + 1) := by
  unfold child
  dsimp only
  split_ifs with hlt hsel hsel
  · rw [decide_eq_true hlt, Bool.true_and] at hsel
    rw [less_eq (by omega) (by omega), Option.map_some, if_pos hsel]
  · rw [decide_eq_true hlt, Bool.true_and] at hsel
    rw [less_eq (by omega) (by omega), Option.map_some, if_neg hsel]
  · rw [decide_eq_false hlt, Bool.false_and] at hsel
    cases hsel
  · rfl

private theorem down_eq (fuel : ℕ) (hfuel : n ≤ fuel + i) (hn : n ≤ items.size) :
    down fuel items i n = some (BinaryHeap.down WriteRequest.before fuel items i n) := by
  induction fuel generalizing items i with
  | zero =>
    rw [down, if_pos (by omega)]
    rfl
  | succ fuel ih =>
    rw [down, BinaryHeap.down]
    dsimp only
    by_cases hleaf : 2 * i + 1 ≥ n
    · rw [if_pos hleaf, if_pos hleaf]
    · rw [if_neg hleaf, if_neg hleaf, child_eq hn]
      generalize hj : (if (2 * i + 1 + 1 < n && BinaryHeap.lessAt WriteRequest.before items
        (2 * i + 1 + 1) (2 * i + 1)) = true then 2 * i + 1 + 1 else 2 * i + 1) = j
      have hjn : i < j ∧ j < n := by
        split_ifs at hj with hsel
        · rw [Bool.and_eq_true, decide_eq_true_eq] at hsel
          omega
        · omega
      have hi : i < items.size := by omega
      have hrec := @ih (items.swapIfInBounds i j) j (by omega) (by simpa using hn)
      simp only [less_eq (show j < items.size by omega) hi, swap_eq hi (show j < items.size by omega),
        hrec, Option.bind_eq_bind, Option.bind_some]
      split_ifs <;> rfl

private theorem push_eq (h : ShaperHeap T) (req : WriteRequest T) :
    h.push req = some ⟨BinaryHeap.push WriteRequest.before h.items req⟩ := by
  unfold push
  dsimp only
  rw [Array.size_push, Nat.add_sub_cancel, up_eq _ le_rfl (by simp)]
  rfl

private theorem pop_eq (h : ShaperHeap T) :
    h.pop = some ((BinaryHeap.pop WriteRequest.before h.items).map fun r => (r.1, ⟨r.2⟩)) := by
  unfold pop
  split_ifs with hempty
  · rw [Array.size_eq_zero_iff] at hempty
    rw [(BinaryHeap.pop_eq_none WriteRequest.before).mpr hempty]
    rfl
  · dsimp only
    rw [swap_eq (by omega) (by omega), Option.bind_eq_bind, Option.bind_some,
      down_eq _ (by omega) (by simp), BinaryHeap.pop, Option.map_map]
    rfl

end ShaperHeap

/-- Sequence numbers that are distinct and span less than half the number space. -/
def Spread (seqs : List UInt32) : Prop :=
  seqs.Nodup ∧ ∃ base : UInt32, ∀ s ∈ seqs, (s - base).toNat < 2147483648

section Order

variable {T : Type} {a b : WriteRequest T} {base : UInt32}

/-- Within half the number space the signed difference is that of the distances from the first
number. -/
theorem itimediff_eq {x y : UInt32} (hx : (x - base).toNat < 2147483648)
    (hy : (y - base).toNat < 2147483648) :
    itimediff y x = ((y - base).toNat : Int) - (x - base).toNat := by
  have h1 := x.toNat_lt
  have h2 := y.toNat_lt
  have h3 := base.toNat_lt
  have h4 := UInt32.toNat_sub x base
  have h5 := UInt32.toNat_sub y base
  rw [itimediff, Serial.diff_eq]
  omega

theorem before_iff (ha : (a.seq - base).toNat < 2147483648) (hb : (b.seq - base).toNat < 2147483648) :
    a.before b = true ↔ a.class_.lt b.class_ = true ∨
      (a.class_ = b.class_ ∧ (a.seq - base).toNat < (b.seq - base).toNat) := by
  unfold WriteRequest.before
  split_ifs with hclass
  · exact ⟨.inl, fun h => h.resolve_right fun h => hclass h.1⟩
  · rw [decide_eq_true_eq, itimediff_eq ha hb, not_not.mp hclass]
    have hirrefl : b.class_.lt b.class_ = false := by cases b.class_ <;> rfl
    rw [hirrefl]
    simp only [Bool.false_eq_true, false_or, true_and]
    omega

private theorem orderOn_before (base : UInt32) : BinaryHeap.OrderOn (WriteRequest.before (T := T))
    fun r => (r.seq - base).toNat < 2147483648 := by
  constructor
  · intro a b ha hb hab
    rw [before_iff ha hb] at hab
    rw [Bool.eq_false_iff, ne_eq, before_iff hb ha]
    cases hac : a.class_ <;> cases hbc : b.class_ <;> simp_all [ClassId.lt]
    all_goals omega
  · intro a b c ha hb hc hab hbc
    rw [Bool.eq_false_iff, ne_eq, before_iff ha hb] at hab
    rw [Bool.eq_false_iff, ne_eq, before_iff hb hc] at hbc
    rw [Bool.eq_false_iff, ne_eq, before_iff ha hc]
    cases hac : a.class_ <;> cases hbc : b.class_ <;> cases hcc : c.class_ <;>
      simp_all [ClassId.lt]
    all_goals omega

private theorem before_total (ha : (a.seq - base).toNat < 2147483648)
    (hb : (b.seq - base).toNat < 2147483648) (hne : a.seq ≠ b.seq) (h : b.before a = false) :
    a.before b = true := by
  have hdist : (a.seq - base).toNat ≠ (b.seq - base).toNat := by
    intro heq
    have hsub := UInt32.toNat_inj.mp heq
    exact hne (by simpa using congrArg (· + base) hsub)
  rw [Bool.eq_false_iff, ne_eq, before_iff hb ha] at h
  rw [before_iff ha hb]
  cases hac : a.class_ <;> cases hbc : b.class_ <;> simp_all [ClassId.lt]
  all_goals omega

end Order

namespace ShaperHeap

variable {T : Type}

def requests (h : ShaperHeap T) : List (WriteRequest T) := h.items.toList

def Ordered (h : ShaperHeap T) : Prop :=
  BinaryHeap.Ordered WriteRequest.before h.items h.items.size

theorem push_spec (h : ShaperHeap T) (req : WriteRequest T) : ∃ h', h.push req = some h' ∧
    h'.requests.Perm (req :: h.requests) ∧
    (h.Ordered → Spread (h'.requests.map WriteRequest.seq) → h'.Ordered) := by
  refine ⟨_, push_eq h req, ?_, ?_⟩
  · refine (BinaryHeap.push_perm WriteRequest.before h.items req).toList.trans ?_
    rw [Array.toList_push]
    exact List.perm_append_comm
  · intro hord hspread
    obtain ⟨-, base, hbase⟩ := hspread
    have hmem : ∀ r ∈ h.items.push req, (r.seq - base).toNat < 2147483648 := by
      intro r hr
      refine hbase _ (List.mem_map_of_mem ?_)
      exact Array.mem_toList_iff.mpr ((BinaryHeap.push_perm _ _ _).mem_iff.mpr hr)
    have hkept := BinaryHeap.push_ordered (orderOn_before base)
      (fun r hr => hmem r (Array.mem_push_of_mem req hr)) (hmem req Array.mem_push_self) hord
    unfold Ordered
    rw [BinaryHeap.size_push]
    exact hkept

theorem pop_spec (h : ShaperHeap T) (hne : h.isEmpty = false) : ∃ req h',
    h.pop = some (some (req, h')) ∧ h.requests.Perm (req :: h'.requests) ∧
    (h.Ordered → Spread (h.requests.map WriteRequest.seq) →
      h'.Ordered ∧ ∀ r ∈ h'.requests, req.before r = true) := by
  cases hpop : BinaryHeap.pop WriteRequest.before h.items with
  | none =>
    rw [BinaryHeap.pop_eq_none] at hpop
    rw [isEmpty, hpop] at hne
    cases hne
  | some r =>
    have hperm : h.requests.Perm (r.1 :: r.2.toList) := by
      refine (BinaryHeap.pop_perm hpop).toList.symm.trans ?_
      rw [Array.toList_push]
      exact List.perm_append_comm
    refine ⟨r.1, ⟨r.2⟩, by rw [pop_eq, hpop]; rfl, hperm, ?_⟩
    intro hord hspread
    have hnodup := (hperm.map WriteRequest.seq).nodup_iff.mp hspread.1
    obtain ⟨-, base, hbase⟩ := hspread
    have hmem : ∀ x ∈ h.items, (x.seq - base).toNat < 2147483648 := fun x hx =>
      hbase _ (List.mem_map_of_mem (Array.mem_toList_iff.mpr hx))
    obtain ⟨hkept, hfirst⟩ := BinaryHeap.pop_ordered (orderOn_before base) hmem hord hpop
    refine ⟨hkept, ?_⟩
    intro x hx
    rw [List.map_cons, List.nodup_cons] at hnodup
    have hitems : ∀ y ∈ r.1 :: r.2.toList, y ∈ h.items := fun y hy =>
      Array.mem_toList_iff.mp (hperm.mem_iff.mpr hy)
    refine before_total (hmem _ (hitems r.1 List.mem_cons_self))
      (hmem _ (hitems x (List.mem_cons_of_mem _ hx))) ?_ (hfirst x (Array.mem_toList_iff.mp hx))
    intro heq
    exact hnodup.1 (heq ▸ List.mem_map_of_mem hx)

end ShaperHeap

end Kcptun.Smux
