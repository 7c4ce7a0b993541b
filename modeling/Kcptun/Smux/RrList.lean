/- Kcptun/Smux/RrList
   source: crates/smux/src/shaper.rs (RrNode, RrList)
   digest: The round-robin list of stream ids, a doubly linked list over reused slots: no use of a
     node id fails while its node is in the list, and the links hold the ids in order. -/

import Kcptun.Lib.Linked
import Mathlib.Data.UInt

set_option autoImplicit false
set_option relaxedAutoImplicit false

namespace Kcptun.Smux

open Kcptun.Lib

/-- One entry: a stream id and its neighbours. -/
structure RrNode where
  sid : UInt32
  prev : Option ℕ
  next : Option ℕ
  deriving DecidableEq, Repr

/-- The list; a node id is the index of its slot. The last freed slot is the first of `free`. -/
structure RrList where
  slots : List (Option RrNode) := []
  free : List ℕ := []
  front : Option ℕ := none
  back : Option ℕ := none
  len : ℕ := 0
  deriving DecidableEq, Repr

namespace RrList

/-- `slots[id]` with its `expect`: fails when the slot does not exist or is empty. -/
def node (l : RrList) (id : ℕ) : Option RrNode := l.slots[id]?.join

def nodeMut (l : RrList) (id : ℕ) (f : RrNode → RrNode) : Option RrList :=
  (l.node id).map fun n => { l with slots := l.slots.set id (some (f n)) }

def sid (l : RrList) (id : ℕ) : Option UInt32 := (l.node id).map RrNode.sid

/-- The element after `id`; nothing at the back. -/
def next (l : RrList) (id : ℕ) : Option (Option ℕ) := (l.node id).map RrNode.next

/-- Puts a node into a freed slot or, if there is none, into a new one. -/
def alloc (l : RrList) (node : RrNode) : Option (RrList × ℕ) :=
  match l.free with
  | slot :: free =>
    if slot < l.slots.length then
      some ({ l with free := free, slots := l.slots.set slot (some node) }, slot)
    else none
  | [] => some ({ l with slots := l.slots ++ [some node] }, l.slots.length)

def pushBack (l : RrList) (sid : UInt32) : Option (RrList × ℕ) := do
  let r ← l.alloc { sid, prev := l.back, next := none }
  let linked ← match l.back with
    | some back => r.1.nodeMut back fun n => { n with next := some r.2 }
    | none => some { r.1 with front := some r.2 }
  return ({ linked with back := some r.2, len := linked.len + 1 }, r.2)

def unlinkPrev (l : RrList) (node : RrNode) : Option RrList :=
  match node.prev with
  | some p => l.nodeMut p fun n => { n with next := node.next }
  | none => some { l with front := node.next }

def unlinkNext (l : RrList) (node : RrNode) : Option RrList :=
  match node.next with
  | some p => l.nodeMut p fun n => { n with prev := node.prev }
  | none => some { l with back := node.prev }

def remove (l : RrList) (id : ℕ) : Option RrList := do
  let node ← l.node id
  let l ← l.unlinkPrev node
  let l ← l.unlinkNext node
  if id < l.slots.length ∧ 0 < l.len then
    return { l with slots := l.slots.set id none, free := id :: l.free, len := l.len - 1 }
  else none

def link (l : RrList) (id : ℕ) : Option (Link ℕ UInt32) :=
  (l.node id).map fun n => ⟨n.sid, n.prev, n.next⟩

def elements (l : RrList) : List (ℕ × UInt32) := walk l.link l.slots.length l.front

def sids (l : RrList) : List UInt32 := l.elements.map Prod.snd

/-- The list holds the elements `es`, in this order. -/
structure Holds (l : RrList) (es : List (ℕ × UInt32)) : Prop where
  nodup : (es.map Prod.fst).Nodup
  links : Linked l.link none es none
  front : l.front = headId es none
  back : l.back = lastId es none
  len : l.len = es.length
  free_nodup : l.free.Nodup
  free_empty : ∀ i ∈ l.free, l.slots[i]? = some none

variable {l l' : RrList} {es xs ys : List (ℕ × UInt32)} {x : ℕ × UInt32} {id : ℕ}

theorem holds_new : ({} : RrList).Holds [] :=
  ⟨List.nodup_nil, trivial, rfl, rfl, rfl, List.nodup_nil, by simp⟩

private theorem link_eq_some {v : Link ℕ UInt32} (h : l.link id = some v) :
    l.node id = some ⟨v.value, v.prev, v.next⟩ ∧ id < l.slots.length := by
  obtain ⟨n, hnode, rfl⟩ := Option.map_eq_some_iff.mp h
  refine ⟨hnode, ?_⟩
  obtain ⟨hlt, -⟩ := List.getElem?_eq_some_iff.mp (Option.join_eq_some_iff.mp hnode)
  exact hlt

private theorem link_of_slots (slot : Option RrNode) (hslots : l'.slots = l.slots.set id slot)
    (hid : id < l.slots.length) (j : ℕ) :
    l'.link j = if j = id then slot.map fun n => ⟨n.sid, n.prev, n.next⟩ else l.link j := by
  unfold link node
  rw [hslots]
  split_ifs with hj
  · rw [hj, List.getElem?_set_self hid, Option.join_some]
  · rw [List.getElem?_set_ne (Ne.symm hj)]

private theorem nodeMut_spec {v : Link ℕ UInt32} (h : l.link id = some v) (f : RrNode → RrNode) :
    ∃ l', l.nodeMut id f = some l' ∧ l'.free = l.free ∧ l'.front = l.front ∧ l'.back = l.back ∧
      l'.len = l.len ∧ l'.slots = l.slots.set id (some (f ⟨v.value, v.prev, v.next⟩)) := by
  obtain ⟨hnode, -⟩ := link_eq_some h
  refine ⟨{ l with slots := l.slots.set id (some (f ⟨v.value, v.prev, v.next⟩)) }, ?_, rfl, rfl, rfl,
    rfl, rfl⟩
  rw [nodeMut, hnode]
  rfl

theorem Holds.walk_eq (h : l.Holds es) : l.elements = es := by
  have hsub : es.length ≤ l.slots.length := by
    rw [← List.length_map (f := Prod.fst), ← List.length_range (n := l.slots.length)]
    refine (h.nodup.subperm ?_).length_le
    intro i hi
    obtain ⟨x, hx, rfl⟩ := List.mem_map.mp hi
    obtain ⟨q, r, hlink⟩ := h.links.get_of_mem hx
    exact List.mem_range.mpr (link_eq_some hlink).2
  rw [elements, h.front]
  exact h.links.walk_eq hsub

theorem Holds.sid_eq (h : l.Holds es) (hx : x ∈ es) : l.sid x.1 = some x.2 := by
  obtain ⟨q, r, hlink⟩ := h.links.get_of_mem hx
  rw [sid, (link_eq_some hlink).1]
  rfl

theorem Holds.next_eq (h : l.Holds (xs ++ x :: ys)) : l.next x.1 = some (headId ys none) := by
  rw [next, (link_eq_some (linked_append.mp h.links).2.1).1]
  rfl

private theorem Holds.alloc_spec (h : l.Holds es) (n : RrNode) :
    ∃ l' id, l.alloc n = some (l', id) ∧
    l'.front = l.front ∧ l'.back = l.back ∧ l'.len = l.len ∧ l'.free.Nodup ∧ id ∉ l'.free ∧
    id < l'.slots.length ∧ l.link id = none ∧
    (∀ j, l'.link j = if j = id then some ⟨n.sid, n.prev, n.next⟩ else l.link j) ∧
    ∀ i ∈ l'.free, l'.slots[i]? = some none := by
  unfold alloc
  cases hfree : l.free with
  | nil =>
    refine ⟨_, _, rfl, rfl, rfl, rfl, List.nodup_nil, List.not_mem_nil, ?_, ?_, ?_,
      fun i hi => by cases hi⟩
    · rw [List.length_append, List.length_singleton]
      exact Nat.lt_succ_self _
    · rw [link, node, List.getElem?_eq_none le_rfl]
      rfl
    · intro j
      unfold link node
      dsimp only
      split_ifs with hj
      · rw [hj, List.getElem?_append_right le_rfl, Nat.sub_self]
        rfl
      · rcases Nat.lt_or_ge j l.slots.length with hlt | hge
        · rw [List.getElem?_append_left hlt]
        · rw [List.getElem?_eq_none hge, List.getElem?_eq_none]
          rw [List.length_append, List.length_singleton]
          omega
  | cons slot free =>
    have hempty := h.free_empty slot (by rw [hfree]; exact List.mem_cons_self)
    obtain ⟨hlt, -⟩ := List.getElem?_eq_some_iff.mp hempty
    have hnodup := h.free_nodup
    rw [hfree, List.nodup_cons] at hnodup
    dsimp only
    rw [if_pos hlt]
    refine ⟨_, _, rfl, rfl, rfl, rfl, hnodup.2, hnodup.1, ?_, ?_, ?_, ?_⟩
    · rw [List.length_set]
      exact hlt
    · rw [link, node, hempty]
      rfl
    · exact link_of_slots (some n) rfl hlt
    · intro i hi
      have hne : slot ≠ i := fun heq => hnodup.1 (heq ▸ hi)
      rw [List.getElem?_set_ne hne]
      exact h.free_empty i (by rw [hfree]; exact List.mem_cons_of_mem slot hi)

theorem Holds.pushBack_spec (h : l.Holds es) (sid : UInt32) :
    ∃ l' id, l.pushBack sid = some (l', id) ∧ l'.Holds (es ++ [(id, sid)]) := by
  obtain ⟨l1, id, halloc, hfront, hback, hlen, hfree, hidfree, hidlt, hnone, hlink, hempty⟩ :=
    h.alloc_spec ⟨sid, l.back, none⟩
  have hne : ∀ x ∈ es, x.1 ≠ id := by
    rintro x hx rfl
    obtain ⟨q, r, hsome⟩ := h.links.get_of_mem hx
    rw [hnone] at hsome
    cases hsome
  have hnodup : ((es ++ [(id, sid)]).map Prod.fst).Nodup := by
    rw [List.map_append, List.nodup_append]
    refine ⟨h.nodup, List.nodup_singleton _, ?_⟩
    intro i hi j hj
    obtain ⟨x, hx, rfl⟩ := List.mem_map.mp hi
    rw [List.mem_singleton.mp hj]
    exact hne x hx
  have hlinks1 : Linked l1.link none es none :=
    h.links.congr fun x hx => by rw [hlink, if_neg (hne x hx)]
  unfold pushBack
  rw [halloc, Option.bind_eq_bind, Option.bind_some]
  rcases List.eq_nil_or_concat es with rfl | ⟨ys, y, rfl⟩
  · have hl : l.back = none := h.back
    rw [hl] at hlink ⊢
    refine ⟨_, id, rfl, hnodup, ⟨?_, trivial⟩, rfl, rfl, ?_, hfree, hempty⟩
    · exact (hlink id).trans (if_pos rfl)
    · show l1.len + 1 = _
      rw [hlen, h.len]
      rfl
  · rw [List.concat_eq_append] at *
    have hl : l.back = some y.1 := by rw [h.back, lastId_append_singleton]
    have hy := (linked_append.mp hlinks1).2.1
    obtain ⟨l2, hmut, hf2, hfr2, hb2, hln2, hs2⟩ :=
      nodeMut_spec hy fun n => { n with next := some id }
    have hylt := (link_eq_some hy).2
    have hlink2 := link_of_slots _ hs2 hylt
    have hyne : y.1 ≠ id := hne y (by simp)
    rw [hl] at hlink ⊢
    dsimp only
    rw [hmut, Option.bind_eq_bind, Option.bind_some]
    refine ⟨_, id, rfl, hnodup, ?_, ?_, ?_, ?_, ?_, ?_⟩
    · refine linked_append.mpr ⟨hlinks1.relast h.nodup ?_ ?_, ?_, trivial⟩
      · intro x q hx hget
        rw [List.getLast?_concat] at hx
        cases hx
        rw [hy] at hget
        cases hget
        exact (hlink2 y.1).trans (if_pos rfl)
      · intro x hx hlast
        rw [List.getLast?_concat] at hlast
        exact (hlink2 x.1).trans (if_neg fun heq => hlast (by rw [heq]; rfl))
      · rw [lastId_append_singleton]
        refine (hlink2 id).trans ?_
        rw [if_neg (Ne.symm hyne), hlink, if_pos rfl]
        rfl
    · show l2.front = _
      rw [hfr2, hfront, h.front]
      cases ys <;> rfl
    · rw [lastId_append_singleton]
    · show l2.len + 1 = _
      rw [hln2, hlen, h.len]
      simp only [List.length_append, List.length_singleton]
    · show l2.free.Nodup
      rw [hf2]
      exact hfree
    · intro i hi
      have hi1 : i ∈ l1.free := hf2 ▸ hi
      show l2.slots[i]? = _
      rw [hs2, List.getElem?_set_ne, hempty i hi1]
      rintro rfl
      have hsome := (link_eq_some hy).1
      rw [node, hempty _ hi1] at hsome
      cases hsome

private theorem link_congr {j : ℕ} (h : l'.slots[j]? = l.slots[j]?) : l'.link j = l.link j := by
  rw [link, link, node, node, h]

private theorem unlinkPrev_spec (n : RrNode) (h : Linked l.link none xs (some id))
    (hnodup : (xs.map Prod.fst).Nodup) (hprev : n.prev = lastId xs none)
    (hfront : l.front = headId xs (some id)) :
    ∃ l', l.unlinkPrev n = some l' ∧ l'.free = l.free ∧ l'.back = l.back ∧ l'.len = l.len ∧
      l'.slots.length = l.slots.length ∧ l'.front = headId xs n.next ∧
      Linked l'.link none xs n.next ∧ ∀ j ∉ xs.map Prod.fst, l'.slots[j]? = l.slots[j]? := by
  unfold unlinkPrev
  rw [hprev]
  rcases List.eq_nil_or_concat xs with rfl | ⟨zs, z, rfl⟩
  · exact ⟨_, rfl, rfl, rfl, rfl, rfl, rfl, trivial, fun j _ => rfl⟩
  · rw [List.concat_eq_append] at *
    have hz := (linked_append.mp h).2.1
    obtain ⟨l1, hmut, hf, hfr, hb, hl, hs⟩ := nodeMut_spec hz fun m => { m with next := n.next }
    have hlink := link_of_slots _ hs (link_eq_some hz).2
    rw [lastId_append_singleton]
    refine ⟨l1, hmut, hf, hb, hl, by rw [hs, List.length_set], ?_, h.relast hnodup ?_ ?_, ?_⟩
    · rw [hfr, hfront]
      cases zs <;> rfl
    · intro x q hx hget
      rw [List.getLast?_concat] at hx
      cases hx
      rw [hz] at hget
      cases hget
      rw [hlink, if_pos rfl]
      rfl
    · intro x _ hlast
      rw [List.getLast?_concat] at hlast
      rw [hlink, if_neg fun heq => hlast (by rw [heq]; rfl)]
    · intro j hj
      rw [hs, List.getElem?_set_ne]
      rintro rfl
      exact hj (by simp)

private theorem unlinkNext_spec (n : RrNode) (h : Linked l.link (some id) ys none)
    (hnodup : (ys.map Prod.fst).Nodup) (hnext : n.next = headId ys none)
    (hback : l.back = lastId ys (some id)) :
    ∃ l', l.unlinkNext n = some l' ∧ l'.free = l.free ∧ l'.front = l.front ∧ l'.len = l.len ∧
      l'.slots.length = l.slots.length ∧ l'.back = lastId ys n.prev ∧
      Linked l'.link n.prev ys none ∧ ∀ j ∉ ys.map Prod.fst, l'.slots[j]? = l.slots[j]? := by
  unfold unlinkNext
  rw [hnext]
  cases ys with
  | nil => exact ⟨_, rfl, rfl, rfl, rfl, rfl, rfl, trivial, fun j _ => rfl⟩
  | cons z zs =>
    obtain ⟨l1, hmut, hf, hfr, hb, hl, hs⟩ := nodeMut_spec h.1 fun m => { m with prev := n.prev }
    have hlink := link_of_slots _ hs (link_eq_some h.1).2
    refine ⟨l1, hmut, hf, hfr, hl, by rw [hs, List.length_set], ?_, h.rehead hnodup ?_ ?_, ?_⟩
    · rw [hb, hback, lastId_cons, lastId_cons]
    · intro x r hx hget
      cases hx
      rw [h.1] at hget
      cases hget
      rw [hlink, if_pos rfl]
      rfl
    · intro x _ hhead
      rw [hlink, if_neg fun heq => hhead (by rw [heq]; rfl)]
    · intro j hj
      rw [hs, List.getElem?_set_ne]
      rintro rfl
      exact hj (by simp)

private theorem lastId_append (xs ys : List (ℕ × UInt32)) (p : Option ℕ) :
    lastId (xs ++ ys) p = lastId ys (lastId xs p) := by
  rcases List.eq_nil_or_concat ys with rfl | ⟨zs, z, rfl⟩
  · rw [List.append_nil, lastId_nil]
  · rw [List.concat_eq_append, ← List.append_assoc, lastId_append_singleton,
      lastId_append_singleton]

theorem Holds.remove_spec (h : l.Holds (xs ++ x :: ys)) :
    ∃ l', l.remove x.1 = some l' ∧ l'.Holds (xs ++ ys) := by
  obtain ⟨hxs, hx, hys⟩ := linked_append.mp h.links
  obtain ⟨hnode, hlt⟩ := link_eq_some hx
  have hnodup := h.nodup
  rw [List.map_append, List.map_cons, List.nodup_append, List.nodup_cons] at hnodup
  obtain ⟨hnx, ⟨hxy, hny⟩, hdisj⟩ := hnodup
  have hxxs : x.1 ∉ xs.map Prod.fst := fun hmem => hdisj _ hmem _ List.mem_cons_self rfl
  obtain ⟨l1, hun1, hf1, hb1, hl1, hlen1, hfront1, hlinked1, hsame1⟩ :=
    unlinkPrev_spec ⟨x.2, lastId xs none, headId ys none⟩ hxs hnx rfl
      (by rw [h.front, headId_append, headId_cons])
  have hys1 : Linked l1.link (some x.1) ys none := hys.congr fun y hy => link_congr <|
    hsame1 _ fun hmem =>
      hdisj _ hmem _ (List.mem_cons_of_mem _ (List.mem_map_of_mem hy)) rfl
  obtain ⟨l2, hun2, hf2, hfr2, hl2, hlen2, hback2, hlinked2, hsame2⟩ :=
    unlinkNext_spec ⟨x.2, lastId xs none, headId ys none⟩ hys1 hny rfl
      (by rw [hb1, h.back, lastId_append, lastId_cons])
  have hlen : l.len = xs.length + (ys.length + 1) := by
    rw [h.len, List.length_append, List.length_cons]
  have hslots (j : ℕ) (hj : j ∉ xs.map Prod.fst) (hj' : j ∉ ys.map Prod.fst) :
      l2.slots[j]? = l.slots[j]? := (hsame2 j hj').trans (hsame1 j hj)
  have hmem : x.1 ∉ l.free := by
    intro hfree
    rw [node, h.free_empty _ hfree] at hnode
    cases hnode
  have hfreed (i : ℕ) (hi : i ∈ l.free) (zs : List (ℕ × UInt32)) (hzs : zs ⊆ xs ++ x :: ys) :
      i ∉ zs.map Prod.fst := by
    intro hz
    obtain ⟨z, hmem, rfl⟩ := List.mem_map.mp hz
    obtain ⟨q, r, hsome⟩ := h.links.get_of_mem (hzs hmem)
    have hsome := (link_eq_some hsome).1
    rw [node, h.free_empty _ hi] at hsome
    cases hsome
  have hgone (j : ℕ) (hj : j ≠ x.1) (l3 : RrList) (hl3 : l3.slots = l2.slots.set x.1 none) :
      l3.link j = l2.link j := link_congr (by rw [hl3, List.getElem?_set_ne (Ne.symm hj)])
  unfold remove
  rw [hnode, Option.bind_eq_bind, Option.bind_some, hun1, Option.bind_eq_bind, Option.bind_some,
    hun2, Option.bind_some, if_pos ⟨by omega, by omega⟩]
  refine ⟨_, rfl, ?_, linked_append.mpr ⟨?_, ?_⟩, ?_, ?_, ?_, ?_, ?_⟩
  · rw [List.map_append, List.nodup_append]
    exact ⟨hnx, hny, fun i hi j hj => hdisj i hi j (List.mem_cons_of_mem _ hj)⟩
  · have hkeep : Linked l2.link none xs (headId ys none) := hlinked1.congr fun z hz => link_congr <|
      hsame2 _ fun hmem => hdisj z.1 (List.mem_map_of_mem hz) _ (List.mem_cons_of_mem _ hmem) rfl
    exact hkeep.congr fun z hz =>
      hgone z.1 (fun heq => hxxs (heq ▸ List.mem_map_of_mem hz)) _ rfl
  · exact hlinked2.congr fun z hz =>
      hgone z.1 (fun heq => hxy (heq ▸ List.mem_map_of_mem hz)) _ rfl
  · rw [headId_append]
    exact hfr2.trans hfront1
  · rw [lastId_append]
    exact hback2
  · show l2.len - 1 = _
    rw [List.length_append]
    omega
  · show (x.1 :: l2.free).Nodup
    rw [hf2, hf1]
    exact List.nodup_cons.mpr ⟨hmem, h.free_nodup⟩
  · intro i hi
    show (l2.slots.set x.1 none)[i]? = _
    have hxlt : x.1 < l2.slots.length := by omega
    by_cases hix : i = x.1
    · rw [hix, List.getElem?_set_self hxlt]
    · have hfree : i ∈ l.free := by
        have hcons := (List.mem_cons.mp hi).resolve_left hix
        rwa [hf2, hf1] at hcons
      rw [List.getElem?_set_ne (Ne.symm hix), hslots]
      · exact h.free_empty i hfree
      · exact hfreed i hfree xs (List.subset_append_left ..)
      · apply hfreed i hfree ys
        exact List.Subset.trans (List.subset_cons_self x ys) (List.subset_append_right ..)

end RrList

end Kcptun.Smux
