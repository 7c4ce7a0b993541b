/- Kcptun/Lib/Utf8
   digest: Strings as characters and as the bytes that encode them: places given as byte offsets,
     slices that must not cut a character, and the search for ASCII characters in either view. -/

import Kcptun.Lib.LittleEndian
import Mathlib.Data.List.Basic

set_option autoImplicit false
set_option relaxedAutoImplicit false

namespace Kcptun.Lib.Utf8

open Kcptun.Lib.LittleEndian (Bytes)

/-- The characters of a string. -/
abbrev Str := List Char

def utf8 (s : Str) : Bytes := s.flatMap String.utf8EncodeChar

def size (s : Str) : ℕ := (utf8 s).length

/-- The parts of a string before and behind a byte offset, unless that lies within a character or
behind the end. -/
def splitAt? : Str → ℕ → Option (Str × Str)
  | [], n => if n = 0 then some ([], []) else none
  | c :: s, n =>
    if n = 0 then some ([], c :: s)
    else if c.utf8Size ≤ n then (splitAt? s (n - c.utf8Size)).map fun p => (c :: p.1, p.2)
    else none

/-- `&s[i..j]`; the slice of an offset within a character panics. -/
def slice (s : Str) (i j : ℕ) : Option Str :=
  if i ≤ j then (splitAt? s i).bind fun p => (splitAt? p.2 (j - i)).map Prod.fst else none

def sliceFrom (s : Str) (i : ℕ) : Option Str := (splitAt? s i).map Prod.snd

/-- `str::find` of a character. -/
def find (c : Char) : Str → Option ℕ
  | [] => none
  | d :: s => if d = c then some 0 else (find c s).map (d.utf8Size + ·)

/-- `str::rfind` of a character. -/
def rfind (c : Char) : Str → Option ℕ
  | [] => none
  | d :: s =>
    match rfind c s with
    | some i => some (d.utf8Size + i)
    | none => if d = c then some 0 else none

def indexByte (s : Bytes) (b : UInt8) : Option ℕ := s.findIdx? (· == b)

def lastIndexByte : Bytes → UInt8 → Option ℕ
  | [], _ => none
  | c :: s, b =>
    match lastIndexByte s b with
    | some i => some (i + 1)
    | none => if c = b then some 0 else none

variable {s front back : Str} {c : Char}

@[simp] theorem utf8_nil : utf8 [] = [] := rfl

theorem utf8_cons (c : Char) (s : Str) : utf8 (c :: s) = String.utf8EncodeChar c ++ utf8 s := rfl

theorem utf8_append (s t : Str) : utf8 (s ++ t) = utf8 s ++ utf8 t := List.flatMap_append

@[simp] theorem size_nil : size [] = 0 := rfl

theorem size_cons (c : Char) (s : Str) : size (c :: s) = c.utf8Size + size s := by
  rw [size, utf8_cons, List.length_append, String.length_utf8EncodeChar, size]

theorem size_append (s t : Str) : size (s ++ t) = size s + size t := by
  rw [size, utf8_append, List.length_append, size, size]

theorem size_eq_zero (h : size s = 0) : s = [] := by
  cases s with
  | nil => rfl
  | cons c s =>
    have := Char.utf8Size_pos c
    rw [size_cons] at h
    omega

section Slices

private theorem splitAt?_append (front back : Str) :
    splitAt? (front ++ back) (size front) = some (front, back) := by
  induction front with
  | nil => cases back <;> rfl
  | cons c front ih =>
    have hpos := Char.utf8Size_pos c
    rw [size_cons, List.cons_append, splitAt?, if_neg (by omega), if_pos (by omega),
      Nat.add_sub_cancel_left, ih]
    rfl

theorem append_inj_of_size {front' back' : Str} (h : front ++ back = front' ++ back')
    (hsize : size front = size front') : front = front' ∧ back = back' := by
  have hsplit := splitAt?_append front back
  rw [h, hsize, splitAt?_append] at hsplit
  obtain ⟨hfront, hback⟩ := Prod.mk.inj (Option.some.inj hsplit)
  exact ⟨hfront.symm, hback.symm⟩

theorem slice_append (front mid back : Str) :
    slice (front ++ mid ++ back) (size front) (size front + size mid) = some mid := by
  rw [slice, if_pos (Nat.le_add_right _ _), List.append_assoc, splitAt?_append, Option.bind_some,
    Nat.add_sub_cancel_left, splitAt?_append]
  rfl

theorem sliceFrom_append (front back : Str) :
    sliceFrom (front ++ back) (size front) = some back := by
  rw [sliceFrom, splitAt?_append]
  rfl

end Slices

section Search

theorem find_none (h : c ∉ s) : find c s = none := by
  induction s with
  | nil => rfl
  | cons d s ih =>
    rw [List.mem_cons, not_or] at h
    rw [find, if_neg (Ne.symm h.1), ih h.2]
    rfl

theorem find_append (h : c ∉ front) : find c (front ++ c :: back) = some (size front) := by
  induction front with
  | nil => rw [List.nil_append, find, if_pos rfl, size_nil]
  | cons d front ih =>
    rw [List.mem_cons, not_or] at h
    rw [List.cons_append, find, if_neg (Ne.symm h.1), ih h.2, Option.map_some, size_cons]

theorem rfind_none (h : c ∉ s) : rfind c s = none := by
  induction s with
  | nil => rfl
  | cons d s ih =>
    rw [List.mem_cons, not_or] at h
    rw [rfind, ih h.2]
    exact if_neg (Ne.symm h.1)

theorem rfind_append (h : c ∉ back) : rfind c (front ++ c :: back) = some (size front) := by
  induction front with
  | nil =>
    rw [List.nil_append, rfind, rfind_none h]
    exact if_pos rfl
  | cons d front ih => rw [List.cons_append, rfind, ih, size_cons]

private theorem indexByte_none {s : Bytes} {b : UInt8} (h : b ∉ s) : indexByte s b = none := by
  rw [indexByte, List.findIdx?_eq_none_iff]
  intro x hx
  exact beq_eq_false_iff_ne.mpr fun heq => h (heq ▸ hx)

private theorem indexByte_append {front back : Bytes} {b : UInt8} (h : b ∉ front) :
    indexByte (front ++ b :: back) b = some front.length := by
  have hnone : front.findIdx? (· == b) = none := indexByte_none h
  rw [indexByte, List.findIdx?_append, hnone, List.findIdx?_cons, if_pos (beq_self_eq_true b)]
  simp

private theorem lastIndexByte_none {s : Bytes} {b : UInt8} (h : b ∉ s) :
    lastIndexByte s b = none := by
  induction s with
  | nil => rfl
  | cons d s ih =>
    rw [List.mem_cons, not_or] at h
    rw [lastIndexByte, ih h.2]
    exact if_neg (Ne.symm h.1)

private theorem lastIndexByte_append {front back : Bytes} {b : UInt8} (h : b ∉ back) :
    lastIndexByte (front ++ b :: back) b = some front.length := by
  induction front with
  | nil =>
    rw [List.nil_append, lastIndexByte, lastIndexByte_none h]
    exact if_pos rfl
  | cons d front ih => rw [List.cons_append, lastIndexByte, ih, List.length_cons]

end Search

section Ascii

def asciiByte (c : Char) : UInt8 := UInt8.ofNat c.toNat

theorem encode_ascii (h : c.toNat < 128) : String.utf8EncodeChar c = [asciiByte c] := by
  have hle : c.val.toNat ≤ 0x7f := Nat.le_of_lt_succ h
  rw [String.utf8EncodeChar, if_pos hle]
  rfl

/-- `str::is_ascii`. -/
def isAscii (s : Str) : Bool := s.all fun c => c.toNat < 128

theorem isAscii_iff : isAscii s = true ↔ ∀ c ∈ s, c.toNat < 128 := by
  rw [isAscii, List.all_eq_true]
  simp only [decide_eq_true_eq]

theorem le_of_mem_encode (h : 128 ≤ c.toNat) {b : UInt8} (hb : b ∈ String.utf8EncodeChar c) :
    128 ≤ b.toNat := by
  have hval : 128 ≤ c.val.toNat := h
  have hlow : ¬c.val.toNat ≤ 0x7f := by omega
  rw [String.utf8EncodeChar, if_neg hlow] at hb
  split_ifs at hb
  all_goals
    simp only [List.mem_cons, List.not_mem_nil, or_false] at hb
    rcases hb with rfl | rfl | rfl | rfl
    all_goals
      simp only [UInt8.toNat_ofNat']
      omega

private theorem mem_utf8_ascii (h : c.toNat < 128) : asciiByte c ∈ utf8 s ↔ c ∈ s := by
  rw [utf8, List.mem_flatMap]
  constructor
  · rintro ⟨d, hd, hb⟩
    by_cases hascii : d.toNat < 128
    · rw [encode_ascii hascii, List.mem_singleton, asciiByte, asciiByte] at hb
      have hnat := congrArg UInt8.toNat hb
      rw [UInt8.toNat_ofNat', UInt8.toNat_ofNat'] at hnat
      have heq : c = d := Char.toNat_inj.mp (by omega)
      rwa [heq]
    · have hle := le_of_mem_encode (not_lt.mp hascii) hb
      rw [asciiByte, UInt8.toNat_ofNat'] at hle
      omega
  · intro hc
    exact ⟨c, hc, by rw [encode_ascii h]; exact List.mem_singleton_self _⟩

private theorem utf8_append_ascii (h : c.toNat < 128) (front back : Str) :
    utf8 (front ++ c :: back) = utf8 front ++ asciiByte c :: utf8 back := by
  rw [utf8_append, utf8_cons, encode_ascii h]
  rfl

theorem exists_first (h : c ∈ s) : ∃ front back, s = front ++ c :: back ∧ c ∉ front :=
  List.eq_append_cons_of_mem h

theorem exists_last (h : c ∈ s) : ∃ front back, s = front ++ c :: back ∧ c ∉ back := by
  obtain ⟨back, front, hsplit, hnot⟩ := List.eq_append_cons_of_mem (List.mem_reverse.mpr h)
  refine ⟨front.reverse, back.reverse, ?_, fun hmem => hnot (List.mem_reverse.mp hmem)⟩
  rw [← List.reverse_reverse s, hsplit]
  simp

theorem indexByte_utf8 (h : c.toNat < 128) : indexByte (utf8 s) (asciiByte c) = find c s := by
  by_cases hmem : c ∈ s
  · obtain ⟨front, back, rfl, hfront⟩ := exists_first hmem
    rw [utf8_append_ascii h, indexByte_append (mt (mem_utf8_ascii h).mp hfront),
      find_append hfront, size]
  · rw [indexByte_none (mt (mem_utf8_ascii h).mp hmem), find_none hmem]

theorem lastIndexByte_utf8 (h : c.toNat < 128) :
    lastIndexByte (utf8 s) (asciiByte c) = rfind c s := by
  by_cases hmem : c ∈ s
  · obtain ⟨front, back, rfl, hback⟩ := exists_last hmem
    rw [utf8_append_ascii h, lastIndexByte_append (mt (mem_utf8_ascii h).mp hback),
      rfind_append hback, size]
  · rw [lastIndexByte_none (mt (mem_utf8_ascii h).mp hmem), rfind_none hmem]

theorem getElem?_utf8 (front : Str) (d : Char) (back : Str) :
    ∃ b, (utf8 (front ++ d :: back))[size front]? = some b ∧
      (c.toNat < 128 → (b = asciiByte c ↔ d = c)) := by
  rw [utf8_append, utf8_cons, size, List.getElem?_append_right le_rfl, Nat.sub_self]
  obtain ⟨b, bs, hbs⟩ := List.exists_cons_of_ne_nil (String.utf8EncodeChar_ne_nil (c := d))
  refine ⟨b, by rw [hbs]; rfl, ?_⟩
  intro hc
  have hsingle := mem_utf8_ascii (s := [d]) hc
  have henc : utf8 [d] = b :: bs := by rw [utf8_cons, hbs]; exact List.append_nil _
  rw [henc, List.mem_singleton] at hsingle
  constructor
  · intro heq
    exact (hsingle.mp (heq ▸ List.mem_cons_self)).symm
  · intro heq
    rw [heq, encode_ascii hc] at hbs
    exact (List.cons.inj hbs).1.symm

theorem asciiByte_inj {d : Char} (hc : c.toNat < 128) (hd : d.toNat < 128) :
    asciiByte c = asciiByte d ↔ c = d := by
  refine ⟨?_, fun heq => congrArg _ heq⟩
  intro heq
  have hnat := congrArg UInt8.toNat heq
  rw [asciiByte, asciiByte, UInt8.toNat_ofNat', UInt8.toNat_ofNat', Nat.mod_eq_of_lt (by omega),
    Nat.mod_eq_of_lt (by omega)] at hnat
  exact Char.toNat_inj.mp hnat

theorem size_ascii (h : ∀ c ∈ s, c.toNat < 128) : size s = s.length := by
  induction s with
  | nil => rfl
  | cons c s ih =>
    rw [size_cons, ih fun d hd => h d (List.mem_cons_of_mem _ hd), List.length_cons,
      ← String.length_utf8EncodeChar, encode_ascii (h c List.mem_cons_self), List.length_singleton,
      Nat.add_comm]

theorem size_singleton (h : c.toNat < 128) : size [c] = 1 :=
  size_ascii (by simpa using h)

theorem split_of_byte (hc : c.toNat < 128) {a b : Bytes} (h : utf8 s = a ++ asciiByte c :: b) :
    ∃ front back, s = front ++ c :: back ∧ utf8 front = a ∧ utf8 back = b := by
  induction s generalizing a with
  | nil => exact absurd h.symm (by simp)
  | cons d s ih =>
    rw [utf8_cons] at h
    rcases List.append_eq_append_iff.mp h with ⟨mid, ha, hs⟩ | ⟨mid, hd, hs⟩
    · obtain ⟨front, back, rfl, hfront, hback⟩ := ih hs
      exact ⟨d :: front, back, rfl, by rw [utf8_cons, hfront, ha], hback⟩
    · cases mid with
      | nil =>
        obtain ⟨front, back, rfl, hfront, hback⟩ := ih (a := []) hs.symm
        refine ⟨d :: front, back, rfl, ?_, hback⟩
        rw [utf8_cons, hfront, hd]
        simp
      | cons x mid =>
        obtain ⟨rfl, rfl⟩ := List.cons.inj hs
        have hmem : asciiByte c ∈ utf8 [d] := by
          rw [utf8_cons, hd]
          simp
        have heq : c = d := List.mem_singleton.mp ((mem_utf8_ascii hc).mp hmem)
        subst heq
        rw [encode_ascii hc] at hd
        have hlen := congrArg List.length hd
        simp only [List.length_append, List.length_cons, List.length_nil] at hlen
        rw [List.eq_nil_of_length_eq_zero (show a.length = 0 by omega),
          List.eq_nil_of_length_eq_zero (show mid.length = 0 by omega)]
        exact ⟨[], s, rfl, rfl, rfl⟩

end Ascii

section Places

def StandsAt (s : Str) (i : ℕ) (text : Str) : Prop :=
  ∃ front back, s = front ++ text ++ back ∧ size front = i

variable {text : Str} {i : ℕ}

theorem standsAt_of_byte (hc : c.toNat < 128) (h : (utf8 s)[i]? = some (asciiByte c)) :
    StandsAt s i [c] := by
  obtain ⟨hi, hget⟩ := List.getElem?_eq_some_iff.mp h
  have hcut : utf8 s = (utf8 s).take i ++ asciiByte c :: (utf8 s).drop (i + 1) := by
    rw [← hget, ← List.drop_eq_getElem_cons hi, List.take_append_drop]
  obtain ⟨front, back, hs, hfront, -⟩ := split_of_byte hc hcut
  refine ⟨front, back, by rw [hs]; simp, ?_⟩
  rw [size, hfront, List.length_take, Nat.min_eq_left (Nat.le_of_lt hi)]

theorem StandsAt.append {more : Str} (h : StandsAt s i text)
    (hmore : StandsAt s (i + size text) more) : StandsAt s i (text ++ more) := by
  obtain ⟨front, back, hs, rfl⟩ := h
  obtain ⟨front', back', hs', hsize⟩ := hmore
  rw [← size_append] at hsize
  obtain ⟨rfl, rfl⟩ := append_inj_of_size (hs.symm.trans (hs'.trans (List.append_assoc _ _ _)))
    hsize.symm
  exact ⟨front, back', by rw [hs]; simp, rfl⟩

theorem StandsAt.cons (hc : c.toNat < 128) (h : (utf8 s)[i]? = some (asciiByte c))
    (hmore : StandsAt s (i + 1) text) : StandsAt s i (c :: text) := by
  refine (standsAt_of_byte hc h).append ?_
  rwa [size_singleton hc]

theorem standsAt_of_bytes (htext : ∀ c ∈ text, c.toNat < 128) (hne : text ≠ []) {a b : Bytes}
    (h : utf8 s = a ++ utf8 text ++ b) : StandsAt s a.length text := by
  induction text generalizing a with
  | nil => exact absurd rfl hne
  | cons c text ih =>
    have hc : c.toNat < 128 := htext c List.mem_cons_self
    rw [utf8_cons, encode_ascii hc] at h
    have hfirst : (utf8 s)[a.length]? = some (asciiByte c) := by
      rw [h]
      simp
    by_cases hnil : text = []
    · rw [hnil]
      exact standsAt_of_byte hc hfirst
    · apply StandsAt.cons hc hfirst
      have hmore := ih (fun c hmem => htext c (List.mem_cons_of_mem _ hmem)) hnil
        (a := a ++ [asciiByte c]) (by rw [h]; simp)
      rwa [List.length_append, List.length_singleton] at hmore

theorem StandsAt.slice_front (h : StandsAt s i text) :
    ∃ front back, s = front ++ text ++ back ∧ slice s 0 i = some front ∧
      sliceFrom s (i + size text) = some back := by
  obtain ⟨front, back, rfl, rfl⟩ := h
  refine ⟨front, back, rfl, ?_, ?_⟩
  · have hslice := slice_append [] front (text ++ back)
    rwa [List.nil_append, size_nil, Nat.zero_add, ← List.append_assoc] at hslice
  · rw [← size_append, sliceFrom_append]

end Places

end Kcptun.Lib.Utf8
