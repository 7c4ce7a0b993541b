/- Kcptun/Lib/Utf8Decode
   digest: The characters that bytes encode: the one at the front, all of them, and what the first
     byte says about the length. -/

import Kcptun.Lib.Utf8

set_option autoImplicit false
set_option relaxedAutoImplicit false

namespace Kcptun.Lib.Utf8

open Kcptun.Lib.LittleEndian (Bytes)

theorem toNat_ofNat {n : ℕ} (h : n.isValidChar) : (Char.ofNat n).toNat = n := by
  rw [Char.ofNat, dif_pos h]
  rfl

def decodeChar? (s : Bytes) : Option Char := s.toByteArray.utf8DecodeChar? 0

private theorem toByteArray_inj {s t : Bytes} (h : s.toByteArray = t.toByteArray) : s = t := by
  have hdata := congrArg (fun a : ByteArray => a.data.toList) h
  simpa using hdata

theorem decodeChar?_append (c : Char) (rest : Bytes) :
    decodeChar? (String.utf8EncodeChar c ++ rest) = some c := by
  rw [decodeChar?, List.toByteArray_append]
  exact ByteArray.utf8DecodeChar?_utf8EncodeChar_append

theorem exists_of_decodeChar? {s : Bytes} {c : Char} (h : decodeChar? s = some c) :
    ∃ rest, s = String.utf8EncodeChar c ++ rest := by
  obtain ⟨l, hl⟩ := ByteArray.exists_of_utf8DecodeChar?_eq_some h
  refine ⟨l.data.toList, toByteArray_inj ?_⟩
  rw [hl]
  ext1
  simp

/-- The characters of bytes that are valid as a whole: `str::from_utf8`. -/
def fromUtf8 (s : Bytes) : Option Str :=
  if s = [] then some []
  else
    match _h : decodeChar? s with
    | none => none
    | some c => (fromUtf8 (s.drop c.utf8Size)).map (c :: ·)
termination_by s.length
decreasing_by
  obtain ⟨rest, rfl⟩ := exists_of_decodeChar? _h
  have hpos := Char.utf8Size_pos c
  rw [List.length_drop, List.length_append, String.length_utf8EncodeChar]
  omega

theorem fromUtf8_utf8 (cs : Str) : fromUtf8 (utf8 cs) = some cs := by
  induction cs with
  | nil => rw [fromUtf8, utf8_nil, if_pos rfl]
  | cons c cs ih =>
    have hne : utf8 (c :: cs) ≠ [] := by
      rw [utf8_cons]
      exact List.append_ne_nil_of_left_ne_nil String.utf8EncodeChar_ne_nil _
    rw [fromUtf8, if_neg hne]
    split
    · rename_i h
      rw [utf8_cons, decodeChar?_append] at h
      cases h
    · rename_i h
      rw [utf8_cons, decodeChar?_append] at h
      cases h
      rw [utf8_cons, List.drop_left' (String.length_utf8EncodeChar c), ih]
      rfl

theorem utf8_of_fromUtf8 {s : Bytes} {cs : Str} (h : fromUtf8 s = some cs) : utf8 cs = s := by
  induction s using fromUtf8.induct generalizing cs with
  | case1 =>
    rw [fromUtf8, if_pos rfl] at h
    cases h
    rfl
  | case2 s hne hnone =>
    rw [fromUtf8, if_neg hne] at h
    split at h
    · cases h
    · rename_i hsome
      rw [hnone] at hsome
      cases hsome
  | case3 s hne c hsome ih =>
    rw [fromUtf8, if_neg hne] at h
    split at h
    · cases h
    · rename_i hsome'
      rw [hsome] at hsome'
      cases hsome'
      obtain ⟨cs', hcs', rfl⟩ := Option.map_eq_some_iff.mp h
      obtain ⟨rest, rfl⟩ := exists_of_decodeChar? hsome
      rw [utf8_cons, ih hcs', List.drop_left' (String.length_utf8EncodeChar c)]

def leadLength (b : UInt8) : Option ℕ :=
  if b.toNat ≤ 0x7f then some 1
  else if 0xc2 ≤ b.toNat ∧ b.toNat ≤ 0xdf then some 2
  else if 0xe0 ≤ b.toNat ∧ b.toNat ≤ 0xef then some 3
  else if 0xf0 ≤ b.toNat ∧ b.toNat ≤ 0xf4 then some 4
  else none

theorem encode_lead (c : Char) :
    ∃ b tl, String.utf8EncodeChar c = b :: tl ∧ leadLength b = some c.utf8Size := by
  have hlen := String.length_utf8EncodeChar c
  have hmax : c.val.toNat < 0x110000 := by
    have h := c.valid
    rcases h with h | h
    · exact lt_trans h (by decide)
    · exact h.2
  unfold String.utf8EncodeChar at hlen ⊢
  dsimp only at hlen ⊢
  unfold leadLength
  split_ifs at hlen ⊢ with h1 h2 h3
  all_goals
    rw [← hlen]
    refine ⟨_, _, rfl, ?_⟩
    simp only [UInt8.toNat_ofNat']
  · rw [if_pos (by omega)]
    rfl
  · rw [if_neg (by omega), if_pos (by omega)]
    rfl
  · rw [if_neg (by omega), if_neg (by omega), if_pos (by omega)]
    rfl
  · rw [if_neg (by omega), if_neg (by omega), if_neg (by omega), if_pos (by omega)]
    rfl

end Kcptun.Lib.Utf8
