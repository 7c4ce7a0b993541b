/- Kcptun/Setup/GoQuote
   source: crates/std/src/gojson.rs (decode_rune, quote_rune, quote_rune_bytes, quote_text),
     crates/std/src/cli.rs (go_is_print, is_format_or_private)
   digest: Runes of bytes that need not be valid UTF-8, and how error texts quote them. -/

import Kcptun.Lib.Utf8Decode

set_option autoImplicit false
set_option relaxedAutoImplicit false

namespace Kcptun.Setup.GoQuote

open Kcptun.Lib.LittleEndian (Bytes)
open Kcptun.Lib.Utf8

/-- `char::REPLACEMENT_CHARACTER`. -/
def replacement : Char := Char.ofNat 0xfffd

/-- The first rune and its length; the replacement and 1 for a byte that starts no character. -/
def decodeRune : Bytes → Char × ℕ
  | [] => (replacement, 0)
  | lead :: b =>
    match leadLength lead with
    | none => (replacement, 1)
    | some len =>
      match (if len ≤ (lead :: b).length then some ((lead :: b).take len) else none).bind fromUtf8
        with
      | some (c :: _) => (c, len)
      | _ => (replacement, 1)

/-- `char::is_control`. -/
def isControl (c : Char) : Bool := c.toNat < 0x20 || (0x7f ≤ c.toNat && c.toNat < 0xa0)

/-- `char::is_whitespace`. -/
def isWhitespace (c : Char) : Bool :=
  (9 ≤ c.toNat && c.toNat ≤ 13) || (0x2000 ≤ c.toNat && c.toNat ≤ 0x200a) ||
    [0x20, 0x85, 0xa0, 0x1680, 0x2028, 0x2029, 0x202f, 0x205f, 0x3000].contains c.toNat

def FORMAT : List (ℕ × ℕ) :=
  [(0x00ad, 0x00ad), (0x0600, 0x0605), (0x061c, 0x061c), (0x06dd, 0x06dd), (0x070f, 0x070f),
    (0x0890, 0x0891), (0x08e2, 0x08e2), (0x180e, 0x180e), (0x200b, 0x200f), (0x202a, 0x202e),
    (0x2060, 0x2064), (0x2066, 0x206f), (0xfeff, 0xfeff), (0xfff9, 0xfffb), (0x110bd, 0x110bd),
    (0x110cd, 0x110cd), (0x13430, 0x1343f), (0x1bca0, 0x1bca3), (0x1d173, 0x1d17a),
    (0xe0001, 0xe0001), (0xe0020, 0xe007f), (0xe000, 0xf8ff), (0xf0000, 0xffffd),
    (0x100000, 0x10fffd)]

def isFormatOrPrivate (c : Char) : Bool := FORMAT.any fun r => r.1 ≤ c.toNat && c.toNat ≤ r.2

def goIsPrint (c : Char) : Bool :=
  if c.toNat < 128 then 0x20 ≤ c.toNat && c.toNat ≤ 0x7e
  else !isControl c && !isWhitespace c && !isFormatOrPrivate c

/-- A number in hexadecimal, padded with zeros. -/
def hexPadded (width v : ℕ) : Str :=
  List.replicate (width - (Nat.toDigits 16 v).length) '0' ++ Nat.toDigits 16 v

/-- `\xNN`, `\uNNNN` or `\UNNNNNNNN`. -/
def hexEscape (c : Char) : Str :=
  let v := c.toNat
  if v < 0x20 ∨ v = 0x7f then "\\x".toList ++ hexPadded 2 v
  else if v < 0x10000 then "\\u".toList ++ hexPadded 4 v
  else "\\U".toList ++ hexPadded 8 v

def shortEscape (c : Char) : Option Str :=
  if c = '\\' then some "\\\\".toList
  else if c.toNat = 0x07 then some "\\a".toList
  else if c.toNat = 0x08 then some "\\b".toList
  else if c.toNat = 0x0c then some "\\f".toList
  else if c = '\n' then some "\\n".toList
  else if c = '\r' then some "\\r".toList
  else if c = '\t' then some "\\t".toList
  else if c.toNat = 0x0b then some "\\v".toList
  else none

def quoteRune (c : Char) : Str :=
  let quoted :=
    if c = '\'' then "\\'".toList
    else match shortEscape c with
      | some s => s
      | none => if goIsPrint c then [c] else hexEscape c
  '\'' :: quoted ++ ['\'']

def quoteRuneBytes (b : Bytes) : Str :=
  match decodeRune b, b.head? with
  | (c, n), some first =>
    if c = replacement ∧ n = 1 then "'\\x".toList ++ Nat.toDigits 16 first.toNat ++ ['\'']
    else quoteRune c
  | (c, _), none => quoteRune c

theorem decodeRune_encode (c : Char) (rest : Bytes) :
    decodeRune (String.utf8EncodeChar c ++ rest) = (c, c.utf8Size) := by
  obtain ⟨lead, tl, hencode, hlead⟩ := encode_lead c
  have hlen : c.utf8Size ≤ (lead :: (tl ++ rest)).length := by
    rw [← List.cons_append, ← hencode, List.length_append, String.length_utf8EncodeChar]
    exact Nat.le_add_right _ _
  have htake : (lead :: (tl ++ rest)).take c.utf8Size = utf8 [c] := by
    rw [← List.cons_append, ← hencode, List.take_left' (String.length_utf8EncodeChar c), utf8_cons]
    exact (List.append_nil _).symm
  rw [hencode, List.cons_append, decodeRune, hlead]
  dsimp only
  rw [if_pos hlen, Option.bind_some, htake, fromUtf8_utf8]

theorem decodeRune_invalid {lead : UInt8} {b : Bytes} (h : decodeChar? (lead :: b) = none) :
    decodeRune (lead :: b) = (replacement, 1) := by
  rw [decodeRune]
  cases leadLength lead with
  | none => rfl
  | some len =>
    dsimp only
    split_ifs with hlen
    · rw [Option.bind_some]
      cases hvalid : fromUtf8 ((lead :: b).take len) with
      | none => rfl
      | some cs =>
        cases cs with
        | nil => rfl
        | cons c cs =>
          have hbytes :
              lead :: b = String.utf8EncodeChar c ++ (utf8 cs ++ (lead :: b).drop len) := by
            rw [← List.append_assoc, ← utf8_cons, utf8_of_fromUtf8 hvalid, List.take_append_drop]
          rw [hbytes, decodeChar?_append] at h
          cases h
    · rfl

theorem decodeRune_length (lead : UInt8) (b : Bytes) :
    1 ≤ (decodeRune (lead :: b)).2 ∧ (decodeRune (lead :: b)).2 ≤ b.length + 1 := by
  cases h : decodeChar? (lead :: b) with
  | none =>
    rw [decodeRune_invalid h]
    exact ⟨le_rfl, Nat.le_add_left _ _⟩
  | some c =>
    obtain ⟨rest, hrest⟩ := exists_of_decodeChar? h
    have hpos := Char.utf8Size_pos c
    have hlen := congrArg List.length hrest
    rw [List.length_cons, List.length_append, String.length_utf8EncodeChar] at hlen
    rw [hrest, decodeRune_encode]
    dsimp only
    omega

/-- The loop over the runes of a text, each with its length and first byte. -/
def runes : Bytes → List (Char × ℕ × UInt8)
  | [] => []
  | lead :: b =>
    let r := decodeRune (lead :: b)
    (r.1, r.2, lead) :: runes ((lead :: b).drop r.2)
termination_by what => what.length
decreasing_by
  have h := decodeRune_length lead b
  rw [List.length_drop, List.length_cons]
  omega

/-- `String::from_utf8_lossy` of bytes that are valid UTF-8. -/
def lossy (b : Bytes) : Str := (runes b).map fun r => r.1

def quoteTextRune (r : Char × ℕ × UInt8) : Str :=
  if r.1 = '"' then "\\\"".toList
  else match shortEscape r.1 with
    | some s => s
    | none =>
      if r.1 = replacement ∧ r.2.1 = 1 then "\\x".toList ++ hexPadded 2 r.2.2.toNat
      else if goIsPrint r.1 then [r.1] else hexEscape r.1

def quoteText (what : Bytes) : Str :=
  let runes := runes what
  if runes.length = 1 then quoteRuneBytes what
  else if (runes.any fun r => r.1 == Char.ofNat 0x60 || r.1 == replacement || isWhitespace r.1 ||
      !goIsPrint r.1) then '"' :: runes.flatMap quoteTextRune ++ ['"']
  else Char.ofNat 0x60 :: lossy what ++ [Char.ofNat 0x60]

end Kcptun.Setup.GoQuote
