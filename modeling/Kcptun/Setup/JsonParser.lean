/- Kcptun/Setup/JsonParser
   source: crates/std/src/gojson.rs (parse, Parser::value, object_key, literal, number, string,
     escape, hex4, low_surrogate, invalid_escape)
   digest: The JSON parser as a machine over the bytes that remain, with the containers that are
     open on a stack; each step takes bytes, so that it ends. -/

import Kcptun.Setup.GoJson
import Kcptun.Setup.GoQuote

set_option autoImplicit false
set_option relaxedAutoImplicit false

namespace Kcptun.Setup.JsonParser

open Kcptun.Lib.LittleEndian (Bytes)
open Kcptun.Lib.Utf8 (Str asciiByte)
open Kcptun.Setup.GoJson (Value)
open Kcptun.Setup.GoQuote

inductive SyntaxError where
  | eof
  | unexpectedEof
  | invalid (text : Str)
  | maxDepth
deriving DecidableEq

def WHERE_VALUE : Str := "looking for beginning of value".toList

def WHERE_OBJECT_KEY_STRING : Str := "looking for beginning of object key string".toList

def WHERE_AFTER_OBJECT_KEY : Str := "after object key".toList

def WHERE_AFTER_OBJECT_PAIR : Str := "after object key:value pair".toList

def WHERE_AFTER_ARRAY_ELEMENT : Str := "after array element".toList

def WHERE_IN_STRING : Str := "in string".toList

def WHERE_IN_NUMBER : Str := "in numeric literal".toList

def MAX_NESTING_DEPTH : ℕ := 10000

def isSpace (b : UInt8) : Bool :=
  b == asciiByte ' ' || b == asciiByte '\t' || b == asciiByte '\r' || b == asciiByte '\n'

def skipWhitespace (rest : Bytes) : Bytes := rest.dropWhile isSpace

def invalidChar (rest : Bytes) (place : Str) : SyntaxError :=
  .invalid ("invalid character ".toList ++ quoteRuneBytes rest ++ ' ' :: place)

section Literal

def literalLoop (lit : Str) : Bytes → Bytes → Except SyntaxError Bytes
  | [], rest => .ok rest
  | _ :: _, [] => .error .unexpectedEof
  | want :: wants, c :: rest =>
    if c = want then literalLoop lit wants rest
    else .error (invalidChar (c :: rest) ("in literal ".toList ++ lit ++ " (expecting ".toList ++
      quoteRune (Char.ofNat want.toNat) ++ [')']))

def literal (lit : Str) (rest : Bytes) : Except SyntaxError Bytes :=
  literalLoop lit (lit.map asciiByte) rest

end Literal

section Number

def isDigit (b : UInt8) : Bool := asciiByte '0' ≤ b && b ≤ asciiByte '9'

def skipDigits (rest : Bytes) : Bytes := rest.dropWhile isDigit

def requireDigits : Bytes → Except SyntaxError Bytes
  | [] => .error .unexpectedEof
  | b :: tail =>
    if isDigit b then .ok (skipDigits (b :: tail))
    else .error (invalidChar (b :: tail) WHERE_IN_NUMBER)

def skipMinus : Bytes → Bytes
  | [] => []
  | b :: tail => if b = asciiByte '-' then tail else b :: tail

/-- The integer part; a leading zero ends it. -/
def intPart : Bytes → Except SyntaxError Bytes
  | [] => .error .unexpectedEof
  | b :: tail =>
    if b = asciiByte '0' then .ok tail
    else if isDigit b then .ok (skipDigits (b :: tail))
    else .error (invalidChar (b :: tail) WHERE_IN_NUMBER)

def fracPart : Bytes → Except SyntaxError Bytes
  | [] => .ok []
  | b :: tail => if b = asciiByte '.' then requireDigits tail else .ok (b :: tail)

def skipSign : Bytes → Bytes
  | [] => []
  | b :: tail => if b = asciiByte '+' ∨ b = asciiByte '-' then tail else b :: tail

def expPart : Bytes → Except SyntaxError Bytes
  | [] => .ok []
  | b :: tail =>
    if b = asciiByte 'e' ∨ b = asciiByte 'E' then requireDigits (skipSign tail)
    else .ok (b :: tail)

def numberEnd (rest : Bytes) : Except SyntaxError Bytes := do
  let rest ← intPart (skipMinus rest)
  let rest ← fracPart rest
  expPart rest

/-- A number, kept as its source text. -/
def number (start : Bytes) : Except SyntaxError (Value × Bytes) := do
  let rest ← numberEnd start
  .ok (.number (lossy (start.take (start.length - rest.length))), rest)

end Number

section String

def simpleEscape (kind : UInt8) : Option Char :=
  if kind = asciiByte '"' then some '"'
  else if kind = asciiByte '\\' then some '\\'
  else if kind = asciiByte '/' then some '/'
  else if kind = asciiByte 'b' then some (Char.ofNat 0x08)
  else if kind = asciiByte 'f' then some (Char.ofNat 0x0c)
  else if kind = asciiByte 'n' then some '\n'
  else if kind = asciiByte 'r' then some '\r'
  else if kind = asciiByte 't' then some '\t'
  else none

/-- `invalid escape sequence <what> in string`, with up to `want` bytes from the backslash on. -/
def invalidEscape (esc : Bytes) (want : ℕ) : SyntaxError :=
  .invalid ("invalid escape sequence ".toList ++ quoteText (esc.take want) ++ " in string".toList)

def hexDigit (b : UInt8) : Option ℕ :=
  if isDigit b then some (b.toNat - (asciiByte '0').toNat)
  else if asciiByte 'a' ≤ b ∧ b ≤ asciiByte 'f' then some (b.toNat - (asciiByte 'a').toNat + 10)
  else if asciiByte 'A' ≤ b ∧ b ≤ asciiByte 'F' then some (b.toNat - (asciiByte 'A').toNat + 10)
  else none

def hex4Loop (esc : Bytes) : ℕ → Bytes → ℕ → Except SyntaxError ℕ
  | 0, _, v => .ok v
  | _ + 1, [], _ => .error .unexpectedEof
  | n + 1, c :: rest, v =>
    match hexDigit c with
    | some d => hex4Loop esc n rest (v * 16 + d)
    | none => .error (invalidEscape esc 6)

def hex4 (esc : Bytes) : Except SyntaxError ℕ := hex4Loop esc 4 (esc.drop 2) 0

/-- The low surrogate escaped in front, if there is one. -/
def lowSurrogate (rest : Bytes) : Option ℕ :=
  if rest[0]? ≠ some (asciiByte '\\') ∨ rest[1]? ≠ some (asciiByte 'u') then none
  else
    match hex4 rest with
    | .ok lo => if 0xdc00 ≤ lo ∧ lo < 0xe000 then some lo else none
    | .error _ => none

/-- `char::from_u32(code).unwrap_or(char::REPLACEMENT_CHARACTER)`. -/
def fromU32 (code : ℕ) : Char := if code.isValidChar then Char.ofNat code else replacement

/-- The character of a code unit, and of the low surrogate behind it where the two pair up. -/
def pairUp (hi : ℕ) (rest : Bytes) : Char × Bytes :=
  if 0xd800 ≤ hi ∧ hi < 0xdc00 then
    match lowSurrogate rest with
    | some lo => (fromU32 (0x10000 + ((hi - 0xd800) <<< 10) + (lo - 0xdc00)), rest.drop 6)
    | none => (fromU32 replacement.toNat, rest)
  else if 0xdc00 ≤ hi ∧ hi < 0xe000 then (fromU32 replacement.toNat, rest)
  else (fromU32 hi, rest)

def unicodeEscape (esc : Bytes) : Except SyntaxError (Char × Bytes) :=
  (hex4 esc).map fun hi => pairUp hi (esc.drop 6)

/-- One escape, and what remains behind it. -/
def escape (esc : Bytes) : Except SyntaxError (Char × Bytes) :=
  match esc[1]? with
  | none => .error .unexpectedEof
  | some kind =>
    match simpleEscape kind with
    | some c => .ok (c, esc.drop 2)
    | none =>
      if kind ≠ asciiByte 'u' then .error (invalidEscape esc 2) else unicodeEscape esc

private theorem length_pairUp (hi : ℕ) (rest : Bytes) :
    (pairUp hi rest).2.length ≤ rest.length := by
  unfold pairUp
  split_ifs
  · cases lowSurrogate rest with
    | some lo =>
      rw [List.length_drop]
      exact Nat.sub_le _ _
    | none => exact le_rfl
  · exact le_rfl
  · exact le_rfl

private theorem escape_shorter {esc rest : Bytes} {c : Char} (h : escape esc = .ok (c, rest)) :
    rest.length < esc.length := by
  rw [escape] at h
  cases hkind : esc[1]? with
  | none =>
    rw [hkind] at h
    cases h
  | some kind =>
    have hlen := (List.getElem?_eq_some_iff.mp hkind).1
    rw [hkind] at h
    dsimp only at h
    cases hsimple : simpleEscape kind with
    | some c =>
      rw [hsimple] at h
      cases h
      rw [List.length_drop]
      omega
    | none =>
      rw [hsimple] at h
      dsimp only at h
      split_ifs at h
      unfold unicodeEscape at h
      cases hhex : hex4 esc with
      | error e =>
        rw [hhex] at h
        cases h
      | ok hi =>
        have hrest := length_pairUp hi (esc.drop 6)
        rw [hhex] at h
        have hpair : pairUp hi (esc.drop 6) = (c, rest) := Except.ok.inj h
        rw [hpair, List.length_drop] at hrest
        dsimp only at hrest
        omega

def stringLoop (rest : Bytes) (out : Str) : Except SyntaxError (Str × Bytes) :=
  match rest with
  | [] => .error .unexpectedEof
  | c :: tail =>
    if c = asciiByte '"' then .ok (out, tail)
    else if c = asciiByte '\\' then
      match _h : escape (c :: tail) with
      | .error e => .error e
      | .ok (ch, rest) => stringLoop rest (out ++ [ch])
    else if c < 0x20 then .error (invalidChar (c :: tail) WHERE_IN_STRING)
    else if c < 0x80 then stringLoop tail (out ++ [Char.ofNat c.toNat])
    else
      let r := decodeRune (c :: tail)
      stringLoop ((c :: tail).drop (max r.2 1)) (out ++ [r.1])
termination_by rest.length
decreasing_by
  · exact escape_shorter _h
  · exact Nat.lt_succ_self _
  · rw [List.length_drop, List.length_cons]
    omega

/-- A string, from its opening quote on. -/
def string (rest : Bytes) : Except SyntaxError (Str × Bytes) := stringLoop (rest.drop 1) []

end String

/-- The value behind a colon, or the reason why there is none. -/
def afterKey (name : Str) : Bytes → Except SyntaxError (Str × Bytes)
  | [] => .error .unexpectedEof
  | b :: tail =>
    if b = asciiByte ':' then .ok (name, skipWhitespace tail)
    else .error (invalidChar (b :: tail) WHERE_AFTER_OBJECT_KEY)

def objectKey (rest : Bytes) : Except SyntaxError (Str × Bytes) :=
  match skipWhitespace rest with
  | [] => .error .unexpectedEof
  | b :: tail =>
    if b ≠ asciiByte '"' then .error (invalidChar (b :: tail) WHERE_OBJECT_KEY_STRING)
    else do
      let (name, rest) ← string (b :: tail)
      afterKey name (skipWhitespace rest)

/-! The machine -/

inductive Frame where
  | array (elements : List Value)
  | object (members : List (Str × Value)) (key : Str)

/-- A state of `value`: at the top of its loop, or with a value to attach to the container below. -/
inductive State where
  | value (stack : List Frame) (rest : Bytes)
  | attach (stack : List Frame) (done : Value) (rest : Bytes)

def State.rest : State → Bytes
  | .value _ rest => rest
  | .attach _ _ rest => rest

inductive Outcome where
  | running (s : State)
  | finished (v : Value) (rest : Bytes)
  | failed (e : SyntaxError)
  | panicked

def scalar (stack : List Frame) : Except SyntaxError (Value × Bytes) → Outcome
  | .ok (v, rest) => .running (.attach stack v rest)
  | .error e => .failed e

def openObject (stack : List Frame) (tail : Bytes) : Outcome :=
  if stack.length ≥ MAX_NESTING_DEPTH then .failed .maxDepth
  else
    let rest := skipWhitespace tail
    if rest.head? = some (asciiByte '}') then
      .running (.attach stack (.object []) (rest.drop 1))
    else
      match objectKey rest with
      | .ok (key, rest) => .running (.value (.object [] key :: stack) rest)
      | .error e => .failed e

def openArray (stack : List Frame) (tail : Bytes) : Outcome :=
  if stack.length ≥ MAX_NESTING_DEPTH then .failed .maxDepth
  else
    let rest := skipWhitespace tail
    if rest.head? = some (asciiByte ']') then
      .running (.attach stack (.array []) (rest.drop 1))
    else .running (.value (.array [] :: stack) rest)

def startValue (stack : List Frame) : Bytes → Outcome
  | [] => .failed .unexpectedEof
  | b :: tail =>
    if b = asciiByte '{' then openObject stack tail
    else if b = asciiByte '[' then openArray stack tail
    else if b = asciiByte '"' then
      scalar stack ((string (b :: tail)).map fun r => (.string r.1, r.2))
    else if b = asciiByte 't' then
      scalar stack ((literal "true".toList (b :: tail)).map fun r => (.bool true, r))
    else if b = asciiByte 'f' then
      scalar stack ((literal "false".toList (b :: tail)).map fun r => (.bool false, r))
    else if b = asciiByte 'n' then
      scalar stack ((literal "null".toList (b :: tail)).map fun r => (.null, r))
    else if b = asciiByte '-' ∨ isDigit b = true then scalar stack (number (b :: tail))
    else .failed (invalidChar (b :: tail) WHERE_VALUE)

def closeTop (stack : List Frame) (rest : Bytes) : Outcome :=
  match stack with
  | .array elements :: below => .running (.attach below (.array elements) rest)
  | .object members _ :: below => .running (.attach below (.object members) rest)
  | [] => .panicked

def nextMember (stack : List Frame) : Except SyntaxError (Str × Bytes) → Outcome
  | .error e => .failed e
  | .ok (next, rest) =>
    match stack with
    | .object members _ :: below => .running (.value (.object members next :: below) rest)
    | _ => .panicked

def afterElement (stack : List Frame) : Bytes → Outcome
  | [] => .failed .unexpectedEof
  | b :: tail =>
    if b = asciiByte ',' then .running (.value stack (skipWhitespace tail))
    else if b = asciiByte ']' then closeTop stack tail
    else .failed (invalidChar (b :: tail) WHERE_AFTER_ARRAY_ELEMENT)

def afterMember (stack : List Frame) : Bytes → Outcome
  | [] => .failed .unexpectedEof
  | b :: tail =>
    if b = asciiByte ',' then nextMember stack (objectKey tail)
    else if b = asciiByte '}' then closeTop stack tail
    else .failed (invalidChar (b :: tail) WHERE_AFTER_OBJECT_PAIR)

def attachDone (done : Value) (rest : Bytes) : List Frame → Outcome
  | [] => .finished done rest
  | .array elements :: below =>
    afterElement (.array (elements ++ [done]) :: below) (skipWhitespace rest)
  | .object members key :: below =>
    afterMember (.object (members ++ [(key, done)]) [] :: below) (skipWhitespace rest)

def step : State → Outcome
  | .value stack rest => startValue stack rest
  | .attach stack done rest => attachDone done rest stack

/-! Every step takes bytes -/

private theorem length_skipWhitespace (rest : Bytes) : (skipWhitespace rest).length ≤ rest.length :=
  (List.dropWhile_suffix isSpace).length_le

private theorem length_skipDigits (rest : Bytes) : (skipDigits rest).length ≤ rest.length :=
  (List.dropWhile_suffix isDigit).length_le

section Shorter

variable {rest rest' : Bytes}

private theorem literalLoop_shorter {lit : Str} {wants : Bytes}
    (h : literalLoop lit wants rest = .ok rest') :
    rest.length = wants.length + rest'.length := by
  induction wants generalizing rest with
  | nil =>
    cases h
    exact (Nat.zero_add _).symm
  | cons want wants ih =>
    cases rest with
    | nil => cases h
    | cons c rest =>
      rw [literalLoop] at h
      split_ifs at h
      rw [List.length_cons, List.length_cons, ih h]
      omega

private theorem requireDigits_shorter (h : requireDigits rest = .ok rest') :
    rest'.length ≤ rest.length := by
  cases rest with
  | nil => cases h
  | cons b tail =>
    rw [requireDigits] at h
    split_ifs at h
    cases h
    exact length_skipDigits _

private theorem intPart_shorter (h : intPart rest = .ok rest') : rest'.length < rest.length := by
  cases rest with
  | nil => cases h
  | cons b tail =>
    rw [intPart] at h
    split_ifs at h with hzero hdigit
    · cases h
      exact Nat.lt_succ_self _
    · cases h
      rw [skipDigits, List.dropWhile_cons_of_pos hdigit]
      exact Nat.lt_succ_of_le (length_skipDigits tail)

private theorem fracPart_shorter (h : fracPart rest = .ok rest') : rest'.length ≤ rest.length := by
  cases rest with
  | nil =>
    cases h
    exact le_rfl
  | cons b tail =>
    rw [fracPart] at h
    split_ifs at h
    · exact (requireDigits_shorter h).trans (Nat.le_succ _)
    · cases h
      exact le_rfl

private theorem expPart_shorter (h : expPart rest = .ok rest') : rest'.length ≤ rest.length := by
  cases rest with
  | nil =>
    cases h
    exact le_rfl
  | cons b tail =>
    have hsign : (skipSign tail).length ≤ tail.length := by
      cases tail with
      | nil => exact le_rfl
      | cons b tail =>
        rw [skipSign]
        split_ifs
        · exact Nat.le_succ _
        · exact le_rfl
    rw [expPart] at h
    split_ifs at h
    · exact (requireDigits_shorter h).trans (hsign.trans (Nat.le_succ _))
    · cases h
      exact le_rfl

private theorem numberEnd_shorter (h : numberEnd rest = .ok rest') :
    rest'.length < rest.length := by
  have hminus : (skipMinus rest).length ≤ rest.length := by
    cases rest with
    | nil => exact le_rfl
    | cons b tail =>
      rw [skipMinus]
      split_ifs
      · exact Nat.le_succ _
      · exact le_rfl
  rw [numberEnd] at h
  cases hint : intPart (skipMinus rest) with
  | error e =>
    rw [hint] at h
    cases h
  | ok rest₁ =>
    rw [hint] at h
    change (fracPart rest₁ >>= expPart) = _ at h
    cases hfrac : fracPart rest₁ with
    | error e =>
      rw [hfrac] at h
      cases h
    | ok rest₂ =>
      rw [hfrac] at h
      have h1 := intPart_shorter hint
      have h2 := fracPart_shorter hfrac
      have h3 := expPart_shorter h
      omega

section StringLoop

variable {out : Str} {c : UInt8} {tail : Bytes}

theorem stringLoop_quote (out : Str) (tail : Bytes) :
    stringLoop (asciiByte '"' :: tail) out = .ok (out, tail) := by
  rw [stringLoop, if_pos rfl]

theorem stringLoop_escape {ch : Char} {r : Bytes}
    (h : escape (asciiByte '\\' :: tail) = .ok (ch, r)) :
    stringLoop (asciiByte '\\' :: tail) out = stringLoop r (out ++ [ch]) := by
  rw [stringLoop, if_neg (by decide), if_pos rfl]
  split <;> rename_i h' <;> rw [h] at h' <;> cases h'
  rfl

theorem stringLoop_escape_error {e : SyntaxError}
    (h : escape (asciiByte '\\' :: tail) = .error e) :
    stringLoop (asciiByte '\\' :: tail) out = .error e := by
  rw [stringLoop, if_neg (by decide), if_pos rfl]
  split <;> rename_i h' <;> rw [h] at h' <;> cases h'
  rfl

theorem stringLoop_ascii (hquote : c ≠ asciiByte '"') (hback : c ≠ asciiByte '\\')
    (hlow : ¬ c < 0x20) (hascii : c < 0x80) :
    stringLoop (c :: tail) out = stringLoop tail (out ++ [Char.ofNat c.toNat]) := by
  rw [stringLoop, if_neg hquote, if_neg hback, if_neg hlow, if_pos hascii]

theorem stringLoop_rune (hascii : ¬ c < 0x80) :
    stringLoop (c :: tail) out = stringLoop ((c :: tail).drop (decodeRune (c :: tail)).2)
      (out ++ [(decodeRune (c :: tail)).1]) := by
  have hle : 0x80 ≤ c := UInt8.not_lt.mp hascii
  have hquote : c ≠ asciiByte '"' := by
    rintro rfl
    exact hascii (by decide)
  have hback : c ≠ asciiByte '\\' := by
    rintro rfl
    exact hascii (by decide)
  have hlow : ¬ c < 0x20 := fun h =>
    hascii (UInt8.lt_trans h (by decide : (0x20 : UInt8) < 0x80))
  rw [stringLoop, if_neg hquote, if_neg hback, if_neg hlow, if_neg hascii]
  dsimp only
  rw [Nat.max_eq_left (decodeRune_length c tail).1]

private theorem stringLoop_shorter {out s : Str} (h : stringLoop rest out = .ok (s, rest')) :
    rest'.length < rest.length := by
  induction rest, out using stringLoop.induct with
  | case1 out =>
    rw [stringLoop] at h
    cases h
  | case2 out tail =>
    rw [stringLoop_quote] at h
    cases h
    exact Nat.lt_succ_self _
  | case3 out tail _ e hescape =>
    rw [stringLoop_escape_error hescape] at h
    cases h
  | case4 out tail ch r _ hescape ih =>
    rw [stringLoop_escape hescape] at h
    exact (ih h).trans (escape_shorter hescape)
  | case5 out c tail hquote hback hlow =>
    rw [stringLoop, if_neg hquote, if_neg hback, if_pos hlow] at h
    cases h
  | case6 out c tail hquote hback hlow hascii ih =>
    rw [stringLoop_ascii hquote hback hlow hascii] at h
    exact (ih h).trans (Nat.lt_succ_self _)
  | case7 out c tail hquote hback hlow hascii r ih =>
    rw [stringLoop, if_neg hquote, if_neg hback, if_neg hlow, if_neg hascii] at h
    refine (ih h).trans_le ?_
    rw [List.length_drop]
    exact Nat.sub_le _ _

end StringLoop

private theorem string_shorter {s : Str} (h : string rest = .ok (s, rest')) :
    rest'.length < rest.length := by
  have hloop := stringLoop_shorter h
  rw [List.length_drop] at hloop
  omega

private theorem objectKey_shorter {key : Str} (h : objectKey rest = .ok (key, rest')) :
    rest'.length < rest.length := by
  have hskip := length_skipWhitespace rest
  rw [objectKey] at h
  cases hrest : skipWhitespace rest with
  | nil =>
    rw [hrest] at h
    cases h
  | cons b tail =>
    rw [hrest] at h hskip
    dsimp only at h
    split_ifs at h
    cases hstring : string (b :: tail) with
    | error e =>
      rw [hstring] at h
      cases h
    | ok r =>
      have hname := string_shorter hstring
      have hskip' := length_skipWhitespace r.2
      rw [hstring] at h
      change afterKey r.1 (skipWhitespace r.2) = _ at h
      cases hcolon : skipWhitespace r.2 with
      | nil =>
        rw [hcolon] at h
        cases h
      | cons b tail =>
        rw [hcolon, afterKey] at h
        split_ifs at h
        have hskip'' := length_skipWhitespace tail
        cases h
        rw [hcolon, List.length_cons] at hskip'
        omega

variable {s s' : State} {stack : List Frame}

private theorem scalar_shorter {r : Except SyntaxError (Value × Bytes)}
    (hr : ∀ v rest', r = .ok (v, rest') → rest'.length < rest.length)
    (h : scalar stack r = .running s') : s'.rest.length < rest.length := by
  cases r with
  | error e => cases h
  | ok r =>
    cases h
    exact hr r.1 r.2 rfl

theorem map_eq_ok {α β : Type*} {f : α → β} {r : Except SyntaxError α} {b : β}
    (h : r.map f = .ok b) : ∃ a, r = .ok a ∧ f a = b := by
  cases r with
  | error e => cases h
  | ok a => exact ⟨a, rfl, Except.ok.inj h⟩

private theorem literal_shorter {lit : Str} {v v' : Value} {rest'' : Bytes} (hlit : lit ≠ [])
    (h : (literal lit rest).map (fun r => (v, r)) = .ok (v', rest'')) :
    rest''.length < rest.length := by
  obtain ⟨r, hr, heq⟩ := map_eq_ok h
  cases heq
  have hlen := literalLoop_shorter hr
  have hpos := List.length_pos_iff.mpr hlit
  rw [List.length_map] at hlen
  omega

private theorem openObject_shorter (h : openObject stack rest = .running s') :
    s'.rest.length ≤ rest.length := by
  have hskip := length_skipWhitespace rest
  unfold openObject at h
  dsimp only at h
  split_ifs at h
  · cases h
    rw [State.rest, List.length_drop]
    omega
  · cases hkey : objectKey (skipWhitespace rest) with
    | error e =>
      rw [hkey] at h
      cases h
    | ok r =>
      have hlen := objectKey_shorter hkey
      rw [hkey] at h
      cases h
      exact hlen.le.trans hskip

private theorem openArray_shorter (h : openArray stack rest = .running s') :
    s'.rest.length ≤ rest.length := by
  have hskip := length_skipWhitespace rest
  unfold openArray at h
  dsimp only at h
  split_ifs at h
  · cases h
    rw [State.rest, List.length_drop]
    omega
  · cases h
    exact hskip

private theorem startValue_shorter (h : startValue stack rest = .running s') :
    s'.rest.length < rest.length := by
  cases rest with
  | nil => cases h
  | cons b tail =>
    rw [startValue] at h
    split_ifs at h
    · exact Nat.lt_succ_of_le (openObject_shorter h)
    · exact Nat.lt_succ_of_le (openArray_shorter h)
    · refine scalar_shorter ?_ h
      intro v rest' hr
      obtain ⟨r, hstring, heq⟩ := map_eq_ok hr
      cases heq
      exact string_shorter hstring
    · exact scalar_shorter (fun v rest' hr => literal_shorter (by decide) hr) h
    · exact scalar_shorter (fun v rest' hr => literal_shorter (by decide) hr) h
    · exact scalar_shorter (fun v rest' hr => literal_shorter (by decide) hr) h
    · refine scalar_shorter ?_ h
      intro v rest' hr
      rw [number] at hr
      cases hend : numberEnd (b :: tail) with
      | error e =>
        rw [hend] at hr
        cases hr
      | ok r =>
        rw [hend] at hr
        cases hr
        exact numberEnd_shorter hend

private theorem closeTop_rest (h : closeTop stack rest = .running s') : s'.rest = rest := by
  cases stack with
  | nil => cases h
  | cons frame below =>
    cases frame <;>
    · cases h
      rfl

private theorem attachDone_shorter {done : Value} (h : attachDone done rest stack = .running s') :
    s'.rest.length < rest.length := by
  have hskip := length_skipWhitespace rest
  cases stack with
  | nil => cases h
  | cons frame below =>
    cases hrest : skipWhitespace rest with
    | nil => cases frame <;> rw [attachDone, hrest] at h <;> cases h
    | cons b tail =>
      rw [hrest, List.length_cons] at hskip
      cases frame with
      | array elements =>
        rw [attachDone, hrest, afterElement] at h
        split_ifs at h
        · cases h
          have hskip' := length_skipWhitespace tail
          rw [State.rest]
          omega
        · rw [closeTop_rest h]
          omega
      | object members key =>
        rw [attachDone, hrest, afterMember] at h
        split_ifs at h
        · cases hkey : objectKey tail with
          | error e =>
            rw [hkey] at h
            cases h
          | ok r =>
            have hlen := objectKey_shorter hkey
            rw [hkey] at h
            cases h
            rw [State.rest]
            omega
        · rw [closeTop_rest h]
          omega

private theorem step_shorter (h : step s = .running s') : s'.rest.length < s.rest.length := by
  cases s with
  | value stack rest => exact startValue_shorter h
  | attach stack done rest => exact attachDone_shorter h

end Shorter

/-- `Parser::value` from a state on; nothing when an unreachable branch is reached. -/
def run (s : State) : Option (Except SyntaxError (Value × Bytes)) :=
  match _h : step s with
  | .running s' => run s'
  | .finished v rest => some (.ok (v, rest))
  | .failed e => some (.error e)
  | .panicked => none
termination_by s.rest.length
decreasing_by exact step_shorter _h

/-- Parses one value; whatever comes after it is ignored. -/
def parse (input : Bytes) : Option (Except SyntaxError Value) :=
  match skipWhitespace input with
  | [] => some (.error .eof)
  | b :: tail => (run (.value [] (b :: tail))).map fun r => r.map fun r => r.1

section Run

variable {s s' : State}

theorem run_of_running (h : step s = .running s') : run s = run s' := by
  rw [run]
  split <;> rename_i h' <;> rw [h] at h' <;> cases h'
  rfl

theorem run_of_finished {v : Value} {rest : Bytes} (h : step s = .finished v rest) :
    run s = some (.ok (v, rest)) := by
  rw [run]
  split <;> rename_i h' <;> rw [h] at h' <;> cases h'
  rfl

theorem run_of_failed {e : SyntaxError} (h : step s = .failed e) : run s = some (.error e) := by
  rw [run]
  split <;> rename_i h' <;> rw [h] at h' <;> cases h'
  rfl

/-- The machine goes on, or stops with an error. -/
def Outcome.Open (o : Outcome) : Prop := (∃ s, o = .running s) ∨ ∃ e, o = .failed e

private theorem open_running (s : State) : (Outcome.running s).Open := Or.inl ⟨s, rfl⟩

private theorem open_failed (e : SyntaxError) : (Outcome.failed e).Open := Or.inr ⟨e, rfl⟩

private theorem scalar_open (stack : List Frame) (r : Except SyntaxError (Value × Bytes)) :
    (scalar stack r).Open := by
  cases r with
  | ok r => exact open_running _
  | error e => exact open_failed e

private theorem startValue_open (stack : List Frame) (rest : Bytes) :
    (startValue stack rest).Open := by
  cases rest with
  | nil => exact open_failed _
  | cons b tail =>
    rw [startValue]
    split_ifs
    · unfold openObject
      dsimp only
      split_ifs
      · exact open_failed _
      · exact open_running _
      · cases objectKey (skipWhitespace tail) with
        | ok r => exact open_running _
        | error e => exact open_failed e
    · unfold openArray
      dsimp only
      split_ifs
      · exact open_failed _
      · exact open_running _
      · exact open_running _
    · exact scalar_open _ _
    · exact scalar_open _ _
    · exact scalar_open _ _
    · exact scalar_open _ _
    · exact scalar_open _ _
    · exact open_failed _

private theorem attachDone_open (done : Value) (rest : Bytes) (frame : Frame) (below : List Frame) :
    (attachDone done rest (frame :: below)).Open := by
  cases frame with
  | array elements =>
    rw [attachDone]
    cases skipWhitespace rest with
    | nil => exact open_failed _
    | cons b tail =>
      rw [afterElement]
      split_ifs
      · exact open_running _
      · exact open_running _
      · exact open_failed _
  | object members key =>
    rw [attachDone]
    cases skipWhitespace rest with
    | nil => exact open_failed _
    | cons b tail =>
      rw [afterMember]
      split_ifs
      · cases objectKey tail with
        | ok r => exact open_running _
        | error e => exact open_failed e
      · exact open_running _
      · exact open_failed _

private theorem step_open (s : State) :
    (step s).Open ∨ ∃ done rest, s = .attach [] done rest ∧ step s = .finished done rest := by
  cases s with
  | value stack rest => exact Or.inl (startValue_open stack rest)
  | attach stack done rest =>
    cases stack with
    | nil => exact Or.inr ⟨done, rest, rfl, rfl⟩
    | cons frame below => exact Or.inl (attachDone_open done rest frame below)

theorem step_ne_panicked (s : State) : step s ≠ .panicked := by
  intro h
  obtain (⟨s', h'⟩ | ⟨e, h'⟩) | ⟨done, rest, -, h'⟩ := step_open s <;>
  · rw [h] at h'
    cases h'

theorem eq_attach_of_finished {v : Value} {rest : Bytes} (h : step s = .finished v rest) :
    s = .attach [] v rest := by
  obtain (⟨s', h'⟩ | ⟨e, h'⟩) | ⟨done, rest', hs, h'⟩ := step_open s <;> rw [h] at h'
  · cases h'
  · cases h'
  · cases h'
    exact hs

private theorem run_total (s : State) : ∃ r, run s = some r := by
  induction s using run.induct with
  | case1 s s' h ih =>
    rw [run_of_running h]
    exact ih
  | case2 s v rest h => exact ⟨_, run_of_finished h⟩
  | case3 s e h => exact ⟨_, run_of_failed h⟩
  | case4 s h => exact absurd h (step_ne_panicked s)

theorem parse_total (input : Bytes) : ∃ r, parse input = some r := by
  rw [parse]
  cases skipWhitespace input with
  | nil => exact ⟨_, rfl⟩
  | cons b tail =>
    obtain ⟨r, hr⟩ := run_total (.value [] (b :: tail))
    dsimp only
    rw [hr]
    exact ⟨_, rfl⟩

end Run

end Kcptun.Setup.JsonParser
