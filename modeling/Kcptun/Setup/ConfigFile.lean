/- Kcptun/Setup/ConfigFile
   source: crates/std/src/config.rs (ConfigFileError, parse_json_config, parse_json_bytes)
   digest: A configuration file is read in chunks and parsed after each of them; the outcome is that
     of the whole file. -/

import Kcptun.Setup.JsonPrefix

set_option autoImplicit false
set_option relaxedAutoImplicit false

namespace Kcptun.Setup.ConfigFile

open Kcptun.Lib.LittleEndian (Bytes)
open Kcptun.Lib.Utf8
open Kcptun.Setup.GoJson
open Kcptun.Setup.JsonParser
open Kcptun.Setup.JsonGrammar
open Kcptun.Setup.JsonExact
open Kcptun.Setup.JsonPrefix

inductive ConfigFileError where
  | openFailed (path err : Str)
  | readFailed (path err : Str)
  | syntaxError (e : SyntaxError)
  | unmarshal (e : UnmarshalError)
deriving DecidableEq

/-- A file that is open: what it holds, and for each read how many bytes it is good for, or the
text of its error. -/
structure File where
  content : Bytes
  read : ℕ → Except Str ℕ

def isEnd : SyntaxError → Bool
  | .eof => true
  | .unexpectedEof => true
  | _ => false

def USIZE_MAX : ℕ := 2 ^ 64 - 1

def nextChunk (chunk : ℕ) : ℕ := min (min (chunk * 2) USIZE_MAX) (1 <<< 20)

section

variable (toLowercase : Char → Str) (config : JsonStruct)

/-- `decode_struct`, with its error as one of the file's. -/
def overlay (value : Value) : Option (JsonStruct × Except ConfigFileError Unit) :=
  (decodeStruct toLowercase config value).map fun r => (r.1, r.2.mapError .unmarshal)

/-- The loop over the reads: `data` is what they returned, `rest` what the file still holds. -/
def parseLoop (path : Str) (read : ℕ → Except Str ℕ) (turn chunk : ℕ) (data rest : Bytes) :
    Option (JsonStruct × Except ConfigFileError Unit) :=
  match read turn with
  | .error err => some (config, .error (.readFailed path err))
  | .ok size =>
    match parse (data ++ rest.take (min size chunk)) with
    | none => none
    | some (.ok value) => overlay toLowercase config value
    | some (.error e) =>
      if _h : (rest.take (min size chunk)).length = 0 ∨ isEnd e = false then
        some (config, .error (.syntaxError e))
      else
        parseLoop path read (turn + 1) (nextChunk chunk) (data ++ rest.take (min size chunk))
          (rest.drop (min size chunk))
termination_by rest.length
decreasing_by
  rw [not_or, List.length_take] at _h
  rw [List.length_drop]
  omega

def parseJsonConfig (path : Str) (file : Except Str File) :
    Option (JsonStruct × Except ConfigFileError Unit) :=
  match file with
  | .error err => some (config, .error (.openFailed path err))
  | .ok file => parseLoop toLowercase config path file.read 0 512 [] file.content

def parseJsonBytes (data : Bytes) : Option (JsonStruct × Except ConfigFileError Unit) :=
  match parse data with
  | none => none
  | some (.error e) => some (config, .error (.syntaxError e))
  | some (.ok value) => overlay toLowercase config value

end

section Chunks

variable {toLowercase : Char → Str} {config : JsonStruct} {path : Str} {read : ℕ → Except Str ℕ}
  {front rest bytes : Bytes}

/-- The same configuration, and both fine or both not. -/
def SameOutcome : Option (JsonStruct × Except ConfigFileError Unit) →
    Option (JsonStruct × Except ConfigFileError Unit) → Prop :=
  fun o o' => ∃ config r r', o = some (config, r) ∧ o' = some (config, r') ∧
    (r = .ok () ↔ r' = .ok ())

private theorem overlay_total (value : Value) :
    ∃ config' r, overlay toLowercase config value = some (config', r) := by
  obtain ⟨config', result, h⟩ := @decodeStruct_total toLowercase config value
  rw [overlay, h]
  exact ⟨_, _, rfl⟩

private theorem sameOutcome_self (value : Value) :
    SameOutcome (overlay toLowercase config value) (overlay toLowercase config value) := by
  obtain ⟨config', r, h⟩ := @overlay_total toLowercase config value
  exact ⟨config', r, r, h, h, Iff.rfl⟩

private theorem sameOutcome_errors (config : JsonStruct) (e e' : ConfigFileError) :
    SameOutcome (some (config, .error e)) (some (config, .error e')) :=
  ⟨config, _, _, rfl, rfl, ⟨fun h => (by cases h), fun h => (by cases h)⟩⟩

private theorem overlay_number (l : Str) : overlay toLowercase config (.number l) =
    some (config, .error (.unmarshal (.topLevel "number".toList config.typeName))) := rfl

private theorem parse_numeric {b : UInt8} {tail : Bytes} (hskip : skipWhitespace bytes = b :: tail)
    (hb : b = asciiByte '-' ∨ isDigit b = true) :
    (∃ e, parse bytes = some (.error e)) ∨ ∃ l, parse bytes = some (.ok (.number l)) := by
  have hstep : step (.value [] (b :: tail)) = scalar [] (number (b :: tail)) :=
    startValue_numeric hb tail
  rw [parse, hskip]
  dsimp only
  cases hnumber : number (b :: tail) with
  | error e =>
    rw [hnumber] at hstep
    rw [run_of_failed hstep]
    exact Or.inl ⟨e, rfl⟩
  | ok r =>
    obtain ⟨v, rest⟩ := r
    obtain ⟨t, -, -, rfl⟩ := number_sound hnumber
    rw [hnumber] at hstep
    rw [run_of_running hstep, run_of_finished rfl]
    exact Or.inr ⟨_, rfl⟩

private theorem sameOutcome_of_front {v : Value} (h : parse front = some (.ok v)) (rest : Bytes) :
    SameOutcome (overlay toLowercase config v)
      (parseJsonBytes toLowercase config (front ++ rest)) := by
  obtain ⟨w, t, more, rfl, hw, ht, hdepth⟩ := parse_sound h
  by_cases hnumber : ∃ l, v = .number l
  · obtain ⟨l, rfl⟩ := hnumber
    obtain ⟨b, tl, rfl, hb⟩ : ∃ b tl, t = b :: tl ∧ (b = asciiByte '-' ∨ isDigit b = true) := by
      cases ht with
      | number ht => exact ht.head
    have hskip : skipWhitespace (w ++ (b :: tl ++ more) ++ rest) = b :: (tl ++ (more ++ rest)) := by
      rw [List.append_assoc, skipWhitespace_append hw, List.append_assoc, text_skip ht]
      rfl
    rw [overlay_number, parseJsonBytes]
    rcases parse_numeric hskip hb with ⟨e, he⟩ | ⟨l', hl'⟩
    · rw [he]
      exact sameOutcome_errors config _ _
    · rw [hl']
      exact sameOutcome_errors config _ _
  · have hwhole : parse (w ++ (t ++ more) ++ rest) = some (.ok v) := by
      rw [List.append_assoc, List.append_assoc]
      exact parse_append hdepth ht hw fun l hl => absurd ⟨l, hl⟩ hnumber
    rw [parseJsonBytes, hwhole]
    exact sameOutcome_self v

private theorem nextChunk_pos {chunk : ℕ} (h : 0 < chunk) : 0 < nextChunk chunk := by
  have hmax : 0 < USIZE_MAX := by decide
  rw [nextChunk, Nat.one_shiftLeft]
  omega

private theorem parseLoop_sameOutcome {sizes : ℕ → ℕ} (hsizes : ∀ i, 0 < sizes i) (turn : ℕ)
    {chunk : ℕ} (hchunk : 0 < chunk) (data rest : Bytes) :
    SameOutcome (parseLoop toLowercase config path (fun i => .ok (sizes i)) turn chunk data rest)
      (parseJsonBytes toLowercase config (data ++ rest)) := by
  induction hn : rest.length using Nat.strong_induction_on generalizing turn chunk data rest with
  | h n ih =>
    have hsplit : data ++ rest = data ++ rest.take (min (sizes turn) chunk) ++
        rest.drop (min (sizes turn) chunk) := by
      rw [List.append_assoc, List.take_append_drop]
    have hsize := hsizes turn
    obtain ⟨r, hparse⟩ := parse_total (data ++ rest.take (min (sizes turn) chunk))
    rw [parseLoop]
    dsimp only
    rw [hparse]
    cases r with
    | ok value =>
      rw [hsplit]
      exact sameOutcome_of_front hparse _
    | error e =>
      dsimp only
      split_ifs with hstop
      · rcases hstop with hnone | hfinal
        · -- the file has been read to its end
          have hrest : rest = [] := by
            rw [List.length_take] at hnone
            exact List.length_eq_zero_iff.mp (by omega)
          subst hrest
          rw [List.take_nil] at hparse
          rw [parseJsonBytes, hparse]
          exact sameOutcome_errors config _ _
        · obtain ⟨e', he'⟩ := parse_extend hparse (by rintro rfl; cases hfinal)
            (by rintro rfl; cases hfinal) (rest.drop (min (sizes turn) chunk))
          rw [hsplit, parseJsonBytes, he']
          exact sameOutcome_errors config _ _
      · rw [not_or, List.length_take] at hstop
        rw [hsplit]
        refine ih _ ?_ (turn + 1) (nextChunk_pos hchunk) _ _ rfl
        rw [List.length_drop]
        omega

/-- However the reads of a file are cut, it leaves the configuration and the outcome of the whole
content; and what fails on a prefix, other than by its end, fails on every extension. -/
theorem chunking_invisible (toLowercase : Char → Str) (config : JsonStruct) (path : Str)
    (content : Bytes) (sizes : ℕ → ℕ) (hsizes : ∀ i, 0 < sizes i) :
    SameOutcome (parseJsonConfig toLowercase config path (.ok ⟨content, fun i => .ok (sizes i)⟩))
        (parseJsonBytes toLowercase config content) ∧
      ∀ (front ext : Bytes) (e : SyntaxError), parse front = some (.error e) → e ≠ .eof →
        e ≠ .unexpectedEof → ∃ e', parse (front ++ ext) = some (.error e') :=
  ⟨parseLoop_sameOutcome hsizes 0 (by decide) [] content,
    fun _ ext _ h heof hne => parse_extend h heof hne ext⟩

/-- A file that is read byte by byte. -/
theorem chunking_invisible_mtu :
    (∀ _ : ℕ, 0 < 1) ∧
      SameOutcome
        (parseJsonConfig (fun c => [c.toLower])
          ⟨"Config".toList, "main.Config".toList, [("mtu".toList, .int 1350)]⟩ "c.json".toList
          (.ok ⟨"\x7b\"mtu\":900\x7d".toList.map asciiByte, fun _ => .ok 1⟩))
        (parseJsonBytes (fun c => [c.toLower])
          ⟨"Config".toList, "main.Config".toList, [("mtu".toList, .int 1350)]⟩
          ("\x7b\"mtu\":900\x7d".toList.map asciiByte)) :=
  ⟨fun _ => Nat.one_pos, (chunking_invisible _ _ _ _ (fun _ => 1) fun _ => Nat.one_pos).1⟩

end Chunks

end Kcptun.Setup.ConfigFile
