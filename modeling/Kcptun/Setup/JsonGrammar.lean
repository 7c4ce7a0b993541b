/- Kcptun/Setup/JsonGrammar
   source: crates/std/src/gojson.rs (Parser::skip_whitespace, number, string, escape, object_key)
   digest: The grammar of JSON texts and the values they are texts of, and that the parser reads
     the words of the grammar: numbers, strings and keys. -/

import Kcptun.Setup.JsonParser
import Mathlib.Data.List.DropRight

set_option autoImplicit false
set_option relaxedAutoImplicit false

namespace Kcptun.Setup.JsonGrammar

open Kcptun.Lib.LittleEndian (Bytes)
open Kcptun.Lib.Utf8
open Kcptun.Setup.GoJson (Value)
open Kcptun.Setup.GoQuote
open Kcptun.Setup.JsonParser

/-! The grammar -/

/-- Whitespace, possibly none. -/
def Ws (s : Bytes) : Prop := ∀ b ∈ s, isSpace b = true

def Digits (s : Bytes) : Prop := ∀ b ∈ s, isDigit b = true

inductive IntText : Bytes → Prop where
  | zero : IntText [asciiByte '0']
  | digits {d : UInt8} {ds : Bytes} (hd : isDigit d = true) (hnz : d ≠ asciiByte '0')
      (hds : Digits ds) : IntText (d :: ds)

inductive FracText : Bytes → Prop where
  | none : FracText []
  | some {d : UInt8} {ds : Bytes} (hds : Digits (d :: ds)) :
      FracText (asciiByte '.' :: d :: ds)

inductive ExpText : Bytes → Prop where
  | none : ExpText []
  | some {e d : UInt8} {sign ds : Bytes} (he : e = asciiByte 'e' ∨ e = asciiByte 'E')
      (hsign : sign = [] ∨ sign = [asciiByte '+'] ∨ sign = [asciiByte '-'])
      (hds : Digits (d :: ds)) : ExpText (e :: (sign ++ d :: ds))

inductive NumberText : Bytes → Prop where
  | mk {minus int frac exp : Bytes} (hminus : minus = [] ∨ minus = [asciiByte '-'])
      (hint : IntText int) (hfrac : FracText frac) (hexp : ExpText exp) :
      NumberText (minus ++ (int ++ (frac ++ exp)))

def GoesOn (t more : Bytes) : Prop :=
  ∃ b rest ext, more = b :: rest ∧ NumberText (t ++ b :: ext)

inductive Hex4 : Bytes → ℕ → Prop where
  | mk {a b c d : UInt8} {x y z w : ℕ} (ha : hexDigit a = some x) (hb : hexDigit b = some y)
      (hc : hexDigit c = some z) (hd : hexDigit d = some w) :
      Hex4 [a, b, c, d] (((x * 16 + y) * 16 + z) * 16 + w)

def High (u : ℕ) : Prop := 0xd800 ≤ u ∧ u < 0xdc00

def Low (u : ℕ) : Prop := 0xdc00 ≤ u ∧ u < 0xe000

def unit (ds : Bytes) : Bytes := asciiByte '\\' :: asciiByte 'u' :: ds

/-- What stands between the quotes of a string, and the characters it stands for. -/
inductive Chars : Bytes → Str → Prop where
  | nil : Chars [] []
  | plain {c : Char} {s : Bytes} {cs : Str} (hlow : 0x20 ≤ c.toNat) (hquote : c ≠ '"')
      (hback : c ≠ '\\') (h : Chars s cs) : Chars (String.utf8EncodeChar c ++ s) (c :: cs)
  | invalid {b : UInt8} {s : Bytes} {cs : Str} (hb : 0x80 ≤ b.toNat)
      (hnone : ∀ c rest, b :: s ≠ String.utf8EncodeChar c ++ rest) (h : Chars s cs) :
      Chars (b :: s) (replacement :: cs)
  | simple {kind : UInt8} {c : Char} {s : Bytes} {cs : Str} (hkind : simpleEscape kind = some c)
      (h : Chars s cs) : Chars (asciiByte '\\' :: kind :: s) (c :: cs)
  | code {ds s : Bytes} {u : ℕ} {cs : Str} (hds : Hex4 ds u) (hhigh : ¬ High u) (hlow : ¬ Low u)
      (h : Chars s cs) : Chars (unit ds ++ s) (Char.ofNat u :: cs)
  | pair {ds ds' s : Bytes} {hi lo : ℕ} {cs : Str} (hds : Hex4 ds hi) (hhigh : High hi)
      (hds' : Hex4 ds' lo) (hlow : Low lo) (h : Chars s cs) :
      Chars (unit ds ++ (unit ds' ++ s))
        (Char.ofNat (0x10000 + (hi - 0xd800) * 0x400 + (lo - 0xdc00)) :: cs)
  | loneHigh {ds s : Bytes} {hi : ℕ} {cs : Str} (hds : Hex4 ds hi) (hhigh : High hi)
      (hnone : ∀ ds' lo rest, Hex4 ds' lo → Low lo → s ≠ unit ds' ++ rest) (h : Chars s cs) :
      Chars (unit ds ++ s) (replacement :: cs)
  | loneLow {ds s : Bytes} {lo : ℕ} {cs : Str} (hds : Hex4 ds lo) (hlow : Low lo)
      (h : Chars s cs) : Chars (unit ds ++ s) (replacement :: cs)

inductive StringText (s : Str) : Bytes → Prop where
  | mk {t : Bytes} (h : Chars t s) : StringText s (asciiByte '"' :: (t ++ [asciiByte '"']))

/-- A key and its colon, with the whitespace around them. -/
inductive KeyText (key : Str) : Bytes → Prop where
  | mk {front t mid back : Bytes} (hfront : Ws front) (h : StringText key t) (hmid : Ws mid)
      (hback : Ws back) : KeyText key (front ++ (t ++ (mid ++ asciiByte ':' :: back)))

def asciiText (t : Bytes) : Str := t.map fun b => Char.ofNat b.toNat

mutual

inductive Text : Value → Bytes → Prop where
  | null : Text .null ("null".toList.map asciiByte)
  | true : Text (.bool Bool.true) ("true".toList.map asciiByte)
  | false : Text (.bool Bool.false) ("false".toList.map asciiByte)
  | number {t : Bytes} (h : NumberText t) : Text (.number (asciiText t)) t
  | string {s : Str} {t : Bytes} (h : StringText s t) : Text (.string s) t
  | emptyArray {w : Bytes} (hw : Ws w) :
      Text (.array []) (asciiByte '[' :: (w ++ [asciiByte ']']))
  | array {vs : List Value} {t : Bytes} (h : Elements vs t) :
      Text (.array vs) (asciiByte '[' :: (t ++ [asciiByte ']']))
  | emptyObject {w : Bytes} (hw : Ws w) :
      Text (.object []) (asciiByte '{' :: (w ++ [asciiByte '}']))
  | object {ms : List (Str × Value)} {t : Bytes} (h : Members ms t) :
      Text (.object ms) (asciiByte '{' :: (t ++ [asciiByte '}']))

/-- One or more elements, with commas between them. -/
inductive Elements : List Value → Bytes → Prop where
  | one {v : Value} {w t w' : Bytes} (hw : Ws w) (h : Text v t) (hw' : Ws w') :
      Elements [v] (w ++ (t ++ w'))
  | snoc {vs : List Value} {v : Value} {s w t w' : Bytes} (hs : Elements vs s) (hw : Ws w)
      (h : Text v t) (hw' : Ws w') :
      Elements (vs ++ [v]) (s ++ asciiByte ',' :: (w ++ (t ++ w')))

/-- One or more members, with commas between them. -/
inductive Members : List (Str × Value) → Bytes → Prop where
  | one {key : Str} {v : Value} {k t w : Bytes} (hk : KeyText key k) (h : Text v t) (hw : Ws w) :
      Members [(key, v)] (k ++ (t ++ w))
  | snoc {ms : List (Str × Value)} {key : Str} {v : Value} {s k t w : Bytes}
      (hs : Members ms s) (hk : KeyText key k) (h : Text v t) (hw : Ws w) :
      Members (ms ++ [(key, v)]) (s ++ asciiByte ',' :: (k ++ (t ++ w)))

end

/-! Whitespace -/

section Whitespace

variable {w s rest : Bytes} {b : UInt8}

theorem skipWhitespace_append (hw : Ws w) (s : Bytes) :
    skipWhitespace (w ++ s) = skipWhitespace s :=
  List.dropWhile_append_of_pos hw

theorem skipWhitespace_cons (hb : isSpace b = false) (s : Bytes) :
    skipWhitespace (b :: s) = b :: s :=
  List.dropWhile_cons_of_neg (by rw [hb]; exact Bool.false_ne_true)

theorem exists_ws (rest : Bytes) : ∃ w, rest = w ++ skipWhitespace rest ∧ Ws w :=
  ⟨rest.takeWhile isSpace, List.takeWhile_append_dropWhile.symm, fun _ => List.mem_takeWhile_imp⟩

end Whitespace

/-! Numbers -/

section Numbers

variable {t x rest rest' int frac exp : Bytes} {b : UInt8}

def Avoids (p : UInt8 → Prop) (x : Bytes) : Prop := ∀ b tl, x = b :: tl → ¬ p b

def Digit (b : UInt8) : Prop := isDigit b = true

def Exp (b : UInt8) : Prop := b = asciiByte 'e' ∨ b = asciiByte 'E'

private theorem avoids_cons {p : UInt8 → Prop} (h : ¬ p b) (tl : Bytes) : Avoids p (b :: tl) := by
  intro b' tl' heq
  cases heq
  exact h

private theorem skipDigits_append {ds : Bytes} (hds : Digits ds) (hx : Avoids Digit x) :
    skipDigits (ds ++ x) = x := by
  rw [skipDigits, List.dropWhile_append_of_pos hds]
  cases x with
  | nil => rfl
  | cons b tl => exact List.dropWhile_cons_of_neg (hx b tl rfl)

private theorem requireDigits_append {d : UInt8} {ds : Bytes} (hds : Digits (d :: ds))
    (hx : Avoids Digit x) : requireDigits (d :: ds ++ x) = .ok x := by
  rw [List.cons_append, requireDigits, if_pos (hds d List.mem_cons_self), ← List.cons_append,
    skipDigits_append hds hx]

private theorem requireDigits_sound (h : requireDigits rest = .ok rest') :
    ∃ d ds, rest = d :: ds ++ rest' ∧ Digits (d :: ds) := by
  cases rest with
  | nil => cases h
  | cons d tail =>
    rw [requireDigits] at h
    split_ifs at h with hd
    cases h
    refine ⟨d, tail.takeWhile isDigit, ?_, ?_⟩
    · rw [skipDigits, List.dropWhile_cons_of_pos hd, List.cons_append,
        List.takeWhile_append_dropWhile]
    · intro b hb
      rcases List.mem_cons.mp hb with rfl | hb
      · exact hd
      · exact List.mem_takeWhile_imp hb

private theorem intPart_append (h : IntText int) (hx : int ≠ [asciiByte '0'] → Avoids Digit x) :
    intPart (int ++ x) = .ok x := by
  cases h with
  | zero => rw [List.singleton_append, intPart, if_pos rfl]
  | @digits d ds hd hnz hds =>
    have hne : d :: ds ≠ [asciiByte '0'] := fun heq => hnz (List.cons.inj heq).1
    have hall : Digits (d :: ds) := List.forall_mem_cons.mpr ⟨hd, hds⟩
    rw [List.cons_append, intPart, if_neg hnz, if_pos hd, ← List.cons_append,
      skipDigits_append hall (hx hne)]

private theorem intPart_sound (h : intPart rest = .ok rest') :
    ∃ int, rest = int ++ rest' ∧ IntText int := by
  cases rest with
  | nil => cases h
  | cons d tail =>
    rw [intPart] at h
    split_ifs at h with hzero hd
    · cases h
      exact ⟨[d], rfl, hzero ▸ .zero⟩
    · cases h
      refine ⟨d :: tail.takeWhile isDigit, ?_, .digits hd hzero fun _ => List.mem_takeWhile_imp⟩
      rw [skipDigits, List.dropWhile_cons_of_pos hd, List.cons_append,
        List.takeWhile_append_dropWhile]

private theorem fracPart_append (h : FracText frac)
    (hnone : frac = [] → Avoids (· = asciiByte '.') x)
    (hsome : frac ≠ [] → Avoids Digit x) : fracPart (frac ++ x) = .ok x := by
  cases h with
  | none =>
    cases x with
    | nil => rfl
    | cons b tl => exact if_neg (hnone rfl b tl rfl)
  | some hds =>
    rw [List.cons_append, fracPart, if_pos rfl, requireDigits_append hds
      (hsome (List.cons_ne_nil _ _))]

private theorem fracPart_sound (h : fracPart rest = .ok rest') :
    ∃ frac, rest = frac ++ rest' ∧ FracText frac := by
  cases rest with
  | nil =>
    cases h
    exact ⟨[], rfl, .none⟩
  | cons b tail =>
    rw [fracPart] at h
    split_ifs at h with hdot
    · obtain ⟨d, ds, rfl, hds⟩ := requireDigits_sound h
      exact ⟨b :: d :: ds, rfl, hdot ▸ .some hds⟩
    · cases h
      exact ⟨[], rfl, .none⟩

private theorem skipSign_append {d : UInt8} {sign ds : Bytes}
    (hsign : sign = [] ∨ sign = [asciiByte '+'] ∨ sign = [asciiByte '-']) (hd : isDigit d = true) :
    skipSign (sign ++ d :: ds) = d :: ds := by
  have hplus : d ≠ asciiByte '+' := by
    rintro rfl
    exact absurd hd (by decide)
  have hminus : d ≠ asciiByte '-' := by
    rintro rfl
    exact absurd hd (by decide)
  rcases hsign with rfl | rfl | rfl
  · exact if_neg (not_or.mpr ⟨hplus, hminus⟩)
  · rw [List.singleton_append, skipSign, if_pos (Or.inl rfl)]
  · rw [List.singleton_append, skipSign, if_pos (Or.inr rfl)]

private theorem skipSign_sound (rest : Bytes) :
    ∃ sign, rest = sign ++ skipSign rest ∧
      (sign = [] ∨ sign = [asciiByte '+'] ∨ sign = [asciiByte '-']) := by
  cases rest with
  | nil => exact ⟨[], rfl, Or.inl rfl⟩
  | cons b tail =>
    rw [skipSign]
    split_ifs with hb
    · refine ⟨[b], rfl, Or.inr ?_⟩
      rcases hb with rfl | rfl
      · exact Or.inl rfl
      · exact Or.inr rfl
    · exact ⟨[], rfl, Or.inl rfl⟩

private theorem expPart_append (h : ExpText exp) (hnone : exp = [] → Avoids Exp x)
    (hsome : exp ≠ [] → Avoids Digit x) : expPart (exp ++ x) = .ok x := by
  cases h with
  | none =>
    cases x with
    | nil => rfl
    | cons b tl => exact if_neg (hnone rfl b tl rfl)
  | @some e d sign ds he hsign hds =>
    rw [List.cons_append, expPart, if_pos he, List.append_assoc, List.cons_append,
      skipSign_append hsign (hds d List.mem_cons_self), ← List.cons_append,
      requireDigits_append hds (hsome (List.cons_ne_nil _ _))]

private theorem expPart_sound (h : expPart rest = .ok rest') :
    ∃ exp, rest = exp ++ rest' ∧ ExpText exp := by
  cases rest with
  | nil =>
    cases h
    exact ⟨[], rfl, .none⟩
  | cons b tail =>
    rw [expPart] at h
    split_ifs at h with he
    · obtain ⟨d, ds, hrest, hds⟩ := requireDigits_sound h
      obtain ⟨sign, htail, hsign⟩ := skipSign_sound tail
      refine ⟨b :: (sign ++ d :: ds), ?_, .some he hsign hds⟩
      rw [htail, hrest, List.cons_append, List.cons_append, List.append_assoc, List.cons_append]
    · cases h
      exact ⟨[], rfl, .none⟩

private theorem skipMinus_append {minus : Bytes} (hminus : minus = [] ∨ minus = [asciiByte '-'])
    (hint : IntText int) : skipMinus (minus ++ (int ++ x)) = int ++ x := by
  rcases hminus with rfl | rfl
  · cases hint with
    | zero => rfl
    | @digits d ds hd =>
      apply if_neg
      rintro rfl
      exact absurd hd (by decide)
  · rw [List.singleton_append, skipMinus, if_pos rfl]

private theorem skipMinus_sound (rest : Bytes) :
    ∃ minus, rest = minus ++ skipMinus rest ∧ (minus = [] ∨ minus = [asciiByte '-']) := by
  cases rest with
  | nil => exact ⟨[], rfl, Or.inl rfl⟩
  | cons b tail =>
    rw [skipMinus]
    split_ifs with hb
    · exact ⟨[b], rfl, Or.inr (by rw [hb])⟩
    · exact ⟨[], rfl, Or.inl rfl⟩

private theorem numberEnd_sound (h : numberEnd rest = .ok rest') :
    ∃ t, rest = t ++ rest' ∧ NumberText t := by
  obtain ⟨minus, hrest, hminus⟩ := skipMinus_sound rest
  rw [numberEnd] at h
  cases hint : intPart (skipMinus rest) with
  | error e =>
    rw [hint] at h
    cases h
  | ok rest₁ =>
    rw [hint] at h
    change (fracPart rest₁ >>= expPart) = _ at h
    cases hfrac : fracPart rest₁ with
    | error e =>
      rw [hfrac] at h
      cases h
    | ok rest₂ =>
      rw [hfrac] at h
      obtain ⟨int, hrest₁, hintText⟩ := intPart_sound hint
      obtain ⟨frac, rfl, hfracText⟩ := fracPart_sound hfrac
      obtain ⟨exp, rfl, hexpText⟩ := expPart_sound h
      refine ⟨minus ++ (int ++ (frac ++ exp)), ?_, .mk hminus hintText hfracText hexpText⟩
      rw [hrest, hrest₁]
      simp only [List.append_assoc]

private theorem goesOn_of {minus more : Bytes} (ext : Bytes)
    (hminus : minus = [] ∨ minus = [asciiByte '-']) (hint : IntText int) (hfrac : FracText frac)
    (hexp : ExpText exp) (hno : ¬ GoesOn t more) (hmore : more = b :: rest)
    (ht : t ++ b :: ext = minus ++ (int ++ (frac ++ exp))) : False :=
  hno ⟨b, rest, ext, hmore, ht ▸ .mk hminus hint hfrac hexp⟩

private theorem digits_snoc {ds : Bytes} (hds : Digits ds) (hb : isDigit b = true) :
    Digits (ds ++ [b]) := by
  intro c hc
  rcases List.mem_append.mp hc with hc | hc
  · exact hds c hc
  · rw [List.mem_singleton.mp hc]
    exact hb

/-- A number is read to its end, unless the byte behind it is one that a longer number goes on
with. -/
theorem numberEnd_append {more : Bytes} (h : NumberText t) (hno : ¬ GoesOn t more) :
    numberEnd (t ++ more) = .ok more := by
  obtain @⟨minus, int, frac, exp, hminus, hint, hfrac, hexp⟩ := h
  have hzero : Digits [asciiByte '0'] := by
    intro b hb
    rw [List.mem_singleton.mp hb]
    decide
  -- a digit behind a part that ends in digits
  have hintDigit : int ≠ [asciiByte '0'] → frac = [] → exp = [] → Avoids Digit more := by
    rintro hne rfl rfl b tl hmore hb
    cases hint with
    | zero => exact hne rfl
    | digits hd hnz hds =>
      exact goesOn_of [] hminus (.digits hd hnz (digits_snoc hds hb)) .none .none hno hmore
        (by simp)
  have hfracDigit : frac ≠ [] → exp = [] → Avoids Digit more := by
    rintro hne rfl b tl hmore hb
    cases hfrac with
    | none => exact hne rfl
    | @some d ds hds =>
      exact goesOn_of [] hminus hint (.some (d := d) (digits_snoc hds hb)) .none hno hmore
        (by simp)
  have hexpDigit : exp ≠ [] → Avoids Digit more := by
    rintro hne b tl hmore hb
    cases hexp with
    | none => exact hne rfl
    | @some e d sign ds he hsign hds =>
      exact goesOn_of [] hminus hint hfrac (.some (d := d) he hsign (digits_snoc hds hb))
        hno hmore (by simp)
  -- a part that is not there
  have hdot : frac = [] → exp = [] → Avoids (· = asciiByte '.') more := by
    rintro rfl rfl b tl hmore rfl
    exact goesOn_of [asciiByte '0'] hminus hint (.some hzero) .none hno hmore (by simp)
  have he : exp = [] → Avoids Exp more := by
    rintro rfl b tl hmore hb
    exact goesOn_of [asciiByte '0'] hminus hint hfrac (.some hb (Or.inl rfl) hzero) hno
      hmore (by simp)
  have hexpHead : exp ≠ [] →
      Avoids Digit (exp ++ more) ∧ Avoids (· = asciiByte '.') (exp ++ more) := by
    intro hne
    cases hexp with
    | none => exact absurd rfl hne
    | some hletter =>
      rcases hletter with rfl | rfl
      · exact ⟨avoids_cons (by unfold Digit; decide) _, avoids_cons (by decide) _⟩
      · exact ⟨avoids_cons (by unfold Digit; decide) _, avoids_cons (by decide) _⟩
  have hassoc : minus ++ (int ++ (frac ++ exp)) ++ more =
      minus ++ (int ++ (frac ++ (exp ++ more))) := by simp only [List.append_assoc]
  have hintStop : int ≠ [asciiByte '0'] → Avoids Digit (frac ++ (exp ++ more)) := by
    intro hne
    cases hfrac with
    | none =>
      by_cases hexp : exp = []
      · subst hexp
        exact hintDigit hne rfl rfl
      · exact (hexpHead hexp).1
    | some hds => exact avoids_cons (by unfold Digit; decide) _
  have hfracStop : frac = [] → Avoids (· = asciiByte '.') (exp ++ more) := by
    intro hnone
    by_cases hexp : exp = []
    · subst hexp
      exact hdot hnone rfl
    · exact (hexpHead hexp).2
  have hfracStop' : frac ≠ [] → Avoids Digit (exp ++ more) := by
    intro hne
    by_cases hexp : exp = []
    · subst hexp
      exact hfracDigit hne rfl
    · exact (hexpHead hexp).1
  have hparts : fracPart (frac ++ (exp ++ more)) >>= expPart = .ok more := by
    rw [fracPart_append hfrac hfracStop hfracStop']
    exact expPart_append hexp he hexpDigit
  rw [hassoc, numberEnd, skipMinus_append hminus hint, intPart_append hint hintStop]
  exact hparts

def NumberByte (b : UInt8) : Prop :=
  isDigit b = true ∨ b = asciiByte '-' ∨ b = asciiByte '+' ∨ b = asciiByte '.' ∨ Exp b

private theorem NumberText.bytes (h : NumberText t) : ∀ b ∈ t, NumberByte b := by
  obtain @⟨minus, int, frac, exp, hminus, hint, hfrac, hexp⟩ := h
  intro b hb
  rcases List.mem_append.mp hb with hb | hb
  · rcases hminus with rfl | rfl
    · cases hb
    · exact Or.inr (Or.inl (List.mem_singleton.mp hb))
  rcases List.mem_append.mp hb with hb | hb
  · cases hint with
    | zero =>
      rw [List.mem_singleton.mp hb]
      exact Or.inl (by decide)
    | digits hd hnz hds =>
      rcases List.mem_cons.mp hb with rfl | hb
      · exact Or.inl hd
      · exact Or.inl (hds b hb)
  rcases List.mem_append.mp hb with hb | hb
  · cases hfrac with
    | none => cases hb
    | some hds =>
      rcases List.mem_cons.mp hb with rfl | hb
      · exact Or.inr (Or.inr (Or.inr (Or.inl rfl)))
      · exact Or.inl (hds b hb)
  · cases hexp with
    | none => cases hb
    | some he hsign hds =>
      rcases List.mem_cons.mp hb with rfl | hb
      · exact Or.inr (Or.inr (Or.inr (Or.inr he)))
      rcases List.mem_append.mp hb with hb | hb
      · rcases hsign with rfl | rfl | rfl
        · cases hb
        · exact Or.inr (Or.inr (Or.inl (List.mem_singleton.mp hb)))
        · exact Or.inr (Or.inl (List.mem_singleton.mp hb))
      · exact Or.inl (hds b hb)

theorem toNat_of_digit (h : isDigit b = true) : 48 ≤ b.toNat ∧ b.toNat ≤ 57 := by
  obtain ⟨hlow, hhigh⟩ := Bool.and_eq_true_iff.mp h
  exact ⟨UInt8.le_iff_toNat_le.mp (of_decide_eq_true hlow),
    UInt8.le_iff_toNat_le.mp (of_decide_eq_true hhigh)⟩

private theorem NumberByte.ascii (h : NumberByte b) : b.toNat < 128 := by
  rcases h with h | rfl | rfl | rfl | rfl | rfl
  · have := toNat_of_digit h
    omega
  all_goals decide

theorem not_goesOn_cons (hb : ¬ NumberByte b) (rest : Bytes) : ¬ GoesOn t (b :: rest) := by
  rintro ⟨b', tl, ext, heq, h⟩
  cases heq
  exact hb (h.bytes b (List.mem_append_right _ List.mem_cons_self))

theorem NumberText.head (h : NumberText t) :
    ∃ b tl, t = b :: tl ∧ (b = asciiByte '-' ∨ isDigit b = true) := by
  obtain @⟨minus, int, frac, exp, hminus, hint, hfrac, hexp⟩ := h
  rcases hminus with rfl | rfl
  · cases hint with
    | zero => exact ⟨_, _, rfl, Or.inr (by decide)⟩
    | digits hd => exact ⟨_, _, rfl, Or.inr hd⟩
  · exact ⟨_, _, rfl, Or.inl rfl⟩

private theorem encode_ofNat (hb : b.toNat < 128) :
    String.utf8EncodeChar (Char.ofNat b.toNat) = [b] := by
  have hnat : (Char.ofNat b.toNat).toNat = b.toNat :=
    toNat_ofNat (Or.inl (by omega))
  rw [encode_ascii (by rw [hnat]; exact hb), asciiByte, hnat, UInt8.ofNat_toNat]

private theorem lossy_ascii (h : ∀ b ∈ t, b.toNat < 128) : lossy t = asciiText t := by
  induction t with
  | nil =>
    rw [lossy, runes]
    rfl
  | cons b t ih =>
    obtain ⟨hb, ht⟩ := List.forall_mem_cons.mp h
    have hrune : decodeRune (b :: t) = (Char.ofNat b.toNat, 1) := by
      have hdecode := decodeRune_encode (Char.ofNat b.toNat) t
      have hsize := String.length_utf8EncodeChar (Char.ofNat b.toNat)
      rw [encode_ofNat hb] at hdecode hsize
      rw [← List.singleton_append, hdecode, ← hsize]
      rfl
    rw [lossy, runes, hrune]
    exact congrArg _ (ih ht)

theorem number_append {more : Bytes} (h : NumberText t) (hno : ¬ GoesOn t more) :
    number (t ++ more) = .ok (.number (asciiText t), more) := by
  have htake : (t ++ more).take ((t ++ more).length - more.length) = t := by
    rw [List.length_append, Nat.add_sub_cancel, List.take_left]
  rw [number, numberEnd_append h hno]
  show Except.ok (Value.number (lossy _), more) = _
  rw [htake, lossy_ascii fun b hb => (h.bytes b hb).ascii]

theorem number_sound {v : Value} (h : number rest = .ok (v, rest')) :
    ∃ t, rest = t ++ rest' ∧ NumberText t ∧ v = .number (asciiText t) := by
  rw [number] at h
  cases hend : numberEnd rest with
  | error e =>
    rw [hend] at h
    cases h
  | ok r =>
    rw [hend] at h
    obtain ⟨t, rfl, ht⟩ := numberEnd_sound hend
    change Except.ok (Value.number (lossy _), r) = _ at h
    rw [List.length_append, Nat.add_sub_cancel, List.take_left,
      lossy_ascii fun b hb => (ht.bytes b hb).ascii] at h
    cases h
    exact ⟨t, rfl, ht, rfl⟩

end Numbers

/-! Strings -/

section Escapes

variable {ds s rest tail : Bytes} {u lo : ℕ} {c : Char}

private theorem hexDigit_lt {b : UInt8} {x : ℕ} (h : hexDigit b = some x) : x < 16 := by
  unfold hexDigit at h
  simp only [isDigit, UInt8.le_iff_toNat_le, Bool.and_eq_true, decide_eq_true_eq] at h
  have h0 : (asciiByte '0').toNat = 48 := rfl
  have h9 : (asciiByte '9').toNat = 57 := rfl
  have ha : (asciiByte 'a').toNat = 97 := rfl
  have hf : (asciiByte 'f').toNat = 102 := rfl
  have hA : (asciiByte 'A').toNat = 65 := rfl
  have hF : (asciiByte 'F').toNat = 70 := rfl
  split_ifs at h <;> cases h <;> omega

theorem Hex4.length (h : Hex4 ds u) : ds.length = 4 := by
  cases h
  rfl

private theorem Hex4.lt (h : Hex4 ds u) : u < 65536 := by
  obtain ⟨ha, hb, hc, hd⟩ := h
  have hx := hexDigit_lt ha
  have hy := hexDigit_lt hb
  have hz := hexDigit_lt hc
  have hw := hexDigit_lt hd
  omega

private theorem Hex4.ne_quote (h : Hex4 ds u) : asciiByte '"' ∉ ds := by
  have hnone : hexDigit (asciiByte '"') = none := by decide
  obtain ⟨ha, hb, hc, hd⟩ := h
  intro hmem
  simp only [List.mem_cons, List.not_mem_nil, or_false] at hmem
  rcases hmem with rfl | rfl | rfl | rfl
  · rw [hnone] at ha
    cases ha
  · rw [hnone] at hb
    cases hb
  · rw [hnone] at hc
    cases hc
  · rw [hnone] at hd
    cases hd

theorem drop_unit (h : Hex4 ds u) (rest : Bytes) : (unit ds ++ rest).drop 6 = rest := by
  have hlen : (unit ds).length = 6 := by rw [unit, List.length_cons, List.length_cons, h.length]
  rw [← hlen, List.drop_left]

private theorem hex4_append (h : Hex4 ds u) (rest : Bytes) : hex4 (unit ds ++ rest) = .ok u := by
  obtain @⟨a, b, c, d, x, y, z, w, ha, hb, hc, hd⟩ := h
  show hex4Loop _ 4 (a :: b :: c :: d :: rest) 0 = _
  simp only [hex4Loop, ha, hb, hc, hd, Nat.zero_mul, Nat.zero_add]

private theorem hex4Loop_sound {esc : Bytes} {n v : ℕ} (h : hex4Loop esc (n + 1) tail v = .ok u) :
    ∃ b x rest, tail = b :: rest ∧ hexDigit b = some x ∧
      hex4Loop esc n rest (v * 16 + x) = .ok u := by
  cases tail with
  | nil => cases h
  | cons b rest =>
    rw [hex4Loop] at h
    cases hb : hexDigit b with
    | none =>
      rw [hb] at h
      cases h
    | some x =>
      rw [hb] at h
      exact ⟨b, x, rest, rfl, hb, h⟩

private theorem hex4_sound {k k' : UInt8} (h : hex4 (k :: k' :: tail) = .ok u) :
    ∃ ds rest, tail = ds ++ rest ∧ Hex4 ds u := by
  obtain ⟨a, x, rest, rfl, ha, h⟩ := hex4Loop_sound h
  obtain ⟨b, y, rest, rfl, hb, h⟩ := hex4Loop_sound h
  obtain ⟨c, z, rest, rfl, hc, h⟩ := hex4Loop_sound h
  obtain ⟨d, w, rest, rfl, hd, h⟩ := hex4Loop_sound h
  rw [hex4Loop, Nat.zero_mul, Nat.zero_add] at h
  cases h
  exact ⟨[a, b, c, d], rest, rfl, .mk ha hb hc hd⟩

theorem lowSurrogate_append (h : Hex4 ds lo) (hlow : Low lo) (rest : Bytes) :
    lowSurrogate (unit ds ++ rest) = some lo := by
  have hhex := hex4_append h rest
  rw [lowSurrogate, if_neg (by rw [not_or]; exact ⟨fun hne => hne rfl, fun hne => hne rfl⟩), hhex]
  exact if_pos hlow

theorem lowSurrogate_sound (h : lowSurrogate rest = some lo) :
    ∃ ds rest', rest = unit ds ++ rest' ∧ Hex4 ds lo ∧ Low lo := by
  unfold lowSurrogate at h
  split_ifs at h with hhead
  rw [not_or, not_not, not_not] at hhead
  obtain ⟨hback, hu⟩ := hhead
  cases rest with
  | nil => cases hback
  | cons k rest =>
    cases rest with
    | nil => cases hu
    | cons k' tail =>
      cases hback
      cases hu
      cases hhex : hex4 (asciiByte '\\' :: asciiByte 'u' :: tail) with
      | error e =>
        rw [hhex] at h
        cases h
      | ok v =>
        rw [hhex] at h
        dsimp only at h
        split_ifs at h with hlow
        cases h
        obtain ⟨ds, rest', rfl, hds⟩ := hex4_sound hhex
        exact ⟨ds, rest', rfl, hds, hlow⟩

private theorem fromU32_replacement : fromU32 replacement.toNat = replacement := by decide

private theorem fromU32_of_valid (h : u.isValidChar) : fromU32 u = Char.ofNat u := if_pos h

private theorem escape_simple {kind : UInt8} (h : simpleEscape kind = some c) (rest : Bytes) :
    escape (asciiByte '\\' :: kind :: rest) = .ok (c, rest) := by
  have hkind : (asciiByte '\\' :: kind :: rest)[1]? = some kind := rfl
  rw [escape, hkind]
  dsimp only
  rw [h]
  rfl

private theorem escape_unit (h : Hex4 ds u) (rest : Bytes) :
    escape (unit ds ++ rest) = .ok (pairUp u rest) := by
  have hkind : (unit ds ++ rest)[1]? = some (asciiByte 'u') := rfl
  have hsimple : simpleEscape (asciiByte 'u') = none := by decide
  rw [escape, hkind]
  dsimp only
  rw [hsimple]
  dsimp only
  rw [if_neg (fun hne => hne rfl), unicodeEscape, hex4_append h, drop_unit h]
  rfl

private theorem escape_sound (h : escape (asciiByte '\\' :: tail) = .ok (c, rest)) :
    (∃ kind, tail = kind :: rest ∧ simpleEscape kind = some c) ∨
      ∃ ds u rest', asciiByte '\\' :: tail = unit ds ++ rest' ∧ Hex4 ds u ∧
        pairUp u rest' = (c, rest) := by
  cases tail with
  | nil => cases h
  | cons kind tail =>
    have hkind : (asciiByte '\\' :: kind :: tail)[1]? = some kind := rfl
    rw [escape, hkind] at h
    dsimp only at h
    cases hsimple : simpleEscape kind with
    | some c' =>
      rw [hsimple] at h
      cases h
      exact Or.inl ⟨kind, rfl, hsimple⟩
    | none =>
      rw [hsimple] at h
      dsimp only at h
      split_ifs at h with hu
      rw [not_not] at hu
      subst hu
      cases hhex : hex4 (asciiByte '\\' :: asciiByte 'u' :: tail) with
      | error e =>
        rw [unicodeEscape, hhex] at h
        cases h
      | ok u =>
        obtain ⟨ds, rest', rfl, hds⟩ := hex4_sound hhex
        have hdrop := drop_unit hds rest'
        rw [unicodeEscape, hhex] at h
        refine Or.inr ⟨ds, u, rest', rfl, hds, ?_⟩
        have hpair : pairUp u ((unit ds ++ rest').drop 6) = (c, rest) := Except.ok.inj h
        rwa [hdrop] at hpair

end Escapes

section Strings

variable {s rest rest' : Bytes} {cs out : Str} {b : UInt8}

private theorem front_of_append {p r more : Bytes} (hnot : b ∉ p) (h : s ++ b :: more = p ++ r) :
    ∃ r', s = p ++ r' := by
  rcases List.append_eq_append_iff.mp h with ⟨mid, hp, hmid⟩ | ⟨mid, hs, -⟩
  · cases mid with
    | nil => exact ⟨[], by rw [hp, List.append_nil, List.append_nil]⟩
    | cons b' mid =>
      cases hmid
      exact absurd (hp ▸ List.mem_append_right s List.mem_cons_self) hnot
  · exact ⟨mid, hs⟩

private theorem decodeChar?_quote (hb : 0x80 ≤ b.toNat)
    (hnone : ∀ c rest, b :: s ≠ String.utf8EncodeChar c ++ rest) (more : Bytes) :
    decodeChar? (b :: (s ++ asciiByte '"' :: more)) = none := by
  cases h : decodeChar? (b :: (s ++ asciiByte '"' :: more)) with
  | none => rfl
  | some c =>
    obtain ⟨r, hr⟩ := exists_of_decodeChar? h
    have hmem : b ∈ String.utf8EncodeChar c := by
      obtain ⟨lead, tl, hencode, -⟩ := encode_lead c
      rw [hencode] at hr ⊢
      rw [(List.cons.inj hr).1]
      exact List.mem_cons_self
    have hascii : 128 ≤ c.toNat := by
      by_contra hlt
      have hlt' : c.toNat < 128 := not_le.mp hlt
      rw [encode_ascii hlt', List.mem_singleton] at hmem
      rw [hmem, asciiByte, UInt8.toNat_ofNat'] at hb
      omega
    have hquote : asciiByte '"' ∉ String.utf8EncodeChar c := fun hmem =>
      absurd (le_of_mem_encode hascii hmem) (by decide)
    rw [← List.cons_append] at hr
    obtain ⟨r', hr'⟩ := front_of_append hquote hr
    exact absurd hr' (hnone c r')

private theorem stringLoop_plain {c : Char} (hlow : 0x20 ≤ c.toNat) (hquote : c ≠ '"')
    (hback : c ≠ '\\') (rest : Bytes) : stringLoop (String.utf8EncodeChar c ++ rest) out =
      stringLoop rest (out ++ [c]) := by
  by_cases hascii : c.toNat < 128
  · have hnat : (asciiByte c).toNat = c.toNat := by
      rw [asciiByte, UInt8.toNat_ofNat']
      omega
    have hinj : ∀ d : Char, d.toNat < 128 → c ≠ d → asciiByte c ≠ asciiByte d := by
      intro d hd hne heq
      have hnats := congrArg UInt8.toNat heq
      rw [hnat, asciiByte, UInt8.toNat_ofNat'] at hnats
      exact hne (Char.toNat_inj.mp (by omega))
    have hge : ¬ asciiByte c < 0x20 := by
      rw [UInt8.lt_iff_toNat_lt, hnat]
      exact not_lt.mpr hlow
    have hlt : asciiByte c < 0x80 := by
      rw [UInt8.lt_iff_toNat_lt, hnat]
      exact hascii
    rw [encode_ascii hascii, List.singleton_append,
      stringLoop_ascii (hinj _ (by decide) hquote) (hinj _ (by decide) hback) hge hlt, hnat,
      Char.ofNat_toNat]
  · obtain ⟨lead, tl, hencode, -⟩ := encode_lead c
    have hlead := le_of_mem_encode (not_lt.mp hascii) (hencode ▸ List.mem_cons_self)
    have hrune := decodeRune_encode c rest
    have hsize := String.length_utf8EncodeChar c
    have hhigh : ¬ lead < 0x80 := by
      rw [UInt8.lt_iff_toNat_lt]
      exact not_lt.mpr hlead
    rw [hencode, List.cons_append] at hrune ⊢
    rw [stringLoop_rune hhigh, hrune, ← hsize, hencode, ← List.cons_append, List.drop_left]

private theorem pairUp_code {u : ℕ} (hlt : u < 65536) (hhigh : ¬ High u) (hlow : ¬ Low u)
    (rest : Bytes) : pairUp u rest = (Char.ofNat u, rest) := by
  have hvalid : u.isValidChar := by
    unfold High at hhigh
    unfold Low at hlow
    unfold Nat.isValidChar
    omega
  have hhigh' : ¬ (0xd800 ≤ u ∧ u < 0xdc00) := hhigh
  have hlow' : ¬ (0xdc00 ≤ u ∧ u < 0xe000) := hlow
  rw [pairUp, if_neg hhigh', if_neg hlow', fromU32_of_valid hvalid]

private theorem pairUp_pair {ds' : Bytes} {hi lo : ℕ} (hhigh : High hi) (hds' : Hex4 ds' lo)
    (hlow : Low lo) (rest : Bytes) : pairUp hi (unit ds' ++ rest) =
      (Char.ofNat (0x10000 + (hi - 0xd800) * 0x400 + (lo - 0xdc00)), rest) := by
  have hvalid : (0x10000 + (hi - 0xd800) * 0x400 + (lo - 0xdc00)).isValidChar := by
    unfold High at hhigh
    unfold Low at hlow
    unfold Nat.isValidChar
    omega
  have hhigh' : 0xd800 ≤ hi ∧ hi < 0xdc00 := hhigh
  rw [pairUp, if_pos hhigh', lowSurrogate_append hds' hlow]
  dsimp only
  rw [drop_unit hds', Nat.shiftLeft_eq, fromU32_of_valid hvalid]

private theorem pairUp_loneLow {lo : ℕ} (hlow : Low lo) (rest : Bytes) :
    pairUp lo rest = (replacement, rest) := by
  have hhigh : ¬ (0xd800 ≤ lo ∧ lo < 0xdc00) := fun h => absurd h.2 (not_lt.mpr hlow.1)
  have hlow' : 0xdc00 ≤ lo ∧ lo < 0xe000 := hlow
  rw [pairUp, if_neg hhigh, if_pos hlow', fromU32_replacement]

private theorem pairUp_loneHigh {hi : ℕ} (hhigh : High hi) (hnone : lowSurrogate rest = none) :
    pairUp hi rest = (replacement, rest) := by
  have hhigh' : 0xd800 ≤ hi ∧ hi < 0xdc00 := hhigh
  rw [pairUp, if_pos hhigh', hnone, fromU32_replacement]

private theorem stringLoop_append (h : Chars s cs) (out : Str) (more : Bytes) :
    stringLoop (s ++ asciiByte '"' :: more) out = .ok (out ++ cs, more) := by
  have hescape : ∀ {ds s : Bytes} {u : ℕ} {c : Char} {r : Bytes} {out : Str}, Hex4 ds u →
      pairUp u (s ++ asciiByte '"' :: more) = (c, r) →
      stringLoop (unit ds ++ s ++ asciiByte '"' :: more) out = stringLoop r (out ++ [c]) := by
    intro ds s u c r out hds hpair
    rw [List.append_assoc]
    exact stringLoop_escape ((escape_unit hds _).trans (congrArg _ hpair))
  induction h generalizing out with
  | nil => rw [List.nil_append, stringLoop_quote, List.append_nil]
  | plain hlow hquote hback h ih =>
    rw [List.append_assoc, stringLoop_plain hlow hquote hback, ih, List.append_assoc]
    rfl
  | @invalid b s cs hb hnone h ih =>
    have hhigh : ¬ b < 0x80 := by
      rw [UInt8.lt_iff_toNat_lt]
      exact not_lt.mpr hb
    rw [List.cons_append, stringLoop_rune hhigh,
      decodeRune_invalid (decodeChar?_quote hb hnone more), List.drop_succ_cons, List.drop_zero, ih,
      List.append_assoc]
    rfl
  | simple hkind h ih =>
    rw [List.cons_append, List.cons_append, stringLoop_escape (escape_simple hkind _), ih,
      List.append_assoc]
    rfl
  | code hds hhigh hlow h ih =>
    rw [hescape hds (pairUp_code hds.lt hhigh hlow _), ih, List.append_assoc]
    rfl
  | pair hds hhigh hds' hlow h ih =>
    have hpair := pairUp_pair hhigh hds' hlow
    rw [hescape hds ((congrArg _ (List.append_assoc _ _ _)).trans (hpair _)), ih,
      List.append_assoc]
    rfl
  | @loneHigh ds s hi cs hds hhigh hnone h ih =>
    have hlow : lowSurrogate (s ++ asciiByte '"' :: more) = none := by
      cases hlow : lowSurrogate (s ++ asciiByte '"' :: more) with
      | none => rfl
      | some lo =>
        obtain ⟨ds', r, hr, hds', hlo⟩ := lowSurrogate_sound hlow
        have hquote : asciiByte '"' ∉ unit ds' := by
          rw [unit, List.mem_cons, List.mem_cons, not_or, not_or]
          exact ⟨by decide, by decide, hds'.ne_quote⟩
        obtain ⟨r', hr'⟩ := front_of_append hquote hr
        exact absurd hr' (hnone ds' lo r' hds' hlo)
    rw [hescape hds (pairUp_loneHigh hhigh hlow), ih, List.append_assoc]
    rfl
  | loneLow hds hlow h ih =>
    rw [hescape hds (pairUp_loneLow hlow _), ih, List.append_assoc]
    rfl

private theorem chars_of_pairUp {ds t r : Bytes} {u : ℕ} {c : Char} (hds : Hex4 ds u)
    (hpair : pairUp u rest = (c, r)) (hr : r = t ++ asciiByte '"' :: rest') (h : Chars t cs) :
    ∃ t', unit ds ++ rest = t' ++ asciiByte '"' :: rest' ∧ Chars t' (c :: cs) := by
  by_cases hhigh : High u
  · cases hlow : lowSurrogate rest with
    | some lo =>
      obtain ⟨ds', rest₂, rfl, hds', hlo⟩ := lowSurrogate_sound hlow
      rw [pairUp_pair hhigh hds' hlo] at hpair
      obtain ⟨rfl, rfl⟩ := Prod.mk.inj hpair
      exact ⟨unit ds ++ (unit ds' ++ t), by rw [hr]; simp only [List.append_assoc],
        .pair hds hhigh hds' hlo h⟩
    | none =>
      rw [pairUp_loneHigh hhigh hlow] at hpair
      cases hpair
      refine ⟨unit ds ++ t, by rw [hr, List.append_assoc], .loneHigh hds hhigh ?_ h⟩
      rintro ds' lo more hds' hlo rfl
      rw [hr, List.append_assoc, lowSurrogate_append hds' hlo] at hlow
      cases hlow
  · by_cases hlow : Low u
    · rw [pairUp_loneLow hlow] at hpair
      cases hpair
      exact ⟨unit ds ++ t, by rw [hr, List.append_assoc], .loneLow hds hlow h⟩
    · rw [pairUp_code hds.lt hhigh hlow] at hpair
      obtain ⟨rfl, rfl⟩ := Prod.mk.inj hpair
      exact ⟨unit ds ++ t, by rw [hr, List.append_assoc], .code hds hhigh hlow h⟩

private theorem stringLoop_sound {s : Str} (h : stringLoop rest out = .ok (s, rest')) :
    ∃ t cs, rest = t ++ asciiByte '"' :: rest' ∧ s = out ++ cs ∧ Chars t cs := by
  induction rest, out using stringLoop.induct with
  | case1 out =>
    rw [stringLoop] at h
    cases h
  | case2 out tail =>
    rw [stringLoop_quote] at h
    cases h
    exact ⟨[], [], rfl, (List.append_nil _).symm, .nil⟩
  | case3 out tail _ e hescape =>
    rw [stringLoop_escape_error hescape] at h
    cases h
  | case4 out tail ch r _ hescape ih =>
    rw [stringLoop_escape hescape] at h
    obtain ⟨t, cs, hr, rfl, hchars⟩ := ih h
    have hout : out ++ [ch] ++ cs = out ++ ch :: cs := by rw [List.append_assoc]; rfl
    rcases escape_sound hescape with ⟨kind, rfl, hkind⟩ | ⟨ds, u, rest, htail, hds, hpair⟩
    · exact ⟨asciiByte '\\' :: kind :: t, ch :: cs, by rw [hr]; rfl, hout, .simple hkind hchars⟩
    · obtain ⟨t', ht', hchars'⟩ := chars_of_pairUp hds hpair hr hchars
      exact ⟨t', ch :: cs, htail.trans ht', hout, hchars'⟩
  | case5 out c tail hquote hback hlow =>
    rw [stringLoop, if_neg hquote, if_neg hback, if_pos hlow] at h
    cases h
  | case6 out c tail hquote hback hlow hascii ih =>
    rw [stringLoop_ascii hquote hback hlow hascii] at h
    obtain ⟨t, cs, rfl, rfl, hchars⟩ := ih h
    have hlt : c.toNat < 128 := UInt8.lt_iff_toNat_lt.mp hascii
    have hnat : (Char.ofNat c.toNat).toNat = c.toNat := toNat_ofNat (Or.inl (by omega))
    have hbyte : asciiByte (Char.ofNat c.toNat) = c := by
      rw [asciiByte, hnat, UInt8.ofNat_toNat]
    have hplain := Chars.plain (c := Char.ofNat c.toNat)
      (by rw [hnat]; exact UInt8.le_iff_toNat_le.mp (UInt8.not_lt.mp hlow))
      (fun heq => hquote (by rw [← hbyte, heq])) (fun heq => hback (by rw [← hbyte, heq])) hchars
    rw [encode_ofNat hlt] at hplain
    exact ⟨c :: t, _ :: cs, rfl, by rw [List.append_assoc]; rfl, hplain⟩
  | case7 out c tail hquote hback hlow hascii r ih =>
    have hge : 0x80 ≤ c.toNat := UInt8.le_iff_toNat_le.mp (UInt8.not_lt.mp hascii)
    rw [stringLoop, if_neg hquote, if_neg hback, if_neg hlow, if_neg hascii] at h
    obtain ⟨t, cs, hrest, rfl, hchars⟩ := ih h
    rw [Nat.max_eq_left (decodeRune_length c tail).1] at hrest
    have hout : ∀ ch : Char, out ++ [ch] ++ cs = out ++ ch :: cs := by
      intro ch
      rw [List.append_assoc]
      rfl
    cases hdecode : decodeChar? (c :: tail) with
    | none =>
      have hr := decodeRune_invalid hdecode
      rw [hr, List.drop_succ_cons, List.drop_zero] at hrest
      refine ⟨c :: t, (decodeRune (c :: tail)).1 :: cs, by rw [hrest]; rfl, hout _, ?_⟩
      rw [hr]
      refine .invalid hge ?_ hchars
      intro ch more hmore
      rw [hrest, ← List.cons_append, hmore, List.append_assoc, decodeChar?_append] at hdecode
      cases hdecode
    | some ch =>
      obtain ⟨more, hmore⟩ := exists_of_decodeChar? hdecode
      have hr : decodeRune (c :: tail) = (ch, ch.utf8Size) := by rw [hmore, decodeRune_encode]
      rw [hr, hmore, ← String.length_utf8EncodeChar ch, List.drop_left] at hrest
      have hhigh : 128 ≤ ch.toNat := by
        by_contra hlt
        have hlt' : ch.toNat < 128 := not_le.mp hlt
        rw [encode_ascii hlt', List.singleton_append] at hmore
        rw [(List.cons.inj hmore).1, asciiByte, UInt8.toNat_ofNat'] at hge
        omega
      refine ⟨String.utf8EncodeChar ch ++ t, (decodeRune (c :: tail)).1 :: cs,
        by rw [hmore, hrest, List.append_assoc], hout _, ?_⟩
      rw [hr]
      refine .plain (by omega) ?_ ?_ hchars
      · rintro rfl
        exact absurd hhigh (by decide)
      · rintro rfl
        exact absurd hhigh (by decide)

theorem string_append {s : Str} {t : Bytes} (h : StringText s t) (more : Bytes) :
    string (t ++ more) = .ok (s, more) := by
  obtain ⟨h⟩ := h
  rw [string, List.cons_append, List.drop_succ_cons, List.drop_zero, List.append_assoc,
    List.singleton_append, stringLoop_append h, List.nil_append]

theorem string_sound {s : Str} (h : string (asciiByte '"' :: rest) = .ok (s, rest')) :
    ∃ t, asciiByte '"' :: rest = t ++ rest' ∧ StringText s t := by
  obtain ⟨t, cs, hrest, rfl, hchars⟩ := stringLoop_sound h
  rw [List.drop_succ_cons, List.drop_zero] at hrest
  refine ⟨asciiByte '"' :: (t ++ [asciiByte '"']), ?_, .mk hchars⟩
  rw [hrest, List.cons_append, List.append_assoc]
  rfl

theorem objectKey_append {key : Str} {k : Bytes} (h : KeyText key k) {more : Bytes}
    (hmore : skipWhitespace more = more) : objectKey (k ++ more) = .ok (key, more) := by
  obtain @⟨front, t, mid, back, hfront, hstring, hmid, hback⟩ := h
  have hquote : isSpace (asciiByte '"') = false := by decide
  have hcolon : isSpace (asciiByte ':') = false := by decide
  have hread := string_append hstring (mid ++ asciiByte ':' :: (back ++ more))
  obtain @⟨t, hchars⟩ := hstring
  have hskip : skipWhitespace (mid ++ asciiByte ':' :: (back ++ more)) =
      asciiByte ':' :: (back ++ more) := by
    rw [skipWhitespace_append hmid, skipWhitespace_cons hcolon]
  rw [List.append_assoc, List.append_assoc, List.append_assoc, List.cons_append, objectKey,
    skipWhitespace_append hfront, List.cons_append, skipWhitespace_cons hquote]
  dsimp only
  rw [List.cons_append] at hread
  rw [if_neg fun hne => hne rfl, hread]
  show afterKey key (skipWhitespace _) = _
  rw [hskip, afterKey, if_pos rfl, skipWhitespace_append hback, hmore]

theorem objectKey_sound {key : Str} (h : objectKey rest = .ok (key, rest')) :
    ∃ k, rest = k ++ rest' ∧ KeyText key k ∧ skipWhitespace rest' = rest' := by
  obtain ⟨front, hrest, hfront⟩ := exists_ws rest
  rw [objectKey] at h
  cases hskip : skipWhitespace rest with
  | nil =>
    rw [hskip] at h
    cases h
  | cons b tail =>
    rw [hskip] at h hrest
    dsimp only at h
    split_ifs at h with hquote
    rw [not_not] at hquote
    subst hquote
    cases hstring : string (asciiByte '"' :: tail) with
    | error e =>
      rw [hstring] at h
      cases h
    | ok r =>
      rw [hstring] at h
      change afterKey r.1 (skipWhitespace r.2) = _ at h
      obtain ⟨t, ht, htext⟩ := string_sound hstring
      obtain ⟨mid, hr, hmid⟩ := exists_ws r.2
      cases hcolon : skipWhitespace r.2 with
      | nil =>
        rw [hcolon] at h
        cases h
      | cons b tail' =>
        rw [hcolon] at h hr
        rw [afterKey] at h
        split_ifs at h with hb
        obtain ⟨back, htail', hback⟩ := exists_ws tail'
        cases h
        subst hb
        refine ⟨front ++ (t ++ (mid ++ asciiByte ':' :: back)), ?_, .mk hfront htext hmid hback, ?_⟩
        · rw [hrest, ht, hr]
          conv_lhs => rw [htail']
          simp only [List.append_assoc, List.cons_append]
        · exact List.dropWhile_idempotent isSpace tail'

end Strings

/-! Literals -/

theorem literalLoop_append (lit : Str) (wants more : Bytes) :
    literalLoop lit wants (wants ++ more) = .ok more := by
  induction wants with
  | nil => rfl
  | cons want wants ih => rw [List.cons_append, literalLoop, if_pos rfl, ih]

theorem literalLoop_sound {lit : Str} {wants rest rest' : Bytes}
    (h : literalLoop lit wants rest = .ok rest') : rest = wants ++ rest' := by
  induction wants generalizing rest with
  | nil =>
    cases h
    rfl
  | cons want wants ih =>
    cases rest with
    | nil => cases h
    | cons c rest =>
      rw [literalLoop] at h
      split_ifs at h with hc
      rw [hc, ih h, List.cons_append]

end Kcptun.Setup.JsonGrammar
