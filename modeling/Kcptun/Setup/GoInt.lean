/- Kcptun/Setup/GoInt
   source: crates/std/src/cli.rs (NumError, lower, parse_uint_base0, underscore_ok,
     parse_int_base0)
   digest: Integers of the command line: base, digits and underscores are read in separate passes,
     and together they accept exactly the literals whose value fits. -/

import Kcptun.Lib.Utf8
import Mathlib.Data.Nat.Digits.Lemmas

set_option autoImplicit false
set_option relaxedAutoImplicit false

namespace Kcptun.Setup.GoInt

open Kcptun.Lib.LittleEndian (Bytes)
open Kcptun.Lib.Utf8

inductive NumError where
  | syntaxError
  | range
deriving DecidableEq

def lower (c : UInt8) : UInt8 := c ||| 0x20

def isAsciiDigit (c : UInt8) : Bool := asciiByte '0' ≤ c && c ≤ asciiByte '9'

def isAsciiLowercase (c : UInt8) : Bool := asciiByte 'a' ≤ c && c ≤ asciiByte 'z'

def digit (c : UInt8) : Option UInt64 :=
  if isAsciiDigit c then some (c - asciiByte '0').toUInt64
  else if isAsciiLowercase (lower c) then some (lower c - asciiByte 'a' + 10).toUInt64
  else none

def U64_MAX : UInt64 := 0xffffffffffffffff

/-- `a * b`, which panics where it overflows. -/
def checkedMul (a b : UInt64) : Option UInt64 :=
  if a.toNat * b.toNat < 2 ^ 64 then some (a * b) else none

/-- The loop over the bytes of the body: the number so far, and whether an underscore was seen. -/
def uintLoop (base cutoff : UInt64) : Bytes → UInt64 → Bool →
    Option (Except NumError (UInt64 × Bool))
  | [], n, underscores => some (.ok (n, underscores))
  | c :: body, n, underscores =>
    if c = asciiByte '_' then uintLoop base cutoff body n true
    else
      match digit c with
      | none => some (.error .syntaxError)
      | some d =>
        if d ≥ base then some (.error .syntaxError)
        else if n ≥ cutoff then some (.error .range)
        else
          (checkedMul n base).bind fun n =>
          if n + d < n ∨ n + d > U64_MAX then some (.error .range)
          else uintLoop base cutoff body (n + d) underscores

/-- The letter behind a leading zero that tells the base, when there is something behind it. -/
def letterIs (bytes : Bytes) (letter : Char) : Bool :=
  bytes.length ≥ 3 && bytes[1]?.map lower == some (asciiByte letter)

def splitBase (s : Str) : Option (UInt64 × Str) :=
  (utf8 s)[0]?.bind fun first =>
  if first = asciiByte '0' then
    if letterIs (utf8 s) 'b' then (sliceFrom s 2).map fun body => (2, body)
    else if letterIs (utf8 s) 'o' then (sliceFrom s 2).map fun body => (8, body)
    else if letterIs (utf8 s) 'x' then (sliceFrom s 2).map fun body => (16, body)
    else (sliceFrom s 1).map fun body => (8, body)
  else some (10, s)

inductive Saw where
  | start
  | digit
  | underscore
  | other
deriving DecidableEq

/-- The loop over the bytes, `hex` with the letters of a hexadecimal literal as digits. -/
def underscoreLoop (hex : Bool) : Bytes → Saw → Bool
  | [], saw => saw ≠ .underscore
  | c :: b, saw =>
    if isAsciiDigit c || (hex && asciiByte 'a' ≤ lower c && lower c ≤ asciiByte 'f') then
      underscoreLoop hex b .digit
    else if c = asciiByte '_' then
      if saw ≠ .digit then false else underscoreLoop hex b .underscore
    else if saw = .underscore then false
    else underscoreLoop hex b .other

def skipSign : Bytes → Bytes
  | [] => []
  | c :: b => if c = asciiByte '-' ∨ c = asciiByte '+' then b else c :: b

def baseLetter : Bytes → Option UInt8
  | zero :: letter :: _ =>
    if zero = asciiByte '0' ∧ (lower letter = asciiByte 'b' ∨ lower letter = asciiByte 'o' ∨
        lower letter = asciiByte 'x') then some (lower letter)
    else none
  | _ => none

/-- Whether the underscores are between digits, or between the base and the first digit. -/
def underscoreOk (s : Str) : Bool :=
  let b := skipSign (utf8 s)
  match baseLetter b with
  | some letter => underscoreLoop (letter == asciiByte 'x') (b.drop 2) .digit
  | none => underscoreLoop false b .start

/-- `strconv.ParseUint(s, 0, 64)`. No result is a panic. -/
def parseUintBase0 (s : Str) : Option (Except NumError UInt64) :=
  if s = [] then some (.error .syntaxError)
  else
    (splitBase s).bind fun split =>
    (uintLoop split.1 (U64_MAX / split.1 + 1) (utf8 split.2) 0 false).map fun
      | .error e => .error e
      | .ok (n, underscores) =>
        if underscores && !underscoreOk s then .error .syntaxError else .ok n

/-- The sign, and what is behind it. -/
def splitSign (s : Str) : Option (Bool × Str) :=
  (utf8 s)[0]?.bind fun first =>
  if first = asciiByte '+' then (sliceFrom s 1).map fun rest => (false, rest)
  else if first = asciiByte '-' then (sliceFrom s 1).map fun rest => (true, rest)
  else some (false, s)

def signed (neg : Bool) (un : UInt64) : Except NumError Int64 :=
  let cutoff := (1 : UInt64) <<< 63
  if !neg && un ≥ cutoff then .error .range
  else if neg && un > cutoff then .error .range
  else
    let n := un.toInt64
    .ok (if neg then -n else n)

/-- `strconv.ParseInt(s, 0, 64)`. -/
def parseIntBase0 (s : Str) : Option (Except NumError Int64) :=
  if s = [] then some (.error .syntaxError)
  else
    (splitSign s).bind fun split =>
    (parseUintBase0 split.2).map fun
      | .error e => .error e
      | .ok un => signed split.1 un

/-! The literals -/

def DigitChar (base : ℕ) (c : Char) (d : ℕ) : Prop :=
  d < base ∧ (c = Nat.digitChar d ∨ c = (Nat.digitChar d).toUpper)

/-- Digits, each with at most one underscore in front. -/
inductive Tail (base : ℕ) : List ℕ → Str → Prop where
  | nil : Tail base [] []
  | digit {c : Char} {d : ℕ} {ds : List ℕ} {s : Str} (hc : DigitChar base c d)
      (hs : Tail base ds s) : Tail base (d :: ds) (c :: s)
  | underscore {c : Char} {d : ℕ} {ds : List ℕ} {s : Str} (hc : DigitChar base c d)
      (hs : Tail base ds s) : Tail base (d :: ds) ('_' :: c :: s)

inductive BaseLetter : Char → ℕ → Prop where
  | binary {c : Char} (h : c = 'b' ∨ c = 'B') : BaseLetter c 2
  | octal {c : Char} (h : c = 'o' ∨ c = 'O') : BaseLetter c 8
  | hex {c : Char} (h : c = 'x' ∨ c = 'X') : BaseLetter c 16

def valueFrom (base n : ℕ) (ds : List ℕ) : ℕ := ds.foldl (fun n d => n * base + d) n

inductive UintLiteral : Str → ℕ → Prop where
  | decimal {c : Char} {d : ℕ} {ds : List ℕ} {s : Str} (hc : DigitChar 10 c d) (hnz : d ≠ 0)
      (hs : Tail 10 ds s) : UintLiteral (c :: s) (valueFrom 10 0 (d :: ds))
  | octal {ds : List ℕ} {s : Str} (hs : Tail 8 ds s) : UintLiteral ('0' :: s) (valueFrom 8 0 ds)
  | based {c : Char} {base : ℕ} {ds : List ℕ} {s : Str} (hc : BaseLetter c base)
      (hs : Tail base ds s) (hne : ds ≠ []) : UintLiteral ('0' :: c :: s) (valueFrom base 0 ds)

inductive IntLiteral : Str → ℤ → Prop where
  | plain {s : Str} {v : ℕ} (h : UintLiteral s v) : IntLiteral s v
  | plus {s : Str} {v : ℕ} (h : UintLiteral s v) : IntLiteral ('+' :: s) v
  | minus {s : Str} {v : ℕ} (h : UintLiteral s v) : IntLiteral ('-' :: s) (-v)

def decimalText (i : ℤ) : Str :=
  if i < 0 then '-' :: Nat.toDigits 10 i.natAbs else Nat.toDigits 10 i.natAbs

/-! Digits -/

section Digits

variable {base d : ℕ} {c : Char}

private theorem digits_read : ∀ d < 16,
    ((Nat.digitChar d).toNat < 128 ∧ Nat.digitChar d ≠ '_' ∧
      digit (asciiByte (Nat.digitChar d)) = some (UInt64.ofNat d)) ∧
    ((Nat.digitChar d).toUpper.toNat < 128 ∧ (Nat.digitChar d).toUpper ≠ '_' ∧
      digit (asciiByte (Nat.digitChar d).toUpper) = some (UInt64.ofNat d)) := by decide

private theorem DigitChar.read (h : DigitChar base c d) (hbase : base ≤ 16) :
    c.toNat < 128 ∧ c ≠ '_' ∧ digit (asciiByte c) = some (UInt64.ofNat d) := by
  obtain ⟨hd, rfl | rfl⟩ := h
  · exact (digits_read d (hd.trans_le hbase)).1
  · exact (digits_read d (hd.trans_le hbase)).2

private theorem bytes_read : ∀ n < 128, ((digit (UInt8.ofNat n)).all fun d =>
    d.toNat ≥ 16 || Char.ofNat n == Nat.digitChar d.toNat ||
      Char.ofNat n == (Nat.digitChar d.toNat).toUpper) = true := by
  decide +kernel

private theorem high_bytes : ∀ n < 256, 128 ≤ n → digit (UInt8.ofNat n) = none := by
  decide +kernel

private theorem digit_high {b : UInt8} (hb : 128 ≤ b.toNat) : digit b = none := by
  have h := high_bytes b.toNat b.toNat_lt hb
  rwa [UInt8.ofNat_toNat] at h

private theorem digitChar_of_digit (hc : c.toNat < 128) (hbase : base ≤ 16) {d : UInt64}
    (h : digit (asciiByte c) = some d) (hd : d.toNat < base) : DigitChar base c d.toNat := by
  have hread := bytes_read c.toNat hc
  rw [show digit (UInt8.ofNat c.toNat) = some d from h, Option.all_some, Char.ofNat_toNat,
    Bool.or_eq_true, Bool.or_eq_true, decide_eq_true_eq, beq_iff_eq, beq_iff_eq] at hread
  refine ⟨hd, ?_⟩
  rcases hread with (hbig | hchar) | hchar
  · omega
  · exact Or.inl hchar
  · exact Or.inr hchar

private theorem encode_high (hc : 128 ≤ c.toNat) :
    ∃ b tl, String.utf8EncodeChar c = b :: tl ∧ 128 ≤ b.toNat := by
  cases hencode : String.utf8EncodeChar c with
  | nil =>
    have hlen := String.length_utf8EncodeChar c
    have hpos := Char.utf8Size_pos c
    rw [hencode, List.length_nil] at hlen
    omega
  | cons b tl => exact ⟨b, tl, rfl, le_of_mem_encode hc (hencode ▸ List.mem_cons_self)⟩

private theorem valueFrom_cons (base n d : ℕ) (ds : List ℕ) :
    valueFrom base n (d :: ds) = valueFrom base (n * base + d) ds := rfl

private theorem le_valueFrom (hbase : 0 < base) (n : ℕ) (ds : List ℕ) :
    n ≤ valueFrom base n ds := by
  induction ds generalizing n with
  | nil => exact le_rfl
  | cons d ds ih =>
    rw [valueFrom_cons]
    exact ((Nat.le_mul_of_pos_right n hbase).trans (Nat.le_add_right _ _)).trans (ih _)

end Digits

/-- Digits of a base, with underscores anywhere. -/
def Loose (base : ℕ) (ds : List ℕ) (s : Str) : Prop :=
  List.Forall₂ (DigitChar base) (s.filter (· ≠ '_')) ds

section LooseLemmas

variable {base d : ℕ} {ds : List ℕ} {c : Char} {s : Str}

private theorem loose_nil : Loose base ds [] ↔ ds = [] := List.forall₂_nil_left_iff

private theorem loose_underscore : Loose base ds ('_' :: s) ↔ Loose base ds s := by
  rw [Loose, Loose, List.filter_cons_of_neg (by decide)]

private theorem loose_cons (hc : c ≠ '_') : Loose base ds (c :: s) ↔
    ∃ d ds', DigitChar base c d ∧ Loose base ds' s ∧ ds = d :: ds' := by
  have hfilter : (c :: s).filter (· ≠ '_') = c :: s.filter (· ≠ '_') :=
    List.filter_cons_of_pos (by simpa using hc)
  rw [Loose, hfilter, List.forall₂_cons_left_iff]
  rfl

private theorem Tail.loose (h : Tail base ds s) (hbase : base ≤ 16) : Loose base ds s := by
  induction h with
  | nil => exact loose_nil.mpr rfl
  | digit hc hs ih => exact (loose_cons (hc.read hbase).2.1).mpr ⟨_, _, hc, ih, rfl⟩
  | underscore hc hs ih =>
    exact loose_underscore.mpr ((loose_cons (hc.read hbase).2.1).mpr ⟨_, _, hc, ih, rfl⟩)

private theorem Loose.tail (h : Loose base ds s) (hnone : '_' ∉ s) : Tail base ds s := by
  induction s generalizing ds with
  | nil =>
    rw [loose_nil.mp h]
    exact .nil
  | cons c s ih =>
    rw [List.mem_cons, not_or] at hnone
    obtain ⟨d, ds', hc, hs, rfl⟩ := (loose_cons (Ne.symm hnone.1)).mp h
    exact .digit hc (ih hs hnone.2)

end LooseLemmas

/-! The loop over the digits -/

section UintLoop

variable {base : UInt64} {d : ℕ} {ds : List ℕ} {c : Char} {s : Str} {n : UInt64} {u : Bool}

private theorem cutoff_le_iff (hlow : 2 ≤ base.toNat) (n : UInt64) :
    U64_MAX / base + 1 ≤ n ↔ 2 ^ 64 ≤ n.toNat * base.toNat := by
  have hmax : U64_MAX.toNat = 2 ^ 64 - 1 := by decide
  have hdiv : (2 ^ 64 - 1) / base.toNat ≤ (2 ^ 64 - 1) / 2 := Nat.div_le_div_left hlow (by decide)
  have hcut : (U64_MAX / base + 1).toNat = (2 ^ 64 - 1) / base.toNat + 1 := by
    have hone : (1 : UInt64).toNat = 1 := rfl
    rw [UInt64.toNat_add, UInt64.toNat_div, hmax, hone]
    exact Nat.mod_eq_of_lt (by omega)
  rw [UInt64.le_iff_toNat_le, hcut, Nat.succ_le_iff, Nat.div_lt_iff_lt_mul (by omega)]
  omega

private theorem uintLoop_underscore : uintLoop base (U64_MAX / base + 1) (utf8 ('_' :: s)) n u =
    uintLoop base (U64_MAX / base + 1) (utf8 s) n true := by
  rw [utf8_cons, encode_ascii (by decide), List.singleton_append, uintLoop, if_pos rfl]

private theorem uintLoop_digit (hlow : 2 ≤ base.toNat) (hhigh : base.toNat ≤ 16)
    (hc : DigitChar base.toNat c d) : uintLoop base (U64_MAX / base + 1) (utf8 (c :: s)) n u =
      if n.toNat * base.toNat + d < 2 ^ 64 then
        uintLoop base (U64_MAX / base + 1) (utf8 s) (UInt64.ofNat (n.toNat * base.toNat + d)) u
      else some (.error .range) := by
  obtain ⟨hascii, hne, hdigit⟩ := hc.read hhigh
  have hd : (UInt64.ofNat d).toNat = d := by
    rw [UInt64.toNat_ofNat']
    exact Nat.mod_eq_of_lt (by have := hc.1; omega)
  have hbyte : asciiByte c ≠ asciiByte '_' := by
    intro heq
    rw [heq] at hdigit
    cases hdigit
  have hlt : ¬ UInt64.ofNat d ≥ base := by
    rw [ge_iff_le, UInt64.le_iff_toNat_le, hd]
    exact not_le.mpr hc.1
  rw [utf8_cons, encode_ascii hascii, List.singleton_append, uintLoop, if_neg hbyte, hdigit]
  dsimp only
  rw [if_neg hlt]
  by_cases hmul : 2 ^ 64 ≤ n.toNat * base.toNat
  · have hcut : n ≥ U64_MAX / base + 1 := (cutoff_le_iff hlow n).mpr hmul
    rw [if_pos hcut, if_neg (by omega)]
  · have hcut : ¬ n ≥ U64_MAX / base + 1 := fun h => hmul ((cutoff_le_iff hlow n).mp h)
    have hprod : (n * base).toNat = n.toNat * base.toNat := by
      rw [UInt64.toNat_mul]
      exact Nat.mod_eq_of_lt (not_le.mp hmul)
    have hsum : (n * base + UInt64.ofNat d).toNat = (n.toNat * base.toNat + d) % 2 ^ 64 := by
      rw [UInt64.toNat_add, hprod, hd]
    have hmax : ¬ n * base + UInt64.ofNat d > U64_MAX := by
      have hbound := (n * base + UInt64.ofNat d).toNat_lt
      have hmax : U64_MAX.toNat = 2 ^ 64 - 1 := by decide
      rw [gt_iff_lt, UInt64.lt_iff_toNat_lt, hmax]
      omega
    rw [if_neg hcut, checkedMul, if_pos (not_le.mp hmul), Option.bind_some]
    by_cases hfits : n.toNat * base.toNat + d < 2 ^ 64
    · have hstay : ¬ n * base + UInt64.ofNat d < n * base := by
        rw [UInt64.lt_iff_toNat_lt, hsum, hprod, Nat.mod_eq_of_lt hfits]
        omega
      have hnext : n * base + UInt64.ofNat d = UInt64.ofNat (n.toNat * base.toNat + d) := by
        rw [← UInt64.toNat_inj, hsum, UInt64.toNat_ofNat']
      rw [if_neg (not_or.mpr ⟨hstay, hmax⟩), if_pos hfits, hnext]
    · have hwrap : n * base + UInt64.ofNat d < n * base := by
        have hdlt := hc.1
        rw [UInt64.lt_iff_toNat_lt, hsum, hprod]
        omega
      rw [if_pos (Or.inl hwrap), if_neg hfits]

private theorem uintLoop_other (hhigh : base.toNat ≤ 16) (hc : ∀ d, ¬ DigitChar base.toNat c d)
    (hne : c ≠ '_') : uintLoop base (U64_MAX / base + 1) (utf8 (c :: s)) n u =
      some (.error .syntaxError) := by
  by_cases hascii : c.toNat < 128
  · have hbyte : asciiByte c ≠ asciiByte '_' := by
      intro heq
      have hnat := congrArg UInt8.toNat heq
      rw [asciiByte, UInt8.toNat_ofNat', Nat.mod_eq_of_lt (by omega)] at hnat
      exact hne (Char.toNat_inj.mp hnat)
    rw [utf8_cons, encode_ascii hascii, List.singleton_append, uintLoop, if_neg hbyte]
    cases hdigit : digit (asciiByte c) with
    | none => rfl
    | some d =>
      have hge : d ≥ base := by
        by_contra hlt
        rw [ge_iff_le, UInt64.le_iff_toNat_le] at hlt
        exact hc _ (digitChar_of_digit hascii hhigh hdigit (not_le.mp hlt))
      dsimp only
      rw [if_pos hge]
  · obtain ⟨b, tl, hencode, hb⟩ := encode_high (not_lt.mp hascii)
    have hbyte : b ≠ asciiByte '_' := by
      rintro rfl
      exact absurd hb (by decide)
    rw [utf8_cons, hencode, List.cons_append, uintLoop, if_neg hbyte, digit_high hb]

private theorem uintLoop_loose (hlow : 2 ≤ base.toNat) (hhigh : base.toNat ≤ 16)
    (h : Loose base.toNat ds s) : uintLoop base (U64_MAX / base + 1) (utf8 s) n u =
      if valueFrom base.toNat n.toNat ds < 2 ^ 64 then
        some (.ok (UInt64.ofNat (valueFrom base.toNat n.toNat ds), u || decide ('_' ∈ s)))
      else some (.error .range) := by
  induction s generalizing ds n u with
  | nil =>
    rw [loose_nil.mp h]
    show some (Except.ok (n, u)) = if n.toNat < 2 ^ 64 then _ else _
    rw [if_pos n.toNat_lt]
    simp [valueFrom]
  | cons c s ih =>
    by_cases hc : c = '_'
    · subst hc
      rw [uintLoop_underscore, ih (loose_underscore.mp h)]
      simp
    · obtain ⟨d, ds', hdigit, hs, rfl⟩ := (loose_cons hc).mp h
      rw [uintLoop_digit hlow hhigh hdigit, valueFrom_cons]
      by_cases hfits : n.toNat * base.toNat + d < 2 ^ 64
      · have hnat : (UInt64.ofNat (n.toNat * base.toNat + d)).toNat = n.toNat * base.toNat + d := by
          rw [UInt64.toNat_ofNat', Nat.mod_eq_of_lt hfits]
        have hmem : decide ('_' ∈ c :: s) = decide ('_' ∈ s) := by
          simp [Ne.symm hc]
        rw [if_pos hfits, ih hs, hnat, hmem]
      · have hle : n.toNat * base.toNat + d ≤ valueFrom base.toNat (n.toNat * base.toNat + d) ds' :=
          le_valueFrom (by omega) _ ds'
        rw [if_neg hfits, if_neg (by omega)]

private theorem uintLoop_not_loose (hlow : 2 ≤ base.toNat) (hhigh : base.toNat ≤ 16)
    (h : ∀ ds, ¬ Loose base.toNat ds s) :
    ∃ e, uintLoop base (U64_MAX / base + 1) (utf8 s) n u = some (.error e) := by
  induction s generalizing n u with
  | nil => exact absurd (loose_nil.mpr rfl) (h [])
  | cons c s ih =>
    by_cases hc : c = '_'
    · subst hc
      rw [uintLoop_underscore]
      exact ih fun ds hds => h ds (loose_underscore.mpr hds)
    · by_cases hdigit : ∃ d, DigitChar base.toNat c d
      · obtain ⟨d, hd⟩ := hdigit
        rw [uintLoop_digit hlow hhigh hd]
        split_ifs
        · exact ih fun ds hds => h (d :: ds) ((loose_cons hc).mpr ⟨d, ds, hd, hds, rfl⟩)
        · exact ⟨_, rfl⟩
      · exact ⟨_, uintLoop_other hhigh (fun d hd => hdigit ⟨d, hd⟩) hc⟩

end UintLoop

/-! The pass over the underscores -/

section UnderscoreLoop

variable {base d : ℕ} {ds : List ℕ} {c : Char} {s : Str} {hex : Bool} {saw : Saw}

private theorem digits_seen : ∀ d < 16,
    (isAsciiDigit (asciiByte (Nat.digitChar d)) = true ∧
      isAsciiDigit (asciiByte (Nat.digitChar d).toUpper) = true) ∨
    10 ≤ d ∧ (asciiByte 'a' ≤ lower (asciiByte (Nat.digitChar d)) ∧
        lower (asciiByte (Nat.digitChar d)) ≤ asciiByte 'f') ∧
      asciiByte 'a' ≤ lower (asciiByte (Nat.digitChar d).toUpper) ∧
        lower (asciiByte (Nat.digitChar d).toUpper) ≤ asciiByte 'f' := by decide

private theorem underscoreLoop_digit (hbase : base ≤ 16) (hcover : base ≤ 10 ∨ hex = true)
    (hc : DigitChar base c d) :
    underscoreLoop hex (utf8 (c :: s)) saw = underscoreLoop hex (utf8 s) .digit := by
  have hd := hc.1
  have hseen : (isAsciiDigit (asciiByte c) ||
      (hex && asciiByte 'a' ≤ lower (asciiByte c) &&
        lower (asciiByte c) ≤ asciiByte 'f')) = true := by
    rcases digits_seen d (by omega) with ⟨hlow, hup⟩ | ⟨hten, hlow, hup⟩
    · rcases hc.2 with rfl | rfl
      · rw [hlow, Bool.true_or]
      · rw [hup, Bool.true_or]
    · have hhex : hex = true := hcover.resolve_left (by omega)
      rcases hc.2 with rfl | rfl
      · simp [hhex, hlow]
      · simp [hhex, hup]
  rw [utf8_cons, encode_ascii (hc.read hbase).1, List.singleton_append, underscoreLoop,
    if_pos hseen]

private theorem underscoreLoop_underscore : underscoreLoop hex (utf8 ('_' :: s)) saw =
    if saw ≠ .digit then false else underscoreLoop hex (utf8 s) .underscore := by
  have hseen : (isAsciiDigit (asciiByte '_') || (hex && asciiByte 'a' ≤ lower (asciiByte '_') &&
      lower (asciiByte '_') ≤ asciiByte 'f')) = false := by cases hex <;> decide
  rw [utf8_cons, encode_ascii (by decide), List.singleton_append, underscoreLoop, hseen,
    if_neg Bool.false_ne_true, if_pos rfl]

def DigitTail (base : ℕ) (ds : List ℕ) (s : Str) : Prop :=
  ∃ c s' d ds', s = c :: s' ∧ ds = d :: ds' ∧ DigitChar base c d ∧ Tail base ds' s'

private theorem tail_underscore (hbase : base ≤ 16) :
    Tail base ds ('_' :: s) ↔ DigitTail base ds s := by
  constructor
  · intro h
    cases h with
    | digit hc hs => exact absurd rfl (hc.read hbase).2.1
    | @underscore c d ds s hc hs => exact ⟨c, s, d, ds, rfl, rfl, hc, hs⟩
  · rintro ⟨c, s', d, ds', rfl, rfl, hc, hs⟩
    exact .underscore hc hs

private theorem tail_cons (hne : c ≠ '_') (hc : DigitChar base c d) :
    Tail base (d :: ds) (c :: s) ↔ Tail base ds s := by
  constructor
  · intro h
    cases h with
    | digit _ hs => exact hs
    | underscore => exact absurd rfl hne
  · exact .digit hc

/-- Behind a digit the pass accepts the tails, and behind an underscore those with a digit in
front. -/
theorem underscoreLoop_iff (hbase : base ≤ 16) (hcover : base ≤ 10 ∨ hex = true)
    (h : Loose base ds s) : (underscoreLoop hex (utf8 s) .digit = true ↔ Tail base ds s) ∧
      (underscoreLoop hex (utf8 s) .underscore = true ↔ DigitTail base ds s) := by
  induction s generalizing ds with
  | nil =>
    rw [loose_nil.mp h]
    refine ⟨⟨fun _ => .nil, fun _ => rfl⟩, ⟨fun h => (by cases h), ?_⟩⟩
    rintro ⟨c, s', d, ds', hs, -⟩
    cases hs
  | cons c s ih =>
    by_cases hne : c = '_'
    · subst hne
      have hs := ih (loose_underscore.mp h)
      rw [underscoreLoop_underscore, underscoreLoop_underscore, tail_underscore hbase]
      refine ⟨hs.2, ⟨fun h => (by cases h), ?_⟩⟩
      rintro ⟨c, s', d, ds', heq, rfl, hc, -⟩
      exact absurd (List.cons.inj heq).1.symm (hc.read hbase).2.1
    · obtain ⟨d, ds', hc, hs, rfl⟩ := (loose_cons hne).mp h
      rw [underscoreLoop_digit hbase hcover hc, underscoreLoop_digit hbase hcover hc,
        tail_cons hne hc, (ih hs).1]
      refine ⟨Iff.rfl, ⟨fun htail => ⟨c, s, d, ds', rfl, rfl, hc, htail⟩, ?_⟩⟩
      rintro ⟨c', s', d', ds'', hs', hds, -, htail⟩
      obtain ⟨rfl, rfl⟩ := List.cons.inj hs'
      obtain ⟨rfl, rfl⟩ := List.cons.inj hds
      exact htail

end UnderscoreLoop

/-! The base -/

section Base

variable {c d p : Char} {rest s : Str} {base : ℕ} {ds : List ℕ}

private theorem head_utf8 (c : Char) (s : Str) : ∃ b tl, utf8 (c :: s) = b :: tl ∧
    ∀ d : Char, d.toNat < 128 → (b = asciiByte d ↔ c = d) := by
  by_cases hc : c.toNat < 128
  · refine ⟨asciiByte c, utf8 s, ?_, fun d hd => asciiByte_inj hc hd⟩
    rw [utf8_cons, encode_ascii hc, List.singleton_append]
  · obtain ⟨b, tl, hencode, hb⟩ := encode_high (not_lt.mp hc)
    refine ⟨b, tl ++ utf8 s, by rw [utf8_cons, hencode, List.cons_append], ?_⟩
    intro d hd
    constructor
    · rintro rfl
      rw [asciiByte, UInt8.toNat_ofNat', Nat.mod_eq_of_lt (by omega)] at hb
      omega
    · rintro rfl
      exact absurd hd hc

private theorem lower_letters : ∀ n < 256,
    (lower (UInt8.ofNat n) = asciiByte 'b' ↔
      UInt8.ofNat n = asciiByte 'b' ∨ UInt8.ofNat n = asciiByte 'B') ∧
    (lower (UInt8.ofNat n) = asciiByte 'o' ↔
      UInt8.ofNat n = asciiByte 'o' ∨ UInt8.ofNat n = asciiByte 'O') ∧
    (lower (UInt8.ofNat n) = asciiByte 'x' ↔
      UInt8.ofNat n = asciiByte 'x' ∨ UInt8.ofNat n = asciiByte 'X') := by decide +kernel

structure Letter (small capital : Char) : Prop where
  small_ascii : small.toNat < 128
  capital_ascii : capital.toNat < 128
  lower_iff : ∀ b, lower b = asciiByte small ↔ b = asciiByte small ∨ b = asciiByte capital

private theorem letter_b : Letter 'b' 'B' where
  small_ascii := by decide
  capital_ascii := by decide
  lower_iff b := by
    have h := (lower_letters b.toNat b.toNat_lt).1
    rwa [UInt8.ofNat_toNat] at h

private theorem letter_o : Letter 'o' 'O' where
  small_ascii := by decide
  capital_ascii := by decide
  lower_iff b := by
    have h := (lower_letters b.toNat b.toNat_lt).2.1
    rwa [UInt8.ofNat_toNat] at h

private theorem letter_x : Letter 'x' 'X' where
  small_ascii := by decide
  capital_ascii := by decide
  lower_iff b := by
    have h := (lower_letters b.toNat b.toNat_lt).2.2
    rwa [UInt8.ofNat_toNat] at h

private theorem Letter.of_char {small capital : Char} (h : Letter small capital) {b : UInt8}
    (hb : ∀ d : Char, d.toNat < 128 → (b = asciiByte d ↔ c = d)) :
    lower b = asciiByte small ↔ c = small ∨ c = capital := by
  rw [h.lower_iff, hb _ h.small_ascii, hb _ h.capital_ascii]

private theorem utf8_zero (rest : Str) : utf8 ('0' :: rest) = asciiByte '0' :: utf8 rest := by
  rw [utf8_cons, encode_ascii (by decide), List.singleton_append]

private theorem letterIs_iff {small capital : Char} (h : Letter small capital) :
    letterIs (utf8 ('0' :: rest)) small = true ↔
      ∃ p body, rest = p :: body ∧ (p = small ∨ p = capital) ∧ body ≠ [] := by
  rw [utf8_zero, letterIs]
  cases rest with
  | nil =>
    refine ⟨fun h => (by cases h), ?_⟩
    rintro ⟨p, body, heq, -⟩
    cases heq
  | cons p body =>
    obtain ⟨b, tl, hutf8, hb⟩ := head_utf8 p body
    have hget : (asciiByte '0' :: utf8 (p :: body))[1]? = some b := by rw [hutf8]; rfl
    have hlen : (utf8 (p :: body)).length = p.utf8Size + size body := size_cons p body
    rw [hget, Option.map_some, List.length_cons, hlen, Bool.and_eq_true, decide_eq_true_eq,
      beq_iff_eq, Option.some.injEq, h.of_char hb]
    constructor
    · rintro ⟨hge, hp⟩
      refine ⟨p, body, rfl, hp, ?_⟩
      rintro rfl
      have hone : p.utf8Size = 1 := by
        rw [← String.length_utf8EncodeChar, encode_ascii]
        · rfl
        · rcases hp with rfl | rfl
          · exact h.small_ascii
          · exact h.capital_ascii
      rw [hone] at hge
      exact absurd hge (by decide)
    · rintro ⟨p', body', heq, hp, hne⟩
      obtain ⟨rfl, rfl⟩ := List.cons.inj heq
      have hpos := Char.utf8Size_pos p
      have hsize : size body ≠ 0 := fun hzero => hne (size_eq_zero hzero)
      exact ⟨by omega, hp⟩

private theorem splitBase_based {body : Str} (hp : BaseLetter p base) (hne : body ≠ []) :
    splitBase ('0' :: p :: body) = some (UInt64.ofNat base, body) := by
  have hget : (utf8 ('0' :: p :: body))[0]? = some (asciiByte '0') := by rw [utf8_zero]; rfl
  have hiff : ∀ {small capital : Char}, Letter small capital →
      (letterIs (utf8 ('0' :: p :: body)) small = true ↔ p = small ∨ p = capital) := by
    intro small capital h
    rw [letterIs_iff h]
    constructor
    · rintro ⟨p', body', heq, hp', -⟩
      rw [(List.cons.inj heq).1]
      exact hp'
    · intro hp'
      exact ⟨p, body, rfl, hp', hne⟩
  have hslice : p.utf8Size = 1 → sliceFrom ('0' :: p :: body) 2 = some body := by
    intro hone
    have hsize : size ['0', p] = 2 := by
      rw [size_cons, size_cons, hone]
      rfl
    rw [← hsize]
    exact sliceFrom_append ['0', p] body
  rw [splitBase, hget, Option.bind_some, if_pos rfl]
  cases hp with
  | binary hp =>
    rw [if_pos ((hiff letter_b).mpr hp), hslice (by rcases hp with rfl | rfl <;> rfl)]
    rfl
  | octal hp =>
    have hb : ¬ letterIs (utf8 ('0' :: p :: body)) 'b' = true := by
      rw [hiff letter_b]
      rcases hp with rfl | rfl <;> decide
    rw [if_neg hb, if_pos ((hiff letter_o).mpr hp), hslice (by rcases hp with rfl | rfl <;> rfl)]
    rfl
  | hex hp =>
    have hb : ¬ letterIs (utf8 ('0' :: p :: body)) 'b' = true := by
      rw [hiff letter_b]
      rcases hp with rfl | rfl <;> decide
    have ho : ¬ letterIs (utf8 ('0' :: p :: body)) 'o' = true := by
      rw [hiff letter_o]
      rcases hp with rfl | rfl <;> decide
    rw [if_neg hb, if_neg ho, if_pos ((hiff letter_x).mpr hp),
      hslice (by rcases hp with rfl | rfl <;> rfl)]
    rfl

private theorem splitBase_octal
    (h : ∀ p base body, BaseLetter p base → rest = p :: body → body = []) :
    splitBase ('0' :: rest) = some (8, rest) := by
  have hget : (utf8 ('0' :: rest))[0]? = some (asciiByte '0') := by rw [utf8_zero]; rfl
  have hno : ∀ {small capital : Char} {base : ℕ}, Letter small capital →
      BaseLetter small base → BaseLetter capital base →
      ¬ letterIs (utf8 ('0' :: rest)) small = true := by
    intro small capital base hletter hsmall hcapital his
    obtain ⟨p, body, heq, hp, hne⟩ := (letterIs_iff hletter).mp his
    rcases hp with rfl | rfl
    · exact hne (h _ _ _ hsmall heq)
    · exact hne (h _ _ _ hcapital heq)
  have hslice : sliceFrom ('0' :: rest) 1 = some rest := sliceFrom_append ['0'] rest
  rw [splitBase, hget, Option.bind_some, if_pos rfl,
    if_neg (hno letter_b (.binary (Or.inl rfl)) (.binary (Or.inr rfl))),
    if_neg (hno letter_o (.octal (Or.inl rfl)) (.octal (Or.inr rfl))),
    if_neg (hno letter_x (.hex (Or.inl rfl)) (.hex (Or.inr rfl))), hslice]
  rfl

private theorem splitBase_decimal (hc : c ≠ '0') (s : Str) :
    splitBase (c :: s) = some (10, c :: s) := by
  obtain ⟨b, tl, hutf8, hb⟩ := head_utf8 c s
  have hget : (utf8 (c :: s))[0]? = some b := by rw [hutf8]; rfl
  have hzero : b ≠ asciiByte '0' := fun heq => hc ((hb '0' (by decide)).mp heq)
  rw [splitBase, hget, Option.bind_some, if_neg hzero]

private theorem underscoreOk_based {body : Str} (hp : BaseLetter p base) :
    underscoreOk ('0' :: p :: body) = underscoreLoop (decide (base = 16)) (utf8 body) .digit := by
  have hutf8 : ∀ q : Char, q.toNat < 128 →
      utf8 ('0' :: q :: body) = asciiByte '0' :: asciiByte q :: utf8 body := by
    intro q hq
    rw [utf8_zero, utf8_cons, encode_ascii hq, List.singleton_append]
  cases hp with
  | binary hp => rcases hp with rfl | rfl <;> rw [underscoreOk, hutf8 _ (by decide)] <;> rfl
  | octal hp => rcases hp with rfl | rfl <;> rw [underscoreOk, hutf8 _ (by decide)] <;> rfl
  | hex hp => rcases hp with rfl | rfl <;> rw [underscoreOk, hutf8 _ (by decide)] <;> rfl

private theorem underscoreOk_octal (h : Loose 8 ds rest) :
    underscoreOk ('0' :: rest) = underscoreLoop false (utf8 rest) .digit := by
  have hskip : skipSign (utf8 ('0' :: rest)) = utf8 ('0' :: rest) := by
    rw [utf8_zero]
    rfl
  have hletter : baseLetter (utf8 ('0' :: rest)) = none := by
    rw [utf8_zero]
    cases rest with
    | nil => rfl
    | cons c rest =>
      obtain ⟨b, tl, hutf8, hb⟩ := head_utf8 c rest
      have hnot : ∀ {small capital : Char}, Letter small capital →
          (∀ d < 8, small ≠ Nat.digitChar d ∧ small ≠ (Nat.digitChar d).toUpper ∧
            capital ≠ Nat.digitChar d ∧ capital ≠ (Nat.digitChar d).toUpper) →
          small ≠ '_' → capital ≠ '_' → lower b ≠ asciiByte small := by
        intro small capital hletter hdigits hsmall hcapital heq
        have hc := (hletter.of_char hb).mp heq
        have hne : c ≠ '_' := by
          rcases hc with rfl | rfl
          · exact hsmall
          · exact hcapital
        obtain ⟨d, ds', ⟨hd, hdc⟩, -, -⟩ := (loose_cons hne).mp h
        have hcheck := hdigits d hd
        rcases hc with rfl | rfl
        · exact hdc.elim hcheck.1 hcheck.2.1
        · exact hdc.elim hcheck.2.2.1 hcheck.2.2.2
      rw [hutf8, baseLetter, if_neg]
      rintro ⟨-, hb | ho | hx⟩
      · exact hnot letter_b (by decide) (by decide) (by decide) hb
      · exact hnot letter_o (by decide) (by decide) (by decide) ho
      · exact hnot letter_x (by decide) (by decide) (by decide) hx
  have hzero : DigitChar 8 '0' 0 := ⟨by decide, Or.inl rfl⟩
  rw [underscoreOk, hskip, hletter]
  exact underscoreLoop_digit (by decide) (Or.inl (by decide)) hzero

private theorem underscoreOk_decimal (hc : c ≠ '0') (hminus : c ≠ '-') (hplus : c ≠ '+') (s : Str) :
    underscoreOk (c :: s) = underscoreLoop false (utf8 (c :: s)) .start := by
  obtain ⟨b, tl, hutf8, hb⟩ := head_utf8 c s
  have hsign : ¬ (b = asciiByte '-' ∨ b = asciiByte '+') := by
    rw [hb _ (by decide), hb _ (by decide), not_or]
    exact ⟨hminus, hplus⟩
  have hskip : skipSign (utf8 (c :: s)) = utf8 (c :: s) := by
    rw [hutf8, skipSign, if_neg hsign]
  have hletter : baseLetter (utf8 (c :: s)) = none := by
    rw [hutf8]
    cases tl with
    | nil => rfl
    | cons b' tl =>
      rw [baseLetter, if_neg]
      rintro ⟨hzero, -⟩
      exact hc ((hb '0' (by decide)).mp hzero)
  rw [underscoreOk, hskip, hletter]

end Base

/-! What is accepted -/

section Exact

variable {s body rest : Str} {c p : Char} {ds : List ℕ} {v : ℕ}

/-- A string is a literal and read as its value, or it is none and an error. -/
structure UintExact (s : Str) : Prop where
  literal : ∀ v, UintLiteral s v → parseUintBase0 s =
    some (if v < 2 ^ 64 then .ok (UInt64.ofNat v) else .error .range)
  other : (∀ v, ¬ UintLiteral s v) → ∃ e, parseUintBase0 s = some (.error e)

private theorem uintExact_of_split {base : UInt64} (good : List ℕ → Prop) (hs : s ≠ [])
    (hsplit : splitBase s = some (base, body)) (hlow : 2 ≤ base.toNat) (hhigh : base.toNat ≤ 16)
    (hok : ∀ ds, Loose base.toNat ds body → (underscoreOk s = true ↔ good ds))
    (hplain : ∀ ds, Loose base.toNat ds body → '_' ∉ body → good ds)
    (hliteral : ∀ v, UintLiteral s v ↔
      ∃ ds, Loose base.toNat ds body ∧ good ds ∧ v = valueFrom base.toNat 0 ds) :
    UintExact s := by
  have hread : ∀ ds, Loose base.toNat ds body →
      parseUintBase0 s = some (
        if valueFrom base.toNat 0 ds < 2 ^ 64 then
          if decide ('_' ∈ body) && !underscoreOk s then .error .syntaxError
          else .ok (UInt64.ofNat (valueFrom base.toNat 0 ds))
        else .error .range) := by
    intro ds hds
    have hloop : uintLoop base (U64_MAX / base + 1) (utf8 body) 0 false =
        if valueFrom base.toNat 0 ds < 2 ^ 64 then
          some (.ok (UInt64.ofNat (valueFrom base.toNat 0 ds), false || decide ('_' ∈ body)))
        else some (.error .range) := uintLoop_loose hlow hhigh hds
    rw [parseUintBase0, if_neg hs, hsplit, Option.bind_some]
    dsimp only
    rw [hloop]
    split_ifs <;> simp_all
  constructor
  · intro v hv
    obtain ⟨ds, hds, hgood, rfl⟩ := (hliteral v).mp hv
    rw [hread ds hds, (hok ds hds).mpr hgood, Bool.not_true, Bool.and_false,
      if_neg Bool.false_ne_true]
  · intro hnone
    by_cases hloose : ∃ ds, Loose base.toNat ds body
    · obtain ⟨ds, hds⟩ := hloose
      have hbad : ¬ good ds := fun hgood => hnone _ ((hliteral _).mpr ⟨ds, hds, hgood, rfl⟩)
      have hmem : '_' ∈ body := by
        by_contra hmem
        exact hbad (hplain ds hds hmem)
      have hok' : underscoreOk s = false := Bool.eq_false_iff.mpr fun h => hbad ((hok ds hds).mp h)
      rw [hread ds hds, hok', decide_eq_true hmem, Bool.not_false, Bool.and_true, if_pos rfl]
      split_ifs
      · exact ⟨_, rfl⟩
      · exact ⟨_, rfl⟩
    · obtain ⟨e, he⟩ := uintLoop_not_loose hlow hhigh (n := 0) (u := false) (not_exists.mp hloose)
      refine ⟨e, ?_⟩
      rw [parseUintBase0, if_neg hs, hsplit, Option.bind_some]
      dsimp only
      rw [he]
      rfl

private theorem BaseLetter.bounds {base : ℕ} (h : BaseLetter p base) :
    2 ≤ base ∧ base ≤ 16 ∧ (UInt64.ofNat base).toNat = base ∧
      (base ≤ 10 ∨ decide (base = 16) = true) := by
  cases h <;> decide

private theorem BaseLetter.not_digit {base d : ℕ} (h : BaseLetter p base) : ¬ DigitChar 8 p d := by
  rintro ⟨hd, hc⟩
  have hcheck : ∀ d < 8, (Nat.digitChar d).isDigit = true ∧
      (Nat.digitChar d).toUpper.isDigit = true := by decide
  have hdigit : p.isDigit = true := by
    rcases hc with rfl | rfl
    · exact (hcheck d hd).1
    · exact (hcheck d hd).2
  have hletter : p.isDigit = false := by
    cases h with
    | binary h => rcases h with rfl | rfl <;> rfl
    | octal h => rcases h with rfl | rfl <;> rfl
    | hex h => rcases h with rfl | rfl <;> rfl
  rw [hletter] at hdigit
  exact Bool.false_ne_true hdigit

private theorem BaseLetter.ne_underscore {base : ℕ} (h : BaseLetter p base) : p ≠ '_' := by
  cases h with
  | binary h => rcases h with rfl | rfl <;> decide
  | octal h => rcases h with rfl | rfl <;> decide
  | hex h => rcases h with rfl | rfl <;> decide

private theorem BaseLetter.unique {base base' : ℕ} (h : BaseLetter p base)
    (h' : BaseLetter p base') : base = base' := by
  cases h with
  | binary h => rcases h with rfl | rfl <;> cases h' <;> simp_all
  | octal h => rcases h with rfl | rfl <;> cases h' <;> simp_all
  | hex h => rcases h with rfl | rfl <;> cases h' <;> simp_all

private theorem zero_not_decimal {d : ℕ} (h : DigitChar 10 '0' d) : d = 0 := by
  obtain ⟨hd, hc⟩ := h
  have hcheck : ∀ d < 10, ('0' = Nat.digitChar d ∨ '0' = (Nat.digitChar d).toUpper) → d = 0 := by
    decide
  exact hcheck d hd hc

private theorem uintExact_based {base : ℕ} (hp : BaseLetter p base) (hne : body ≠ []) :
    UintExact ('0' :: p :: body) := by
  obtain ⟨hlow, hhigh, hnat, hcover⟩ := hp.bounds
  refine uintExact_of_split (fun ds => Tail base ds body) (List.cons_ne_nil _ _)
    (splitBase_based hp hne) ?_ ?_ ?_ ?_ ?_ <;> rw [hnat]
  · exact hlow
  · exact hhigh
  · intro ds hds
    rw [underscoreOk_based hp]
    exact (underscoreLoop_iff hhigh hcover hds).1
  · intro ds hds hnone
    exact hds.tail hnone
  · intro v
    constructor
    · intro h
      cases h with
      | decimal hc hnz => exact absurd (zero_not_decimal hc) hnz
      | octal hs =>
        cases hs with
        | digit hc => exact absurd hc hp.not_digit
        | underscore => exact absurd rfl hp.ne_underscore
      | @based _ base' ds _ hc hs hds =>
        obtain rfl := hp.unique hc
        exact ⟨ds, hs.loose hhigh, hs, rfl⟩
    · rintro ⟨ds, -, hs, rfl⟩
      refine .based hp hs ?_
      rintro rfl
      cases hs
      exact hne rfl

private theorem uintExact_octal
    (h : ∀ p base body, BaseLetter p base → rest = p :: body → body = []) :
    UintExact ('0' :: rest) := by
  have hnat : (8 : UInt64).toNat = 8 := rfl
  refine uintExact_of_split (fun ds => Tail 8 ds rest) (List.cons_ne_nil _ _) (splitBase_octal h)
    ?_ ?_ ?_ ?_ ?_ <;> rw [hnat]
  · decide
  · decide
  · intro ds hds
    rw [underscoreOk_octal hds]
    exact (underscoreLoop_iff (by decide) (Or.inl (by decide)) hds).1
  · intro ds hds hnone
    exact hds.tail hnone
  · intro v
    constructor
    · intro hv
      cases hv with
      | decimal hc hnz => exact absurd (zero_not_decimal hc) hnz
      | @octal ds _ hs => exact ⟨ds, hs.loose (by decide), hs, rfl⟩
      | based hc hs hds =>
        rw [h _ _ _ hc rfl] at hs
        cases hs
        exact absurd rfl hds
    · rintro ⟨ds, -, hs, rfl⟩
      exact .octal hs

private theorem uintExact_decimal (hc : c ≠ '0') (s : Str) : UintExact (c :: s) := by
  have hnat : (10 : UInt64).toNat = 10 := rfl
  have hminus : ∀ d, ¬ DigitChar 10 '-' d := by
    rintro d ⟨hd, h⟩
    revert h
    revert d
    decide
  have hplus : ∀ d, ¬ DigitChar 10 '+' d := by
    rintro d ⟨hd, h⟩
    revert h
    revert d
    decide
  refine uintExact_of_split (fun ds => DigitTail 10 ds (c :: s)) (List.cons_ne_nil _ _)
    (splitBase_decimal hc s) ?_ ?_ ?_ ?_ ?_ <;> rw [hnat]
  · decide
  · decide
  · intro ds hds
    by_cases hne : c = '_'
    · subst hne
      rw [underscoreOk_decimal (by decide) (by decide) (by decide), underscoreLoop_underscore]
      refine ⟨fun h => (by cases h), ?_⟩
      rintro ⟨c, s', d, ds', heq, rfl, hdigit, -⟩
      exact absurd (List.cons.inj heq).1.symm (hdigit.read (by decide)).2.1
    · obtain ⟨d, ds', hdigit, hs, rfl⟩ := (loose_cons hne).mp hds
      have hm : c ≠ '-' := fun heq => hminus d (heq ▸ hdigit)
      have hp : c ≠ '+' := fun heq => hplus d (heq ▸ hdigit)
      have hcover : 10 ≤ 10 ∨ false = true := Or.inl le_rfl
      rw [underscoreOk_decimal hc hm hp, underscoreLoop_digit (by decide) hcover hdigit,
        (underscoreLoop_iff (by decide) hcover hs).1]
      constructor
      · intro htail
        exact ⟨c, s, d, ds', rfl, rfl, hdigit, htail⟩
      · rintro ⟨c', s', d', ds'', hs', hds', -, htail⟩
        obtain ⟨rfl, rfl⟩ := List.cons.inj hs'
        obtain ⟨rfl, rfl⟩ := List.cons.inj hds'
        exact htail
  · intro ds hds hnone
    rw [List.mem_cons, not_or] at hnone
    obtain ⟨d, ds', hdigit, hs, rfl⟩ := (loose_cons (Ne.symm hnone.1)).mp hds
    exact ⟨c, s, d, ds', rfl, rfl, hdigit, hs.tail hnone.2⟩
  · intro v
    constructor
    · intro h
      cases h with
      | @decimal _ d ds _ hdigit hnz hs =>
        have hne := (hdigit.read (by decide)).2.1
        exact ⟨d :: ds, (loose_cons hne).mpr ⟨d, ds, hdigit, hs.loose (by decide), rfl⟩,
          ⟨c, s, d, ds, rfl, rfl, hdigit, hs⟩, rfl⟩
      | octal => exact absurd rfl hc
      | based => exact absurd rfl hc
    · rintro ⟨ds, -, ⟨c', s', d, ds', hs', rfl, hdigit, htail⟩, rfl⟩
      obtain ⟨rfl, rfl⟩ := List.cons.inj hs'
      refine .decimal hdigit ?_ htail
      rintro rfl
      apply hc
      rcases hdigit.2 with rfl | rfl <;> rfl

private theorem uintExact (s : Str) : UintExact s := by
  cases s with
  | nil =>
    refine ⟨?_, fun _ => ⟨_, rfl⟩⟩
    intro v h
    cases h
  | cons c rest =>
    by_cases hc : c = '0'
    · subst hc
      by_cases hbased : ∃ p base body, BaseLetter p base ∧ rest = p :: body ∧ body ≠ []
      · obtain ⟨p, base, body, hp, rfl, hne⟩ := hbased
        exact uintExact_based hp hne
      · apply uintExact_octal
        intro p base body hp hrest
        by_contra hne
        exact hbased ⟨p, base, body, hp, hrest, hne⟩
    · exact uintExact_decimal hc rest

end Exact

/-! Signed literals -/

section Signed

variable {s rest : Str} {v : ℕ}

private theorem digitChar_ne {base d : ℕ} {c : Char} (hbase : base ≤ 16)
    (hc : ∀ d < 16, c ≠ Nat.digitChar d ∧ c ≠ (Nat.digitChar d).toUpper) :
    ¬ DigitChar base c d := by
  rintro ⟨hd, h⟩
  have hcheck := hc d (hd.trans_le hbase)
  exact h.elim hcheck.1 hcheck.2

private theorem UintLiteral.head (h : UintLiteral s v) :
    ∃ c tl, s = c :: tl ∧ c ≠ '+' ∧ c ≠ '-' := by
  cases h with
  | @decimal c d ds s hc hnz hs =>
    refine ⟨c, s, rfl, ?_, ?_⟩
    · rintro rfl
      exact digitChar_ne (by decide) (by decide) hc
    · rintro rfl
      exact digitChar_ne (by decide) (by decide) hc
  | octal hs => exact ⟨'0', _, rfl, by decide, by decide⟩
  | based hc hs hne => exact ⟨'0', _, rfl, by decide, by decide⟩

private theorem splitSign_plus (rest : Str) : splitSign ('+' :: rest) = some (false, rest) := by
  have hslice : sliceFrom ('+' :: rest) 1 = some rest := sliceFrom_append ['+'] rest
  have hget : (utf8 ('+' :: rest))[0]? = some (asciiByte '+') := by
    rw [utf8_cons, encode_ascii (by decide)]
    rfl
  rw [splitSign, hget, Option.bind_some, if_pos rfl, hslice]
  rfl

private theorem splitSign_minus (rest : Str) : splitSign ('-' :: rest) = some (true, rest) := by
  have hslice : sliceFrom ('-' :: rest) 1 = some rest := sliceFrom_append ['-'] rest
  have hget : (utf8 ('-' :: rest))[0]? = some (asciiByte '-') := by
    rw [utf8_cons, encode_ascii (by decide)]
    rfl
  rw [splitSign, hget, Option.bind_some, if_neg (by decide), if_pos rfl, hslice]
  rfl

private theorem splitSign_none {c : Char} (hplus : c ≠ '+') (hminus : c ≠ '-') (rest : Str) :
    splitSign (c :: rest) = some (false, c :: rest) := by
  obtain ⟨b, tl, hutf8, hb⟩ := head_utf8 c rest
  have hget : (utf8 (c :: rest))[0]? = some b := by rw [hutf8]; rfl
  have hp : b ≠ asciiByte '+' := fun heq => hplus ((hb '+' (by decide)).mp heq)
  have hm : b ≠ asciiByte '-' := fun heq => hminus ((hb '-' (by decide)).mp heq)
  rw [splitSign, hget, Option.bind_some, if_neg hp, if_neg hm]

def signedValue (neg : Bool) (v : ℕ) : ℤ := if neg then -v else v

def FitsI64 (v : ℤ) : Prop := -2 ^ 63 ≤ v ∧ v < 2 ^ 63

instance (v : ℤ) : Decidable (FitsI64 v) := inferInstanceAs (Decidable (_ ∧ _))

private theorem signed_eq (neg : Bool) (un : UInt64) : signed neg un =
    if FitsI64 (signedValue neg un.toNat) then
      Except.ok (Int64.ofInt (signedValue neg un.toNat))
    else Except.error NumError.range := by
  have hcut : ((1 : UInt64) <<< 63).toNat = 2 ^ 63 := by decide
  have hcast : un.toInt64 = Int64.ofInt (un.toNat : ℤ) := by
    rw [Int64.ofInt_eq_ofNat, ← UInt64.toInt64_ofNat', UInt64.ofNat_toNat]
  rw [signed]
  cases neg with
  | false =>
    have hvalue : signedValue false un.toNat = un.toNat := rfl
    by_cases hfits : FitsI64 un.toNat
    · have hlt : ¬ un ≥ (1 : UInt64) <<< 63 := by
        rw [ge_iff_le, UInt64.le_iff_toNat_le, hcut]
        have := hfits.2
        omega
      rw [hvalue, if_pos hfits]
      simp [hlt, hcast]
    · have hge : un ≥ (1 : UInt64) <<< 63 := by
        rw [ge_iff_le, UInt64.le_iff_toNat_le, hcut]
        unfold FitsI64 at hfits
        omega
      rw [hvalue, if_neg hfits]
      simp [hge]
  | true =>
    have hvalue : signedValue true un.toNat = -un.toNat := rfl
    by_cases hfits : FitsI64 (-un.toNat)
    · have hle : ¬ un > (1 : UInt64) <<< 63 := by
        rw [gt_iff_lt, UInt64.lt_iff_toNat_lt, hcut]
        have := hfits.1
        omega
      rw [hvalue, if_pos hfits, Int64.ofInt_neg, ← hcast]
      simp [hle]
    · have hgt : un > (1 : UInt64) <<< 63 := by
        rw [gt_iff_lt, UInt64.lt_iff_toNat_lt, hcut]
        unfold FitsI64 at hfits
        omega
      rw [hvalue, if_neg hfits]
      simp [hgt]

private theorem parseIntBase0_of_split {neg : Bool} (hs : s ≠ [])
    (hsplit : splitSign s = some (neg, rest)) :
    (∀ v, UintLiteral rest v → parseIntBase0 s = some (
      if FitsI64 (signedValue neg v) then .ok (Int64.ofInt (signedValue neg v))
      else .error .range)) ∧
    ((∀ v, ¬ UintLiteral rest v) → ∃ e, parseIntBase0 s = some (.error e)) := by
  obtain ⟨hliteral, hother⟩ := uintExact rest
  rw [parseIntBase0, if_neg hs, hsplit, Option.bind_some]
  constructor
  · intro v hv
    dsimp only
    rw [hliteral v hv]
    by_cases hfits : v < 2 ^ 64
    · have hnat : (UInt64.ofNat v).toNat = v := by
        rw [UInt64.toNat_ofNat', Nat.mod_eq_of_lt hfits]
      rw [if_pos hfits, Option.map_some]
      dsimp only
      rw [signed_eq, hnat]
    · have hbig : ¬ FitsI64 (signedValue neg v) := by
        unfold FitsI64 signedValue
        split_ifs <;> omega
      rw [if_neg hfits, if_neg hbig]
      rfl
  · intro hnone
    obtain ⟨e, he⟩ := hother hnone
    dsimp only
    rw [he]
    exact ⟨e, rfl⟩

/-- A string is a literal and read as its value, or it is none and an error. -/
structure IntExact (s : Str) : Prop where
  literal : ∀ v, IntLiteral s v → parseIntBase0 s =
    some (if FitsI64 v then .ok (Int64.ofInt v) else .error .range)
  other : (∀ v, ¬ IntLiteral s v) → ∃ e, parseIntBase0 s = some (.error e)

private theorem intExact_of_split {neg : Bool} (hs : s ≠ [])
    (hsplit : splitSign s = some (neg, rest))
    (hliteral : ∀ i, IntLiteral s i ↔ ∃ v, UintLiteral rest v ∧ i = signedValue neg v) :
    IntExact s := by
  obtain ⟨hread, hother⟩ := parseIntBase0_of_split hs hsplit
  constructor
  · intro i hi
    obtain ⟨v, hv, rfl⟩ := (hliteral i).mp hi
    exact hread v hv
  · intro hnone
    exact hother fun v hv => hnone _ ((hliteral _).mpr ⟨v, hv, rfl⟩)

private theorem intExact (s : Str) : IntExact s := by
  cases s with
  | nil =>
    refine ⟨?_, fun _ => ⟨_, rfl⟩⟩
    intro v h
    cases h with
    | plain h => cases h
  | cons c rest =>
    by_cases hplus : c = '+'
    · subst hplus
      refine intExact_of_split (List.cons_ne_nil _ _) (splitSign_plus rest) ?_
      intro i
      constructor
      · intro h
        cases h with
        | plain h =>
          obtain ⟨c, tl, heq, hne, -⟩ := h.head
          exact absurd (List.cons.inj heq).1.symm hne
        | @plus _ v h => exact ⟨v, h, rfl⟩
      · rintro ⟨v, h, rfl⟩
        exact .plus h
    · by_cases hminus : c = '-'
      · subst hminus
        refine intExact_of_split (List.cons_ne_nil _ _) (splitSign_minus rest) ?_
        intro i
        constructor
        · intro h
          cases h with
          | plain h =>
            obtain ⟨c, tl, heq, -, hne⟩ := h.head
            exact absurd (List.cons.inj heq).1.symm hne
          | @minus _ v h => exact ⟨v, h, rfl⟩
        · rintro ⟨v, h, rfl⟩
          exact .minus h
      · refine intExact_of_split (List.cons_ne_nil _ _) (splitSign_none hplus hminus rest) ?_
        intro i
        constructor
        · intro h
          cases h with
          | @plain _ v h => exact ⟨v, h, rfl⟩
          | plus => exact absurd rfl hplus
          | minus => exact absurd rfl hminus
        · rintro ⟨v, h, rfl⟩
          exact .plain h

end Signed

/-! Decimal texts -/

section DecimalText

variable {base d : ℕ} {ds : List ℕ} {c : Char} {s : Str}

private theorem Tail.snoc (h : Tail base ds s) (hc : DigitChar base c d) :
    Tail base (ds ++ [d]) (s ++ [c]) := by
  induction h with
  | nil => exact .digit hc .nil
  | digit hc' hs ih => exact .digit hc' ih
  | underscore hc' hs ih => exact .underscore hc' ih

private theorem valueFrom_snoc (base n : ℕ) (ds : List ℕ) (d : ℕ) :
    valueFrom base n (ds ++ [d]) = valueFrom base n ds * base + d := by
  rw [valueFrom, valueFrom, List.foldl_append]
  rfl

private theorem toDigits_decimal {n : ℕ} (hn : 0 < n) : ∃ c d ds s, Nat.toDigits 10 n = c :: s ∧
    DigitChar 10 c d ∧ d ≠ 0 ∧ Tail 10 ds s ∧ valueFrom 10 0 (d :: ds) = n := by
  induction n using Nat.strong_induction_on with
  | h n ih =>
    rw [Nat.toDigits_eq_if (by decide)]
    by_cases hlt : n < 10
    · refine ⟨Nat.digitChar n, n, [], [], by rw [if_pos hlt], ⟨hlt, Or.inl rfl⟩, by omega, .nil, ?_⟩
      rw [valueFrom_cons, Nat.zero_mul, Nat.zero_add]
      rfl
    · obtain ⟨c, d, ds, s, htext, hc, hd, hs, hvalue⟩ := ih (n / 10) (by omega) (by omega)
      have hlast : DigitChar 10 (Nat.digitChar (n % 10)) (n % 10) :=
        ⟨Nat.mod_lt _ (by decide), Or.inl rfl⟩
      refine ⟨c, d, ds ++ [n % 10], s ++ [Nat.digitChar (n % 10)], ?_, hc, hd, hs.snoc hlast, ?_⟩
      · rw [if_neg hlt, htext, List.cons_append]
      · rw [← List.cons_append, valueFrom_snoc, hvalue]
        omega

private theorem toDigits_literal (n : ℕ) : UintLiteral (Nat.toDigits 10 n) n := by
  rcases Nat.eq_zero_or_pos n with rfl | hn
  · exact .octal .nil
  · obtain ⟨c, d, ds, s, htext, hc, hd, hs, hvalue⟩ := toDigits_decimal hn
    rw [htext, ← hvalue]
    exact .decimal hc hd hs

private theorem decimalText_literal (i : ℤ) : IntLiteral (decimalText i) i := by
  rw [decimalText]
  split_ifs with hneg
  · have habs : i = -(i.natAbs : ℤ) := by omega
    conv_rhs => rw [habs]
    exact .minus (toDigits_literal _)
  · have habs : i = (i.natAbs : ℤ) := by omega
    conv_rhs => rw [habs]
    exact .plain (toDigits_literal _)

end DecimalText

/-- Both parsers return the value of a literal exactly when it fits, a range error when it does not
and some error for what is no literal; and the decimal text of an integer is read as that integer.
-/
theorem parse_base0_exact :
    (∀ (s : Str) (u : UInt64), parseUintBase0 s = some (.ok u) ↔ UintLiteral s u.toNat) ∧
    (∀ (s : Str) (v : ℕ), UintLiteral s v → 2 ^ 64 ≤ v →
      parseUintBase0 s = some (.error .range)) ∧
    (∀ s : Str, (∀ v, ¬ UintLiteral s v) → ∃ e, parseUintBase0 s = some (.error e)) ∧
    (∀ (s : Str) (i : Int64), parseIntBase0 s = some (.ok i) ↔ IntLiteral s i.toInt) ∧
    (∀ (s : Str) (v : ℤ), IntLiteral s v → v < -2 ^ 63 ∨ 2 ^ 63 ≤ v →
      parseIntBase0 s = some (.error .range)) ∧
    (∀ s : Str, (∀ v, ¬ IntLiteral s v) → ∃ e, parseIntBase0 s = some (.error e)) ∧
    ∀ i : Int64, parseIntBase0 (decimalText i.toInt) = some (.ok i) := by
  have hfits : ∀ i : Int64, FitsI64 i.toInt := fun i => ⟨i.le_toInt, i.toInt_lt⟩
  have hread : ∀ (s : Str) (i : Int64), IntLiteral s i.toInt →
      parseIntBase0 s = some (.ok i) := by
    intro s i h
    rw [(intExact s).literal _ h, if_pos (hfits i), Int64.ofInt_toInt]
  refine ⟨fun s u => ⟨?_, ?_⟩, ?_, fun s => (uintExact s).other, fun s i => ⟨?_, hread s i⟩, ?_,
    fun s => (intExact s).other, fun i => hread _ i (decimalText_literal _)⟩
  · intro h
    by_cases hliteral : ∃ v, UintLiteral s v
    · obtain ⟨v, hv⟩ := hliteral
      rw [(uintExact s).literal v hv] at h
      by_cases hlt : v < 2 ^ 64
      · rw [if_pos hlt] at h
        rw [← Except.ok.inj (Option.some.inj h), UInt64.toNat_ofNat', Nat.mod_eq_of_lt hlt]
        exact hv
      · rw [if_neg hlt] at h
        cases h
    · obtain ⟨e, he⟩ := (uintExact s).other (not_exists.mp hliteral)
      rw [he] at h
      cases h
  · intro h
    rw [(uintExact s).literal _ h, if_pos u.toNat_lt, UInt64.ofNat_toNat]
  · intro s v h hbig
    rw [(uintExact s).literal v h, if_neg (not_lt.mpr hbig)]
  · intro h
    by_cases hliteral : ∃ v, IntLiteral s v
    · obtain ⟨v, hv⟩ := hliteral
      rw [(intExact s).literal v hv] at h
      by_cases hv' : FitsI64 v
      · rw [if_pos hv'] at h
        rw [← Except.ok.inj (Option.some.inj h), Int64.toInt_ofInt_of_le hv'.1 hv'.2]
        exact hv
      · rw [if_neg hv'] at h
        cases h
    · obtain ⟨e, he⟩ := (intExact s).other (not_exists.mp hliteral)
      rw [he] at h
      cases h
  · intro s v h hbig
    have hout : ¬ FitsI64 v := by
      unfold FitsI64
      omega
    rw [(intExact s).literal v h, if_neg hout]

/-- The smallest integer, in hexadecimal and with an underscore. -/
theorem parse_base0_exact_min :
    parseIntBase0 "-0x_8000000000000000".toList = some (.ok Int64.minValue) ∧
      IntLiteral "-0x_8000000000000000".toList (-2 ^ 63) := by
  have hread : parseIntBase0 "-0x_8000000000000000".toList = some (.ok Int64.minValue) := by
    decide +kernel
  exact ⟨hread, (parse_base0_exact.2.2.2.1 _ _).mp hread⟩

end Kcptun.Setup.GoInt
