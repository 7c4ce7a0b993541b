/- Kcptun/Setup/TimeLayout
   source: crates/std/src/gotime.rs (Std, STD_0X, starts_with_lower_case, is_digit,
     FRAC_DIGITS_MASK, next_std_chunk)
   digest: The scanner of time layouts reads bytes, and yet cuts between characters: around a token
     that is spelled in the layout, with nothing lost before or behind it. -/

import Kcptun.Setup.GoInt

set_option autoImplicit false
set_option relaxedAutoImplicit false

namespace Kcptun.Setup.TimeLayout

open Kcptun.Lib.LittleEndian (Bytes)
open Kcptun.Lib.Utf8
open Kcptun.Setup.GoInt (isAsciiDigit isAsciiLowercase)

inductive Std where
  | longMonth
  | month
  | numMonth
  | zeroMonth
  | longWeekDay
  | weekDay
  | day
  | underDay
  | zeroDay
  | underYearDay
  | zeroYearDay
  | hour
  | hour12
  | zeroHour12
  | minute
  | zeroMinute
  | second
  | zeroSecond
  | longYear
  | year
  | pm (upper : Bool)
  | tz
  | numTz (iso colon short seconds : Bool)
  | fracSecond (trim : Bool) (digits : ℕ) (comma : Bool)
deriving DecidableEq

def STD_0X : List Std := [.zeroMonth, .zeroDay, .zeroHour12, .zeroMinute, .zeroSecond, .year]

def startsWithLowerCase (s : Str) : Bool := (utf8 s)[0]?.any isAsciiLowercase

def isDigit (s : Bytes) (i : ℕ) : Bool := s[i]?.any isAsciiDigit

def FRAC_DIGITS_MASK : ℕ := 0xfff

/-- The text in front of a token, the token, and the text behind it. -/
abbrev Chunk := Str × Option Std × Str

def matchesAt (b : Bytes) (i : ℕ) (pat : Str) : Bool :=
  i + (utf8 pat).length ≤ b.length && (b.drop i).take (utf8 pat).length == utf8 pat

/-- `return (&layout[..i], Some(std), &layout[j..])`. -/
def found (layout : Str) (i : ℕ) (std : Std) (j : ℕ) : Option (Option Chunk) :=
  (slice layout 0 i).bind fun front =>
  (sliceFrom layout j).map fun back => some (front, some std, back)

/-- A name in its long form, or in the short one of three letters when the text does not go on in
lower case. -/
def nameAt (layout : Str) (b : Bytes) (i : ℕ) (short long : Str) (std longStd : Std) :
    Option (Option Chunk) :=
  if matchesAt b i short then
    if matchesAt b i long then found layout i longStd (i + (utf8 long).length)
    else
      (sliceFrom layout (i + 3)).bind fun rest =>
      if !startsWithLowerCase rest then found layout i std (i + 3) else some none
  else some none

def monthAt (layout : Str) (b : Bytes) (i : ℕ) : Option (Option Chunk) :=
  nameAt layout b i "Jan".toList "January".toList .month .longMonth

def weekDayAt (layout : Str) (b : Bytes) (i : ℕ) : Option (Option Chunk) :=
  (nameAt layout b i "Mon".toList "Monday".toList .weekDay .longWeekDay).bind fun name =>
  if name.isSome then some name
  else if matchesAt b i "MST".toList then found layout i .tz (i + 3)
  else some none

/-- A zero with a digit from one to six behind it, or `002`. -/
def zeroAt (layout : Str) (b : Bytes) (i : ℕ) : Option (Option Chunk) :=
  match b[i + 1]?.filter fun c => asciiByte '1' ≤ c && c ≤ asciiByte '6' with
  | some c => STD_0X[(c - asciiByte '1').toNat]?.bind fun std => found layout i std (i + 2)
  | none =>
    if b[i + 1]? = some (asciiByte '0') ∧ b[i + 2]? = some (asciiByte '2') then
      found layout i .zeroYearDay (i + 3)
    else some none

def oneAt (layout : Str) (b : Bytes) (i : ℕ) : Option (Option Chunk) :=
  if b[i + 1]? = some (asciiByte '5') then found layout i .hour (i + 2)
  else found layout i .numMonth (i + 1)

def twoAt (layout : Str) (b : Bytes) (i : ℕ) : Option (Option Chunk) :=
  if matchesAt b i "2006".toList then found layout i .longYear (i + 4)
  else found layout i .day (i + 1)

def underAt (layout : Str) (b : Bytes) (i : ℕ) : Option (Option Chunk) :=
  if b[i + 1]? = some (asciiByte '2') then
    if matchesAt b (i + 1) "2006".toList then found layout (i + 1) .longYear (i + 5)
    else found layout i .underDay (i + 2)
  else if b[i + 1]? = some (asciiByte '_') ∧ b[i + 2]? = some (asciiByte '2') then
    found layout i .underYearDay (i + 3)
  else some none

def pmAt (layout : Str) (b : Bytes) (i : ℕ) (letter : Char) (upper : Bool) :
    Option (Option Chunk) :=
  if b[i + 1]? = some (asciiByte letter) then found layout i (.pm upper) (i + 2) else some none

/-- A spelling of a numeric zone with `colon`, `short` and `seconds`. -/
structure ZonePattern where
  pat : Str
  colon : Bool
  short : Bool
  seconds : Bool

def MINUS_ZONES : List ZonePattern :=
  [⟨"-070000".toList, false, false, true⟩, ⟨"-07:00:00".toList, true, false, true⟩,
    ⟨"-0700".toList, false, false, false⟩, ⟨"-07:00".toList, true, false, false⟩,
    ⟨"-07".toList, false, true, false⟩]

def ISO_ZONES : List ZonePattern :=
  [⟨"Z070000".toList, false, false, true⟩, ⟨"Z07:00:00".toList, true, false, true⟩,
    ⟨"Z0700".toList, false, false, false⟩, ⟨"Z07:00".toList, true, false, false⟩,
    ⟨"Z07".toList, false, true, false⟩]

def zoneAt (layout : Str) (b : Bytes) (i : ℕ) (iso : Bool) :
    List ZonePattern → Option (Option Chunk)
  | [] => some none
  | zone :: zones =>
    if matchesAt b i zone.pat then
      found layout i (.numTz iso zone.colon zone.short zone.seconds) (i + (utf8 zone.pat).length)
    else zoneAt layout b i iso zones

def runEnd (b : Bytes) (ch : UInt8) (j : ℕ) : ℕ :=
  if _h : j < b.length ∧ b[j]? = some ch then runEnd b ch (j + 1) else j
termination_by b.length - j

/-- A separator with zeros or nines behind it, and no digit behind those. -/
def fractionAt (layout : Str) (b : Bytes) (i : ℕ) (c : UInt8) : Option (Option Chunk) :=
  match b[i + 1]?.filter fun ch => ch == asciiByte '0' || ch == asciiByte '9' with
  | none => some none
  | some ch =>
    if !isDigit b (runEnd b ch (i + 1)) then
      found layout i
        (.fracSecond (ch == asciiByte '9') ((runEnd b ch (i + 1) - (i + 1)) &&& FRAC_DIGITS_MASK)
          (c == asciiByte ','))
        (runEnd b ch (i + 1))
    else some none

/-- The token at a byte, when there is one. No result at all is a panic. -/
def stdAt (layout : Str) (b : Bytes) (i : ℕ) (c : UInt8) : Option (Option Chunk) :=
  if c = asciiByte 'J' then monthAt layout b i
  else if c = asciiByte 'M' then weekDayAt layout b i
  else if c = asciiByte '0' then zeroAt layout b i
  else if c = asciiByte '1' then oneAt layout b i
  else if c = asciiByte '2' then twoAt layout b i
  else if c = asciiByte '_' then underAt layout b i
  else if c = asciiByte '3' then found layout i .hour12 (i + 1)
  else if c = asciiByte '4' then found layout i .minute (i + 1)
  else if c = asciiByte '5' then found layout i .second (i + 1)
  else if c = asciiByte 'P' then pmAt layout b i 'M' true
  else if c = asciiByte 'p' then pmAt layout b i 'm' false
  else if c = asciiByte '-' then zoneAt layout b i false MINUS_ZONES
  else if c = asciiByte 'Z' then zoneAt layout b i true ISO_ZONES
  else if c = asciiByte '.' ∨ c = asciiByte ',' then fractionAt layout b i c
  else some none

def scanFrom (layout : Str) (b : Bytes) (i : ℕ) : Option Chunk :=
  if h : i < b.length then
    (stdAt layout b i b[i]).bind fun chunk =>
    chunk.elim (scanFrom layout b (i + 1)) some
  else some (layout, none, [])
termination_by b.length - i

def nextStdChunk (layout : Str) : Option Chunk := scanFrom layout (utf8 layout) 0

section Spellings

def zoneLead (iso : Bool) : Char := if iso then 'Z' else '-'

inductive Spells : Std → Str → Prop where
  | longMonth : Spells .longMonth "January".toList
  | month : Spells .month "Jan".toList
  | numMonth : Spells .numMonth "1".toList
  | zeroMonth : Spells .zeroMonth "01".toList
  | longWeekDay : Spells .longWeekDay "Monday".toList
  | weekDay : Spells .weekDay "Mon".toList
  | day : Spells .day "2".toList
  | underDay : Spells .underDay "_2".toList
  | zeroDay : Spells .zeroDay "02".toList
  | underYearDay : Spells .underYearDay "__2".toList
  | zeroYearDay : Spells .zeroYearDay "002".toList
  | hour : Spells .hour "15".toList
  | hour12 : Spells .hour12 "3".toList
  | zeroHour12 : Spells .zeroHour12 "03".toList
  | minute : Spells .minute "4".toList
  | zeroMinute : Spells .zeroMinute "04".toList
  | second : Spells .second "5".toList
  | zeroSecond : Spells .zeroSecond "05".toList
  | longYear : Spells .longYear "2006".toList
  | year : Spells .year "06".toList
  | upperPm : Spells (.pm true) "PM".toList
  | lowerPm : Spells (.pm false) "pm".toList
  | tz : Spells .tz "MST".toList
  | zoneSeconds (iso : Bool) :
      Spells (.numTz iso false false true) (zoneLead iso :: "070000".toList)
  | zoneColonSeconds (iso : Bool) :
      Spells (.numTz iso true false true) (zoneLead iso :: "07:00:00".toList)
  | zone (iso : Bool) : Spells (.numTz iso false false false) (zoneLead iso :: "0700".toList)
  | zoneColon (iso : Bool) : Spells (.numTz iso true false false) (zoneLead iso :: "07:00".toList)
  | zoneShort (iso : Bool) : Spells (.numTz iso false true false) (zoneLead iso :: "07".toList)
  | fracSecond (trim comma : Bool) {k : ℕ} (hk : 0 < k) :
      Spells (.fracSecond trim (k &&& FRAC_DIGITS_MASK) comma)
        ((if comma then ',' else '.') :: List.replicate k (if trim then '9' else '0'))

private theorem Spells.ne_nil {std : Std} {text : Str} (h : Spells std text) : text ≠ [] := by
  cases h
  all_goals exact List.cons_ne_nil _ _

end Spellings

section Cuts

variable {layout front back text : Str} {std : Std} {i j : ℕ} {b : Bytes}

def Cut (layout front : Str) (std : Std) (back : Str) : Prop :=
  ∃ text, text ≠ [] ∧ Spells std text ∧ front ++ text ++ back = layout

/-- What a scan says about a layout: it is cut around a token, or all of it is other text. -/
def Partition (layout : Str) : Chunk → Prop
  | (front, some std, back) => Cut layout front std back
  | (front, none, back) => front = layout ∧ back = []

/-- A byte has no token, or the layout is cut around it. -/
def Sound (layout : Str) (r : Option (Option Chunk)) : Prop :=
  r = some none ∨ ∃ front std back, r = some (some (front, some std, back)) ∧
    Cut layout front std back

private theorem sound_none : Sound layout (some none) := .inl rfl

private theorem sound_ite {p : Prop} [Decidable p] {r r' : Option (Option Chunk)}
    (hpos : p → Sound layout r) (hneg : Sound layout r') : Sound layout (if p then r else r') := by
  by_cases hp : p
  · rw [if_pos hp]
    exact hpos hp
  · rwa [if_neg hp]

private theorem found_sound (hat : StandsAt layout i text) (hspells : Spells std text)
    (hj : j = i + size text) : Sound layout (found layout i std j) := by
  obtain ⟨front, back, hlayout, hfront, hback⟩ := hat.slice_front
  refine .inr ⟨front, std, back, ?_, text, hspells.ne_nil, hspells, hlayout.symm⟩
  rw [found, hj, hfront, hback]
  rfl

private theorem standsAt_of_matches (htext : isAscii text = true) (hne : text ≠ [])
    (h : matchesAt (utf8 layout) i text = true) : StandsAt layout i text := by
  rw [matchesAt, Bool.and_eq_true, decide_eq_true_eq, beq_iff_eq] at h
  obtain ⟨hlen, htake⟩ := h
  have hbytes : utf8 layout = (utf8 layout).take i ++ utf8 text ++
      ((utf8 layout).drop i).drop (utf8 text).length := by
    calc utf8 layout = (utf8 layout).take i ++ (utf8 layout).drop i :=
          (List.take_append_drop i _).symm
      _ = (utf8 layout).take i ++ (((utf8 layout).drop i).take (utf8 text).length ++
          ((utf8 layout).drop i).drop (utf8 text).length) := by
          rw [List.take_append_drop (utf8 text).length]
      _ = _ := by rw [htake, List.append_assoc]
  have hat := standsAt_of_bytes (isAscii_iff.mp htext) hne hbytes
  rwa [List.length_take, Nat.min_eq_left (by omega)] at hat

private theorem standsAt_pair {c d : Char} (hc : c.toNat < 128) (hd : d.toNat < 128)
    (hfirst : (utf8 layout)[i]? = some (asciiByte c))
    (hsecond : (utf8 layout)[i + 1]? = some (asciiByte d)) : StandsAt layout i [c, d] :=
  .cons hc hfirst (standsAt_of_byte hd hsecond)

private theorem nameAt_sound {short long : Str} {longStd : Std} (hshort : Spells std short)
    (hlong : Spells longStd long) (hsize : size short = 3) (hascii : isAscii short = true)
    (hascii' : isAscii long = true) :
    Sound layout (nameAt layout (utf8 layout) i short long std longStd) := by
  rw [nameAt]
  by_cases hmatch : matchesAt (utf8 layout) i short = true
  · have hat := standsAt_of_matches hascii hshort.ne_nil hmatch
    obtain ⟨front, back, -, -, hback⟩ := hat.slice_front
    rw [if_pos hmatch]
    split_ifs with hlonger
    · exact found_sound (standsAt_of_matches hascii' hlong.ne_nil hlonger) hlong rfl
    · rw [← hsize, hback, Option.bind_some]
      split_ifs
      · exact found_sound hat hshort rfl
      · exact sound_none
  · rw [if_neg hmatch]
    exact sound_none

private theorem monthAt_sound : Sound layout (monthAt layout (utf8 layout) i) :=
  nameAt_sound .month .longMonth rfl rfl rfl

private theorem weekDayAt_sound : Sound layout (weekDayAt layout (utf8 layout) i) := by
  have hname : Sound layout (nameAt layout (utf8 layout) i "Mon".toList "Monday".toList .weekDay
      .longWeekDay) := nameAt_sound .weekDay .longWeekDay rfl rfl rfl
  rw [weekDayAt]
  rcases hname with hnone | ⟨front, std, back, hsome, hcut⟩
  · rw [hnone, Option.bind_some, Option.isSome_none, if_neg Bool.false_ne_true]
    split_ifs with hmatch
    · exact found_sound (standsAt_of_matches rfl (by decide) hmatch) .tz rfl
    · exact sound_none
  · rw [hsome, Option.bind_some, Option.isSome_some, if_pos rfl]
    exact .inr ⟨front, std, back, rfl, hcut⟩

private theorem std_0x_digits : ∀ n < 256, asciiByte '1' ≤ UInt8.ofNat n →
    UInt8.ofNat n ≤ asciiByte '6' →
    ("123456".toList.any fun d => UInt8.ofNat n == asciiByte d) = true := by
  decide +kernel

private theorem std_0x_spells : ∀ d ∈ "123456".toList, ∃ std,
    STD_0X[(asciiByte d - asciiByte '1').toNat]? = some std ∧ Spells std ['0', d] := by
  intro d hd
  have hcases : d = '1' ∨ d = '2' ∨ d = '3' ∨ d = '4' ∨ d = '5' ∨ d = '6' := by simpa using hd
  rcases hcases with rfl | rfl | rfl | rfl | rfl | rfl
  · exact ⟨_, rfl, .zeroMonth⟩
  · exact ⟨_, rfl, .zeroDay⟩
  · exact ⟨_, rfl, .zeroHour12⟩
  · exact ⟨_, rfl, .zeroMinute⟩
  · exact ⟨_, rfl, .zeroSecond⟩
  · exact ⟨_, rfl, .year⟩

private theorem zeroAt_sound (hfirst : (utf8 layout)[i]? = some (asciiByte '0')) :
    Sound layout (zeroAt layout (utf8 layout) i) := by
  rw [zeroAt]
  split
  · rename_i c hc
    obtain ⟨hnext, hrange⟩ := Option.filter_eq_some_iff.mp hc
    rw [Bool.and_eq_true, decide_eq_true_eq, decide_eq_true_eq] at hrange
    have hdigits := std_0x_digits c.toNat c.toNat_lt
    rw [UInt8.ofNat_toNat] at hdigits
    obtain ⟨d, hd, hcd⟩ := List.any_eq_true.mp (hdigits hrange.1 hrange.2)
    obtain rfl := beq_iff_eq.mp hcd
    obtain ⟨std, hstd, hspells⟩ := std_0x_spells d hd
    have hascii : d.toNat < 128 := (@isAscii_iff "123456".toList).mp rfl d hd
    rw [hstd, Option.bind_some]
    refine found_sound (standsAt_pair (by decide) hascii hfirst hnext) hspells ?_
    rw [size_cons, size_singleton hascii]
    rfl
  · split_ifs with hrest
    · exact found_sound (.cons (by decide) hfirst (standsAt_pair (by decide) (by decide) hrest.1
        hrest.2)) .zeroYearDay rfl
    · exact sound_none

private theorem oneAt_sound (hfirst : (utf8 layout)[i]? = some (asciiByte '1')) :
    Sound layout (oneAt layout (utf8 layout) i) := by
  rw [oneAt]
  split_ifs with hfive
  · exact found_sound (standsAt_pair (by decide) (by decide) hfirst hfive) .hour rfl
  · exact found_sound (standsAt_of_byte (by decide) hfirst) .numMonth rfl

private theorem twoAt_sound (hfirst : (utf8 layout)[i]? = some (asciiByte '2')) :
    Sound layout (twoAt layout (utf8 layout) i) := by
  rw [twoAt]
  split_ifs with hyear
  · exact found_sound (standsAt_of_matches rfl (by decide) hyear) .longYear rfl
  · exact found_sound (standsAt_of_byte (by decide) hfirst) .day rfl

private theorem underAt_sound (hfirst : (utf8 layout)[i]? = some (asciiByte '_')) :
    Sound layout (underAt layout (utf8 layout) i) := by
  rw [underAt]
  split_ifs with htwo hyear hunder
  · exact found_sound (standsAt_of_matches rfl (by decide) hyear) .longYear rfl
  · exact found_sound (standsAt_pair (by decide) (by decide) hfirst htwo) .underDay rfl
  · exact found_sound (.cons (by decide) hfirst (standsAt_pair (by decide) (by decide) hunder.1
      hunder.2)) .underYearDay rfl
  · exact sound_none

private theorem pmAt_sound {first second : Char} {upper : Bool}
    (hspells : Spells (.pm upper) [first, second]) (hc : first.toNat < 128)
    (hd : second.toNat < 128) (hfirst : (utf8 layout)[i]? = some (asciiByte first)) :
    Sound layout (pmAt layout (utf8 layout) i second upper) := by
  rw [pmAt]
  split_ifs with hsecond
  · apply found_sound (standsAt_pair hc hd hfirst hsecond) hspells
    rw [size_ascii (List.forall_mem_cons.mpr ⟨hc, by simpa using hd⟩)]
    rfl
  · exact sound_none

private theorem zoneAt_sound {iso : Bool} {zones : List ZonePattern}
    (hzones : ∀ z ∈ zones, Spells (.numTz iso z.colon z.short z.seconds) z.pat ∧
      isAscii z.pat = true) :
    Sound layout (zoneAt layout (utf8 layout) i iso zones) := by
  induction zones with
  | nil => exact sound_none
  | cons z zones ih =>
    obtain ⟨hspells, hascii⟩ := hzones z List.mem_cons_self
    rw [zoneAt]
    split_ifs with hmatch
    · exact found_sound (standsAt_of_matches hascii hspells.ne_nil hmatch) hspells rfl
    · exact ih fun z hz => hzones z (List.mem_cons_of_mem _ hz)

private theorem minusZones_spell : ∀ z ∈ MINUS_ZONES,
    Spells (.numTz false z.colon z.short z.seconds) z.pat ∧ isAscii z.pat = true := by
  simp only [MINUS_ZONES, List.forall_mem_cons]
  exact ⟨⟨.zoneSeconds false, rfl⟩, ⟨.zoneColonSeconds false, rfl⟩,
    ⟨.zone false, rfl⟩, ⟨.zoneColon false, rfl⟩, ⟨.zoneShort false, rfl⟩, by simp⟩

private theorem isoZones_spell : ∀ z ∈ ISO_ZONES,
    Spells (.numTz true z.colon z.short z.seconds) z.pat ∧ isAscii z.pat = true := by
  simp only [ISO_ZONES, List.forall_mem_cons]
  exact ⟨⟨.zoneSeconds true, rfl⟩, ⟨.zoneColonSeconds true, rfl⟩,
    ⟨.zone true, rfl⟩, ⟨.zoneColon true, rfl⟩, ⟨.zoneShort true, rfl⟩, by simp⟩

private theorem runEnd_run {d : Char} (hd : d.toNat < 128) (j : ℕ)
    (h : (utf8 layout)[j]? = some (asciiByte d)) :
    ∃ k, 0 < k ∧ runEnd (utf8 layout) (asciiByte d) j = j + k ∧
      StandsAt layout j (List.replicate k d) := by
  obtain ⟨hlt, -⟩ := List.getElem?_eq_some_iff.mp h
  rw [runEnd, dif_pos ⟨hlt, h⟩]
  by_cases hmore : (utf8 layout)[j + 1]? = some (asciiByte d)
  · obtain ⟨k, -, hend, hat⟩ := runEnd_run hd (j + 1) hmore
    refine ⟨k + 1, Nat.succ_pos _, by rw [hend]; omega, ?_⟩
    rw [List.replicate_succ]
    exact .cons hd h hat
  · refine ⟨1, Nat.one_pos, ?_, standsAt_of_byte hd h⟩
    rw [runEnd, dif_neg fun hrun => hmore hrun.2]
termination_by (utf8 layout).length - j

private theorem fractionAt_sound {sep : Char} (hsep : sep = '.' ∨ sep = ',')
    (hfirst : (utf8 layout)[i]? = some (asciiByte sep)) :
    Sound layout (fractionAt layout (utf8 layout) i (asciiByte sep)) := by
  have hascii : sep.toNat < 128 := by
    rcases hsep with rfl | rfl
    · decide
    · decide
  rw [fractionAt]
  split
  · exact sound_none
  · rename_i ch hch
    obtain ⟨hnext, hdigit⟩ := Option.filter_eq_some_iff.mp hch
    obtain ⟨d, rfl, hd, hnine⟩ : ∃ d : Char, ch = asciiByte d ∧ d.toNat < 128 ∧
        d = if ch == asciiByte '9' then '9' else '0' := by
      rw [Bool.or_eq_true, beq_iff_eq, beq_iff_eq] at hdigit
      rcases hdigit with rfl | rfl
      · exact ⟨'0', rfl, by decide, rfl⟩
      · exact ⟨'9', rfl, by decide, rfl⟩
    obtain ⟨k, hk, hend, hat⟩ := runEnd_run hd (i + 1) hnext
    have htext : StandsAt layout i (sep :: List.replicate k d) := .cons hascii hfirst hat
    have hcomma : sep = if asciiByte sep == asciiByte ',' then ',' else '.' := by
      rcases hsep with rfl | rfl
      · rfl
      · rfl
    split_ifs
    · rw [hend, Nat.add_sub_cancel_left]
      have hspells := Spells.fracSecond (asciiByte d == asciiByte '9')
        (asciiByte sep == asciiByte ',') hk
      rw [← hnine, ← hcomma] at hspells
      apply found_sound htext hspells
      rw [size_ascii, List.length_cons, List.length_replicate]
      · omega
      · intro c hc
        rcases List.mem_cons.mp hc with rfl | hc
        · exact hascii
        · rwa [List.eq_of_mem_replicate hc]
    · exact sound_none

private theorem stdAt_sound {c : UInt8} (h : (utf8 layout)[i]? = some c) :
    Sound layout (stdAt layout (utf8 layout) i c) := by
  have hone {d : Char} {std : Std} (hc : c = asciiByte d) (hd : d.toNat < 128)
      (hspells : Spells std [d]) : Sound layout (found layout i std (i + 1)) := by
    subst hc
    apply found_sound (standsAt_of_byte hd h) hspells
    rw [size_singleton hd]
  rw [stdAt]
  refine sound_ite (fun _ => monthAt_sound) ?_
  refine sound_ite (fun _ => weekDayAt_sound) ?_
  refine sound_ite (fun hc => zeroAt_sound (hc ▸ h)) ?_
  refine sound_ite (fun hc => oneAt_sound (hc ▸ h)) ?_
  refine sound_ite (fun hc => twoAt_sound (hc ▸ h)) ?_
  refine sound_ite (fun hc => underAt_sound (hc ▸ h)) ?_
  refine sound_ite (fun hc => hone hc (by decide) .hour12) ?_
  refine sound_ite (fun hc => hone hc (by decide) .minute) ?_
  refine sound_ite (fun hc => hone hc (by decide) .second) ?_
  refine sound_ite (fun hc => pmAt_sound .upperPm (by decide) (by decide) (hc ▸ h)) ?_
  refine sound_ite (fun hc => pmAt_sound .lowerPm (by decide) (by decide) (hc ▸ h)) ?_
  refine sound_ite (fun _ => zoneAt_sound minusZones_spell) ?_
  refine sound_ite (fun _ => zoneAt_sound isoZones_spell) ?_
  refine sound_ite ?_ sound_none
  intro hc
  rcases hc with rfl | rfl
  · exact fractionAt_sound (.inl rfl) h
  · exact fractionAt_sound (.inr rfl) h

example : stdAt "_2006".toList (utf8 "_2006".toList) 0 (asciiByte '_') =
    some (some ("_".toList, some .longYear, [])) := by decide

private theorem scanFrom_partition (layout : Str) (i : ℕ) :
    ∃ chunk, scanFrom layout (utf8 layout) i = some chunk ∧ Partition layout chunk := by
  rw [scanFrom]
  split_ifs with hi
  · rcases stdAt_sound (List.getElem?_eq_getElem hi) with hnone | ⟨front, std, back, hsome, hcut⟩
    · rw [hnone, Option.bind_some, Option.elim_none]
      exact scanFrom_partition layout (i + 1)
    · rw [hsome, Option.bind_some, Option.elim_some]
      exact ⟨_, rfl, hcut⟩
  · exact ⟨_, rfl, rfl, rfl⟩
termination_by (utf8 layout).length - i

theorem nextStdChunk_partition (layout : Str) :
    ∃ chunk, nextStdChunk layout = some chunk ∧ Partition layout chunk :=
  scanFrom_partition layout 0

theorem Cut.shorter {layout front back : Str} {std : Std} (h : Cut layout front std back) :
    back.length < layout.length := by
  obtain ⟨text, hne, -, rfl⟩ := h
  have hpos := List.length_pos_iff.mpr hne
  rw [List.length_append, List.length_append]
  omega

end Cuts

end Kcptun.Setup.TimeLayout
