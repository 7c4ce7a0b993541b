/- Kcptun/Setup/TimeFormat
   source: crates/std/src/gotime.rs (LONG_MONTH_NAMES, LONG_DAY_NAMES, Time, Time::fields, Fields,
     hour12, append_int, append_nano, format)
   digest: Rendering a time in a layout: the text around the tokens is kept, each token gives way to
     its rendering, and no layout makes it panic. -/

import Kcptun.Setup.TimeLayout
import Mathlib.Data.List.DropRight

set_option autoImplicit false
set_option relaxedAutoImplicit false

namespace Kcptun.Setup.TimeFormat

open Kcptun.Lib.Utf8
open Kcptun.Setup.TimeLayout

def LONG_MONTH_NAMES : List Str :=
  ["January".toList, "February".toList, "March".toList, "April".toList, "May".toList,
    "June".toList, "July".toList, "August".toList, "September".toList, "October".toList,
    "November".toList, "December".toList]

def LONG_DAY_NAMES : List Str :=
  ["Sunday".toList, "Monday".toList, "Tuesday".toList, "Wednesday".toList, "Thursday".toList,
    "Friday".toList, "Saturday".toList]

/-- An instant, and the zone it is shown in. -/
structure Time where
  unixSecs : Int64
  nanos : UInt32
  offsetSecs : Int32
  zoneName : Str

structure Fields where
  year : Int64
  month : UInt32
  day : UInt32
  yday : UInt32
  hour : UInt32
  minute : UInt32
  second : UInt32
  weekday : ℕ

/-- What the calendar of `chrono` says about an instant. -/
structure NaiveDateTime where
  year : Int32
  month : UInt32
  day : UInt32
  ordinal : UInt32
  hour : UInt32
  minute : UInt32
  second : UInt32
  numDaysFromSunday : UInt32

/-- Months are counted from one to twelve, and Saturday is six days from Sunday. -/
structure NaiveDateTime.InRange (d : NaiveDateTime) : Prop where
  month_pos : 1 ≤ d.month
  month_le : d.month ≤ 12
  weekday_le : d.numDaysFromSunday ≤ 6

def UNIX_EPOCH : NaiveDateTime := ⟨1970, 1, 1, 1, 0, 0, 0, 4⟩

def saturatingAdd (a b : Int64) : Int64 :=
  if a.toInt + b.toInt > Int64.maxValue.toInt then Int64.maxValue
  else if a.toInt + b.toInt < Int64.minValue.toInt then Int64.minValue
  else a + b

/-- `fields`, over the `DateTime::from_timestamp` of `chrono`. -/
def Time.fields (fromTimestamp : Int64 → UInt32 → Option NaiveDateTime) (t : Time) : Fields :=
  let d := (fromTimestamp (saturatingAdd t.unixSecs t.offsetSecs.toInt64) 0).getD UNIX_EPOCH
  { year := d.year.toInt64
    month := d.month
    day := d.day
    yday := d.ordinal
    hour := d.hour
    minute := d.minute
    second := d.second
    weekday := d.numDaysFromSunday.toNat }

/-- `-x`, which panics where it overflows. -/
def checkedNeg (x : Int64) : Option Int64 := if x = Int64.minValue then none else some (-x)

def checkedAbs (x : Int64) : Option Int64 := if x = Int64.minValue then none else some x.abs

/-- `i64::from(x)`. -/
def i64 (x : UInt32) : Int64 := x.toUInt64.toInt64

def hour12 (hour : UInt32) : UInt32 := if hour % 12 = 0 then 12 else hour % 12

/-- A number in decimal, with zeros in front up to a width. -/
def padded (width n : ℕ) : Str :=
  List.replicate (width - (Nat.toDigits 10 n).length) '0' ++ Nat.toDigits 10 n

def appendInt (out : Str) (x : Int64) (width : ℕ) : Str :=
  (if x < 0 then out ++ ['-'] else out) ++ padded width x.toInt.natAbs

def fraction (nanosec : UInt32) (digits : ℕ) : Option Str :=
  let nanos := padded 9 nanosec.toNat
  if digits < 9 then slice nanos 0 (min digits (size nanos)) else some nanos

def appendNano (out : Str) (nanosec : UInt32) (trim : Bool) (digits : ℕ) (comma : Bool) :
    Option Str :=
  if trim ∧ (digits = 0 ∨ nanosec = 0) then some out
  else
    let out := out ++ [if comma then ',' else '.']
    (fraction nanosec digits).map fun frac =>
    if trim then
      let frac := frac.rdropWhile (· == '0')
      if frac = [] then out.dropLast else out ++ frac
    else out ++ frac

/-- The sign of an offset behind the output, and its minutes without the sign. -/
def zoneMinutes (out : Str) (offset : Int64) : Option (Str × Int64) :=
  if offset / 60 < 0 then (checkedNeg (offset / 60)).map fun zone => (out ++ ['-'], zone)
  else some (out ++ ['+'], offset / 60)

def absOffset (offset : Int64) : Option Int64 :=
  if offset / 60 < 0 then checkedNeg offset else some offset

def appendColon (out : Str) (colon : Bool) : Str := if colon then out ++ [':'] else out

def appendNumTz (out : Str) (offset : Int64) (iso colon short seconds : Bool) : Option Str :=
  if offset = 0 ∧ iso then some (out ++ ['Z'])
  else
    (zoneMinutes out offset).bind fun zone =>
    (absOffset offset).map fun absoffset =>
    let out := appendColon (appendInt zone.1 (zone.2 / 60) 2) colon
    let out := if !short then appendInt out (zone.2 % 60) 2 else out
    if seconds then appendInt (appendColon out colon) (absoffset % 60) 2 else out

def appendTz (out : Str) (offset : Int64) (zoneName : Str) : Option Str :=
  if zoneName ≠ [] then some (out ++ zoneName)
  else
    (zoneMinutes out offset).map fun zone =>
    appendInt (appendInt zone.1 (zone.2 / 60) 2) (zone.2 % 60) 2

def monthName (f : Fields) : Option Str :=
  if f.month = 0 then none else LONG_MONTH_NAMES[f.month.toNat - 1]?

def dayName (f : Fields) : Option Str := LONG_DAY_NAMES[f.weekday]?

/-- One round of the loop of `format`, without the text in front of the token. -/
def appendStd (f : Fields) (t : Time) (out : Str) : Std → Option Str
  | .year => (checkedAbs f.year).map fun y => appendInt out (y % 100) 2
  | .longYear => some (appendInt out f.year 4)
  | .month => (monthName f).bind fun name => (slice name 0 3).map (out ++ ·)
  | .longMonth => (monthName f).map (out ++ ·)
  | .numMonth => some (appendInt out (i64 f.month) 0)
  | .zeroMonth => some (appendInt out (i64 f.month) 2)
  | .weekDay => (dayName f).bind fun name => (slice name 0 3).map (out ++ ·)
  | .longWeekDay => (dayName f).map (out ++ ·)
  | .day => some (appendInt out (i64 f.day) 0)
  | .underDay => some (appendInt (if f.day < 10 then out ++ [' '] else out) (i64 f.day) 0)
  | .zeroDay => some (appendInt out (i64 f.day) 2)
  | .underYearDay =>
    some (appendInt
      (if f.yday < 100 then (if f.yday < 10 then out ++ [' '] ++ [' '] else out ++ [' ']) else out)
      (i64 f.yday) 0)
  | .zeroYearDay => some (appendInt out (i64 f.yday) 3)
  | .hour => some (appendInt out (i64 f.hour) 2)
  | .hour12 => some (appendInt out (i64 (hour12 f.hour)) 0)
  | .zeroHour12 => some (appendInt out (i64 (hour12 f.hour)) 2)
  | .minute => some (appendInt out (i64 f.minute) 0)
  | .zeroMinute => some (appendInt out (i64 f.minute) 2)
  | .second => some (appendInt out (i64 f.second) 0)
  | .zeroSecond => some (appendInt out (i64 f.second) 2)
  | .pm upper =>
    some (out ++ if f.hour ≥ 12 then (if upper then "PM".toList else "pm".toList)
      else (if upper then "AM".toList else "am".toList))
  | .numTz iso colon short seconds =>
    appendNumTz out t.offsetSecs.toInt64 iso colon short seconds
  | .tz => appendTz out t.offsetSecs.toInt64 t.zoneName
  | .fracSecond trim digits comma => appendNano out t.nanos trim digits comma

private theorem shorter_of_token {layout front back : Str} {std : Std}
    (h : nextStdChunk layout = some (front, some std, back)) : back.length < layout.length := by
  obtain ⟨chunk, hchunk, hpart⟩ := nextStdChunk_partition layout
  rw [h] at hchunk
  obtain rfl := Option.some.inj hchunk
  exact Cut.shorter hpart

def formatLoop (f : Fields) (t : Time) (layout out : Str) : Option Str :=
  if layout = [] then some out
  else
    match _h : nextStdChunk layout with
    | none => none
    | some (front, none, _) => some (out ++ front)
    | some (front, some std, back) =>
      (appendStd f t (out ++ front) std).bind fun out => formatLoop f t back out
termination_by layout.length
decreasing_by exact shorter_of_token _h

def format (fromTimestamp : Int64 → UInt32 → Option NaiveDateTime) (layout : Str) (t : Time) :
    Option Str :=
  formatLoop (t.fields fromTimestamp) t layout []

section Appends

variable {f : Fields} {t : Time}

/-- The output gets some text behind it, which does not depend on it. -/
def Adds (g : Str → Str) : Prop := ∃ text, ∀ out, g out = out ++ text

def Appends (g : Str → Option Str) : Prop := ∃ text, ∀ out, g out = some (out ++ text)

private theorem Adds.appends {g : Str → Str} (hg : Adds g) : Appends fun out => some (g out) := by
  obtain ⟨text, htext⟩ := hg
  exact ⟨text, fun out => congrArg some (htext out)⟩

private theorem adds_nothing : Adds fun out => out := ⟨[], fun out => (List.append_nil out).symm⟩

private theorem adds_text (text : Str) : Adds fun out => out ++ text := ⟨text, fun _ => rfl⟩

private theorem Adds.comp {g h : Str → Str} (hg : Adds g) (hh : Adds h) :
    Adds fun out => h (g out) := by
  obtain ⟨front, hfront⟩ := hg
  obtain ⟨back, hback⟩ := hh
  refine ⟨front ++ back, ?_⟩
  intro out
  show h (g out) = out ++ (front ++ back)
  rw [hback, hfront, List.append_assoc]

private theorem Adds.ite {g h : Str → Str} (p : Prop) [Decidable p] (hg : Adds g) (hh : Adds h) :
    Adds fun out => if p then g out else h out := by
  by_cases hp : p
  · simpa only [if_pos hp] using hg
  · simpa only [if_neg hp] using hh

private theorem adds_int (x : Int64) (width : ℕ) : Adds fun out => appendInt out x width :=
  (Adds.ite (x < 0) (adds_text ['-']) adds_nothing).comp (adds_text (padded width x.toInt.natAbs))

private theorem adds_colon (colon : Bool) : Adds fun out => appendColon out colon :=
  Adds.ite _ (adds_text [':']) adds_nothing

section Fraction

private theorem padded_ascii (width n : ℕ) : ∀ c ∈ padded width n, c.toNat < 128 := by
  intro c hc
  rcases List.mem_append.mp hc with hzero | hdigit
  · rw [List.eq_of_mem_replicate hzero]
    decide
  · have hdec := Nat.isDigit_of_mem_toDigits (by decide) le_rfl hdigit
    rw [Char.isDigit, Bool.and_eq_true, decide_eq_true_eq, decide_eq_true_eq] at hdec
    have hle : c.toNat ≤ 57 := hdec.2
    omega

private theorem slice_ascii {s : Str} (h : ∀ c ∈ s, c.toNat < 128) {n : ℕ} (hn : n ≤ s.length) :
    slice s 0 n = some (s.take n) := by
  have hsize : size (s.take n) = n := by
    rw [size_ascii fun c hc => h c (List.mem_of_mem_take hc), List.length_take, Nat.min_eq_left hn]
  have hslice := slice_append [] (s.take n) (s.drop n)
  rwa [List.nil_append, List.take_append_drop, size_nil, Nat.zero_add, hsize] at hslice

private theorem fraction_some (nanosec : UInt32) (digits : ℕ) :
    ∃ frac, fraction nanosec digits = some frac := by
  rw [fraction]
  split_ifs
  · refine ⟨_, slice_ascii (padded_ascii _ _) ?_⟩
    rw [size_ascii (padded_ascii _ _)]
    exact Nat.min_le_right _ _
  · exact ⟨_, rfl⟩

private theorem appends_nano (nanosec : UInt32) (trim : Bool) (digits : ℕ) (comma : Bool) :
    Appends fun out => appendNano out nanosec trim digits comma := by
  obtain ⟨frac, hfrac⟩ := fraction_some nanosec digits
  have hback (sep : Char) : Adds fun out => (out ++ [sep]).dropLast :=
    ⟨[], fun out => List.dropLast_concat.trans (List.append_nil out).symm⟩
  by_cases hnothing : trim = true ∧ (digits = 0 ∨ nanosec = 0)
  · simpa only [appendNano, if_pos hnothing] using adds_nothing.appends
  · simp only [appendNano, if_neg hnothing, hfrac, Option.map_some]
    refine Adds.appends (Adds.ite _ (Adds.ite _ (hback _) ?_) ?_)
    · exact (adds_text _).comp (adds_text _)
    · exact (adds_text _).comp (adds_text _)

end Fraction

section Zone

private theorem toInt_offset (x : Int32) :
    -2 ^ 31 ≤ x.toInt64.toInt ∧ x.toInt64.toInt < 2 ^ 31 := by
  rw [Int32.toInt_toInt64]
  exact ⟨x.le_toInt, x.toInt_lt⟩

private theorem checkedNeg_some {x : Int64} (h : -2 ^ 62 ≤ x.toInt) :
    ∃ y, checkedNeg x = some y := by
  rw [checkedNeg, if_neg]
  · exact ⟨_, rfl⟩
  · rintro rfl
    rw [Int64.toInt_minValue] at h
    omega

private theorem minutes_bound (x : Int32) : -2 ^ 62 ≤ (x.toInt64 / 60).toInt := by
  have hx := toInt_offset x
  rw [Int64.toInt_div_of_ne_right _ _ (by decide)]
  have habs := Int.natAbs_tdiv_le_natAbs x.toInt64.toInt (60 : Int64).toInt
  omega

private theorem zoneMinutes_some (x : Int32) : ∃ sign zone, ∀ out,
    zoneMinutes out x.toInt64 = some (out ++ sign, zone) := by
  obtain ⟨zone, hzone⟩ := checkedNeg_some (minutes_bound x)
  simp only [zoneMinutes, hzone, Option.map_some]
  split_ifs
  · exact ⟨_, _, fun _ => rfl⟩
  · exact ⟨_, _, fun _ => rfl⟩

private theorem absOffset_some (x : Int32) : ∃ absoffset, absOffset x.toInt64 = some absoffset := by
  have hx := toInt_offset x
  rw [absOffset]
  split_ifs
  · exact checkedNeg_some (by omega)
  · exact ⟨_, rfl⟩

private theorem appends_numTz (x : Int32) (iso colon short seconds : Bool) :
    Appends fun out => appendNumTz out x.toInt64 iso colon short seconds := by
  obtain ⟨sign, zone, hzone⟩ := zoneMinutes_some x
  obtain ⟨absoffset, habs⟩ := absOffset_some x
  by_cases hz : x.toInt64 = 0 ∧ iso = true
  · simpa only [appendNumTz, if_pos hz] using (adds_text ['Z']).appends
  · simp only [appendNumTz, if_neg hz, hzone, habs, Option.bind_some, Option.map_some]
    have hhours : Adds fun out => appendColon (appendInt (out ++ sign) (zone / 60) 2) colon :=
      ((adds_text sign).comp (adds_int _ _)).comp (adds_colon colon)
    have hminutes : Adds fun out => if !short then appendInt out (zone % 60) 2 else out :=
      Adds.ite _ (adds_int _ _) adds_nothing
    have hseconds : Adds fun out =>
        if seconds then appendInt (appendColon out colon) (absoffset % 60) 2 else out :=
      Adds.ite _ ((adds_colon colon).comp (adds_int _ _)) adds_nothing
    exact ((hhours.comp hminutes).comp hseconds).appends

private theorem appends_tz (x : Int32) (zoneName : Str) :
    Appends fun out => appendTz out x.toInt64 zoneName := by
  obtain ⟨sign, zone, hzone⟩ := zoneMinutes_some x
  by_cases hname : zoneName ≠ []
  · simpa only [appendTz, if_pos hname] using (adds_text zoneName).appends
  · simp only [appendTz, if_neg hname, hzone, Option.map_some]
    exact (((adds_text sign).comp (adds_int _ _)).comp (adds_int _ _)).appends

end Zone

section Names

/-- The fields that the names and the year are taken from. -/
structure Fields.InRange (f : Fields) : Prop where
  year_ne : f.year ≠ Int64.minValue
  month_pos : f.month ≠ 0
  month_le : f.month.toNat ≤ 12
  weekday_lt : f.weekday < 7

private theorem names_short : ∀ name ∈ LONG_MONTH_NAMES ++ LONG_DAY_NAMES,
    ∃ short, slice name 0 3 = some short := by
  have hsome : ∀ name ∈ LONG_MONTH_NAMES ++ LONG_DAY_NAMES, (slice name 0 3).isSome := by decide
  intro name hname
  exact Option.isSome_iff_exists.mp (hsome name hname)

private theorem appends_name {name : Option Str}
    (h : ∃ text ∈ LONG_MONTH_NAMES ++ LONG_DAY_NAMES, name = some text) :
    (Appends fun out => name.map (out ++ ·)) ∧
      Appends fun out => name.bind fun name => (slice name 0 3).map (out ++ ·) := by
  obtain ⟨text, hmem, rfl⟩ := h
  obtain ⟨short, hshort⟩ := names_short text hmem
  simp only [Option.map_some, Option.bind_some, hshort]
  exact ⟨(adds_text text).appends, (adds_text short).appends⟩

private theorem Fields.InRange.monthName (h : f.InRange) :
    ∃ text ∈ LONG_MONTH_NAMES ++ LONG_DAY_NAMES, monthName f = some text := by
  have hlt : f.month.toNat - 1 < LONG_MONTH_NAMES.length := by
    have := h.month_le
    rw [show LONG_MONTH_NAMES.length = 12 from rfl]
    omega
  refine ⟨_, List.mem_append_left _ (List.getElem_mem hlt), ?_⟩
  rw [TimeFormat.monthName, if_neg h.month_pos, List.getElem?_eq_getElem hlt]

private theorem Fields.InRange.dayName (h : f.InRange) :
    ∃ text ∈ LONG_MONTH_NAMES ++ LONG_DAY_NAMES, dayName f = some text := by
  have hlt : f.weekday < LONG_DAY_NAMES.length := h.weekday_lt
  refine ⟨_, List.mem_append_right _ (List.getElem_mem hlt), ?_⟩
  rw [TimeFormat.dayName, List.getElem?_eq_getElem hlt]

private theorem appends_std (h : f.InRange) (t : Time) (std : Std) :
    Appends fun out => appendStd f t out std := by
  cases std with
  | year =>
    simp only [appendStd, checkedAbs, if_neg h.year_ne, Option.map_some]
    exact (adds_int _ _).appends
  | month => exact (appends_name h.monthName).2
  | longMonth => exact (appends_name h.monthName).1
  | weekDay => exact (appends_name h.dayName).2
  | longWeekDay => exact (appends_name h.dayName).1
  | underDay =>
    have hspace : Adds fun out => if f.day < 10 then out ++ [' '] else out :=
      Adds.ite _ (adds_text [' ']) adds_nothing
    exact (hspace.comp (adds_int _ _)).appends
  | underYearDay =>
    have hspaces : Adds fun out => if f.yday < 100 then
        (if f.yday < 10 then out ++ [' '] ++ [' '] else out ++ [' ']) else out :=
      Adds.ite _ (Adds.ite _ ((adds_text [' ']).comp (adds_text [' '])) (adds_text [' ']))
        adds_nothing
    exact (hspaces.comp (adds_int _ _)).appends
  | pm upper => exact (adds_text _).appends
  | numTz iso colon short seconds => exact appends_numTz _ _ _ _ _
  | tz => exact appends_tz _ _
  | fracSecond trim digits comma => exact appends_nano _ _ _ _
  | _ => exact (adds_int _ _).appends

end Names

end Appends

section Pieces

variable {f : Fields} {t : Time} {layout tail : Str}

def rendering (f : Fields) (t : Time) (std : Std) : Str := (appendStd f t [] std).getD []

private theorem appendStd_rendering (h : f.InRange) (out : Str) (std : Std) :
    appendStd f t out std = some (out ++ rendering f t std) := by
  obtain ⟨text, htext⟩ := appends_std h t std
  have hempty : appendStd f t [] std = some text := htext []
  rw [rendering, hempty, Option.getD_some]
  exact htext out

/-- A token in a layout with its spelling there, and the text in front of it. -/
structure Piece where
  literal : Str
  text : Str
  std : Std
  nonempty : text ≠ []
  spells : Spells std text

def source (pieces : List Piece) (tail : Str) : Str :=
  pieces.flatMap (fun p => p.literal ++ p.text) ++ tail

def rendered (f : Fields) (t : Time) (pieces : List Piece) (tail : Str) : Str :=
  pieces.flatMap (fun p => p.literal ++ rendering f t p.std) ++ tail

/-- The pieces that the scanner finds in a layout, one after the other, and the text behind them. -/
inductive Scan : Str → List Piece → Str → Prop where
  | done {layout : Str} (h : nextStdChunk layout = some (layout, none, [])) : Scan layout [] layout
  | token {p : Piece} {pieces : List Piece} {rest tail : Str}
      (h : nextStdChunk (p.literal ++ p.text ++ rest) = some (p.literal, some p.std, rest))
      (hrest : Scan rest pieces tail) : Scan (p.literal ++ p.text ++ rest) (p :: pieces) tail

private theorem scan_exists (layout : Str) : ∃ pieces tail, Scan layout pieces tail := by
  obtain ⟨⟨front, std, back⟩, hchunk, hpart⟩ := nextStdChunk_partition layout
  cases std with
  | none =>
    obtain ⟨rfl, rfl⟩ := hpart
    exact ⟨[], front, .done hchunk⟩
  | some std =>
    have hshorter : back.length < layout.length := Cut.shorter hpart
    obtain ⟨text, hne, hspells, rfl⟩ := hpart
    obtain ⟨pieces, tail, hrest⟩ := scan_exists back
    let p : Piece := ⟨front, text, std, hne, hspells⟩
    exact ⟨p :: pieces, tail, .token (p := p) hchunk hrest⟩
termination_by layout.length

private theorem Scan.source_eq {pieces : List Piece} (h : Scan layout pieces tail) :
    source pieces tail = layout := by
  induction h with
  | done => rfl
  | token _ _ ih =>
    rw [← ih, source, List.flatMap_cons, List.append_assoc]
    rfl

private theorem Scan.formatLoop_eq {pieces : List Piece} (h : Scan layout pieces tail)
    (hf : f.InRange)
    (out : Str) : formatLoop f t layout out = some (out ++ rendered f t pieces tail) := by
  induction h generalizing out with
  | @done layout hchunk =>
    rw [formatLoop]
    split_ifs with hempty
    · rw [hempty]
      exact congrArg some (List.append_nil out).symm
    · rw [hchunk]
      rfl
  | @token p pieces rest tail hchunk _ ih =>
    have hne : p.literal ++ p.text ++ rest ≠ [] := by
      simp [p.nonempty]
    rw [formatLoop, if_neg hne, hchunk]
    show (appendStd f t (out ++ p.literal) p.std).bind (fun out => formatLoop f t rest out) = _
    rw [appendStd_rendering hf, Option.bind_some, ih, rendered, rendered, List.flatMap_cons]
    simp only [List.append_assoc]

private theorem fields_inRange {fromTimestamp : Int64 → UInt32 → Option NaiveDateTime}
    (hchrono : ∀ secs nanos d, fromTimestamp secs nanos = some d → d.InRange) (t : Time) :
    (t.fields fromTimestamp).InRange := by
  have hdate : ((fromTimestamp (saturatingAdd t.unixSecs t.offsetSecs.toInt64) 0).getD
      UNIX_EPOCH).InRange := by
    cases h : fromTimestamp (saturatingAdd t.unixSecs t.offsetSecs.toInt64) 0 with
    | none => exact ⟨by decide, by decide, by decide⟩
    | some d => exact hchrono _ _ d h
  rw [Time.fields]
  generalize (fromTimestamp (saturatingAdd t.unixSecs t.offsetSecs.toInt64) 0).getD UNIX_EPOCH = d
    at hdate ⊢
  obtain ⟨hpos, hle, hweekday⟩ := hdate
  refine ⟨?_, ?_, UInt32.le_iff_toNat_le.mp hle, ?_⟩
  · intro hyear
    have hbound := (toInt_offset d.year).1
    have hmin : d.year.toInt64 = Int64.minValue := hyear
    rw [hmin, Int64.toInt_minValue] at hbound
    omega
  · intro hzero
    have hmonth : d.month = 0 := hzero
    rw [hmonth] at hpos
    exact absurd hpos (by decide)
  · exact Nat.lt_succ_of_le (UInt32.le_iff_toNat_le.mp hweekday)

end Pieces

/-- Every layout is cut around its first token, between characters, with the token's spelling in the
middle. So it has a scan to its end, and formatting keeps the text around the tokens and puts the
rendering of each in the place of its spelling. -/
theorem format_replaces_tokens (fromTimestamp : Int64 → UInt32 → Option NaiveDateTime)
    (hchrono : ∀ secs nanos d, fromTimestamp secs nanos = some d → d.InRange) (layout : Str)
    (t : Time) :
    (∃ chunk, nextStdChunk layout = some chunk ∧ Partition layout chunk) ∧
      ∃ pieces tail, Scan layout pieces tail ∧ source pieces tail = layout ∧
        format fromTimestamp layout t =
          some (rendered (t.fields fromTimestamp) t pieces tail) := by
  obtain ⟨pieces, tail, hscan⟩ := scan_exists layout
  refine ⟨nextStdChunk_partition layout, pieces, tail, hscan, hscan.source_eq, ?_⟩
  exact hscan.formatLoop_eq (fields_inRange hchrono t) []

/-- The second of January 2006, in a zone without a name. -/
theorem format_replaces_tokens_reference :
    ∃ pieces tail, source pieces tail = "snmp-日-20060102.log".toList ∧
      format (fun secs _ => if secs = 1136214245 then some ⟨2006, 1, 2, 2, 15, 4, 5, 1⟩ else none)
        "snmp-日-20060102.log".toList ⟨1136239445, 0, -25200, []⟩ =
      some (rendered ⟨2006, 1, 2, 2, 15, 4, 5, 1⟩ ⟨1136239445, 0, -25200, []⟩ pieces tail) := by
  have hchrono : ∀ (secs : Int64) (nanos : UInt32) (d : NaiveDateTime),
      (fun (secs : Int64) (_ : UInt32) => if secs = 1136214245 then
        some (NaiveDateTime.mk 2006 1 2 2 15 4 5 1) else none) secs nanos = some d →
      d.InRange := by
    intro secs _ d h
    obtain ⟨-, hd⟩ := Option.ite_none_right_eq_some.mp h
    obtain rfl := Option.some.inj hd
    exact ⟨by decide, by decide, by decide⟩
  obtain ⟨-, pieces, tail, -, hsource, hformat⟩ := format_replaces_tokens _ hchrono
    "snmp-日-20060102.log".toList ⟨1136239445, 0, -25200, []⟩
  exact ⟨pieces, tail, hsource, hformat⟩

end Kcptun.Setup.TimeFormat
