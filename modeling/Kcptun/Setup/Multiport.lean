/- Kcptun/Setup/Multiport
   source: crates/std/src/multiport.rs
   digest: Addresses with a range of ports: the pattern, the range check, and which parts of which
     line of an address they are taken from. -/

import Kcptun.Lib.Regex
import Mathlib.Data.Nat.Digits.Lemmas

set_option autoImplicit false
set_option relaxedAutoImplicit false

namespace Kcptun.Setup.Multiport

open Kcptun.Lib Kcptun.Lib.Regex

/-- The characters of a string. -/
abbrev Str := List Char

def digit (c : Char) : Bool := decide ('0' ≤ c ∧ c ≤ '9')

/-- `(.*)\:([0-9]{1,5})-?([0-9]{1,5})?`, behind the host. -/
def portPattern : Regex Char :=
  .seq (.rep (· == ':') 1 (some 1)) (.seq (.group 2 (.rep digit 1 (some 5)))
    (.seq (.opt (.rep (· == '-') 1 (some 1))) (.opt (.group 3 (.rep digit 1 (some 5))))))

def REMOTE_ADDR_MATCHER : Regex Char := .seq (.group 1 (.rep (· != '\n') 0 none)) portPattern

structure MultiPort where
  host : Str
  minPort : ℕ
  maxPort : ℕ
  deriving DecidableEq, Repr

inductive MultiPortError where
  | invalidPortRange (minPort maxPort : ℤ)
  | malformedAddress (addr : Str)
  deriving DecidableEq, Repr

def value (s : Str) : ℕ := Nat.ofDigitChars 10 s 0

/-- At least one character, and digits only. -/
def digitsValue (s : Str) : Option ℕ := if s = [] ∨ ¬s.all digit then none else some (value s)

/-- `str::parse::<i64>`. -/
def parseI64 : Str → Option ℤ
  | '-' :: s => (digitsValue s).bind fun v => if v ≤ 2 ^ 63 then some (-v) else none
  | '+' :: s => (digitsValue s).bind fun v => if v < 2 ^ 63 then some v else none
  | s => (digitsValue s).bind fun v => if v < 2 ^ 63 then some v else none

def atoi (digits : Str) : Option ℤ := parseI64 digits

/-- The third group if it took part, else the first port again. -/
def assignMaxPort (minPort : ℤ) (third : Str) : Option ℤ :=
  if third ≠ [] then atoi third else some minPort

def checkRange (host : Str) (minPort maxPort : ℤ) : Except MultiPortError MultiPort :=
  if minPort > maxPort ∨ minPort > 65535 ∨ maxPort > 65535 ∨ minPort = 0 ∨ maxPort = 0 then
    .error (.invalidPortRange minPort maxPort)
  else .ok ⟨host, minPort.toNat, maxPort.toNat⟩

def parse (addr : Str) : Option (Except MultiPortError MultiPort) :=
  match find REMOTE_ADDR_MATCHER addr with
  | some found => do
    let minPort ← atoi (found.get 2)
    let maxPort ← assignMaxPort minPort (found.get 3)
    return checkRange (found.get 1) minPort maxPort
  | none => some (.error (.malformedAddress addr))

example : parse "junk a:1-2".toList = some (.ok ⟨"junk a".toList, 1, 2⟩) := by decide

section Spec

/-- The longest run of digits in front, at most five. -/
def digitRun (s : Str) : Str := (s.takeWhile digit).take 5

/-- Behind one `-`, if there is one. -/
def skipDash : Str → Str
  | '-' :: s => s
  | s => s

/-- What follows the first run of digits, and the `-` behind it. -/
def afterRun (rest : Str) : Str := skipDash (rest.drop (digitRun rest).length)

def StartsWithDigit (s : Str) : Prop := ∃ d rest, s = d :: rest ∧ digit d

def HasPort (line : Str) : Prop := ∃ host rest, line = host ++ ':' :: rest ∧ StartsWithDigit rest

/-- The text before and behind the last colon that a digit follows. -/
structure LastPort (line host rest : Str) : Prop where
  split : line = host ++ ':' :: rest
  digit : StartsWithDigit rest
  last : ∀ host' rest', line = host' ++ ':' :: rest' → StartsWithDigit rest' →
    host'.length ≤ host.length

structure Says (addr host rest : Str) : Prop where
  first : ∃ before line after, addr.splitOn '\n' = before ++ line :: after ∧
    (∀ other ∈ before, ¬HasPort other) ∧ LastPort line host rest

def minPortOf (rest : Str) : ℕ := value (digitRun rest)

/-- The last port: the first one if there is no second run. -/
def maxPortOf (rest : Str) : ℕ :=
  if digitRun (afterRun rest) = [] then minPortOf rest else value (digitRun (afterRun rest))

end Spec

section Digits

private theorem all_digitRun (s : Str) : (digitRun s).all digit := by
  rw [List.all_eq_true]
  intro c hc
  exact List.mem_takeWhile_imp (List.mem_of_mem_take hc)

private theorem digitRun_ne_nil {s : Str} : digitRun s ≠ [] ↔ StartsWithDigit s := by
  cases s with
  | nil => simp [digitRun, StartsWithDigit]
  | cons c s =>
    by_cases hc : digit c
    · simp [digitRun, StartsWithDigit, hc]
    · simp [digitRun, StartsWithDigit, hc]

private theorem value_lt {s : Str} (h : s.all digit) : value s < 10 ^ s.length := by
  induction s with
  | nil => exact Nat.one_pos
  | cons c s ih =>
    rw [List.all_cons, Bool.and_eq_true] at h
    have hc : c.toNat ≤ '9'.toNat := (of_decide_eq_true h.1).2
    have hlt := ih h.2
    have hpow : (c.toNat - '0'.toNat) * 10 ^ s.length ≤ 9 * 10 ^ s.length :=
      Nat.mul_le_mul_right _ (by
        have : '9'.toNat = 57 := rfl
        have : '0'.toNat = 48 := rfl
        omega)
    have hvalue : value (c :: s) = (c.toNat - '0'.toNat) * 10 ^ s.length + value s := by
      rw [value, Nat.ofDigitChars_cons, Nat.ofDigitChars_eq_ofDigitChars_zero, Nat.mul_zero,
        Nat.zero_add, value, Nat.mul_comm]
    rw [hvalue, List.length_cons, pow_succ]
    omega

private theorem atoi_digitRun {s : Str} (h : digitRun s ≠ []) :
    atoi (digitRun s) = some (value (digitRun s) : ℤ) := by
  have hall := all_digitRun s
  have hlen : (digitRun s).length ≤ 5 := List.length_take_le _ _
  have hlt : value (digitRun s) < 2 ^ 63 :=
    calc value (digitRun s) < 10 ^ (digitRun s).length := value_lt hall
      _ ≤ 10 ^ 5 := Nat.pow_le_pow_right (by decide) hlen
      _ < 2 ^ 63 := by decide
  have hvalue : digitsValue (digitRun s) = some (value (digitRun s)) := by
    rw [digitsValue, if_neg (by simp [h, hall])]
  have hsign : parseI64 (digitRun s) =
      (digitsValue (digitRun s)).bind fun v => if v < 2 ^ 63 then some (v : ℤ) else none := by
    obtain ⟨c, rest, hc⟩ := List.exists_cons_of_ne_nil h
    rw [hc] at hall ⊢
    rw [List.all_cons, Bool.and_eq_true] at hall
    refine parseI64.eq_3 _ ?_ ?_
    · intro s hs
      rw [(List.cons.inj hs).1] at hall
      exact absurd hall.1 (by decide)
    · intro s hs
      rw [(List.cons.inj hs).1] at hall
      exact absurd hall.1 (by decide)
  rw [atoi, hsign, hvalue, Option.bind_some, if_pos hlt]

end Digits

section Matching

def portHere : Str → Prop
  | ':' :: rest => StartsWithDigit rest
  | _ => False

private theorem most_digits (s : Str) : s.take (most digit (some 5) s) = digitRun s := by
  have hrun := List.prefix_iff_eq_take.mp (List.takeWhile_prefix digit (l := s))
  rw [digitRun, most]
  conv_rhs => rw [hrun, List.take_take]
  rw [Nat.min_comm]

private theorem length_digitRun (s : Str) : most digit (some 5) s = (digitRun s).length := by
  rw [← most_digits, List.length_take_of_le (most_le _ _ _)]

private theorem first_digits {s : Str} (h : StartsWithDigit s) :
    first (.rep digit 1 (some 5)) s = some ⟨digitRun s, [], s.drop (digitRun s).length⟩ := by
  have hpos : 1 ≤ most digit (some 5) s := by
    rw [length_digitRun]
    exact List.length_pos_of_ne_nil (digitRun_ne_nil.mpr h)
  rw [first_rep hpos, most_digits, length_digitRun]

private theorem first_digits_none {s : Str} (h : ¬StartsWithDigit s) :
    first (.rep digit 1 (some 5)) s = none := by
  apply first_rep_none
  rw [length_digitRun, not_not.mp (mt digitRun_ne_nil.mp h)]
  exact Nat.one_pos

private theorem first_dash (s : Str) :
    (first (.opt (.rep (· == '-') 1 (some 1))) s).map (fun m => (m.groups, m.rest)) =
      some ([], skipDash s) := by
  rw [first_opt, first]
  cases s with
  | nil =>
    rw [ways_once_nil]
    rfl
  | cons c s =>
    rw [ways_once]
    by_cases hc : c = '-'
    · rw [hc]
      rfl
    · have hskip : skipDash (c :: s) = c :: s :=
        skipDash.eq_2 _ fun s' heq => hc (List.cons.inj heq).1
      rw [if_neg (by simpa using hc), hskip]
      rfl

private theorem first_lastPort (s : Str) :
    ∃ found, first (.opt (.group 3 (.rep digit 1 (some 5)))) s = some found ∧ found.groups =
      if digitRun s = [] then [] else [(3, digitRun s)] := by
  rw [first_opt, first_group]
  split_ifs with hnil
  · rw [first_digits_none (mt digitRun_ne_nil.mpr (not_not.mpr hnil))]
    exact ⟨_, rfl, rfl⟩
  · rw [first_digits (digitRun_ne_nil.mp hnil)]
    exact ⟨_, rfl, rfl⟩

private theorem first_portPattern {rest : Str} (h : StartsWithDigit rest) :
    ∃ found, first portPattern (':' :: rest) = some found ∧ found.groups =
      (2, digitRun rest) ::
        if digitRun (afterRun rest) = [] then [] else [(3, digitRun (afterRun rest))] := by
  obtain ⟨dash, hdash⟩ : ∃ m, first (.opt (.rep (· == '-') 1 (some 1)))
      (rest.drop (digitRun rest).length) = some m :=
    Option.isSome_iff_exists.mp (first_opt_isSome _ _)
  have hdash' := first_dash (rest.drop (digitRun rest).length)
  rw [hdash, Option.map_some] at hdash'
  obtain ⟨hgroups, hrest⟩ := Prod.mk.inj (Option.some.inj hdash')
  obtain ⟨last, hlast, hlastGroups⟩ := first_lastPort (afterRun rest)
  have hports : first (.seq (.opt (.rep (· == '-') 1 (some 1)))
      (.opt (.group 3 (.rep digit 1 (some 5))))) (rest.drop (digitRun rest).length) =
      some (dash.append last) :=
    first_seq_of_total (first_opt_isSome _) hdash (by rw [hrest]; exact hlast)
  have hmin : first (.group 2 (.rep digit 1 (some 5))) rest =
      some ⟨digitRun rest, [(2, digitRun rest)], rest.drop (digitRun rest).length⟩ := by
    rw [first_group, first_digits h]
    rfl
  have hcolon : ways (.rep (· == ':') 1 (some 1)) (':' :: rest) = [⟨[':'], [], rest⟩] :=
    ways_once _ _ _
  refine ⟨_, (first_seq_of_ways hcolon _).trans (congrArg _ (first_seq_of_total
    (first_seq_isSome (first_opt_isSome _) (first_opt_isSome _)) hmin hports)), ?_⟩
  change [] ++ ([(2, digitRun rest)] ++ (dash.groups ++ last.groups)) = _
  rw [hgroups, hlastGroups]
  rfl

private theorem first_portPattern_none {s : Str} (h : ¬portHere s) :
    first portPattern s = none := by
  cases s with
  | nil => exact first_seq_none (by rw [first, ways_once_nil]; rfl)
  | cons c rest =>
    by_cases hc : c = ':'
    · rw [hc] at h ⊢
      have hcolon : ways (.rep (· == ':') 1 (some 1)) (':' :: rest) = [⟨[':'], [], rest⟩] :=
        ways_once _ _ _
      have hmin : first (.group 2 (.rep digit 1 (some 5))) rest = none := by
        rw [first_group, first_digits_none h]
        rfl
      rw [portPattern, first_seq_of_ways hcolon, first_seq_none hmin]
      rfl
    · apply first_seq_none
      rw [first, ways_once, if_neg (by simpa using hc)]
      rfl

end Matching

section Lines

def EndsLine (post : Str) : Prop := ∀ c ∈ post.head?, c = '\n'

variable {line post host rest : Str}

private theorem startsWithDigit_append (hpost : EndsLine post) :
    StartsWithDigit (line ++ post) ↔ StartsWithDigit line := by
  cases line with
  | nil =>
    constructor
    · rintro ⟨d, rest, heq, hd⟩
      rw [List.nil_append] at heq
      rw [hpost d (by rw [heq]; rfl)] at hd
      exact absurd hd (by decide)
    · rintro ⟨d, rest, heq, -⟩
      cases heq
  | cons c line => simp [StartsWithDigit]

private theorem portHere_append (hpost : EndsLine post) :
    portHere (line ++ post) ↔ portHere line := by
  cases line with
  | nil =>
    cases post with
    | nil => rfl
    | cons c post =>
      rw [hpost c rfl]
      exact Iff.rfl
  | cons c line =>
    by_cases hc : c = ':'
    · rw [hc]
      exact startsWithDigit_append hpost
    · have hnot (t : Str) : ¬portHere (c :: t) := by
        rw [portHere.eq_2 _ fun rest heq => hc (List.cons.inj heq).1]
        exact not_false
      exact iff_of_false (hnot _) (hnot _)

private theorem digitRun_append (hpost : EndsLine post) (s : Str) :
    digitRun (s ++ post) = digitRun s := by
  have htake : (s ++ post).takeWhile digit = s.takeWhile digit := by
    induction s with
    | nil =>
      cases post with
      | nil => rfl
      | cons c post =>
        rw [hpost c rfl]
        rfl
    | cons c s ih => rw [List.cons_append, List.takeWhile_cons, List.takeWhile_cons, ih]
  rw [digitRun, htake, digitRun]

private theorem skipDash_append (hpost : EndsLine post) (s : Str) :
    skipDash (s ++ post) = skipDash s ++ post := by
  cases s with
  | nil =>
    cases post with
    | nil => rfl
    | cons c post =>
      rw [hpost c rfl]
      rfl
  | cons c s =>
    by_cases hc : c = '-'
    · rw [hc]
      rfl
    · have hskip (t : Str) : skipDash (c :: t) = c :: t :=
        skipDash.eq_2 _ fun s' heq => hc (List.cons.inj heq).1
      rw [List.cons_append, hskip, hskip, List.cons_append]

private theorem length_digitRun_le (s : Str) : (digitRun s).length ≤ s.length :=
  (List.length_take_le' _ _).trans (List.takeWhile_prefix digit).length_le

private theorem afterRun_append (hpost : EndsLine post) (s : Str) :
    afterRun (s ++ post) = afterRun s ++ post := by
  rw [afterRun, digitRun_append hpost, List.drop_append_of_le_length (length_digitRun_le s),
    skipDash_append hpost, afterRun]

private theorem hasPort_iff : HasPort line ↔ ∃ k ≤ line.length, portHere (line.drop k) := by
  constructor
  · rintro ⟨host, rest, rfl, hdigit⟩
    exact ⟨host.length, by simp, by rw [List.drop_left]; exact hdigit⟩
  · rintro ⟨k, -, hk⟩
    rcases hdrop : line.drop k with _ | ⟨c, rest⟩
    · rw [hdrop] at hk
      exact absurd hk not_false
    · rw [hdrop] at hk
      by_cases hc : c = ':'
      · subst hc
        exact ⟨line.take k, rest, by rw [← hdrop, List.take_append_drop], hk⟩
      · rw [portHere.eq_2 _ fun rest heq => hc (List.cons.inj heq).1] at hk
        exact absurd hk not_false

private theorem exists_lastPort (h : HasPort line) : ∃ host rest, LastPort line host rest := by
  classical
  obtain ⟨k, hk, hhere⟩ := hasPort_iff.mp h
  have hspec := Nat.findGreatest_spec (P := fun k => portHere (line.drop k)) hk hhere
  have hport : HasPort (line.drop (Nat.findGreatest (fun k => portHere (line.drop k))
      line.length)) := hasPort_iff.mpr ⟨0, Nat.zero_le _, hspec⟩
  rcases hdrop : line.drop (Nat.findGreatest (fun k => portHere (line.drop k)) line.length) with
    _ | ⟨c, rest⟩
  · rw [hdrop] at hspec
    exact absurd hspec not_false
  · rw [hdrop] at hspec
    by_cases hc : c = ':'
    · subst hc
      refine ⟨_, rest, (List.take_append_drop _ line).symm.trans (congrArg _ hdrop), hspec, ?_⟩
      intro host' rest' hsplit hdigit
      rw [List.length_take_of_le (Nat.findGreatest_le _)]
      refine Nat.le_findGreatest (by rw [hsplit]; simp) ?_
      rw [hsplit, List.drop_left]
      exact hdigit
    · rw [portHere.eq_2 _ fun rest heq => hc (List.cons.inj heq).1] at hspec
      exact absurd hspec not_false

private theorem takeWhile_line (hline : '\n' ∉ line) (hpost : EndsLine post) :
    (line ++ post).takeWhile (· != '\n') = line := by
  have hall : ∀ c ∈ line, (c != '\n') = true := fun c hc =>
    bne_iff_ne.mpr fun heq => hline (heq ▸ hc)
  rw [List.takeWhile_append_of_pos hall]
  cases post with
  | nil => exact List.append_nil _
  | cons c post =>
    rw [hpost c rfl]
    exact List.append_nil _

private theorem first_line (h : LastPort line host rest) (hline : '\n' ∉ line)
    (hpost : EndsLine post) :
    ∃ found, first REMOTE_ADDR_MATCHER (line ++ post) = some found ∧ found.groups =
      (1, host) :: (2, digitRun rest) ::
        if digitRun (afterRun rest) = [] then [] else [(3, digitRun (afterRun rest))] := by
  have htake := takeWhile_line hline hpost
  have hdigit : StartsWithDigit (rest ++ post) := (startsWithDigit_append hpost).mpr h.digit
  obtain ⟨found, hfound, hgroups⟩ := first_portPattern hdigit
  have hsplit : line ++ post = host ++ ':' :: (rest ++ post) := by
    rw [h.split, List.append_assoc, List.cons_append]
  have hlen : host.length ≤ line.length := by rw [h.split]; simp
  have hgreedy := @first_greedy _ portPattern (line ++ post) (· != '\n') 1 host.length found
    (by rw [htake]; exact hlen)
    (by rw [hsplit, List.drop_left]; exact hfound) fun j hj hle => by
      rw [htake] at hle
      apply first_portPattern_none
      intro hhere
      rw [List.drop_append_of_le_length hle, portHere_append hpost] at hhere
      obtain ⟨host', rest', hdrop, hdigit'⟩ := hasPort_iff.mpr ⟨0, Nat.zero_le _, hhere⟩
      have hlast := h.last (line.take j ++ host') rest' (by
        rw [List.append_assoc, ← hdrop, List.take_append_drop]) hdigit'
      rw [List.length_append, List.length_take_of_le hle] at hlast
      omega
  refine ⟨_, hgreedy, ?_⟩
  change (1, (line ++ post).take host.length) :: found.groups = _
  rw [hgroups, digitRun_append hpost, afterRun_append hpost, digitRun_append hpost, hsplit,
    List.take_left]

private theorem first_line_none (h : ¬HasPort line) (hline : '\n' ∉ line) (hpost : EndsLine post) :
    first REMOTE_ADDR_MATCHER (line ++ post) = none := by
  refine first_greedy_none fun j hle => first_portPattern_none fun hhere => h ?_
  rw [takeWhile_line hline hpost] at hle
  rw [List.drop_append_of_le_length hle, portHere_append hpost] at hhere
  exact hasPort_iff.mpr ⟨j, hle, hhere⟩

private theorem not_hasPort_drop (h : ¬HasPort line) (j : ℕ) : ¬HasPort (line.drop j) := by
  rintro ⟨host, rest, hdrop, hdigit⟩
  exact h ⟨line.take j ++ host, rest, by
    rw [List.append_assoc, ← hdrop, List.take_append_drop], hdigit⟩

private theorem splitOn_cases (addr : Str) :
    ('\n' ∉ addr ∧ addr.splitOn '\n' = [addr]) ∨
      ∃ line t, addr = line ++ '\n' :: t ∧ '\n' ∉ line ∧
        addr.splitOn '\n' = line :: t.splitOn '\n' := by
  by_cases h : '\n' ∈ addr
  · obtain ⟨line, t, rfl, hline⟩ := List.eq_append_cons_of_mem h
    exact .inr ⟨line, t, rfl, hline, List.splitOn_append_cons_self_of_not_mem hline t⟩
  · exact .inl ⟨h, List.splitOn_eq_singleton h⟩

private theorem find_skip (h : ¬HasPort line) (hline : '\n' ∉ line) (t : Str) :
    find REMOTE_ADDR_MATCHER (line ++ '\n' :: t) = find REMOTE_ADDR_MATCHER t := by
  have hends : EndsLine ('\n' :: t) := by
    intro c hc
    exact (Option.some.inj hc).symm
  have hsplit : line ++ '\n' :: t = (line ++ ['\n']) ++ t := by simp
  rw [hsplit]
  apply find_append
  intro j hj
  have hle : j ≤ line.length := by
    rw [List.length_append, List.length_singleton] at hj
    omega
  have hdrop : (line ++ ['\n']).drop j ++ t = line.drop j ++ '\n' :: t := by
    rw [List.drop_append_of_le_length hle, List.append_assoc]
    rfl
  rw [hdrop]
  exact first_line_none (not_hasPort_drop h j) (fun hmem => hline (List.mem_of_mem_drop hmem)) hends

private theorem find_of_said {addr : Str} (h : Says addr host rest) :
    ∃ found, find REMOTE_ADDR_MATCHER addr = some found ∧ found.groups =
      (1, host) :: (2, digitRun rest) ::
        if digitRun (afterRun rest) = [] then [] else [(3, digitRun (afterRun rest))] := by
  obtain ⟨before, line, after, hsplit, hbefore, hlast⟩ := h
  induction before generalizing addr with
  | nil =>
    rcases splitOn_cases addr with ⟨hone, heq⟩ | ⟨first, t, rfl, hfirst, heq⟩
    · rw [heq] at hsplit
      obtain ⟨rfl, -⟩ := List.cons.inj hsplit
      obtain ⟨found, hfound, hgroups⟩ := @first_line _ [] _ _ hlast hone (by rintro _ ⟨⟩)
      rw [List.append_nil] at hfound
      exact ⟨found, find_of_first hfound, hgroups⟩
    · rw [heq] at hsplit
      obtain ⟨rfl, -⟩ := List.cons.inj hsplit
      obtain ⟨found, hfound, hgroups⟩ := @first_line _ ('\n' :: t) _ _ hlast hfirst
        fun c hc => (Option.some.inj hc).symm
      exact ⟨found, find_of_first hfound, hgroups⟩
  | cons other before ih =>
    rcases splitOn_cases addr with ⟨hone, heq⟩ | ⟨first, t, rfl, hfirst, heq⟩
    · rw [heq] at hsplit
      have := congrArg List.length hsplit
      simp at this
    · rw [heq] at hsplit
      obtain ⟨rfl, hrest⟩ := List.cons.inj hsplit
      rw [find_skip (hbefore first List.mem_cons_self) hfirst]
      exact ih hrest fun other hmem => hbefore other (List.mem_cons_of_mem _ hmem)

private theorem find_none_of_lines {addr : Str} (h : ∀ line ∈ addr.splitOn '\n', ¬HasPort line) :
    find REMOTE_ADDR_MATCHER addr = none := by
  induction hlen : addr.splitOn '\n' generalizing addr with
  | nil => exact absurd hlen (List.splitOn_ne_nil _ _)
  | cons line lines ih =>
    rcases splitOn_cases addr with ⟨hone, heq⟩ | ⟨first, t, rfl, hfirst, heq⟩
    · have hport := h addr (by rw [heq]; exact List.mem_singleton_self _)
      apply find_none
      intro j _
      have hnone := @first_line_none _ [] (not_hasPort_drop hport j)
        (fun hmem => hone (List.mem_of_mem_drop hmem)) (by rintro _ ⟨⟩)
      rwa [List.append_nil] at hnone
    · rw [heq] at hlen h
      obtain ⟨rfl, hlines⟩ := List.cons.inj hlen
      rw [find_skip (h first List.mem_cons_self) hfirst]
      exact ih (fun line hline => h line (List.mem_cons_of_mem _ hline)) hlines

private theorem parse_of_said {addr : Str} (h : Says addr host rest) :
    parse addr = some (if 1 ≤ minPortOf rest ∧ minPortOf rest ≤ maxPortOf rest ∧
        maxPortOf rest ≤ 65535 then .ok ⟨host, minPortOf rest, maxPortOf rest⟩
      else .error (.invalidPortRange (minPortOf rest) (maxPortOf rest))) := by
  obtain ⟨found, hfound, hgroups⟩ := find_of_said h
  have hdigit : StartsWithDigit rest := by
    obtain ⟨_, _, _, _, _, hlast⟩ := h
    exact hlast.digit
  have hhost : found.get 1 = host := by
    rw [Match.get, hgroups]
    rfl
  have hmin : atoi (found.get 2) = some (minPortOf rest : ℤ) := by
    have hget : found.get 2 = digitRun rest := by
      rw [Match.get, hgroups]
      rfl
    rw [hget, atoi_digitRun (digitRun_ne_nil.mpr hdigit), minPortOf]
  have hthird : found.get 3 = digitRun (afterRun rest) := by
    rw [Match.get, hgroups]
    split_ifs with hnil
    · rw [hnil]
      rfl
    · rfl
  have hmax : assignMaxPort (minPortOf rest : ℤ) (found.get 3) = some (maxPortOf rest : ℤ) := by
    rw [hthird, assignMaxPort, maxPortOf]
    by_cases hnil : digitRun (afterRun rest) = []
    · rw [if_neg (not_not.mpr hnil), if_pos hnil]
    · rw [if_pos hnil, if_neg hnil, atoi_digitRun hnil]
  have hcheck : ((minPortOf rest : ℤ) > maxPortOf rest ∨ (minPortOf rest : ℤ) > 65535 ∨
      (maxPortOf rest : ℤ) > 65535 ∨ (minPortOf rest : ℤ) = 0 ∨ (maxPortOf rest : ℤ) = 0) ↔
      ¬(1 ≤ minPortOf rest ∧ minPortOf rest ≤ maxPortOf rest ∧ maxPortOf rest ≤ 65535) := by
    omega
  unfold parse
  rw [hfound]
  dsimp only
  rw [hmin, Option.bind_eq_bind, Option.bind_some, hmax, Option.bind_some, checkRange]
  simp only [hcheck, ite_not, hhost, Int.toNat_natCast]
  rfl

private theorem parse_of_lines {addr : Str} (h : ∀ line ∈ addr.splitOn '\n', ¬HasPort line) :
    parse addr = some (.error (.malformedAddress addr)) := by
  unfold parse
  rw [find_none_of_lines h]

private theorem says_or_not (addr : Str) :
    (∃ host rest, Says addr host rest) ∨ ∀ line ∈ addr.splitOn '\n', ¬HasPort line := by
  by_cases h : ∀ line ∈ addr.splitOn '\n', ¬HasPort line
  · exact .inr h
  · left
    push Not at h
    classical
    obtain ⟨line, hline, hport⟩ := h
    obtain ⟨found, hfound⟩ := Option.isSome_iff_exists.mp
      (List.find?_isSome (p := fun l => decide (HasPort l)).mpr ⟨line, hline, by simpa using hport⟩)
    obtain ⟨hhas, before, after, hsplit, hbefore⟩ := List.find?_eq_some_iff_append.mp hfound
    obtain ⟨host, rest, hlast⟩ := exists_lastPort (of_decide_eq_true hhas)
    exact ⟨host, rest, ⟨before, found, after, hsplit, fun other hmem => by
      simpa using hbefore other hmem, hlast⟩⟩

private theorem digit_of_mem_toDigits {n : ℕ} {c : Char} (h : c ∈ Nat.toDigits 10 n) : digit c := by
  have hc := Nat.isDigit_of_mem_toDigits (by decide) (by decide) h
  rw [Char.isDigit, Bool.and_eq_true, decide_eq_true_eq, decide_eq_true_eq] at hc
  exact decide_eq_true ⟨hc.1, hc.2⟩

private theorem digitRun_toDigits {n : ℕ} (hn : n ≤ 65535) (c : Char) (t : Str)
    (hc : digit c = false) : digitRun (Nat.toDigits 10 n ++ c :: t) = Nat.toDigits 10 n ∧
      digitRun (Nat.toDigits 10 n) = Nat.toDigits 10 n := by
  have hall : ∀ d ∈ Nat.toDigits 10 n, digit d = true := fun d hd => digit_of_mem_toDigits hd
  have hlen : (Nat.toDigits 10 n).length ≤ 5 :=
    (Nat.length_toDigits_le_iff (by decide) (by decide)).mpr (by omega)
  have htake : (Nat.toDigits 10 n).takeWhile digit = Nat.toDigits 10 n :=
    List.takeWhile_eq_self_iff.mpr hall
  constructor
  · rw [digitRun, List.takeWhile_append_of_pos hall, List.takeWhile_cons_of_neg (by simp [hc]),
      List.append_nil, List.take_of_length_le hlen]
  · rw [digitRun, htake, List.take_of_length_le hlen]

private theorem value_toDigits (n : ℕ) :
    value (Nat.toDigits 10 n) = n := Nat.ofDigitChars_ten_toDigits

private theorem says_range {minPort maxPort : ℕ} (hhost : '\n' ∉ host) (hmin : minPort ≤ 65535)
    (hmax : maxPort ≤ 65535) :
    Says (host ++ ':' :: (Nat.toDigits 10 minPort ++ '-' :: Nat.toDigits 10 maxPort)) host
        (Nat.toDigits 10 minPort ++ '-' :: Nat.toDigits 10 maxPort) ∧
      minPortOf (Nat.toDigits 10 minPort ++ '-' :: Nat.toDigits 10 maxPort) = minPort ∧
      maxPortOf (Nat.toDigits 10 minPort ++ '-' :: Nat.toDigits 10 maxPort) = maxPort := by
  have hrun := (digitRun_toDigits hmin '-' (Nat.toDigits 10 maxPort) rfl).1
  have hafter : afterRun (Nat.toDigits 10 minPort ++ '-' :: Nat.toDigits 10 maxPort) =
      Nat.toDigits 10 maxPort := by
    rw [afterRun, hrun, List.drop_left]
    rfl
  have hrun' : digitRun (Nat.toDigits 10 maxPort) = Nat.toDigits 10 maxPort :=
    (digitRun_toDigits hmax '-' [] rfl).2
  have hnocolon : ':' ∉ Nat.toDigits 10 minPort ++ '-' :: Nat.toDigits 10 maxPort := by
    intro hmem
    rcases List.mem_append.mp hmem with hmem | hmem
    · exact absurd (digit_of_mem_toDigits hmem) (by decide)
    · rcases List.mem_cons.mp hmem with heq | hmem
      · exact absurd heq (by decide)
      · exact absurd (digit_of_mem_toDigits hmem) (by decide)
  have hline : '\n' ∉
      host ++ ':' :: (Nat.toDigits 10 minPort ++ '-' :: Nat.toDigits 10 maxPort) := by
    intro hmem
    rcases List.mem_append.mp hmem with hmem | hmem
    · exact hhost hmem
    · simp only [List.mem_cons, List.mem_append] at hmem
      rcases hmem with heq | hmem | heq | hmem
      · exact absurd heq (by decide)
      · exact absurd (digit_of_mem_toDigits hmem) (by decide)
      · exact absurd heq (by decide)
      · exact absurd (digit_of_mem_toDigits hmem) (by decide)
  refine ⟨⟨[], _, [], List.splitOn_eq_singleton hline, by simp, rfl, ?_, ?_⟩, ?_, ?_⟩
  · rw [← digitRun_ne_nil, hrun]
    exact Nat.toDigits_ne_nil
  · intro host' rest' hsplit _
    by_contra hlt
    have hlen := congrArg List.length hsplit
    apply hnocolon
    have hdrop := congrArg (List.drop (host.length + 1)) hsplit
    have hleft : List.drop (host.length + 1)
        (host ++ ':' :: (Nat.toDigits 10 minPort ++ '-' :: Nat.toDigits 10 maxPort)) =
        Nat.toDigits 10 minPort ++ '-' :: Nat.toDigits 10 maxPort := by
      rw [← List.drop_drop, List.drop_left]
      rfl
    rw [hleft, List.drop_append_of_le_length (by omega)] at hdrop
    rw [hdrop]
    simp
  · rw [minPortOf, hrun, value_toDigits]
  · rw [maxPortOf, hafter, hrun', if_neg Nat.toDigits_ne_nil, value_toDigits]

end Lines

/-- An address is read from its first line with a colon that a digit follows: the host before the
last such colon, the two runs of at most five digits behind it; the range is checked, and without
such a line the address is malformed. A host and a range written out are read back. -/
theorem parse_exact (addr : Str) :
    (∀ host rest, Says addr host rest → parse addr =
      some (if 1 ≤ minPortOf rest ∧ minPortOf rest ≤ maxPortOf rest ∧ maxPortOf rest ≤ 65535 then
          .ok ⟨host, minPortOf rest, maxPortOf rest⟩
        else .error (.invalidPortRange (minPortOf rest) (maxPortOf rest)))) ∧
    ((∃ range, parse addr = some (.ok range)) ↔ ∃ host rest, Says addr host rest ∧
      1 ≤ minPortOf rest ∧ minPortOf rest ≤ maxPortOf rest ∧ maxPortOf rest ≤ 65535) ∧
    (parse addr = some (.error (.malformedAddress addr)) ↔
      ∀ line ∈ addr.splitOn '\n', ¬HasPort line) ∧
    (∀ host : Str, '\n' ∉ host → ∀ minPort maxPort : ℕ, 1 ≤ minPort → minPort ≤ maxPort →
      maxPort ≤ 65535 →
      parse (host ++ ':' :: (Nat.toDigits 10 minPort ++ '-' :: Nat.toDigits 10 maxPort)) =
        some (.ok ⟨host, minPort, maxPort⟩)) := by
  refine ⟨fun host rest h => parse_of_said h, ⟨?_, ?_⟩, ⟨?_, parse_of_lines⟩, ?_⟩
  · rintro ⟨range, hrange⟩
    rcases says_or_not addr with ⟨host, rest, h⟩ | hnone
    · refine ⟨host, rest, h, ?_⟩
      rw [parse_of_said h] at hrange
      by_contra hbad
      rw [if_neg hbad] at hrange
      cases hrange
    · rw [parse_of_lines hnone] at hrange
      cases hrange
  · rintro ⟨host, rest, h, hrange⟩
    rw [parse_of_said h, if_pos hrange]
    exact ⟨_, rfl⟩
  · intro h
    rcases says_or_not addr with ⟨host, rest, hsaid⟩ | hnone
    · rw [parse_of_said hsaid] at h
      split_ifs at h <;> cases h
    · exact hnone
  · intro host hhost minPort maxPort hmin hle hmax
    obtain ⟨hsaid, hminOf, hmaxOf⟩ := says_range hhost (hle.trans hmax) hmax
    rw [parse_of_said hsaid, hminOf, hmaxOf, if_pos ⟨hmin, hle, hmax⟩]

end Kcptun.Setup.Multiport
