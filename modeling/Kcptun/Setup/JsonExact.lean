/- Kcptun/Setup/JsonExact
   source: crates/std/src/gojson.rs (parse, Parser::value)
   digest: The parser against the grammar: every text of a value is read as that value, and what is
     read is a text of the value returned. -/

import Kcptun.Setup.JsonGrammar

set_option autoImplicit false
set_option relaxedAutoImplicit false

namespace Kcptun.Setup.JsonExact

open Kcptun.Lib.LittleEndian (Bytes)
open Kcptun.Lib.Utf8
open Kcptun.Setup.GoJson (Value)
open Kcptun.Setup.JsonParser
open Kcptun.Setup.JsonGrammar

mutual

def depth : Value → ℕ
  | .null => 0
  | .bool _ => 0
  | .number _ => 0
  | .string _ => 0
  | .array elements => 1 + depthElements elements
  | .object members => 1 + depthMembers members

def depthElements : List Value → ℕ
  | [] => 0
  | v :: vs => max (depth v) (depthElements vs)

def depthMembers : List (Str × Value) → ℕ
  | [] => 0
  | m :: ms => max (depthMember m) (depthMembers ms)

def depthMember : Str × Value → ℕ
  | (_, v) => depth v

end

@[simp]
private theorem depthElements_append (vs : List Value) (v : Value) :
    depthElements (vs ++ [v]) = max (depthElements vs) (depth v) := by
  induction vs with
  | nil => simp only [List.nil_append, depthElements, Nat.max_zero, Nat.zero_max]
  | cons u vs ih => rw [List.cons_append, depthElements, depthElements, ih, Nat.max_assoc]

@[simp]
private theorem depthMembers_append (ms : List (Str × Value)) (key : Str) (v : Value) :
    depthMembers (ms ++ [(key, v)]) = max (depthMembers ms) (depth v) := by
  induction ms with
  | nil => simp only [List.nil_append, depthMembers, depthMember, Nat.max_zero, Nat.zero_max]
  | cons m ms ih => rw [List.cons_append, depthMembers, depthMembers, ih, Nat.max_assoc]

/-! Every text is read -/

section Complete

variable {v : Value} {t s rest more : Bytes} {b c : UInt8} {stack : List Frame}

private theorem not_space_of_digit (hb : isDigit b = true) : isSpace b = false := by
  have hrange := toNat_of_digit hb
  by_contra hspace
  rw [Bool.not_eq_false, isSpace] at hspace
  simp only [Bool.or_eq_true, beq_iff_eq] at hspace
  rcases hspace with ((rfl | rfl) | rfl) | rfl <;> exact absurd hrange (by decide)

private theorem text_head (h : Text v t) :
    ∃ b tl, t = b :: tl ∧ isSpace b = false ∧ b ≠ asciiByte ']' := by
  cases h with
  | null => exact ⟨_, _, rfl, by decide, by decide⟩
  | true => exact ⟨_, _, rfl, by decide, by decide⟩
  | false => exact ⟨_, _, rfl, by decide, by decide⟩
  | number h =>
    obtain ⟨b, tl, rfl, rfl | hb⟩ := h.head
    · exact ⟨_, _, rfl, by decide, by decide⟩
    · refine ⟨b, tl, rfl, not_space_of_digit hb, ?_⟩
      rintro rfl
      exact absurd hb (by decide)
  | string h =>
    obtain ⟨h⟩ := h
    exact ⟨_, _, rfl, by decide, by decide⟩
  | emptyArray hw => exact ⟨_, _, rfl, by decide, by decide⟩
  | array h => exact ⟨_, _, rfl, by decide, by decide⟩
  | emptyObject hw => exact ⟨_, _, rfl, by decide, by decide⟩
  | object h => exact ⟨_, _, rfl, by decide, by decide⟩

theorem text_skip (h : Text v t) (more : Bytes) : skipWhitespace (t ++ more) = t ++ more := by
  obtain ⟨b, tl, rfl, hb, -⟩ := text_head h
  exact skipWhitespace_cons hb _

private theorem literal_append (lit : Str) (more : Bytes) :
    literal lit (lit.map asciiByte ++ more) = .ok more :=
  literalLoop_append lit _ more

private theorem run_scalar {r : Except SyntaxError (Value × Bytes)}
    (hstart : startValue stack rest = scalar stack r) (hr : r = .ok (v, more)) :
    run (.value stack rest) = run (.attach stack v more) := by
  apply run_of_running
  rw [step, hstart, hr]
  rfl

theorem startValue_numeric (hb : b = asciiByte '-' ∨ isDigit b = true) (tail : Bytes) :
    startValue stack (b :: tail) = scalar stack (number (b :: tail)) := by
  rcases hb with rfl | hb
  · rfl
  · have hne : ∀ d : Char, isDigit (asciiByte d) = false → b ≠ asciiByte d := by
      rintro d hd rfl
      rw [hb] at hd
      cases hd
    rw [startValue, if_neg (hne _ (by decide)), if_neg (hne _ (by decide)),
      if_neg (hne _ (by decide)), if_neg (hne _ (by decide)), if_neg (hne _ (by decide)),
      if_neg (hne _ (by decide)), if_pos (Or.inr hb)]

private theorem startValue_number (h : NumberText t) (more : Bytes) :
    startValue stack (t ++ more) = scalar stack (number (t ++ more)) := by
  obtain ⟨b, tl, rfl, hb⟩ := h.head
  exact startValue_numeric hb _

def Closer (c : UInt8) : Prop :=
  c = asciiByte ',' ∨ c = asciiByte ']' ∨ c = asciiByte '}'

private theorem Closer.skip (h : Closer c) (more : Bytes) :
    skipWhitespace (c :: more) = c :: more := by
  rcases h with rfl | rfl | rfl <;> rfl

private theorem not_numberByte_of_space (hb : isSpace b = true) : ¬ NumberByte b := by
  rw [isSpace] at hb
  simp only [Bool.or_eq_true, beq_iff_eq] at hb
  rcases hb with ((rfl | rfl) | rfl) | rfl <;> unfold NumberByte Exp <;> decide

private theorem Closer.not_goesOn (h : Closer c) {w : Bytes} (hw : Ws w) :
    ¬ GoesOn t (w ++ c :: more) := by
  cases w with
  | nil =>
    apply not_goesOn_cons
    rcases h with rfl | rfl | rfl <;> unfold NumberByte Exp <;> decide
  | cons b w => exact not_goesOn_cons (not_numberByte_of_space (hw b List.mem_cons_self)) _

private theorem step_openArray (hdepth : stack.length < MAX_NESTING_DEPTH)
    (hrest : skipWhitespace rest = b :: more) (hb : b ≠ asciiByte ']') :
    step (.value stack (asciiByte '[' :: rest)) =
      .running (.value (.array [] :: stack) (b :: more)) := by
  show openArray stack rest = _
  rw [openArray, if_neg (not_le.mpr hdepth)]
  dsimp only
  rw [hrest, if_neg]
  intro heq
  exact hb (Option.some.inj heq)

private theorem step_openObject {key : Str} {k : Bytes} (hdepth : stack.length < MAX_NESTING_DEPTH)
    (hk : KeyText key k) (hrest : skipWhitespace rest = rest) :
    step (.value stack (asciiByte '{' :: (k ++ rest))) =
      .running (.value (.object [] key :: stack) rest) := by
  have hkey := objectKey_append hk hrest
  have hskip : objectKey (skipWhitespace (k ++ rest)) = objectKey (k ++ rest) := by
    rw [objectKey, objectKey, skipWhitespace, skipWhitespace, List.dropWhile_idempotent]
  have hhead : (skipWhitespace (k ++ rest)).head? ≠ some (asciiByte '}') := by
    obtain @⟨front, t, mid, back, hfront, @⟨t, hchars⟩, hmid, hback⟩ := hk
    have hquote : isSpace (asciiByte '"') = false := by decide
    rw [List.append_assoc, skipWhitespace_append hfront, List.cons_append, List.cons_append,
      skipWhitespace_cons hquote]
    intro heq
    exact absurd (Option.some.inj heq) (by decide)
  show openObject stack (k ++ rest) = _
  rw [openObject, if_neg (not_le.mpr hdepth)]
  dsimp only
  rw [if_neg hhead, hskip, hkey]

private theorem step_nextElement {vs : List Value} {r : Bytes}
    (hr : skipWhitespace r = asciiByte ',' :: more) :
    step (.attach (.array vs :: stack) v r) =
      .running (.value (.array (vs ++ [v]) :: stack) (skipWhitespace more)) := by
  rw [step, attachDone, hr]
  rfl

private theorem step_closeArray {vs : List Value} {r : Bytes}
    (hr : skipWhitespace r = asciiByte ']' :: more) : step (.attach (.array vs :: stack) v r) =
      .running (.attach stack (.array (vs ++ [v])) more) := by
  rw [step, attachDone, hr]
  rfl

private theorem step_nextMember {ms : List (Str × Value)} {key next : Str} {k r : Bytes}
    (hr : skipWhitespace r = asciiByte ',' :: (k ++ more)) (hk : KeyText next k)
    (hmore : skipWhitespace more = more) : step (.attach (.object ms key :: stack) v r) =
      .running (.value (.object (ms ++ [(key, v)]) next :: stack) more) := by
  have hkey := objectKey_append hk hmore
  rw [step, attachDone, hr, afterMember, if_pos rfl, hkey]
  rfl

private theorem step_closeObject {ms : List (Str × Value)} {key : Str} {r : Bytes}
    (hr : skipWhitespace r = asciiByte '}' :: more) :
    step (.attach (.object ms key :: stack) v r) =
      .running (.attach stack (.object (ms ++ [(key, v)])) more) := by
  rw [step, attachDone, hr]
  rfl

end Complete

mutual

private theorem run_text {v : Value} {t : Bytes} (h : Text v t) :
    ∀ (stack : List Frame) (more : Bytes),
    depth v + stack.length ≤ MAX_NESTING_DEPTH → (∀ l, v = .number l → ¬ GoesOn t more) →
      run (.value stack (t ++ more)) = run (.attach stack v more) := by
  cases h with
  | null =>
    intro stack more _ _
    exact run_scalar rfl (congrArg (Except.map _) (literal_append "null".toList more))
  | true =>
    intro stack more _ _
    exact run_scalar rfl (congrArg (Except.map _) (literal_append "true".toList more))
  | false =>
    intro stack more _ _
    exact run_scalar rfl (congrArg (Except.map _) (literal_append "false".toList more))
  | number h =>
    intro stack more _ hno
    exact run_scalar (startValue_number h more) (number_append h (hno _ rfl))
  | string h =>
    intro stack more _ _
    have hread := string_append h more
    obtain @⟨t, hchars⟩ := h
    exact run_scalar rfl (congrArg (Except.map _) hread)
  | @emptyArray w hw =>
    intro stack more hdepth _
    have hskip : skipWhitespace (w ++ asciiByte ']' :: more) = asciiByte ']' :: more :=
      (skipWhitespace_append hw _).trans rfl
    rw [depth] at hdepth
    apply run_of_running
    rw [List.cons_append, List.append_assoc, List.singleton_append]
    show openArray stack _ = _
    rw [openArray, if_neg (by omega)]
    dsimp only
    rw [hskip]
    rfl
  | @array vs t h =>
    intro stack more hdepth _
    rw [depth] at hdepth
    obtain ⟨vs', v, r, rfl, hr, hrun⟩ := run_elements h stack more (asciiByte ']')
      (Or.inr (Or.inl rfl)) (by omega)
    rw [List.cons_append, List.append_assoc, List.singleton_append, hrun]
    exact run_of_running (step_closeArray hr)
  | @emptyObject w hw =>
    intro stack more hdepth _
    have hskip : skipWhitespace (w ++ asciiByte '}' :: more) = asciiByte '}' :: more :=
      (skipWhitespace_append hw _).trans rfl
    rw [depth] at hdepth
    apply run_of_running
    rw [List.cons_append, List.append_assoc, List.singleton_append]
    show openObject stack _ = _
    rw [openObject, if_neg (by omega)]
    dsimp only
    rw [hskip]
    rfl
  | @object ms t h =>
    intro stack more hdepth _
    rw [depth] at hdepth
    obtain ⟨ms', key, v, r, rfl, hr, hrun⟩ := run_members h stack more (asciiByte '}')
      (Or.inr (Or.inr rfl)) (by omega)
    rw [List.cons_append, List.append_assoc, List.singleton_append, hrun]
    exact run_of_running (step_closeObject hr)
termination_by 2 * t.length
decreasing_by
  all_goals simp only [List.length_cons, List.length_append, List.length_nil]; omega

theorem run_elements {vs : List Value} {s : Bytes} (h : Elements vs s) :
    ∀ (stack : List Frame) (more : Bytes) (c : UInt8), Closer c →
      1 + depthElements vs + stack.length ≤ MAX_NESTING_DEPTH →
        ∃ vs' v r, vs = vs' ++ [v] ∧ skipWhitespace r = c :: more ∧
          run (.value stack (asciiByte '[' :: (s ++ c :: more))) =
            run (.attach (.array vs' :: stack) v r) := by
  cases h with
  | @one v w t w' hw h hw' =>
    intro stack more c hc hdepth
    have hskip : skipWhitespace (w' ++ c :: more) = c :: more :=
      (skipWhitespace_append hw' _).trans (hc.skip more)
    refine ⟨[], v, w' ++ c :: more, rfl, hskip, ?_⟩
    rw [depthElements, depthElements, Nat.max_zero] at hdepth
    obtain ⟨b, tl, ht, hb, hne⟩ := text_head h
    have hrest : skipWhitespace (w ++ (t ++ w') ++ c :: more) = b :: (tl ++ (w' ++ c :: more)) := by
      rw [List.append_assoc, skipWhitespace_append hw, List.append_assoc, text_skip h, ht,
        List.cons_append]
    have hlt : stack.length < MAX_NESTING_DEPTH := by omega
    rw [run_of_running (step_openArray hlt hrest hne), ← List.cons_append, ← ht]
    refine run_text h _ _ ?_ fun l hl => hc.not_goesOn hw'
    rw [List.length_cons]
    omega
  | @snoc vs v s w t w' hs hw h hw' =>
    intro stack more c hc hdepth
    rw [depthElements_append] at hdepth
    obtain ⟨vs', u, r, rfl, hr, hrun⟩ := run_elements hs stack (w ++ (t ++ w') ++ c :: more)
      (asciiByte ',') (Or.inl rfl) (by omega)
    have hskip : skipWhitespace (w' ++ c :: more) = c :: more :=
      (skipWhitespace_append hw' _).trans (hc.skip more)
    refine ⟨vs' ++ [u], v, w' ++ c :: more, rfl, hskip, ?_⟩
    have hrest : skipWhitespace (w ++ (t ++ w') ++ c :: more) = t ++ (w' ++ c :: more) := by
      rw [List.append_assoc, skipWhitespace_append hw, List.append_assoc, text_skip h]
    rw [List.append_assoc, List.cons_append, hrun,
      run_of_running (step_nextElement hr), hrest]
    refine run_text h _ _ ?_ fun l hl => hc.not_goesOn hw'
    rw [List.length_cons]
    omega
termination_by 2 * s.length + 1
decreasing_by
  all_goals simp only [List.length_cons, List.length_append]; omega

theorem run_members {ms : List (Str × Value)} {s : Bytes} (h : Members ms s) :
    ∀ (stack : List Frame) (more : Bytes) (c : UInt8), Closer c →
      1 + depthMembers ms + stack.length ≤ MAX_NESTING_DEPTH →
        ∃ ms' key v r, ms = ms' ++ [(key, v)] ∧ skipWhitespace r = c :: more ∧
          run (.value stack (asciiByte '{' :: (s ++ c :: more))) =
            run (.attach (.object ms' key :: stack) v r) := by
  cases h with
  | @one key v k t w hk h hw =>
    intro stack more c hc hdepth
    have hskip : skipWhitespace (w ++ c :: more) = c :: more :=
      (skipWhitespace_append hw _).trans (hc.skip more)
    refine ⟨[], key, v, w ++ c :: more, rfl, hskip, ?_⟩
    rw [depthMembers, depthMembers, depthMember, Nat.max_zero] at hdepth
    have hlt : stack.length < MAX_NESTING_DEPTH := by omega
    rw [List.append_assoc, List.append_assoc,
      run_of_running (step_openObject hlt hk (text_skip h (w ++ c :: more)))]
    refine run_text h _ _ ?_ fun l hl => hc.not_goesOn hw
    rw [List.length_cons]
    omega
  | @snoc ms key v s k t w hs hk h hw =>
    intro stack more c hc hdepth
    rw [depthMembers_append] at hdepth
    obtain ⟨ms', key', u, r, rfl, hr, hrun⟩ := run_members hs stack (k ++ (t ++ (w ++ c :: more)))
      (asciiByte ',') (Or.inl rfl) (by omega)
    have hskip : skipWhitespace (w ++ c :: more) = c :: more :=
      (skipWhitespace_append hw _).trans (hc.skip more)
    refine ⟨ms' ++ [(key', u)], key, v, w ++ c :: more, rfl, hskip, ?_⟩
    rw [List.append_assoc, List.cons_append, List.append_assoc, List.append_assoc, hrun,
      run_of_running (step_nextMember hr hk (text_skip h (w ++ c :: more)))]
    refine run_text h _ _ ?_ fun l hl => hc.not_goesOn hw
    rw [List.length_cons]
    omega
termination_by 2 * s.length + 1
decreasing_by
  all_goals simp only [List.length_cons, List.length_append]; omega

end

/-! What is read is a text -/

/-- The bytes in front of the value that is read next, with the containers on the stack. -/
inductive Front : List Frame → Bytes → Prop where
  | nil : Front [] []
  | array {stack : List Frame} {p w : Bytes} (hp : Front stack p) (hw : Ws w)
      (hdepth : 1 + depthElements [] + stack.length ≤ MAX_NESTING_DEPTH) :
      Front (.array [] :: stack) (p ++ asciiByte '[' :: w)
  | elements {stack : List Frame} {vs : List Value} {p s w : Bytes} (hp : Front stack p)
      (hs : Elements vs s) (hw : Ws w)
      (hdepth : 1 + depthElements vs + stack.length ≤ MAX_NESTING_DEPTH) :
      Front (.array vs :: stack) (p ++ asciiByte '[' :: (s ++ asciiByte ',' :: w))
  | object {stack : List Frame} {key : Str} {p k : Bytes} (hp : Front stack p)
      (hk : KeyText key k) (hdepth : 1 + depthMembers [] + stack.length ≤ MAX_NESTING_DEPTH) :
      Front (.object [] key :: stack) (p ++ asciiByte '{' :: k)
  | members {stack : List Frame} {ms : List (Str × Value)} {key : Str} {p s k : Bytes}
      (hp : Front stack p) (hs : Members ms s) (hk : KeyText key k)
      (hdepth : 1 + depthMembers ms + stack.length ≤ MAX_NESTING_DEPTH) :
      Front (.object ms key :: stack) (p ++ asciiByte '{' :: (s ++ asciiByte ',' :: k))

/-- What of the input has been read is the front of a text, up to the state of the machine. -/
def Readable (input : Bytes) : State → Prop
  | .value stack rest => ∃ p, Front stack p ∧ input = p ++ rest
  | .attach stack done rest => ∃ p t, Front stack p ∧ Text done t ∧
      depth done + stack.length ≤ MAX_NESTING_DEPTH ∧ input = p ++ (t ++ rest)

section Sound

variable {v done : Value} {input p t s rest rest' more : Bytes} {b c : UInt8} {stack : List Frame}
  {st : State}

private theorem Front.length_le (h : Front stack p) : stack.length ≤ MAX_NESTING_DEPTH := by
  cases h with
  | nil => exact Nat.zero_le _
  | array hp hw hdepth =>
    rw [List.length_cons]
    omega
  | elements hp hs hw hdepth =>
    rw [List.length_cons]
    omega
  | object hp hk hdepth =>
    rw [List.length_cons]
    omega
  | members hp hs hk hdepth =>
    rw [List.length_cons]
    omega

private theorem keyText_ws {key : Str} {k w : Bytes} (hw : Ws w) (h : KeyText key k) :
    KeyText key (w ++ k) := by
  obtain @⟨front, t, mid, back, hfront, hstring, hmid, hback⟩ := h
  rw [← List.append_assoc]
  refine .mk ?_ hstring hmid hback
  intro b hb
  exact (List.mem_append.mp hb).elim (hw b) (hfront b)

private theorem readable_scalar {r : Except SyntaxError (Value × Bytes)} (hp : Front stack p)
    (hr : ∀ v rest', r = .ok (v, rest') → ∃ t, rest = t ++ rest' ∧ Text v t ∧ depth v = 0)
    (h : scalar stack r = .running st) : Readable (p ++ rest) st := by
  cases r with
  | error e => cases h
  | ok r =>
    obtain ⟨v, rest'⟩ := r
    obtain ⟨t, rfl, ht, hdepth⟩ := hr v rest' rfl
    cases h
    refine ⟨p, t, hp, ht, ?_, rfl⟩
    rw [hdepth, Nat.zero_add]
    exact hp.length_le

private theorem literal_read {lit : Str} {v' : Value} (ht : Text v (lit.map asciiByte))
    (hdepth : depth v = 0)
    (h : (literal lit rest).map (fun r => (v, r)) = .ok (v', rest')) :
    ∃ t, rest = t ++ rest' ∧ Text v' t ∧ depth v' = 0 := by
  obtain ⟨r, hr, heq⟩ := map_eq_ok h
  obtain ⟨rfl, rfl⟩ := Prod.mk.inj heq
  exact ⟨_, literalLoop_sound hr, ht, hdepth⟩

private theorem tail_of_head {d : UInt8} (h : rest.head? = some d) : rest = d :: rest.drop 1 := by
  cases rest with
  | nil => cases h
  | cons b tail => rw [Option.some.inj h, List.drop_succ_cons, List.drop_zero]

private theorem readable_openObject (hp : Front stack p)
    (h : openObject stack rest = .running st) : Readable (p ++ asciiByte '{' :: rest) st := by
  obtain ⟨w, hrest, hw⟩ := exists_ws rest
  unfold openObject at h
  dsimp only at h
  split_ifs at h with hmax hclose
  · cases h
    have htail := tail_of_head hclose
    refine ⟨p, asciiByte '{' :: (w ++ [asciiByte '}']), hp, .emptyObject hw, ?_, ?_⟩
    · rw [depth, depthMembers]
      omega
    · conv_lhs => rw [hrest, htail]
      rw [List.cons_append, List.append_assoc, List.singleton_append]
  · cases hkey : objectKey (skipWhitespace rest) with
    | error e =>
      rw [hkey] at h
      cases h
    | ok r =>
      rw [hkey] at h
      obtain ⟨k, hk, htext, -⟩ := objectKey_sound hkey
      cases h
      refine ⟨p ++ asciiByte '{' :: (w ++ k), .object hp (keyText_ws hw htext) ?_, ?_⟩
      · rw [depthMembers]
        omega
      · conv_lhs => rw [hrest, hk]
        rw [List.append_assoc, List.cons_append, List.append_assoc]

private theorem readable_openArray (hp : Front stack p)
    (h : openArray stack rest = .running st) : Readable (p ++ asciiByte '[' :: rest) st := by
  obtain ⟨w, hrest, hw⟩ := exists_ws rest
  unfold openArray at h
  dsimp only at h
  split_ifs at h with hmax hclose
  · cases h
    have htail := tail_of_head hclose
    refine ⟨p, asciiByte '[' :: (w ++ [asciiByte ']']), hp, .emptyArray hw, ?_, ?_⟩
    · rw [depth, depthElements]
      omega
    · conv_lhs => rw [hrest, htail]
      rw [List.cons_append, List.append_assoc, List.singleton_append]
  · cases h
    refine ⟨p ++ asciiByte '[' :: w, .array hp hw ?_, ?_⟩
    · rw [depthElements]
      omega
    · conv_lhs => rw [hrest]
      rw [List.append_assoc, List.cons_append]

private theorem readable_startValue (hp : Front stack p)
    (h : startValue stack rest = .running st) : Readable (p ++ rest) st := by
  cases rest with
  | nil => cases h
  | cons b tail =>
    rw [startValue] at h
    split_ifs at h with hb hb hb
    · exact hb ▸ readable_openObject hp h
    · exact hb ▸ readable_openArray hp h
    · refine readable_scalar hp ?_ h
      intro v rest' hr
      obtain ⟨r, hstring, heq⟩ := map_eq_ok hr
      obtain ⟨rfl, rfl⟩ := Prod.mk.inj heq
      subst hb
      obtain ⟨t, ht, htext⟩ := string_sound hstring
      exact ⟨t, ht, .string htext, rfl⟩
    · exact readable_scalar hp (fun v rest' hr => literal_read .true rfl hr) h
    · exact readable_scalar hp (fun v rest' hr => literal_read .false rfl hr) h
    · exact readable_scalar hp (fun v rest' hr => literal_read .null rfl hr) h
    · refine readable_scalar hp ?_ h
      intro v rest' hr
      obtain ⟨t, ht, htext, rfl⟩ := number_sound hr
      exact ⟨t, ht, .number htext, rfl⟩

private theorem front_array {vs : List Value} (h : Front (.array vs :: stack) p) (ht : Text v t)
    (hv : depth v + (stack.length + 1) ≤ MAX_NESTING_DEPTH) :
    ∃ p' s, Front stack p' ∧ p ++ t = p' ++ asciiByte '[' :: s ∧
      (∀ w, Ws w → Elements (vs ++ [v]) (s ++ w)) ∧
      1 + depthElements (vs ++ [v]) + stack.length ≤ MAX_NESTING_DEPTH := by
  cases h with
  | @array _ p' w hp hw hdepth =>
    refine ⟨p', w ++ t, hp, by simp, ?_, ?_⟩
    · intro w' hw'
      rw [List.append_assoc]
      exact .one hw ht hw'
    · rw [depthElements_append]
      omega
  | @elements _ _ p' s w hp hs hw hdepth =>
    refine ⟨p', s ++ asciiByte ',' :: (w ++ t), hp, by simp, ?_, ?_⟩
    · intro w' hw'
      rw [List.append_assoc, List.cons_append, List.append_assoc]
      exact .snoc hs hw ht hw'
    · rw [depthElements_append]
      omega

private theorem front_object {ms : List (Str × Value)} {key : Str}
    (h : Front (.object ms key :: stack) p) (ht : Text v t)
    (hv : depth v + (stack.length + 1) ≤ MAX_NESTING_DEPTH) :
    ∃ p' s, Front stack p' ∧ p ++ t = p' ++ asciiByte '{' :: s ∧
      (∀ w, Ws w → Members (ms ++ [(key, v)]) (s ++ w)) ∧
      1 + depthMembers (ms ++ [(key, v)]) + stack.length ≤ MAX_NESTING_DEPTH := by
  cases h with
  | @object _ _ p' k hp hk hdepth =>
    refine ⟨p', k ++ t, hp, by simp, ?_, ?_⟩
    · intro w hw
      rw [List.append_assoc]
      exact .one hk ht hw
    · rw [depthMembers_append]
      omega
  | @members _ _ _ p' s k hp hs hk hdepth =>
    refine ⟨p', s ++ asciiByte ',' :: (k ++ t), hp, by simp, ?_, ?_⟩
    · intro w hw
      rw [List.append_assoc, List.cons_append, List.append_assoc]
      exact .snoc hs hk ht hw
    · rw [depthMembers_append]
      omega

private theorem readable_afterElement {vs : List Value} (hp : Front stack p)
    (hs : Elements vs s) (hdepth : 1 + depthElements vs + stack.length ≤ MAX_NESTING_DEPTH)
    (h : afterElement (.array vs :: stack) rest = .running st) :
    Readable (p ++ asciiByte '[' :: (s ++ rest)) st := by
  cases rest with
  | nil => cases h
  | cons b tail =>
    rw [afterElement] at h
    split_ifs at h with hb hb
    · obtain ⟨w, htail, hw⟩ := exists_ws tail
      cases h
      refine ⟨_, .elements hp hs hw hdepth, ?_⟩
      conv_lhs => rw [htail, hb]
      simp only [List.append_assoc, List.cons_append]
    · cases h
      refine ⟨p, _, hp, .array hs, ?_, ?_⟩
      · rw [depth]
        exact hdepth
      · rw [hb, List.cons_append, List.append_assoc, List.singleton_append]

private theorem readable_afterMember {ms : List (Str × Value)} (hp : Front stack p)
    (hs : Members ms s) (hdepth : 1 + depthMembers ms + stack.length ≤ MAX_NESTING_DEPTH)
    (h : afterMember (.object ms [] :: stack) rest = .running st) :
    Readable (p ++ asciiByte '{' :: (s ++ rest)) st := by
  cases rest with
  | nil => cases h
  | cons b tail =>
    rw [afterMember] at h
    split_ifs at h with hb hb
    · cases hkey : objectKey tail with
      | error e =>
        rw [hkey] at h
        cases h
      | ok r =>
        rw [hkey] at h
        obtain ⟨k, rfl, hk, -⟩ := objectKey_sound hkey
        cases h
        refine ⟨_, .members hp hs hk hdepth, ?_⟩
        rw [hb]
        simp only [List.append_assoc, List.cons_append]
    · cases h
      refine ⟨p, _, hp, .object hs, ?_, ?_⟩
      · rw [depth]
        exact hdepth
      · rw [hb, List.cons_append, List.append_assoc, List.singleton_append]

private theorem readable_step {s s' : State} (hs : Readable input s) (h : step s = .running s') :
    Readable input s' := by
  cases s with
  | value stack rest =>
    obtain ⟨p, hp, rfl⟩ := hs
    exact readable_startValue hp h
  | attach stack done rest =>
    obtain ⟨p, t, hp, ht, hdepth, rfl⟩ := hs
    obtain ⟨w, hrest, hw⟩ := exists_ws rest
    cases stack with
    | nil => cases h
    | cons frame below =>
      rw [List.length_cons] at hdepth
      cases frame with
      | array vs =>
        obtain ⟨p', s, hp', heq, hs, hdepth'⟩ := front_array hp ht hdepth
        have hread := readable_afterElement hp' (hs w hw) hdepth' h
        rw [List.append_assoc, ← hrest] at hread
        rw [← List.append_assoc, heq, List.append_assoc, List.cons_append]
        exact hread
      | object ms key =>
        obtain ⟨p', s, hp', heq, hs, hdepth'⟩ := front_object hp ht hdepth
        have hread := readable_afterMember hp' (hs w hw) hdepth' h
        rw [List.append_assoc, ← hrest] at hread
        rw [← List.append_assoc, heq, List.append_assoc, List.cons_append]
        exact hread

private theorem run_sound {s : State} (hs : Readable input s) (h : run s = some (.ok (v, more))) :
    ∃ t, input = t ++ more ∧ Text v t ∧ depth v ≤ MAX_NESTING_DEPTH := by
  induction s using run.induct with
  | case1 s s' hstep ih =>
    rw [run_of_running hstep] at h
    exact ih (readable_step hs hstep) h
  | case2 s done rest hstep =>
    rw [run_of_finished hstep] at h
    cases h
    rw [eq_attach_of_finished hstep] at hs
    obtain ⟨p, t, hp, ht, hdepth, rfl⟩ := hs
    cases hp
    exact ⟨t, rfl, ht, hdepth⟩
  | case3 s e hstep =>
    rw [run_of_failed hstep] at h
    cases h
  | case4 s hstep => exact absurd hstep (step_ne_panicked s)

end Sound

section Parse

variable {v : Value} {w t more bytes : Bytes}

theorem parse_append (hdepth : depth v ≤ MAX_NESTING_DEPTH) (ht : Text v t) (hw : Ws w)
    (hno : ∀ l, v = .number l → ¬ GoesOn t more) : parse (w ++ (t ++ more)) = some (.ok v) := by
  have hskip : skipWhitespace (w ++ (t ++ more)) = t ++ more := by
    rw [skipWhitespace_append hw, text_skip ht]
  have hrun := run_text ht [] more hdepth hno
  have hend : run (.attach [] v more) = some (.ok (v, more)) := run_of_finished rfl
  rw [hend] at hrun
  obtain ⟨b, tl, rfl, -⟩ := text_head ht
  rw [parse, hskip]
  show (run (.value [] (b :: tl ++ more))).map _ = _
  rw [hrun]
  rfl

theorem parse_sound (h : parse bytes = some (.ok v)) :
    ∃ w t more, bytes = w ++ (t ++ more) ∧ Ws w ∧ Text v t ∧ depth v ≤ MAX_NESTING_DEPTH := by
  obtain ⟨w, hbytes, hw⟩ := exists_ws bytes
  rw [parse] at h
  cases hskip : skipWhitespace bytes with
  | nil =>
    rw [hskip] at h
    cases h
  | cons b tail =>
    rw [hskip] at h hbytes
    dsimp only at h
    obtain ⟨r, hrun, hr⟩ := Option.map_eq_some_iff.mp h
    obtain ⟨⟨v', more⟩, rfl, rfl⟩ := map_eq_ok hr
    have hread : Readable (b :: tail) (.value [] (b :: tail)) := ⟨[], .nil, rfl⟩
    obtain ⟨t, ht, htext, hdepth⟩ := run_sound hread hrun
    exact ⟨w, t, more, by rw [hbytes, ht], hw, htext, hdepth⟩

/-- The parser is sound and complete for the grammar, and it ends on every input. -/
theorem parse_grammar_exact :
    (∀ (v : Value) (w t more : Bytes), depth v ≤ MAX_NESTING_DEPTH → Text v t → Ws w →
      (∀ l, v = .number l → ¬ GoesOn t more) → parse (w ++ (t ++ more)) = some (.ok v)) ∧
    (∀ (bytes : Bytes) (v : Value), parse bytes = some (.ok v) →
      ∃ w t more, bytes = w ++ (t ++ more) ∧ Ws w ∧ Text v t ∧ depth v ≤ MAX_NESTING_DEPTH) ∧
    ∀ bytes : Bytes, ∃ r, parse bytes = some r :=
  ⟨fun _ _ _ _ hdepth ht hw hno => parse_append hdepth ht hw hno, fun _ _ h => parse_sound h,
    parse_total⟩

/-- An object whose key has an escape and whose value is a surrogate pair, behind a blank and in front
of a letter. -/
def escaped : Bytes := " \x7b\"a\\n\": \"\\ud83d\\ude00\"\x7dx".toList.map asciiByte

theorem parse_grammar_exact_escaped :
    parse escaped = some (.ok (.object [(['a', '\n'], .string [Char.ofNat 0x1f600])])) ∧
      ∃ w t more, escaped = w ++ (t ++ more) ∧ Ws w ∧
        Text (.object [(['a', '\n'], .string [Char.ofNat 0x1f600])]) t ∧
        depth (.object [(['a', '\n'], .string [Char.ofNat 0x1f600])]) ≤ MAX_NESTING_DEPTH := by
  have hws : Ws [] := fun b hb => absurd hb List.not_mem_nil
  have hblank : Ws [asciiByte ' '] := by
    intro b hb
    rw [List.mem_singleton.mp hb]
    decide
  have hkey : Chars (String.utf8EncodeChar 'a' ++ asciiByte '\\' :: asciiByte 'n' :: []) ['a', '\n'] :=
    .plain (by decide) (by decide) (by decide) (.simple (by decide) .nil)
  have hhigh : Hex4 ("d83d".toList.map asciiByte) 0xd83d :=
    .mk (by decide : _ = some 13) (by decide : _ = some 8) (by decide : _ = some 3)
      (by decide : _ = some 13)
  have hlow : Hex4 ("de00".toList.map asciiByte) 0xde00 :=
    .mk (by decide : _ = some 13) (by decide : _ = some 14) (by decide : _ = some 0)
      (by decide : _ = some 0)
  have hpair := Chars.pair hhigh ⟨by decide, by decide⟩ hlow ⟨by decide, by decide⟩ .nil
  have hcode : 0x10000 + (0xd83d - 0xd800) * 0x400 + (0xde00 - 0xdc00) = 0x1f600 := by decide
  rw [hcode] at hpair
  have htext := Text.object (.one (.mk hws (.mk hkey) hws hblank) (.string (.mk hpair)) hws)
  have hparse := parse_grammar_exact.1 _ _ _ [asciiByte 'x'] (by decide) htext hblank
    fun l hl => by cases hl
  exact ⟨hparse, parse_grammar_exact.2.1 _ _ hparse⟩

end Parse

end Kcptun.Setup.JsonExact
