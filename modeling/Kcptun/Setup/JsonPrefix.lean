/- Kcptun/Setup/JsonPrefix
   source: crates/std/src/gojson.rs (parse, Parser)
   digest: What the parser finds in a prefix stays so when more bytes follow: an error that is not
     the end of the input remains an error. -/

import Kcptun.Setup.JsonExact

set_option autoImplicit false
set_option relaxedAutoImplicit false

namespace Kcptun.Setup.JsonPrefix

open Kcptun.Lib.LittleEndian (Bytes)
open Kcptun.Lib.Utf8
open Kcptun.Setup.GoJson (Value)
open Kcptun.Setup.GoQuote
open Kcptun.Setup.JsonParser
open Kcptun.Setup.JsonGrammar
open Kcptun.Setup.JsonExact

/-- What more input can do to a result: nothing, unless the input ended or was used up. -/
inductive Extends {β : Type} (left : β → Bytes) (grow : β → β) :
    Except SyntaxError β → Except SyntaxError β → Prop where
  | more (r : Except SyntaxError β) : Extends left grow (.error .unexpectedEof) r
  | stuck (e e' : SyntaxError) : Extends left grow (.error e) (.error e')
  | last {b : β} (h : left b = []) (r : Except SyntaxError β) : Extends left grow (.ok b) r
  | same (b : β) : Extends left grow (.ok b) (.ok (grow b))

/-- For what returns the bytes that remain. -/
abbrev ExtendsRest (ext : Bytes) : Except SyntaxError Bytes → Except SyntaxError Bytes → Prop :=
  Extends id (· ++ ext)

/-- For what returns a result and the bytes that remain. -/
abbrev ExtendsRead {α : Type} (ext : Bytes) :
    Except SyntaxError (α × Bytes) → Except SyntaxError (α × Bytes) → Prop :=
  Extends Prod.snd fun r => (r.1, r.2 ++ ext)

section Rules

variable {β γ : Type} {left : β → Bytes} {grow : β → β} {left' : γ → Bytes} {grow' : γ → γ}
  {r r' : Except SyntaxError β}

private theorem Extends.bind {f : β → Except SyntaxError γ} (h : Extends left grow r r')
    (hlast : ∀ b, left b = [] → ∀ r'', Extends left' grow' (f b) r'')
    (hsame : ∀ b, Extends left' grow' (f b) (f (grow b))) :
    Extends left' grow' (r >>= f) (r' >>= f) := by
  cases h with
  | more r => exact .more _
  | stuck e e' => exact .stuck e e'
  | @last b h r => exact hlast b h _
  | same b => exact hsame b

private theorem Extends.map {f : β → γ} (h : Extends left grow r r')
    (hleft : ∀ b, left' (f b) = left b) (hgrow : ∀ b, f (grow b) = grow' (f b)) :
    Extends left' grow' (r.map f) (r'.map f) := by
  cases h with
  | more r => exact .more _
  | stuck e e' => exact .stuck e e'
  | @last b h r => exact .last ((hleft b).trans h) _
  | same b =>
    rw [Except.map, Except.map, hgrow]
    exact .same _

end Rules

section Words

variable {rest ext : Bytes}

private theorem skipWhitespace_extend (h : skipWhitespace rest ≠ []) (ext : Bytes) :
    skipWhitespace (rest ++ ext) = skipWhitespace rest ++ ext := by
  rw [skipWhitespace, skipWhitespace, List.dropWhile_append, if_neg]
  rwa [List.isEmpty_iff]

private theorem literalLoop_extends (lit : Str) (wants rest ext : Bytes) :
    ExtendsRest ext (literalLoop lit wants rest) (literalLoop lit wants (rest ++ ext)) := by
  induction wants generalizing rest with
  | nil => exact .same rest
  | cons want wants ih =>
    cases rest with
    | nil => exact .more _
    | cons c rest =>
      rw [List.cons_append, literalLoop, literalLoop]
      split_ifs with hc
      · exact ih rest
      · exact .stuck _ _

private theorem skipDigits_extends (rest ext : Bytes) :
    ExtendsRest ext (.ok (skipDigits rest)) (.ok (skipDigits (rest ++ ext))) := by
  by_cases h : skipDigits rest = []
  · have hleft : id (skipDigits rest) = [] := h
    exact .last hleft _
  · have happend : skipDigits (rest ++ ext) = skipDigits rest ++ ext := by
      rw [skipDigits, skipDigits, List.dropWhile_append, if_neg]
      rwa [List.isEmpty_iff]
    rw [happend]
    exact .same _

private theorem requireDigits_extends (rest ext : Bytes) :
    ExtendsRest ext (requireDigits rest) (requireDigits (rest ++ ext)) := by
  cases rest with
  | nil => exact .more _
  | cons b tail =>
    rw [List.cons_append, requireDigits, requireDigits]
    split_ifs with hb
    · exact skipDigits_extends (b :: tail) ext
    · exact .stuck _ _

private theorem intPart_extends (rest ext : Bytes) :
    ExtendsRest ext (intPart rest) (intPart (rest ++ ext)) := by
  cases rest with
  | nil => exact .more _
  | cons b tail =>
    rw [List.cons_append, intPart, intPart]
    split_ifs with hzero hb
    · exact .same tail
    · exact skipDigits_extends (b :: tail) ext
    · exact .stuck _ _

private theorem fracPart_extends (rest ext : Bytes) :
    ExtendsRest ext (fracPart rest) (fracPart (rest ++ ext)) := by
  cases rest with
  | nil => exact .last rfl _
  | cons b tail =>
    rw [List.cons_append, fracPart, fracPart]
    split_ifs with hb
    · exact requireDigits_extends tail ext
    · exact .same (b :: tail)

private theorem expPart_extends (rest ext : Bytes) :
    ExtendsRest ext (expPart rest) (expPart (rest ++ ext)) := by
  cases rest with
  | nil => exact .last rfl _
  | cons b tail =>
    rw [List.cons_append, expPart, expPart]
    split_ifs with hb
    · cases tail with
      | nil => exact .more _
      | cons c tail =>
        have hsign : skipSign (c :: tail ++ ext) = skipSign (c :: tail) ++ ext := by
          rw [List.cons_append, skipSign, skipSign]
          split_ifs <;> rfl
        rw [hsign]
        exact requireDigits_extends _ ext
    · exact .same (b :: tail)

private theorem numberEnd_extends (rest ext : Bytes) :
    ExtendsRest ext (numberEnd rest) (numberEnd (rest ++ ext)) := by
  cases rest with
  | nil => exact .more _
  | cons b tail =>
    have hminus : skipMinus (b :: tail ++ ext) = skipMinus (b :: tail) ++ ext := by
      rw [List.cons_append, skipMinus, skipMinus]
      split_ifs <;> rfl
    rw [numberEnd, numberEnd, hminus]
    refine (intPart_extends _ ext).bind ?_ ?_
    · intro r hr r''
      rw [id_eq] at hr
      rw [hr]
      exact .last rfl _
    · intro r
      refine (fracPart_extends r ext).bind ?_ fun r => expPart_extends r ext
      intro r hr r''
      rw [id_eq] at hr
      rw [hr]
      exact .last rfl _

private theorem number_extends (start ext : Bytes) :
    ExtendsRead ext (number start) (number (start ++ ext)) := by
  have hend := numberEnd_extends start ext
  rw [number, number]
  generalize numberEnd (start ++ ext) = r' at hend
  cases hread : numberEnd start with
  | error e =>
    rw [hread] at hend
    cases hend with
    | more r => exact .more _
    | stuck e e' => exact .stuck e e'
  | ok r =>
    rw [hread] at hend
    cases hend with
    | last h r' =>
      show ExtendsRead ext (.ok (_, r)) _
      exact .last (b := (_, r)) h _
    | same r =>
      have hlen : (start ++ ext).length - (r ++ ext).length = start.length - r.length := by
        rw [List.length_append, List.length_append, Nat.add_sub_add_right]
      have htake : (start ++ ext).take ((start ++ ext).length - (r ++ ext).length) =
          start.take (start.length - r.length) := by
        rw [hlen, List.take_append_of_le_length (Nat.sub_le _ _)]
      show ExtendsRead ext (.ok (_, r)) (.ok (Value.number (lossy _), r ++ ext))
      rw [htake]
      exact .same _

end Words

section Strings

variable {rest ext esc : Bytes} {c : UInt8} {tail : Bytes}

private theorem hex4Loop_extends (esc esc' : Bytes) (n : ℕ) (rest ext : Bytes) (v : ℕ) :
    hex4Loop esc n rest v = .error .unexpectedEof ∨
      (∃ e e', hex4Loop esc n rest v = .error e ∧ hex4Loop esc' n (rest ++ ext) v = .error e') ∨
      ∃ u, hex4Loop esc n rest v = .ok u ∧ hex4Loop esc' n (rest ++ ext) v = .ok u ∧
        n ≤ rest.length := by
  induction n generalizing rest v with
  | zero => exact Or.inr (Or.inr ⟨v, rfl, rfl, Nat.zero_le _⟩)
  | succ n ih =>
    cases rest with
    | nil => exact Or.inl rfl
    | cons c rest =>
      rw [List.cons_append, hex4Loop, hex4Loop]
      cases hexDigit c with
      | none => exact Or.inr (Or.inl ⟨_, _, rfl, rfl⟩)
      | some d =>
        rcases ih rest (v * 16 + d) with h | ⟨e, e', h, h'⟩ | ⟨u, h, h', hlen⟩
        · exact Or.inl h
        · exact Or.inr (Or.inl ⟨e, e', h, h'⟩)
        · exact Or.inr (Or.inr ⟨u, h, h', Nat.succ_le_succ hlen⟩)

private theorem hex4Loop_short (esc : Bytes) {n : ℕ} {ds : Bytes}
    (hds : ∀ b ∈ ds, hexDigit b ≠ none)
    (hlen : ds.length < n) (v : ℕ) : hex4Loop esc n ds v = .error .unexpectedEof := by
  induction ds generalizing n v with
  | nil =>
    cases n with
    | zero => exact absurd hlen (Nat.not_lt_zero _)
    | succ n => rfl
  | cons b ds ih =>
    obtain ⟨hb, hrest⟩ := List.forall_mem_cons.mp hds
    cases n with
    | zero => exact absurd hlen (Nat.not_lt_zero _)
    | succ n =>
      rw [hex4Loop]
      cases hdigit : hexDigit b with
      | none => exact absurd hdigit hb
      | some d => exact ih hrest (Nat.lt_of_succ_lt_succ hlen) _

private theorem Hex4.digits {ds : Bytes} {u : ℕ} (h : Hex4 ds u) : ∀ b ∈ ds, hexDigit b ≠ none := by
  cases h with
  | mk ha hb hc hd =>
    simp only [List.forall_mem_cons, ha, hb, hc, hd]
    simp

private theorem stringLoop_cut_unit {ds : Bytes} {u : ℕ} (hds : Hex4 ds u) {n : ℕ} (hn : n < 6)
    (out : Str) : stringLoop ((unit ds).take n) out = .error .unexpectedEof := by
  have hlen := hds.length
  match n with
  | 0 =>
    rw [List.take_zero, stringLoop]
  | 1 => exact stringLoop_escape_error rfl
  | n + 2 =>
    have hshort : hex4Loop (asciiByte '\\' :: asciiByte 'u' :: ds.take n) 4 (ds.take n) 0 =
        .error .unexpectedEof := by
      refine hex4Loop_short _ (fun b hb => Hex4.digits hds b (List.mem_of_mem_take hb)) ?_ 0
      rw [List.length_take]
      omega
    apply stringLoop_escape_error
    rw [escape]
    show unicodeEscape _ = _
    rw [unicodeEscape, hex4]
    exact congrArg (Except.map _) hshort

private theorem pairUp_extends (hi : ℕ) (rest ext : Bytes) :
    (∃ ch r, pairUp hi rest = (ch, r) ∧ pairUp hi (rest ++ ext) = (ch, r ++ ext)) ∨
      ∃ ch, pairUp hi rest = (ch, rest) ∧ ∀ out, stringLoop rest out = .error .unexpectedEof := by
  unfold pairUp
  split_ifs with hhigh hlow
  · cases hlo : lowSurrogate rest with
    | some lo =>
      obtain ⟨ds', r, rfl, hds', hrange⟩ := lowSurrogate_sound hlo
      refine Or.inl ⟨_, _, rfl, ?_⟩
      rw [List.append_assoc, lowSurrogate_append hds' hrange, drop_unit hds', drop_unit hds']
    | none =>
      cases hlo' : lowSurrogate (rest ++ ext) with
      | none => exact Or.inl ⟨_, _, rfl, rfl⟩
      | some lo =>
        obtain ⟨ds', r, hr, hds', hrange⟩ := lowSurrogate_sound hlo'
        have hshort : rest.length < 6 := by
          by_contra hge
          have hlen : (unit ds').length = 6 := by
            rw [unit, List.length_cons, List.length_cons, hds'.length]
          have hfront : rest = unit ds' ++ rest.drop 6 := by
            have htake := congrArg (List.take 6) hr
            rw [List.take_append_of_le_length (not_lt.mp hge), List.take_left' hlen] at htake
            rw [← htake, List.take_append_drop]
          rw [hfront, lowSurrogate_append hds' hrange] at hlo
          cases hlo
        have hcut : rest = (unit ds').take rest.length := by
          have htake := congrArg (List.take rest.length) hr
          rw [List.take_left, List.take_append_of_le_length] at htake
          · exact htake
          · rw [unit, List.length_cons, List.length_cons, hds'.length]
            exact hshort.le
        refine Or.inr ⟨_, rfl, ?_⟩
        intro out
        rw [hcut]
        exact stringLoop_cut_unit hds' hshort out
  · exact Or.inl ⟨_, _, rfl, rfl⟩
  · exact Or.inl ⟨_, _, rfl, rfl⟩

private theorem escape_extends (esc ext : Bytes) :
    escape esc = .error .unexpectedEof ∨
      (∃ e e', escape esc = .error e ∧ escape (esc ++ ext) = .error e') ∨
      (∃ ch r, escape esc = .ok (ch, r) ∧ escape (esc ++ ext) = .ok (ch, r ++ ext)) ∨
      ∃ ch r, escape esc = .ok (ch, r) ∧ ∀ out, stringLoop r out = .error .unexpectedEof := by
  cases hkind : esc[1]? with
  | none =>
    left
    rw [escape, hkind]
  | some kind =>
    obtain ⟨hlen, -⟩ := List.getElem?_eq_some_iff.mp hkind
    have hkind' : (esc ++ ext)[1]? = some kind := by
      rw [List.getElem?_append_left hlen, hkind]
    rw [escape, escape, hkind, hkind']
    dsimp only
    cases simpleEscape kind with
    | some ch =>
      refine Or.inr (Or.inr (Or.inl ⟨_, _, rfl, ?_⟩))
      dsimp only
      rw [List.drop_append_of_le_length hlen]
    | none =>
      dsimp only
      split_ifs with hu
      · exact Or.inr (Or.inl ⟨_, _, rfl, rfl⟩)
      · rw [unicodeEscape, unicodeEscape, hex4, hex4, List.drop_append_of_le_length hlen]
        rcases hex4Loop_extends esc (esc ++ ext) 4 (esc.drop 2) ext 0 with
          h | ⟨e, e', h, h'⟩ | ⟨u, h, h', hdigits⟩
        · rw [h]
          exact Or.inl rfl
        · rw [h, h']
          exact Or.inr (Or.inl ⟨_, _, rfl, rfl⟩)
        · rw [List.length_drop] at hdigits
          rw [h, h', List.drop_append_of_le_length (by omega)]
          rcases pairUp_extends u (esc.drop 6) ext with ⟨ch, r, hr, hr'⟩ | ⟨ch, hr, hend⟩
          · exact Or.inr (Or.inr (Or.inl ⟨ch, r, congrArg _ hr, congrArg _ hr'⟩))
          · exact Or.inr (Or.inr (Or.inr ⟨ch, _, congrArg _ hr, hend⟩))

private theorem stringLoop_high (h : ∀ b ∈ rest, 0x80 ≤ b.toNat) (out : Str) :
    stringLoop rest out = .error .unexpectedEof := by
  induction hn : rest.length using Nat.strong_induction_on generalizing rest out with
  | h n ih =>
    cases rest with
    | nil => rw [stringLoop]
    | cons c tail =>
      have hc : ¬ c < 0x80 := by
        rw [UInt8.lt_iff_toNat_lt]
        exact not_lt.mpr (h c List.mem_cons_self)
      rw [stringLoop_rune hc]
      refine ih _ ?_ (fun b hb => h b (List.mem_of_mem_drop hb)) _ rfl
      rw [← hn, List.length_drop, List.length_cons]
      have := (decodeRune_length c tail).1
      omega

private theorem decodeRune_extends (c : UInt8) (tail ext : Bytes) :
    decodeRune (c :: (tail ++ ext)) = decodeRune (c :: tail) ∨
      ∀ b ∈ c :: tail, 0x80 ≤ b.toNat := by
  cases hlong : decodeChar? (c :: (tail ++ ext)) with
  | none =>
    cases hshort : decodeChar? (c :: tail) with
    | none =>
      left
      rw [decodeRune_invalid hlong, decodeRune_invalid hshort]
    | some ch =>
      obtain ⟨more, hmore⟩ := exists_of_decodeChar? hshort
      rw [← List.cons_append, hmore, List.append_assoc, decodeChar?_append] at hlong
      cases hlong
  | some ch =>
    obtain ⟨more, hmore⟩ := exists_of_decodeChar? hlong
    rw [← List.cons_append] at hmore
    rcases List.append_eq_append_iff.mp hmore with ⟨s, hs, -⟩ | ⟨s, hs, -⟩
    · by_cases hascii : ch.toNat < 128
      · left
        rw [encode_ascii hascii, List.cons_append] at hs
        obtain ⟨hc, htail⟩ := List.cons.inj hs
        obtain ⟨rfl, -⟩ := List.append_eq_nil_iff.mp htail.symm
        have hone : [c] = String.utf8EncodeChar ch := by rw [encode_ascii hascii, hc]
        show decodeRune ([c] ++ ext) = decodeRune ([c] ++ [])
        rw [hone, decodeRune_encode, decodeRune_encode]
      · exact Or.inr fun b hb =>
          le_of_mem_encode (not_lt.mp hascii) (hs ▸ List.mem_append_left s hb)
    · left
      rw [← List.cons_append, hs, List.append_assoc, decodeRune_encode, decodeRune_encode]

private theorem stringLoop_extends (rest ext : Bytes) (out : Str) :
    ExtendsRead ext (stringLoop rest out) (stringLoop (rest ++ ext) out) := by
  induction rest, out using stringLoop.induct with
  | case1 out =>
    rw [stringLoop]
    exact .more _
  | case2 out tail =>
    rw [List.cons_append, stringLoop_quote, stringLoop_quote]
    exact .same (out, tail)
  | case3 out tail _ e hescape =>
    rw [stringLoop_escape_error hescape]
    rcases escape_extends (asciiByte '\\' :: tail) ext with h | ⟨e₁, e', h, h'⟩ | ⟨ch, r, h, h'⟩ |
      ⟨ch, r, h, hend⟩ <;> rw [hescape] at h
    · cases h
      exact .more _
    · rw [List.cons_append] at h' ⊢
      rw [stringLoop_escape_error h']
      exact .stuck _ _
    · cases h
    · cases h
  | case4 out tail ch r _ hescape ih =>
    rw [stringLoop_escape hescape]
    rcases escape_extends (asciiByte '\\' :: tail) ext with h | ⟨e₁, e', h, h'⟩ | ⟨ch, r, h, h'⟩ |
      ⟨ch, r, h, hend⟩ <;> rw [hescape] at h
    · cases h
    · cases h
    · obtain ⟨rfl, rfl⟩ := Prod.mk.inj (Except.ok.inj h)
      rw [List.cons_append] at h' ⊢
      rw [stringLoop_escape h']
      exact ih
    · obtain ⟨rfl, rfl⟩ := Prod.mk.inj (Except.ok.inj h)
      rw [hend]
      exact .more _
  | case5 out c tail hquote hback hlow =>
    rw [List.cons_append, stringLoop, if_neg hquote, if_neg hback, if_pos hlow, stringLoop,
      if_neg hquote, if_neg hback, if_pos hlow]
    exact .stuck _ _
  | case6 out c tail hquote hback hlow hascii ih =>
    rw [List.cons_append, stringLoop_ascii hquote hback hlow hascii,
      stringLoop_ascii hquote hback hlow hascii]
    exact ih
  | case7 out c tail hquote hback hlow hascii r ih =>
    obtain ⟨hpos, hlen⟩ := decodeRune_length c tail
    rcases decodeRune_extends c tail ext with hrune | hhigh
    · have hr : max r.2 1 = (decodeRune (c :: tail)).2 := Nat.max_eq_left hpos
      rw [hr, ← List.drop_append_of_le_length hlen] at ih
      rw [stringLoop_rune hascii, List.cons_append, stringLoop_rune hascii, hrune]
      exact ih
    · rw [stringLoop_high hhigh]
      exact .more _

private theorem string_extends (c : UInt8) (tail ext : Bytes) :
    ExtendsRead ext (string (c :: tail)) (string (c :: (tail ++ ext))) :=
  stringLoop_extends tail ext []

private theorem afterKey_extends (name : Str) (rest ext : Bytes) :
    ExtendsRead ext (afterKey name rest) (afterKey name (rest ++ ext)) := by
  cases rest with
  | nil => exact .more _
  | cons b tail =>
    rw [List.cons_append, afterKey, afterKey]
    split_ifs with hb
    · by_cases h : skipWhitespace tail = []
      · exact .last (b := (name, skipWhitespace tail)) h _
      · rw [skipWhitespace_extend h]
        exact .same (name, skipWhitespace tail)
    · exact .stuck _ _

private theorem objectKey_extends (rest ext : Bytes) :
    ExtendsRead ext (objectKey rest) (objectKey (rest ++ ext)) := by
  rw [objectKey, objectKey]
  cases hskip : skipWhitespace rest with
  | nil => exact .more _
  | cons b tail =>
    rw [skipWhitespace_extend (by rw [hskip]; exact List.cons_ne_nil _ _), hskip, List.cons_append]
    dsimp only
    split_ifs with hb
    · exact .stuck _ _
    · refine (string_extends b tail ext).bind ?_ ?_
      · intro r hr r''
        rw [hr]
        exact .more _
      · intro r
        show ExtendsRead ext (afterKey r.1 (skipWhitespace r.2))
          (afterKey r.1 (skipWhitespace (r.2 ++ ext)))
        by_cases h : skipWhitespace r.2 = []
        · rw [h]
          exact .more _
        · rw [skipWhitespace_extend h]
          exact afterKey_extends r.1 _ ext

end Strings

/-! The machine -/

def State.extend (s : State) (ext : Bytes) : State :=
  match s with
  | .value stack rest => .value stack (rest ++ ext)
  | .attach stack done rest => .attach stack done (rest ++ ext)

inductive Goes (ext : Bytes) : Outcome → Outcome → Prop where
  | more (o : Outcome) : Goes ext (.failed .unexpectedEof) o
  | stuck (e e' : SyntaxError) : Goes ext (.failed e) (.failed e')
  | last {s : State} (h : s.rest = []) (o : Outcome) : Goes ext (.running s) o
  | same (s : State) : Goes ext (.running s) (.running (State.extend s ext))
  | finished (v : Value) (rest : Bytes) :
      Goes ext (.finished v rest) (.finished v (rest ++ ext))

section Machine

variable {rest ext : Bytes} {stack : List Frame} {s : State}

private theorem scalar_goes {r r' : Except SyntaxError (Value × Bytes)} (h : ExtendsRead ext r r') :
    Goes ext (scalar stack r) (scalar stack r') := by
  cases h with
  | more r => exact .more _
  | stuck e e' => exact .stuck e e'
  | @last b h r => exact .last (s := .attach stack b.1 b.2) h _
  | same b => exact .same (.attach stack b.1 b.2)

private theorem literal_goes (lit : Str) (v : Value) (rest ext : Bytes) :
    Goes ext (scalar stack ((literal lit rest).map fun r => (v, r)))
      (scalar stack ((literal lit (rest ++ ext)).map fun r => (v, r))) :=
  scalar_goes ((literalLoop_extends lit _ rest ext).map (fun _ => rfl) fun _ => rfl)

private theorem head_extend (h : rest ≠ []) (ext : Bytes) : (rest ++ ext).head? = rest.head? := by
  cases rest with
  | nil => exact absurd rfl h
  | cons b tail => rfl

private theorem drop_extend (h : rest ≠ []) (ext : Bytes) :
    (rest ++ ext).drop 1 = rest.drop 1 ++ ext := by
  cases rest with
  | nil => exact absurd rfl h
  | cons b tail => rfl

private theorem openObject_goes (tail ext : Bytes) :
    Goes ext (openObject stack tail) (openObject stack (tail ++ ext)) := by
  unfold openObject
  dsimp only
  by_cases hdepth : stack.length ≥ MAX_NESTING_DEPTH
  · rw [if_pos hdepth, if_pos hdepth]
    exact .stuck _ _
  · rw [if_neg hdepth, if_neg hdepth]
    by_cases h : skipWhitespace tail = []
    · rw [h]
      exact .more _
    · rw [skipWhitespace_extend h, head_extend h, drop_extend h]
      split_ifs with hclose
      · exact .same (.attach stack (.object []) _)
      · have hkey := objectKey_extends (skipWhitespace tail) ext
        generalize objectKey (skipWhitespace tail) = r at hkey
        generalize objectKey (skipWhitespace tail ++ ext) = r' at hkey
        cases hkey with
        | more r => exact .more _
        | stuck e e' => exact .stuck e e'
        | @last b h r => exact .last (s := .value (.object [] b.1 :: stack) b.2) h _
        | same b => exact .same (.value (.object [] b.1 :: stack) b.2)

private theorem openArray_goes (tail ext : Bytes) :
    Goes ext (openArray stack tail) (openArray stack (tail ++ ext)) := by
  unfold openArray
  dsimp only
  by_cases hdepth : stack.length ≥ MAX_NESTING_DEPTH
  · rw [if_pos hdepth, if_pos hdepth]
    exact .stuck _ _
  · rw [if_neg hdepth, if_neg hdepth]
    by_cases h : skipWhitespace tail = []
    · rw [h]
      show Goes ext (.running (.value (.array [] :: stack) [])) _
      exact .last rfl _
    · rw [skipWhitespace_extend h, head_extend h, drop_extend h]
      split_ifs with hclose
      · exact .same (.attach stack (.array []) _)
      · exact .same (.value (.array [] :: stack) _)

private theorem startValue_goes (rest ext : Bytes) :
    Goes ext (startValue stack rest) (startValue stack (rest ++ ext)) := by
  cases rest with
  | nil => exact .more _
  | cons b tail =>
    rw [List.cons_append, startValue, startValue]
    split_ifs
    · exact openObject_goes tail ext
    · exact openArray_goes tail ext
    · exact scalar_goes ((string_extends b tail ext).map (fun _ => rfl) fun _ => rfl)
    · exact literal_goes _ _ (b :: tail) ext
    · exact literal_goes _ _ (b :: tail) ext
    · exact literal_goes _ _ (b :: tail) ext
    · exact scalar_goes (number_extends (b :: tail) ext)
    · exact .stuck _ _

private theorem closeTop_goes (stack : List Frame) (tail ext : Bytes) (hstack : stack ≠ []) :
    Goes ext (closeTop stack tail) (closeTop stack (tail ++ ext)) := by
  cases stack with
  | nil => exact absurd rfl hstack
  | cons frame below =>
    cases frame with
    | array elements => exact .same (.attach below (.array elements) tail)
    | object members key => exact .same (.attach below (.object members) tail)

private theorem afterElement_goes (frame : Frame) (rest ext : Bytes) :
    Goes ext (afterElement (frame :: stack) rest)
      (afterElement (frame :: stack) (rest ++ ext)) := by
  cases rest with
  | nil => exact .more _
  | cons b tail =>
    rw [List.cons_append, afterElement, afterElement]
    split_ifs
    · by_cases h : skipWhitespace tail = []
      · exact .last (s := .value (frame :: stack) (skipWhitespace tail)) h _
      · rw [skipWhitespace_extend h]
        exact .same (.value (frame :: stack) _)
    · exact closeTop_goes _ tail ext (List.cons_ne_nil _ _)
    · exact .stuck _ _

private theorem afterMember_goes (members : List (Str × Value)) (key : Str) (rest ext : Bytes) :
    Goes ext (afterMember (.object members key :: stack) rest)
      (afterMember (.object members key :: stack) (rest ++ ext)) := by
  cases rest with
  | nil => exact .more _
  | cons b tail =>
    rw [List.cons_append, afterMember, afterMember]
    split_ifs
    · have hkey := objectKey_extends tail ext
      generalize objectKey tail = r at hkey
      generalize objectKey (tail ++ ext) = r' at hkey
      cases hkey with
      | more r => exact .more _
      | stuck e e' => exact .stuck e e'
      | @last b h r => exact .last (s := .value (.object members b.1 :: stack) b.2) h _
      | same b => exact .same (.value (.object members b.1 :: stack) b.2)
    · exact closeTop_goes _ tail ext (List.cons_ne_nil _ _)
    · exact .stuck _ _

private theorem attachDone_empty {done : Value} {frame : Frame} (h : skipWhitespace rest = []) :
    attachDone done rest (frame :: stack) = .failed .unexpectedEof := by
  cases frame <;> rw [attachDone, h] <;> rfl

private theorem step_goes (s : State) (ext : Bytes) :
    Goes ext (step s) (step (State.extend s ext)) := by
  cases s with
  | value stack rest => exact startValue_goes rest ext
  | attach stack done rest =>
    cases stack with
    | nil => exact .finished done rest
    | cons frame below =>
      show Goes ext (attachDone done rest (frame :: below))
        (attachDone done (rest ++ ext) (frame :: below))
      by_cases h : skipWhitespace rest = []
      · rw [attachDone_empty h]
        exact .more _
      · cases frame with
        | array elements =>
          rw [attachDone, attachDone, skipWhitespace_extend h]
          exact afterElement_goes _ _ ext
        | object members key =>
          rw [attachDone, attachDone, skipWhitespace_extend h]
          exact afterMember_goes _ _ _ ext

private theorem run_empty (h : s.rest = []) :
    run s = some (.error .unexpectedEof) ∨ ∃ v, run s = some (.ok (v, [])) := by
  cases s with
  | value stack rest =>
    cases h
    exact Or.inl (run_of_failed rfl)
  | attach stack done rest =>
    cases h
    cases stack with
    | nil => exact Or.inr ⟨done, run_of_finished rfl⟩
    | cons frame below => exact Or.inl (run_of_failed (attachDone_empty rfl))

private theorem run_extend {e : SyntaxError} (h : run s = some (.error e))
    (hne : e ≠ .unexpectedEof)
    (ext : Bytes) : ∃ e', run (State.extend s ext) = some (.error e') := by
  induction s using run.induct with
  | case1 s s' hstep ih =>
    have hgoes := step_goes s ext
    rw [run_of_running hstep] at h
    rw [hstep] at hgoes
    generalize hstep' : step (State.extend s ext) = o at hgoes
    cases hgoes with
    | last hrest o =>
      rcases run_empty hrest with h' | ⟨v, h'⟩ <;> rw [h] at h' <;> cases h'
      exact absurd rfl hne
    | same s' =>
      rw [run_of_running hstep']
      exact ih h
  | case2 s v rest hstep =>
    rw [run_of_finished hstep] at h
    cases h
  | case3 s e₁ hstep =>
    have hgoes := step_goes s ext
    rw [run_of_failed hstep] at h
    cases h
    rw [hstep] at hgoes
    generalize hstep' : step (State.extend s ext) = o at hgoes
    cases hgoes with
    | more o => exact absurd rfl hne
    | stuck e e' => exact ⟨e', run_of_failed hstep'⟩
  | case4 s hstep => exact absurd hstep (step_ne_panicked s)

end Machine

theorem parse_extend {front : Bytes} {e : SyntaxError} (h : parse front = some (.error e))
    (heof : e ≠ .eof) (hne : e ≠ .unexpectedEof) (ext : Bytes) :
    ∃ e', parse (front ++ ext) = some (.error e') := by
  rw [parse] at h
  cases hskip : skipWhitespace front with
  | nil =>
    rw [hskip] at h
    cases h
    exact absurd rfl heof
  | cons b tail =>
    rw [hskip] at h
    dsimp only at h
    obtain ⟨r, hrun, hr⟩ := Option.map_eq_some_iff.mp h
    cases r with
    | ok r => cases hr
    | error e₁ =>
      cases hr
      obtain ⟨e', he'⟩ := run_extend hrun hne ext
      rw [parse, skipWhitespace_extend (by rw [hskip]; exact List.cons_ne_nil _ _), hskip]
      refine ⟨e', ?_⟩
      show (run (State.extend (.value [] (b :: tail)) ext)).map _ = _
      rw [he']
      rfl

end Kcptun.Setup.JsonPrefix
