/- Kcptun/Setup/GoJson
   source: crates/std/src/gojson.rs (Value, SyntaxError, UnmarshalError, Field, JsonStruct,
     decode_struct, find_field, go_fold_eq, fold_char_eq, fold_to_ascii)
   digest: A JSON object laid over a configuration struct: every field ends with the last member
     that sets it, and the first member that fails is reported. -/

import Kcptun.Setup.Multiport
import Kcptun.Lib.Utf8

set_option autoImplicit false
set_option relaxedAutoImplicit false

namespace Kcptun.Setup.GoJson

open Kcptun.Lib.Utf8 (Str)
open Kcptun.Setup.Multiport (parseI64)

/-- A parsed value. Numbers keep their source text, objects their members in document order. -/
inductive Value where
  | null
  | bool (b : Bool)
  | number (literal : Str)
  | string (s : Str)
  | array (elements : List Value)
  | object (members : List (Str × Value))

def Value.kind : Value → Str
  | .null => "null".toList
  | .bool _ => "bool".toList
  | .number _ => "number".toList
  | .string _ => "string".toList
  | .array _ => "array".toList
  | .object _ => "object".toList

/-- A value that does not fit what it is decoded into. -/
inductive UnmarshalError where
  | topLevel (value goType : Str)
  | field (value structName field goType : Str)
deriving DecidableEq

/-- A field of a configuration struct, with what it holds. -/
inductive Field where
  | str (dst : Str)
  | int (dst : Int64)
  | bool (dst : Bool)
deriving DecidableEq

namespace Field

def goType : Field → Str
  | .str _ => "string".toList
  | .int _ => "int".toList
  | .bool _ => "bool".toList

/-- Stores a value, or reports why it does not fit. -/
def set (dst : Field) (value : Value) (structName field : Str) : Except UnmarshalError Field :=
  match dst, value with
  | .str _, .string s => .ok (.str s)
  | .bool _, .bool b => .ok (.bool b)
  | .int _, .number literal =>
    match parseI64 literal with
    | some n => .ok (.int (Int64.ofInt n))
    | none =>
      .error (.field ("number ".toList ++ literal) structName field "int".toList)
  | dst, v => .error (.field v.kind structName field dst.goType)

end Field

/-- A configuration struct: its names, and its fields by the names a key can address. -/
structure JsonStruct where
  structName : Str
  typeName : Str
  fields : List (Str × Field)
deriving DecidableEq

def foldToAscii (c : Char) : Char :=
  if c = Char.ofNat 0x17f then 's' else if c = Char.ofNat 0x212a then 'k' else c

section Decode

/- `char::to_lowercase` of characters outside ASCII. -/
variable (toLowercase : Char → Str)

def eqIgnoreAsciiCase (a b : Char) : Bool := a.toLower == b.toLower

def isAscii (c : Char) : Bool := c.toNat < 128

def foldCharEq (a b : Char) : Bool :=
  a == b ||
    let a := foldToAscii a
    let b := foldToAscii b
    if isAscii a && isAscii b then eqIgnoreAsciiCase a b else toLowercase a == toLowercase b

def foldEqLoop : Str → Str → Bool
  | [], [] => true
  | ca :: a, cb :: b => foldCharEq toLowercase ca cb && foldEqLoop a b
  | _, _ => false

def goFoldEq (a b : Str) : Bool :=
  if a.all isAscii && b.all isAscii then
    a.length == b.length && (a.zip b).all fun p => eqIgnoreAsciiCase p.1 p.2
  else foldEqLoop toLowercase a b

/-- The field a key addresses: an exact match, then a folded one. -/
def findField (fields : List (Str × Field)) (key : Str) : Option ℕ :=
  match fields.findIdx? fun f => f.1 == key with
  | some i => some i
  | none => fields.findIdx? fun f => goFoldEq toLowercase f.1 key

/-- One turn of the loop over the members; nothing when an index is out of range. -/
def decodeMember (structName : Str) (fields : List (Str × Field))
    (firstError : Option UnmarshalError) (key : Str) (member : Value) :
    Option (List (Str × Field) × Option UnmarshalError) :=
  match findField toLowercase fields key, member with
  | none, _ => some (fields, firstError)
  | some _, .null => some (fields, firstError)
  | some index, member => do
    let (name, dst) ← fields[index]?
    match dst.set member structName key with
    | .ok dst => some (fields.set index (name, dst), firstError)
    | .error e => some (fields, firstError.or (some e))

def decodeMembers (structName : Str) (fields : List (Str × Field))
    (firstError : Option UnmarshalError) :
    List (Str × Value) → Option (List (Str × Field) × Option UnmarshalError)
  | [] => some (fields, firstError)
  | (key, member) :: object => do
    let (fields, firstError) ←
      decodeMember toLowercase structName fields firstError key member
    decodeMembers structName fields firstError object

def resultOf : Option UnmarshalError → Except UnmarshalError Unit
  | some e => .error e
  | none => .ok ()

def decodeStruct (config : JsonStruct) (value : Value) :
    Option (JsonStruct × Except UnmarshalError Unit) :=
  match value with
  | .null => some (config, .ok ())
  | .object members => do
    let (fields, firstError) ←
      decodeMembers toLowercase config.structName config.fields none members
    some ({ config with fields }, resultOf firstError)
  | other => some (config, .error (.topLevel other.kind config.typeName))

end Decode

section Fold

variable (toLowercase : Char → Str)

private theorem foldEqLoop_iff (a b : Str) : foldEqLoop toLowercase a b = true ↔
    List.Forall₂ (fun ca cb => foldCharEq toLowercase ca cb = true) a b := by
  induction a generalizing b with
  | nil =>
    cases b with
    | nil => exact ⟨fun _ => .nil, fun _ => rfl⟩
    | cons cb b => exact ⟨fun h => (by cases h), fun h => (by cases h)⟩
  | cons ca a ih =>
    cases b with
    | nil => exact ⟨fun h => (by cases h), fun h => (by cases h)⟩
    | cons cb b => rw [foldEqLoop, Bool.and_eq_true, ih b, List.forall₂_cons]

private theorem foldToAscii_of_ascii {c : Char} (h : isAscii c = true) : foldToAscii c = c := by
  have hlt : c.toNat < 128 := of_decide_eq_true h
  rw [foldToAscii, if_neg, if_neg]
  · rintro rfl
    exact absurd hlt (by decide)
  · rintro rfl
    exact absurd hlt (by decide)

private theorem foldCharEq_of_ascii {ca cb : Char} (ha : isAscii ca = true)
    (hb : isAscii cb = true) : foldCharEq toLowercase ca cb = eqIgnoreAsciiCase ca cb := by
  rw [foldCharEq, foldToAscii_of_ascii ha, foldToAscii_of_ascii hb]
  dsimp only
  rw [ha, hb, Bool.and_self, if_pos rfl, eqIgnoreAsciiCase]
  by_cases h : ca = cb
  · rw [h, beq_self_eq_true, beq_self_eq_true, Bool.or_self]
  · rw [beq_false_of_ne h, Bool.false_or]

theorem goFoldEq_iff (a b : Str) : goFoldEq toLowercase a b = true ↔
    List.Forall₂ (fun ca cb => foldCharEq toLowercase ca cb = true) a b := by
  rw [← foldEqLoop_iff, goFoldEq]
  split_ifs with hascii
  · obtain ⟨ha, hb⟩ := Bool.and_eq_true_iff.mp hascii
    clear hascii
    induction a generalizing b with
    | nil =>
      cases b with
      | nil => exact ⟨fun _ => rfl, fun _ => rfl⟩
      | cons cb b => exact ⟨fun h => (by cases h), fun h => (by cases h)⟩
    | cons ca a ih =>
      cases b with
      | nil => exact ⟨fun h => (by cases h), fun h => (by cases h)⟩
      | cons cb b =>
        rw [List.all_cons, Bool.and_eq_true] at ha hb
        have hrest := ih b ha.2 hb.2
        rw [foldEqLoop, foldCharEq_of_ascii toLowercase ha.1 hb.1]
        simp only [List.length_cons, List.zip_cons_cons, List.all_cons, Bool.and_eq_true,
          beq_iff_eq, Nat.add_right_cancel_iff] at hrest ⊢
        rw [← hrest]
        tauto
  · exact Iff.rfl

end Fold

/-! What an overlay is meant to do -/

section Spec

variable (toLowercase : Char → Str)

/-- The field a key addresses: the one of exactly that name, else the first of a folded name. -/
inductive Addresses (names : List Str) (key : Str) (i : ℕ) : Prop where
  | exact (hname : names[i]? = some key)
  | folded {name : Str} (habsent : key ∉ names) (hname : names[i]? = some name)
      (hfold : goFoldEq toLowercase name key = true)
      (hfirst : ∀ j < i, ∀ other, names[j]? = some other → goFoldEq toLowercase other key = false)

/-- A value that fits the type of a field, and what the field then holds. -/
inductive Converts : Field → Value → Field → Prop where
  | str (old s : Str) : Converts (.str old) (.string s) (.str s)
  | int {literal : Str} {n : ℤ} (old : Int64) (h : parseI64 literal = some n) :
      Converts (.int old) (.number literal) (.int (Int64.ofInt n))
  | bool (old b : Bool) : Converts (.bool old) (.bool b) (.bool b)

def mismatch (dst : Field) (value : Value) (structName field : Str) : UnmarshalError :=
  match dst, value with
  | .int _, .number literal => .field ("number ".toList ++ literal) structName field "int".toList
  | dst, v => .field v.kind structName field dst.goType

variable (config : JsonStruct)

def JsonStruct.names (config : JsonStruct) : List Str := config.fields.map Prod.fst

/-- The member addresses field `i`, which holds `old`, and puts `new` there. -/
def Sets (i : ℕ) (old : Field) (member : Str × Value) (new : Field) : Prop :=
  Addresses toLowercase config.names member.1 i ∧ Converts old member.2 new

/-- What field `i` holds in the end: what the last member that sets it puts there, else what it
held. -/
inductive LastSet (members : List (Str × Value)) (i : ℕ) (old : Field) : Field → Prop where
  | kept (h : ∀ member ∈ members, ∀ new, ¬ Sets toLowercase config i old member new) :
      LastSet members i old old
  | set {before after : List (Str × Value)} {member : Str × Value} {new : Field}
      (hsplit : members = before ++ member :: after)
      (hset : Sets toLowercase config i old member new)
      (hlast : ∀ later ∈ after, ∀ other, ¬ Sets toLowercase config i old later other) :
      LastSet members i old new

/-- The member addresses a field, is not null and does not fit it. -/
def Fails (member : Str × Value) (e : UnmarshalError) : Prop :=
  ∃ i name dst, config.fields[i]? = some (name, dst) ∧
    Addresses toLowercase config.names member.1 i ∧ member.2 ≠ .null ∧
    (∀ new, ¬ Converts dst member.2 new) ∧ e = mismatch dst member.2 config.structName member.1

inductive FirstFailure (members : List (Str × Value)) : Except UnmarshalError Unit → Prop where
  | ok (h : ∀ member ∈ members, ∀ e, ¬ Fails toLowercase config member e) :
      FirstFailure members (.ok ())
  | error {before after : List (Str × Value)} {member : Str × Value} {e : UnmarshalError}
      (hsplit : members = before ++ member :: after) (hfails : Fails toLowercase config member e)
      (hfirst : ∀ earlier ∈ before, ∀ e', ¬ Fails toLowercase config earlier e') :
      FirstFailure members (.error e)

end Spec

/-! The overlay meets it -/

theorem Converts.unique {dst new new' : Field} {value : Value} (h : Converts dst value new)
    (h' : Converts dst value new') : new = new' := by
  cases h with
  | str old s => cases h'; rfl
  | int old hparse =>
    cases h' with
    | int old' hparse' =>
      rw [hparse] at hparse'
      cases hparse'
      rfl
  | bool old b => cases h'; rfl

inductive SameType : Field → Field → Prop where
  | str (a b : Str) : SameType (.str a) (.str b)
  | int (a b : Int64) : SameType (.int a) (.int b)
  | bool (a b : Bool) : SameType (.bool a) (.bool b)

private theorem SameType.refl (f : Field) : SameType f f := by
  cases f <;> constructor

private theorem SameType.converts {dst dst' : Field} (h : SameType dst dst') {value : Value}
    {new : Field} : Converts dst value new ↔ Converts dst' value new := by
  constructor
  · intro hconverts
    cases hconverts <;> cases h <;> constructor
    assumption
  · intro hconverts
    cases hconverts <;> cases h <;> constructor
    assumption

private theorem SameType.trans_converts {dst dst' new : Field} {value : Value}
    (h : SameType dst dst') (hconverts : Converts dst' value new) : SameType dst new := by
  cases hconverts <;> cases h <;> constructor

private theorem SameType.mismatch_eq {dst dst' : Field} (h : SameType dst dst') (value : Value)
    (structName key : Str) :
    mismatch dst value structName key = mismatch dst' value structName key := by
  cases h <;> cases value <;> rfl

private theorem Converts.ne_null {dst new : Field} {value : Value} (h : Converts dst value new) :
    value ≠ .null := by
  rintro rfl
  cases h

private theorem set_spec (dst : Field) (value : Value) (structName key : Str) :
    (∃ new, dst.set value structName key = .ok new ∧ Converts dst value new) ∨
      dst.set value structName key = .error (mismatch dst value structName key) ∧
        ∀ new, ¬ Converts dst value new := by
  cases dst with
  | str old =>
    cases value with
    | string s => exact Or.inl ⟨_, rfl, .str old s⟩
    | _ => exact Or.inr ⟨rfl, fun new h => by cases h⟩
  | int old =>
    cases value with
    | number literal =>
      cases hparse : parseI64 literal with
      | some n =>
        refine Or.inl ⟨.int (Int64.ofInt n), ?_, .int old hparse⟩
        rw [Field.set, hparse]
      | none =>
        refine Or.inr ⟨?_, ?_⟩
        · rw [Field.set, hparse]
          rfl
        · intro new h
          cases h with
          | int old' hparse' =>
            rw [hparse] at hparse'
            cases hparse'
    | _ => exact Or.inr ⟨rfl, fun new h => by cases h⟩
  | bool old =>
    cases value with
    | bool b => exact Or.inl ⟨_, rfl, .bool old b⟩
    | _ => exact Or.inr ⟨rfl, fun new h => by cases h⟩

section Overlay

variable {toLowercase : Char → Str} {config : JsonStruct}

private theorem findField_eq_some_iff {fields : List (Str × Field)}
    (hnodup : (fields.map Prod.fst).Nodup)
    {key : Str} {i : ℕ} : findField toLowercase fields key = some i ↔
      Addresses toLowercase (fields.map Prod.fst) key i := by
  have hmap : ∀ p : Str → Bool,
      fields.findIdx? (fun f => p f.1) = (fields.map Prod.fst).findIdx? p := by
    intro p
    rw [List.findIdx?_map]
    rfl
  rw [findField, hmap fun name => name == key, hmap fun name => goFoldEq toLowercase name key]
  generalize fields.map Prod.fst = names at hnodup
  cases hexact : names.findIdx? fun name => name == key with
  | some j =>
    obtain ⟨hj, hname, -⟩ := List.findIdx?_eq_some_iff_getElem.mp hexact
    rw [beq_iff_eq] at hname
    have hj' : names[j]? = some key := List.getElem?_eq_some_iff.mpr ⟨hj, hname⟩
    constructor
    · intro h
      cases h
      exact .exact hj'
    · intro h
      cases h with
      | exact hi =>
        obtain ⟨hi, hname'⟩ := List.getElem?_eq_some_iff.mp hi
        exact congrArg some ((hnodup.getElem_inj_iff).mp (hname.trans hname'.symm))
      | folded habsent => exact absurd (List.mem_of_getElem? hj') habsent
  | none =>
    have habsent : key ∉ names := by
      intro hmem
      have h := List.findIdx?_eq_none_iff.mp hexact key hmem
      rw [beq_self_eq_true] at h
      cases h
    constructor
    · intro h
      obtain ⟨hi, hfold, hfirst⟩ := List.findIdx?_eq_some_iff_getElem.mp h
      refine .folded habsent (List.getElem?_eq_getElem hi) hfold fun j hj other hother => ?_
      obtain ⟨hj', rfl⟩ := List.getElem?_eq_some_iff.mp hother
      exact Bool.eq_false_iff.mpr (hfirst j hj)
    · intro h
      cases h with
      | exact hi => exact absurd (List.mem_of_getElem? hi) habsent
      | folded habsent hname hfold hfirst =>
        obtain ⟨hi, rfl⟩ := List.getElem?_eq_some_iff.mp hname
        refine List.findIdx?_eq_some_iff_getElem.mpr ⟨hi, hfold, fun j hj => ?_⟩
        exact Bool.eq_false_iff.mp (hfirst j hj _ (List.getElem?_eq_getElem _))

variable {members : List (Str × Value)} {member : Str × Value} {i : ℕ} {old new f : Field}

private theorem LastSet.keep (h : LastSet toLowercase config members i old f)
    (hnot : ∀ new, ¬ Sets toLowercase config i old member new) :
    LastSet toLowercase config (members ++ [member]) i old f := by
  have hmem : ∀ later ∈ [member], ∀ new, ¬ Sets toLowercase config i old later new :=
    fun later hlater => by
      rw [List.mem_singleton.mp hlater]
      exact hnot
  cases h with
  | kept h =>
    refine .kept ?_
    intro m hm
    rcases List.mem_append.mp hm with hm | hm
    · exact h m hm
    · exact hmem m hm
  | @set before after m _ hsplit hset hlast =>
    refine .set (by rw [hsplit, List.append_assoc, List.cons_append]) hset ?_
    intro later hlater
    rcases List.mem_append.mp hlater with hlater | hlater
    · exact hlast later hlater
    · exact hmem later hlater

private theorem LastSet.last (h : Sets toLowercase config i old member new) :
    LastSet toLowercase config (members ++ [member]) i old new :=
  .set rfl h fun _ hlater => absurd hlater List.not_mem_nil

private theorem FirstFailure.keep {r : Except UnmarshalError Unit}
    (h : FirstFailure toLowercase config members r)
    (hnot : ∀ e, ¬ Fails toLowercase config member e) :
    FirstFailure toLowercase config (members ++ [member]) r := by
  cases h with
  | ok h =>
    refine .ok ?_
    intro m hm
    rcases List.mem_append.mp hm with hm | hm
    · exact h m hm
    · rw [List.mem_singleton.mp hm]
      exact hnot
  | error hsplit hfails hfirst =>
    exact .error (by rw [hsplit, List.append_assoc, List.cons_append]) hfails hfirst

private theorem FirstFailure.fail {firstError : Option UnmarshalError} {e : UnmarshalError}
    (h : FirstFailure toLowercase config members (resultOf firstError))
    (hfails : Fails toLowercase config member e) :
    FirstFailure toLowercase config (members ++ [member])
      (resultOf (firstError.or (some e))) := by
  cases firstError with
  | none =>
    cases h with
    | ok h => exact .error rfl hfails h
  | some first =>
    cases h with
    | error hsplit hfails' hfirst =>
      exact .error (by rw [hsplit, List.append_assoc, List.cons_append]) hfails' hfirst

variable (toLowercase config) in
/-- The fields and the error behind the first `members` of the document. -/
structure Overlaid (members : List (Str × Value)) (fields : List (Str × Field))
    (firstError : Option UnmarshalError) : Prop where
  names : fields.map Prod.fst = config.names
  holds : ∀ i name old, config.fields[i]? = some (name, old) → ∃ f, fields[i]? = some (name, f) ∧
    SameType old f ∧ LastSet toLowercase config members i old f
  error : FirstFailure toLowercase config members (resultOf firstError)

variable {fields : List (Str × Field)} {firstError : Option UnmarshalError} {key : Str}
  {value : Value}

private theorem Overlaid.skip (h : Overlaid toLowercase config members fields firstError)
    (hsets : ∀ i old new, config.fields[i]? = some old →
      ¬ Sets toLowercase config i old.2 member new)
    (hfails : ∀ e, ¬ Fails toLowercase config member e) :
    Overlaid toLowercase config (members ++ [member]) fields firstError := by
  refine ⟨h.names, ?_, h.error.keep hfails⟩
  intro i name old hold
  obtain ⟨f, hf, htype, hlast⟩ := h.holds i name old hold
  exact ⟨f, hf, htype, hlast.keep fun new => hsets i (name, old) new hold⟩

private theorem Addresses.field (h : Addresses toLowercase config.names key i) :
    ∃ name old, config.fields[i]? = some (name, old) := by
  have hname : ∃ name, config.names[i]? = some name := by
    cases h with
    | exact hname => exact ⟨_, hname⟩
    | folded _ hname => exact ⟨_, hname⟩
  obtain ⟨name, hname⟩ := hname
  rw [JsonStruct.names, List.getElem?_map] at hname
  obtain ⟨p, hp, -⟩ := Option.map_eq_some_iff.mp hname
  exact ⟨p.1, p.2, hp⟩

private theorem decodeMember_eq (hfind : findField toLowercase fields key = some i)
    (hne : value ≠ .null) {name : Str} (hf : fields[i]? = some (name, f)) :
    decodeMember toLowercase config.structName fields firstError key value =
      match f.set value config.structName key with
      | .ok dst => some (fields.set i (name, dst), firstError)
      | .error e => some (fields, firstError.or (some e)) := by
  cases value with
  | null => exact absurd rfl hne
  | _ =>
    unfold decodeMember
    rw [hfind]
    dsimp only
    rw [hf]
    rfl

private theorem set_self {α : Type*} {l : List α} {a : α} (h : l[i]? = some a) : l.set i a = l := by
  obtain ⟨hi, rfl⟩ := List.getElem?_eq_some_iff.mp h
  exact List.set_getElem_self hi

private theorem Overlaid.decodeMember (hnodup : config.names.Nodup)
    (h : Overlaid toLowercase config members fields firstError) :
    ∃ fields' firstError',
      decodeMember toLowercase config.structName fields firstError key value =
        some (fields', firstError') ∧
      Overlaid toLowercase config (members ++ [(key, value)]) fields' firstError' := by
  have hfinds : ∀ i, findField toLowercase fields key = some i ↔
      Addresses toLowercase config.names key i := by
    intro i
    rw [← h.names]
    exact findField_eq_some_iff (by rw [h.names]; exact hnodup)
  cases hfind : findField toLowercase fields key with
  | none =>
    have hnot : ∀ i, ¬ Addresses toLowercase config.names key i := by
      intro i haddr
      rw [← hfinds, hfind] at haddr
      cases haddr
    refine ⟨fields, firstError, ?_, h.skip (fun i old new _ hsets => hnot i hsets.1) ?_⟩
    · unfold GoJson.decodeMember
      rw [hfind]
    · rintro e ⟨i, -, -, -, haddr, -⟩
      exact hnot i haddr
  | some index =>
    by_cases hnull : value = .null
    · subst hnull
      refine ⟨fields, firstError, ?_, h.skip (fun i old new _ hsets => hsets.2.ne_null rfl) ?_⟩
      · unfold GoJson.decodeMember
        rw [hfind]
      · rintro e ⟨i, -, -, -, -, hne, -⟩
        exact hne rfl
    have haddr := (hfinds index).mp hfind
    have hunique : ∀ i, Addresses toLowercase config.names key i → i = index := by
      intro i hi
      rw [← hfinds, hfind] at hi
      exact (Option.some.inj hi).symm
    obtain ⟨name, old, hold⟩ := haddr.field
    obtain ⟨f, hf, htype, hlast⟩ := h.holds index name old hold
    rw [decodeMember_eq hfind hnull hf]
    rcases set_spec f value config.structName key with ⟨new, hset, hconverts⟩ | ⟨hset, hmisfit⟩
    · -- the member sets the field: every other field keeps what it holds
      rw [hset]
      refine ⟨_, _, rfl, ?_, ?_, h.error.keep ?_⟩
      · have hname : (fields.map Prod.fst)[index]? = some name := by rw [List.getElem?_map, hf]; rfl
        rw [List.map_set, set_self hname, h.names]
      · intro i name' old' hold'
        obtain ⟨f', hf', htype', hlast'⟩ := h.holds i name' old' hold'
        by_cases hi : i = index
        · subst hi
          rw [hold] at hold'
          cases hold'
          refine ⟨new, ?_, htype.trans_converts hconverts, .last ⟨haddr, htype.converts.mpr ?_⟩⟩
          · rw [List.getElem?_set_self (List.getElem?_eq_some_iff.mp hf).1]
          · exact hconverts
        · refine ⟨f', ?_, htype', hlast'.keep fun other hsets => hi (hunique i hsets.1)⟩
          rw [List.getElem?_set_ne fun h => hi h.symm]
          exact hf'
      · rintro e ⟨i, name', dst, hdst, haddr', -, hmisfit, -⟩
        obtain rfl := hunique i haddr'
        rw [hold] at hdst
        cases hdst
        exact hmisfit new (htype.converts.mpr hconverts)
    · -- it does not fit: no field changes
      rw [hset]
      refine ⟨_, _, rfl, h.names, ?_, h.error.fail ?_⟩
      · intro i name' old' hold'
        obtain ⟨f', hf', htype', hlast'⟩ := h.holds i name' old' hold'
        refine ⟨f', hf', htype', hlast'.keep ?_⟩
        intro other hsets
        obtain rfl := hunique i hsets.1
        rw [hold] at hold'
        cases hold'
        exact hmisfit other (htype.converts.mp hsets.2)
      · exact ⟨index, name, old, hold, haddr, hnull,
          fun other hconverts => hmisfit other (htype.converts.mp hconverts),
          (htype.mismatch_eq value config.structName key).symm⟩

private theorem decodeMembers_append (structName : Str) (front back : List (Str × Value)) :
    decodeMembers toLowercase structName fields firstError (front ++ back) =
      (decodeMembers toLowercase structName fields firstError front).bind fun s =>
        decodeMembers toLowercase structName s.1 s.2 back := by
  induction front generalizing fields firstError with
  | nil => rfl
  | cons m front ih =>
    rw [List.cons_append, decodeMembers, decodeMembers]
    cases decodeMember toLowercase structName fields firstError m.1 m.2 with
    | none => rfl
    | some s => exact ih

private theorem findField_lt {key : Str} {i : ℕ} (h : findField toLowercase fields key = some i) :
    i < fields.length := by
  rw [findField] at h
  cases hexact : fields.findIdx? fun f => f.1 == key with
  | some j =>
    rw [hexact] at h
    cases h
    exact (List.findIdx?_eq_some_iff_getElem.mp hexact).1
  | none =>
    rw [hexact] at h
    exact (List.findIdx?_eq_some_iff_getElem.mp h).1

private theorem decodeMember_total (structName : Str) (key : Str) (value : Value) :
    ∃ s, decodeMember toLowercase structName fields firstError key value = some s := by
  unfold decodeMember
  cases hfind : findField toLowercase fields key with
  | none => exact ⟨_, rfl⟩
  | some i =>
    obtain ⟨f, hf⟩ : ∃ f, fields[i]? = some f :=
      ⟨_, List.getElem?_eq_getElem (findField_lt hfind)⟩
    cases value with
    | null => exact ⟨_, rfl⟩
    | _ =>
      dsimp only
      rw [hf, Option.bind_eq_bind, Option.bind_some]
      generalize Field.set f.2 _ structName key = r
      cases r <;> exact ⟨_, rfl⟩

theorem decodeStruct_total (value : Value) :
    ∃ config' result, decodeStruct toLowercase config value = some (config', result) := by
  cases value with
  | object members =>
    have hrun : ∀ fields firstError, ∃ s,
        decodeMembers toLowercase config.structName fields firstError members = some s := by
      induction members with
      | nil => exact fun fields firstError => ⟨_, rfl⟩
      | cons m members ih =>
        intro fields firstError
        obtain ⟨s, hs⟩ :=
          @decodeMember_total toLowercase fields firstError config.structName m.1 m.2
        rw [decodeMembers, hs]
        exact ih s.1 s.2
    obtain ⟨s, hs⟩ := hrun config.fields none
    rw [decodeStruct, hs]
    exact ⟨_, _, rfl⟩
  | _ => exact ⟨_, _, rfl⟩

private theorem overlaid_decodeMembers (hnodup : config.names.Nodup)
    (members : List (Str × Value)) : ∃ fields' firstError',
      decodeMembers toLowercase config.structName config.fields none members =
        some (fields', firstError') ∧
      Overlaid toLowercase config members fields' firstError' := by
  induction members using List.reverseRecOn with
  | nil =>
    refine ⟨_, _, rfl, rfl, ?_, .ok fun _ hmem => absurd hmem List.not_mem_nil⟩
    intro i name old hold
    exact ⟨old, hold, .refl old, .kept fun _ hmem => absurd hmem List.not_mem_nil⟩
  | append_singleton members member ih =>
    obtain ⟨fields, firstError, hrun, hover⟩ := ih
    obtain ⟨fields', firstError', hstep, hover'⟩ :=
      @Overlaid.decodeMember toLowercase config members fields firstError member.1 member.2 hnodup
        hover
    refine ⟨fields', firstError', ?_, hover'⟩
    rw [decodeMembers_append, hrun, Option.bind_some, decodeMembers, hstep]
    rfl

/-- Laying a JSON object over a configuration struct with distinct field names never fails to run;
each field then holds what the last member that addresses it and fits it says, or what it held, and
the result is the error of the first member that addresses a field, is not null and does not fit. -/
theorem decodeStruct_exact (hnodup : config.names.Nodup) (members : List (Str × Value)) :
    ∃ config' result,
      decodeStruct toLowercase config (.object members) = some (config', result) ∧
      config'.names = config.names ∧
      (∀ i name old, config.fields[i]? = some (name, old) →
        ∃ f, config'.fields[i]? = some (name, f) ∧
          LastSet toLowercase config members i old f) ∧
      FirstFailure toLowercase config members result := by
  obtain ⟨fields, firstError, hrun, hover⟩ := overlaid_decodeMembers hnodup members
  refine ⟨{ config with fields }, resultOf firstError, ?_, hover.names, ?_, hover.error⟩
  · rw [decodeStruct, hrun]
    rfl
  · intro i name old hold
    obtain ⟨f, hf, -, hlast⟩ := hover.holds i name old hold
    exact ⟨f, hf, hlast⟩

end Overlay

def sample : JsonStruct :=
  ⟨"Config".toList, "main.Config".toList, [("mtu".toList, .int 1350), ("key".toList, .str [])]⟩

/-- The mtu in another case, a null, a key of the wrong type, and an mtu of the wrong type. -/
def sampleMembers : List (Str × Value) :=
  [("MTU".toList, .number "900".toList), ("mtu".toList, .null), ("key".toList, .bool true),
    ("Mtu".toList, .string "x".toList)]

theorem decodeStruct_exact_mtu : ∃ config' result,
    decodeStruct (fun c => [c.toLower]) sample (.object sampleMembers) = some (config', result) ∧
    config'.fields = [("mtu".toList, .int 900), ("key".toList, .str [])] ∧
    LastSet (fun c => [c.toLower]) sample sampleMembers 0 (.int 1350) (.int 900) ∧
    LastSet (fun c => [c.toLower]) sample sampleMembers 1 (.str []) (.str []) ∧
    result = .error (.field "bool".toList "Config".toList "key".toList "string".toList) ∧
    FirstFailure (fun c => [c.toLower]) sample sampleMembers result := by
  obtain ⟨config', result, hrun, -, hfields, hfailure⟩ :=
    @decodeStruct_exact (fun c => [c.toLower]) sample (by decide) sampleMembers
  have hval : decodeStruct (fun c => [c.toLower]) sample (.object sampleMembers) =
      some ({ sample with fields := [("mtu".toList, .int 900), ("key".toList, .str [])] },
        .error (.field "bool".toList "Config".toList "key".toList "string".toList)) := by
    rfl
  obtain ⟨hconfig, hresult⟩ := Prod.mk.inj (Option.some.inj (hrun.symm.trans hval))
  obtain ⟨mtu, hmtu, hset⟩ := hfields 0 _ (.int 1350) rfl
  obtain ⟨key, hkey, hkept⟩ := hfields 1 _ (.str []) rfl
  rw [hconfig] at hmtu hkey
  cases hmtu
  cases hkey
  exact ⟨config', result, hrun, congrArg JsonStruct.fields hconfig, hset, hkept, hresult, hfailure⟩

end Kcptun.Setup.GoJson
