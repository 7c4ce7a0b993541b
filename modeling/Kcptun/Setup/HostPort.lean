/- Kcptun/Setup/HostPort
   source: crates/std/src/goaddr.rs, crates/kcp/src/addr.rs, crates/tcpraw/src/addr.rs
     (split_host_port), crates/kcp/src/addr.rs (Display for UdpAddr)
   digest: The splitter of addresses on bytes and its two copies on characters do the same; they
     accept what is written as host and port, and so every address that is displayed. -/

import Kcptun.Lib.Io
import Kcptun.Lib.Utf8
import Mathlib.Data.Nat.Digits.Lemmas

set_option autoImplicit false
set_option relaxedAutoImplicit false

namespace Kcptun.Setup.HostPort

open Kcptun.Lib.Utf8
open Kcptun.Lib.LittleEndian (Bytes)

def MISSING_PORT : String := "missing port in address"
def TOO_MANY_COLONS : String := "too many colons in address"
def MISSING_BRACKET : String := "missing ']' in address"
def UNEXPECTED_OPEN : String := "unexpected '[' in address"
def UNEXPECTED_CLOSE : String := "unexpected ']' in address"

/-- Host, and the places from which no bracket may follow. -/
structure HostPart where
  host : Str
  j : ℕ
  k : ℕ

/-- No result of a computation is a panic: an index or a slice out of range, or a slice that cuts a
character. -/
abbrev Checked (α : Type) := Option (Except String α)

def andThen {α β : Type} (part : Checked α) (next : α → Checked β) : Checked β :=
  part.bind fun
    | .error why => some (.error why)
    | .ok a => next a

section Std

structure AddrError where
  addr : Str
  err : String
  deriving DecidableEq

def AddrError.message (e : AddrError) : String :=
  if e.addr = [] then e.err else "address " ++ String.ofList e.addr ++ ": " ++ e.err

/-- The host of an address whose last colon is at `i`, among its bytes. -/
def hostPartBytes (hostport : Str) (i : ℕ) : Checked HostPart :=
  (utf8 hostport)[0]?.bind fun first =>
  if first = asciiByte '[' then
    match indexByte (utf8 hostport) (asciiByte ']') with
    | none => some (.error MISSING_BRACKET)
    | some last =>
      if last + 1 = size hostport then some (.error MISSING_PORT)
      else if last + 1 = i then
        (slice hostport 1 last).map fun host => .ok ⟨host, 1, last + 1⟩
      else
        (utf8 hostport)[last + 1]?.map fun next =>
          if next = asciiByte ':' then .error TOO_MANY_COLONS else .error MISSING_PORT
  else
    (slice hostport 0 i).map fun host =>
      if (indexByte (utf8 host) (asciiByte ':')).isSome then .error TOO_MANY_COLONS
      else .ok ⟨host, 0, 0⟩

def bytesFrom (bytes : Bytes) (i : ℕ) : Option Bytes :=
  if i ≤ bytes.length then some (bytes.drop i) else none

def noBracketBytes (hostport : Str) (part : HostPart) : Checked Unit :=
  (bytesFrom (utf8 hostport) part.j).bind fun behind =>
  if (indexByte behind (asciiByte '[')).isSome then some (.error UNEXPECTED_OPEN)
  else (bytesFrom (utf8 hostport) part.k).map fun behind =>
    if (indexByte behind (asciiByte ']')).isSome then .error UNEXPECTED_CLOSE else .ok ()

/-- Host and port, or the reason why there are none. -/
def splitBytes (hostport : Str) : Checked (Str × Str) :=
  match lastIndexByte (utf8 hostport) (asciiByte ':') with
  | none => some (.error MISSING_PORT)
  | some i =>
    andThen (hostPartBytes hostport i) fun part =>
    andThen (noBracketBytes hostport part) fun _ =>
    (sliceFrom hostport (i + 1)).map fun port => .ok (part.host, port)

def splitHostPort (hostport : Str) : Option (Except AddrError (Str × Str)) :=
  (splitBytes hostport).map (Except.mapError fun why => ⟨hostport, why⟩)

end Std

section Copies

abbrev IoError := Kcptun.Lib.IoError Empty

/-- The host of an address whose last colon is at `i`, among its characters. -/
def hostPartChars (hostport : Str) (i : ℕ) : Checked HostPart :=
  if hostport.head? = some '[' then
    match find ']' hostport with
    | none => some (.error MISSING_BRACKET)
    | some last =>
      if last + 1 = size hostport then some (.error MISSING_PORT)
      else if last + 1 ≠ i then
        (utf8 hostport)[last + 1]?.map fun next =>
          if next = asciiByte ':' then .error TOO_MANY_COLONS else .error MISSING_PORT
      else (slice hostport 1 last).map fun host => .ok ⟨host, 1, last + 1⟩
  else
    (slice hostport 0 i).map fun host =>
      if ':' ∈ host then .error TOO_MANY_COLONS else .ok ⟨host, 0, 0⟩

def noBracketChars (hostport : Str) (part : HostPart) : Checked Unit :=
  (sliceFrom hostport part.j).bind fun behind =>
  if '[' ∈ behind then some (.error UNEXPECTED_OPEN)
  else (sliceFrom hostport part.k).map fun behind =>
    if ']' ∈ behind then .error UNEXPECTED_CLOSE else .ok ()

def splitChars (hostport : Str) : Checked (Str × Str) :=
  match rfind ':' hostport with
  | none => some (.error MISSING_PORT)
  | some i =>
    andThen (hostPartChars hostport i) fun part =>
    andThen (noBracketChars hostport part) fun _ =>
    (sliceFrom hostport (i + 1)).map fun port => .ok (part.host, port)

/-- The splitter on characters; `err` wraps its reasons. -/
def splitWith {ε : Type} (err : Str → String → ε) (hostport : Str) :
    Option (Except ε (Str × Str)) :=
  (splitChars hostport).map (Except.mapError (err hostport))

namespace Kcp

def addrError (addr : Str) (err : String) : IoError :=
  .new .invalidInput ("address " ++ String.ofList addr ++ ": " ++ err)

def splitHostPort (hostport : Str) : Option (Except IoError (Str × Str)) :=
  splitWith addrError hostport

end Kcp

namespace Tcpraw

def addrError (addr : Str) (err : String) : IoError :=
  .new .invalidInput ("address " ++ String.ofList addr ++ ": " ++ err)

def splitHostPort (hostport : Str) : Option (Except IoError (Str × Str)) :=
  splitWith addrError hostport

end Tcpraw

/-- The copies fail with the text that `AddrError` displays, but for the empty address, which they
name all the same. -/
theorem addrError_eq_iff (addr : Str) (err : String) :
    Kcp.addrError addr err = .new .invalidInput (AddrError.message ⟨addr, err⟩) ↔ addr ≠ [] := by
  unfold Kcp.addrError AddrError.message
  constructor
  · rintro h rfl
    have htext := congrArg String.length (Kcptun.Lib.IoError.new.inj h).2
    rw [if_pos rfl, String.length_append, String.length_append, String.length_append] at htext
    have hname : "address ".length = 8 := rfl
    dsimp only at htext
    omega
  · intro hne
    rw [if_neg hne]

end Copies

/-- `host:port` without brackets. -/
structure Plain (hostport host port : Str) : Prop where
  split : hostport = host ++ ':' :: port
  host_colon : ':' ∉ host
  port_colon : ':' ∉ port
  host_bracket : '[' ∉ host ∧ ']' ∉ host
  port_bracket : '[' ∉ port ∧ ']' ∉ port

/-- `[host]:port`. -/
structure Bracketed (hostport host port : Str) : Prop where
  split : hostport = '[' :: host ++ ']' :: ':' :: port
  port_colon : ':' ∉ port
  host_bracket : '[' ∉ host ∧ ']' ∉ host
  port_bracket : '[' ∉ port ∧ ']' ∉ port

example : splitChars ['[', 'f', ':', ']', ':', '8'] = some (.ok (['f', ':'], ['8'])) := by
  decide

section Agreement

variable {hostport : Str}

private theorem size_bracketed (host : Str) : size ('[' :: host ++ [']']) = size host + 2 := by
  have hopen : size ['['] = 1 := size_singleton (by decide)
  have hclose : size [']'] = 1 := size_singleton (by decide)
  have hsize := size_append ['['] (host ++ [']'])
  rw [size_append host, hopen, hclose] at hsize
  exact hsize.trans (by omega)

private theorem exists_bracketed {t : Str} (h : ']' ∈ '[' :: t) :
    ∃ host rest, '[' :: t = '[' :: host ++ ']' :: rest ∧ ']' ∉ host := by
  obtain ⟨front, rest, hsplit, hfront⟩ := exists_first h
  cases front with
  | nil => exact absurd (List.cons.inj hsplit).1 (by decide)
  | cons c host =>
    obtain rfl : '[' = c := (List.cons.inj hsplit).1
    exact ⟨host, rest, hsplit, fun hmem => hfront (List.mem_cons_of_mem _ hmem)⟩

private theorem bytesFrom_append (front back : Str) :
    bytesFrom (utf8 (front ++ back)) (size front) = some (utf8 back) := by
  rw [bytesFrom, utf8_append, List.length_append, size, if_pos (Nat.le_add_right _ _),
    List.drop_left]

private theorem isSome_indexByte {c : Char} (h : c.toNat < 128) (s : Str) :
    (indexByte (utf8 s) (asciiByte c)).isSome ↔ c ∈ s := by
  rw [indexByte_utf8 h]
  constructor
  · intro hsome
    by_contra hmem
    rw [find_none hmem] at hsome
    cases hsome
  · intro hmem
    obtain ⟨front, back, rfl, hfront⟩ := exists_first hmem
    rw [find_append hfront]
    rfl

private theorem hostPart_eq (h : hostport ≠ []) (i : ℕ) :
    hostPartBytes hostport i = hostPartChars hostport i := by
  obtain ⟨c, s, rfl⟩ := List.exists_cons_of_ne_nil h
  obtain ⟨b, hb, hfirst⟩ := getElem?_utf8 (c := '[') [] c s
  rw [size_nil, List.nil_append] at hb
  have hiff : b = asciiByte '[' ↔ (c :: s).head? = some '[' := by
    rw [hfirst (by decide), List.head?_cons, Option.some.injEq]
  unfold hostPartBytes hostPartChars
  rw [hb, Option.bind_some, indexByte_utf8 (by decide)]
  simp only [hiff, isSome_indexByte (c := ':') (by decide), ite_not]

def Between (hostport : Str) (part : HostPart) : Prop :=
  (∃ front back, hostport = front ++ back ∧ size front = part.j) ∧
    ∃ front back, hostport = front ++ back ∧ size front = part.k

private theorem noBracket_eq {part : HostPart} (h : Between hostport part) :
    noBracketBytes hostport part = noBracketChars hostport part := by
  obtain ⟨⟨front, back, hsplit, hj⟩, front', back', hsplit', hk⟩ := h
  unfold noBracketBytes noBracketChars
  have hbytes : bytesFrom (utf8 hostport) part.j = some (utf8 back) := by
    rw [hsplit, ← hj, bytesFrom_append]
  have hbytes' : bytesFrom (utf8 hostport) part.k = some (utf8 back') := by
    rw [hsplit', ← hk, bytesFrom_append]
  have hchars : sliceFrom hostport part.j = some back := by
    rw [hsplit, ← hj, sliceFrom_append]
  have hchars' : sliceFrom hostport part.k = some back' := by
    rw [hsplit', ← hk, sliceFrom_append]
  rw [hbytes, hbytes', hchars, hchars']
  simp only [Option.bind_some, Option.map_some, isSome_indexByte (c := '[') (by decide),
    isSome_indexByte (c := ']') (by decide)]

end Agreement

section Outcome

variable {hostport host port pre rest : Str}

private theorem hostPartChars_plain (h : hostport.head? ≠ some '[')
    (hsplit : hostport = pre ++ ':' :: port) : hostPartChars hostport (size pre) =
      some (if ':' ∈ pre then .error TOO_MANY_COLONS else .ok ⟨pre, 0, 0⟩) := by
  have hslice := slice_append [] pre (':' :: port)
  rw [List.nil_append, size_nil, Nat.zero_add, ← hsplit] at hslice
  rw [hostPartChars, if_neg h, hslice]
  rfl

private theorem hostPartChars_bracket (hsplit : hostport = '[' :: host ++ ']' :: rest)
    (h : ']' ∉ host) (i : ℕ) : hostPartChars hostport i = some (
      if rest = [] then .error MISSING_PORT
      else if i = size host + 2 then .ok ⟨host, 1, size host + 2⟩
      else if rest.head? = some ':' then .error TOO_MANY_COLONS
      else .error MISSING_PORT) := by
  have hopen : size ['['] = 1 := size_singleton (by decide)
  have hclose : size [']'] = 1 := size_singleton (by decide)
  have hfront : size ('[' :: host) = size host + 1 := by
    have := size_append ['['] host
    rw [hopen] at this
    exact this.trans (Nat.add_comm _ _)
  have hsize : size hostport = size host + 2 + size rest := by
    have := size_append [']'] rest
    rw [hsplit, size_append, hfront]
    change _ + size ([']'] ++ rest) = _
    omega
  have hfind : find ']' hostport = some (size host + 1) := by
    rw [hsplit, find_append, hfront]
    rintro (_ | ⟨_, hmem⟩)
    exact h hmem
  have hslice : slice hostport 1 (size host + 1) = some host := by
    have := slice_append ['['] host (']' :: rest)
    rw [hopen, Nat.add_comm] at this
    rw [hsplit]
    exact this
  have hhead : hostport.head? = some '[' := by rw [hsplit]; rfl
  rw [hostPartChars, if_pos hhead, hfind, hsize]
  dsimp only
  rcases rest with _ | ⟨c, rest⟩
  · rw [size_nil, if_pos rfl, if_pos rfl]
  · have hpos : 0 < size (c :: rest) := by
      have := Char.utf8Size_pos c
      rw [size_cons]
      omega
    rw [if_neg (by omega), if_neg (List.cons_ne_nil _ _)]
    by_cases hi : i = size host + 2
    · rw [if_neg (by omega), if_pos hi, hslice]
      rfl
    · obtain ⟨b, hb, hnext⟩ := getElem?_utf8 (c := ':') ('[' :: host ++ [']']) c rest
      have hplace : size ('[' :: host ++ [']']) = size host + 1 + 1 := by
        rw [size_append, hfront, hclose]
      have hbyte : (utf8 hostport)[size host + 1 + 1]? = some b := by
        rw [← hplace, ← hb, hsplit]
        simp
      rw [if_pos (by omega), if_neg hi, hbyte, Option.map_some]
      simp only [hnext (by decide), List.head?_cons, Option.some.injEq]

private theorem noBracketChars_eq {part : HostPart} {front back front' back' : Str}
    (hj : hostport = front ++ back) (hfront : size front = part.j)
    (hk : hostport = front' ++ back') (hfront' : size front' = part.k) :
    noBracketChars hostport part = some (if '[' ∈ back then .error UNEXPECTED_OPEN
      else if ']' ∈ back' then .error UNEXPECTED_CLOSE else .ok ()) := by
  have hbehind : sliceFrom hostport part.j = some back := by rw [hj, ← hfront, sliceFrom_append]
  have hbehind' : sliceFrom hostport part.k = some back' := by
    rw [hk, ← hfront', sliceFrom_append]
  rw [noBracketChars, hbehind, hbehind', Option.bind_some, Option.map_some]
  split_ifs <;> rfl

private theorem sliceFrom_port (hsplit : hostport = pre ++ ':' :: port) :
    sliceFrom hostport (size pre + 1) = some port := by
  have hplace : size (pre ++ [':']) = size pre + 1 := by
    rw [size_append, size_singleton (by decide)]
  have hslice := sliceFrom_append (pre ++ [':']) port
  rw [hplace, List.append_assoc] at hslice
  rw [hsplit]
  exact hslice

private theorem splitChars_plain
    (h : hostport.head? ≠ some '[') (hsplit : hostport = pre ++ ':' :: port)
    (hport : ':' ∉ port) : splitChars hostport = some (
      if ':' ∈ pre then .error TOO_MANY_COLONS
      else if '[' ∈ hostport then .error UNEXPECTED_OPEN
      else if ']' ∈ hostport then .error UNEXPECTED_CLOSE
      else .ok (pre, port)) := by
  have hrfind : rfind ':' hostport = some (size pre) := by rw [hsplit, rfind_append hport]
  have hbrackets : noBracketChars hostport ⟨pre, 0, 0⟩ = _ :=
    @noBracketChars_eq hostport ⟨pre, 0, 0⟩ [] hostport [] hostport rfl rfl rfl rfl
  rw [splitChars, hrfind]
  dsimp only
  rw [hostPartChars_plain h hsplit]
  by_cases hcolon : ':' ∈ pre
  · rw [if_pos hcolon, if_pos hcolon]
    rfl
  rw [if_neg hcolon, if_neg hcolon]
  change andThen (noBracketChars hostport ⟨pre, 0, 0⟩) _ = _
  rw [hbrackets, sliceFrom_port hsplit]
  split_ifs <;> rfl

private theorem splitChars_bracket (hsplit : hostport = '[' :: host ++ ']' :: ':' :: port)
    (hhost : ']' ∉ host) (hport : ':' ∉ port) : splitChars hostport = some (
      if '[' ∈ host ++ ']' :: ':' :: port then .error UNEXPECTED_OPEN
      else if ']' ∈ ':' :: port then .error UNEXPECTED_CLOSE
      else .ok (host, port)) := by
  have hsplit' : hostport = ('[' :: host ++ [']']) ++ ':' :: port := by rw [hsplit]; simp
  have hplace := size_bracketed host
  have hrfind : rfind ':' hostport = some (size host + 2) := by
    rw [hsplit', rfind_append hport, hplace]
  have hbrackets : noBracketChars hostport ⟨host, 1, size host + 2⟩ = _ :=
    @noBracketChars_eq hostport ⟨host, 1, size host + 2⟩ ['['] (host ++ ']' :: ':' :: port) _ _
      hsplit (size_singleton (by decide)) hsplit' hplace
  have hslice := sliceFrom_port hsplit'
  rw [hplace] at hslice
  rw [splitChars, hrfind]
  dsimp only
  rw [hostPartChars_bracket hsplit hhost, if_neg (List.cons_ne_nil _ _), if_pos rfl]
  change andThen (noBracketChars hostport ⟨host, 1, size host + 2⟩) _ = _
  rw [hbrackets, hslice]
  split_ifs <;> rfl

private theorem splitChars_noPort (hsplit : hostport = '[' :: host ++ ']' :: rest)
    (hhost : ']' ∉ host) (hrest : ∀ port, rest = ':' :: port → ':' ∈ port) :
    ∃ why, splitChars hostport = some (.error why) := by
  rw [splitChars]
  by_cases hcolon : ':' ∈ hostport
  · obtain ⟨pre, port, hpre, hport⟩ := exists_last hcolon
    have hrfind : rfind ':' hostport = some (size pre) := by rw [hpre, rfind_append hport]
    have hplace := size_bracketed host
    have hne : size pre ≠ size host + 2 := by
      intro heq
      have happend : pre ++ ':' :: port = ('[' :: host ++ [']']) ++ rest := by
        rw [← hpre, hsplit]
        simp
      exact hport (hrest port (append_inj_of_size happend (heq.trans hplace.symm)).2.symm)
    rw [hrfind]
    dsimp only
    rw [hostPartChars_bracket hsplit hhost, if_neg hne]
    split_ifs
    · exact ⟨_, rfl⟩
    · exact ⟨_, rfl⟩
    · exact ⟨_, rfl⟩
  · rw [rfind_none hcolon]
    exact ⟨_, rfl⟩

private theorem splitChars_of_plain (h : Plain hostport host port) :
    splitChars hostport = some (.ok (host, port)) := by
  have hopen : '[' ∉ hostport := by
    rw [h.split, List.mem_append, List.mem_cons]
    rintro (hmem | heq | hmem)
    · exact h.host_bracket.1 hmem
    · exact absurd heq (by decide)
    · exact h.port_bracket.1 hmem
  have hclose : ']' ∉ hostport := by
    rw [h.split, List.mem_append, List.mem_cons]
    rintro (hmem | heq | hmem)
    · exact h.host_bracket.2 hmem
    · exact absurd heq (by decide)
    · exact h.port_bracket.2 hmem
  have hhead : hostport.head? ≠ some '[' := fun heq => hopen (List.mem_of_mem_head? heq)
  rw [splitChars_plain hhead h.split h.port_colon, if_neg h.host_colon, if_neg hopen, if_neg hclose]

private theorem splitChars_of_bracketed (h : Bracketed hostport host port) :
    splitChars hostport = some (.ok (host, port)) := by
  have hopen : '[' ∉ host ++ ']' :: ':' :: port := by
    simp only [List.mem_append, List.mem_cons]
    rintro (hmem | heq | heq | hmem)
    · exact h.host_bracket.1 hmem
    · exact absurd heq (by decide)
    · exact absurd heq (by decide)
    · exact h.port_bracket.1 hmem
  have hclose : ']' ∉ ':' :: port := by
    rw [List.mem_cons]
    rintro (heq | hmem)
    · exact absurd heq (by decide)
    · exact h.port_bracket.2 hmem
  rw [splitChars_bracket h.split h.host_bracket.2 h.port_colon, if_neg hopen, if_neg hclose]

private theorem splitChars_total (hostport : Str) : ∃ r, splitChars hostport = some r ∧
    ∀ host port, r = .ok (host, port) →
      Plain hostport host port ∨ Bracketed hostport host port := by
  by_cases hhead : hostport.head? = some '['
  · obtain ⟨t, rfl⟩ : ∃ t, hostport = '[' :: t := List.head?_eq_some_iff.mp hhead
    by_cases hclose : ']' ∈ '[' :: t
    · obtain ⟨host, rest, hsplit, hhost⟩ := exists_bracketed hclose
      by_cases hport : ∃ port, rest = ':' :: port ∧ ':' ∉ port
      · obtain ⟨port, rfl, hport⟩ := hport
        refine ⟨_, splitChars_bracket hsplit hhost hport, fun host' port' heq => .inr ?_⟩
        split_ifs at heq with hopen hclose'
        obtain ⟨rfl, rfl⟩ := Prod.mk.inj (Except.ok.inj heq)
        simp only [List.mem_append, List.mem_cons, not_or] at hopen hclose'
        exact ⟨hsplit, hport, ⟨hopen.1, hhost⟩, hopen.2.2.2, hclose'.2⟩
      · push Not at hport
        obtain ⟨why, hwhy⟩ := splitChars_noPort hsplit hhost hport
        exact ⟨_, hwhy, fun _ _ heq => by cases heq⟩
    · rw [splitChars]
      by_cases hcolon : ':' ∈ '[' :: t
      · obtain ⟨pre, port, hpre, hport⟩ := exists_last hcolon
        have hrfind : rfind ':' ('[' :: t) = some (size pre) := by rw [hpre, rfind_append hport]
        refine ⟨.error MISSING_BRACKET, ?_, fun _ _ heq => by cases heq⟩
        rw [hrfind]
        dsimp only
        rw [hostPartChars, if_pos hhead, find_none hclose]
        rfl
      · rw [rfind_none hcolon]
        exact ⟨_, rfl, fun _ _ heq => by cases heq⟩
  · by_cases hcolon : ':' ∈ hostport
    · obtain ⟨pre, port, hpre, hport⟩ := exists_last hcolon
      refine ⟨_, splitChars_plain hhead hpre hport, fun host' port' heq => .inl ?_⟩
      split_ifs at heq with hpreColon hopen hclose
      obtain ⟨rfl, rfl⟩ := Prod.mk.inj (Except.ok.inj heq)
      rw [hpre] at hopen hclose
      simp only [List.mem_append, List.mem_cons, not_or] at hopen hclose
      exact ⟨hpre, hpreColon, hport, ⟨hopen.1, hclose.1⟩, hopen.2.2, hclose.2.2⟩
    · rw [splitChars, rfind_none hcolon]
      exact ⟨_, rfl, fun _ _ heq => by cases heq⟩

private theorem between_of_hostPart {part : HostPart} {i : ℕ}
    (h : hostPartChars hostport i = some (.ok part)) : Between hostport part := by
  by_cases hhead : hostport.head? = some '['
  · obtain ⟨t, rfl⟩ : ∃ t, hostport = '[' :: t := List.head?_eq_some_iff.mp hhead
    by_cases hclose : ']' ∈ '[' :: t
    · obtain ⟨host, rest, hsplit, hhost⟩ := exists_bracketed hclose
      rw [hostPartChars_bracket hsplit hhost] at h
      have hok := Option.some.inj h
      split_ifs at hok
      cases hok
      refine ⟨⟨['['], t, rfl, size_singleton (by decide)⟩, '[' :: host ++ [']'], rest, ?_, ?_⟩
      · rw [hsplit]
        simp
      · exact size_bracketed host
    · rw [hostPartChars, if_pos hhead, find_none hclose] at h
      cases h
  · rw [hostPartChars, if_neg hhead] at h
    obtain ⟨host, -, hok⟩ := Option.map_eq_some_iff.mp h
    split_ifs at hok
    cases hok
    exact ⟨⟨[], _, rfl, rfl⟩, [], _, rfl, rfl⟩

private theorem andThen_congr {α β : Type} {part : Checked α} {f g : α → Checked β}
    (h : ∀ a, part = some (.ok a) → f a = g a) : andThen part f = andThen part g := by
  rcases part with _ | ⟨why | a⟩
  · rfl
  · rfl
  · exact h a rfl

private theorem splitBytes_eq (hostport : Str) : splitBytes hostport = splitChars hostport := by
  unfold splitBytes splitChars
  rw [lastIndexByte_utf8 (by decide)]
  by_cases hcolon : ':' ∈ hostport
  · obtain ⟨pre, port, hpre, hport⟩ := exists_last hcolon
    have hrfind : rfind ':' hostport = some (size pre) := by rw [hpre, rfind_append hport]
    rw [hrfind]
    dsimp only
    rw [hostPart_eq (List.ne_nil_of_mem hcolon)]
    exact andThen_congr fun part hpart => by rw [noBracket_eq (between_of_hostPart hpart)]
  · rw [rfind_none hcolon]

end Outcome

section Display

inductive IpAddr where
  | v4 (octets : Vector UInt8 4)
  | v6 (segments : Vector UInt16 8)

/-- The address may be missing, the zone empty. -/
structure UdpAddr where
  ip : Option IpAddr
  port : UInt16
  zone : Str

def ipv4Text (octets : List UInt8) : Str :=
  List.intercalate ['.'] (octets.map fun b => Nat.toDigits 10 b.toNat)

/-- `::ffff:a.b.c.d` as the address it wraps. -/
def toIpv4Mapped (segments : List UInt16) : Option (List UInt8) :=
  match segments with
  | [0, 0, 0, 0, 0, 0xffff, ab, cd] =>
    some [(ab >>> 8).toUInt8, ab.toUInt8, (cd >>> 8).toUInt8, cd.toUInt8]
  | _ => none

structure Span where
  start : ℕ
  len : ℕ

/-- The longest run of zeros, the first of several. -/
def zeroes (segments : List UInt16) : Span :=
  (segments.zipIdx.foldl (fun (acc : Span × Span) p =>
    if p.1 = 0 then
      let current : Span := ⟨if acc.2.len = 0 then p.2 else acc.2.start, acc.2.len + 1⟩
      (if current.len > acc.1.len then current else acc.1, current)
    else (acc.1, ⟨0, 0⟩)) (⟨0, 0⟩, ⟨0, 0⟩)).1

def fmtSubslice (chunk : List UInt16) : Str :=
  List.intercalate [':'] (chunk.map fun segment => Nat.toDigits 16 segment.toNat)

/-- Hexadecimal numbers with colons, the longest run of zeros left out. -/
def ipv6Text (segments : List UInt16) : Str :=
  match toIpv4Mapped segments with
  | some octets => [':', ':', 'f', 'f', 'f', 'f', ':'] ++ ipv4Text octets
  | none =>
    if (zeroes segments).len > 1 then
      fmtSubslice (segments.take (zeroes segments).start) ++ [':', ':'] ++
        fmtSubslice (segments.drop ((zeroes segments).start + (zeroes segments).len))
    else fmtSubslice segments

def ipString : IpAddr → Str
  | .v4 octets => ipv4Text octets.toList
  | .v6 segments =>
    match toIpv4Mapped segments.toList with
    | some octets => ipv4Text octets
    | none => ipv6Text segments.toList

namespace UdpAddr

variable (addr : UdpAddr)

def hostText : Str :=
  let host := match addr.ip with
    | none => []
    | some ip => ipString ip
  if addr.zone = [] then host else host ++ '%' :: addr.zone

def portText : Str := Nat.toDigits 10 addr.port.toNat

/-- `Display`: a host with a colon is written in brackets. -/
def display : Str :=
  if ':' ∈ addr.hostText then '[' :: addr.hostText ++ ']' :: ':' :: addr.portText
  else addr.hostText ++ ':' :: addr.portText

end UdpAddr

def numeric (c : Char) : Prop := c ≠ '[' ∧ c ≠ ']' ∧ c ≠ ':'

private theorem numeric_of_mem_toDigits {b n : ℕ} (hb : 1 < b) (hle : b ≤ 16) {c : Char}
    (h : c ∈ Nat.toDigits b n) : numeric c := by
  have hdigit : ∀ d < 16, numeric d.digitChar := by
    unfold numeric
    decide
  induction n using Nat.strong_induction_on with
  | _ n ih =>
    rw [Nat.toDigits_eq_if hb] at h
    split_ifs at h with hlt
    · rw [List.mem_singleton.mp h]
      exact hdigit n (hlt.trans_le hle)
    · rcases List.mem_append.mp h with hmem | hmem
      · exact ih (n / b) (Nat.div_lt_self (by omega) hb) hmem
      · rw [List.mem_singleton.mp hmem]
        exact hdigit _ ((Nat.mod_lt _ (by omega)).trans_le hle)

private theorem mem_intercalate {sep : Str} {parts : List Str} {c : Char}
    (h : c ∈ List.intercalate sep parts) : c ∈ sep ∨ ∃ part ∈ parts, c ∈ part := by
  induction parts with
  | nil => cases h
  | cons part parts ih =>
    cases parts with
    | nil =>
      rw [List.intercalate_singleton] at h
      exact .inr ⟨part, List.mem_cons_self, h⟩
    | cons part' parts =>
      rw [List.intercalate_cons_cons, List.mem_append, List.mem_append] at h
      rcases h with (h | h) | h
      · exact .inr ⟨part, List.mem_cons_self, h⟩
      · exact .inl h
      · rcases ih h with hsep | ⟨other, hother, hmem⟩
        · exact .inl hsep
        · exact .inr ⟨other, List.mem_cons_of_mem _ hother, hmem⟩

def noBracket (s : Str) : Prop := '[' ∉ s ∧ ']' ∉ s

private theorem noBracket_append {s t : Str} (hs : noBracket s) (ht : noBracket t) :
    noBracket (s ++ t) := by
  simp only [noBracket, List.mem_append, not_or]
  exact ⟨⟨hs.1, ht.1⟩, hs.2, ht.2⟩

private theorem noBracket_numbers {α : Type} {b : ℕ} (hb : 1 < b) (hle : b ≤ 16) {sep : Char}
    (hsep : sep ≠ '[' ∧ sep ≠ ']') (f : α → ℕ) (numbers : List α) :
    noBracket (List.intercalate [sep] (numbers.map fun n => Nat.toDigits b (f n))) := by
  have hchar (c : Char)
      (h : c ∈ List.intercalate [sep] (numbers.map fun n => Nat.toDigits b (f n))) :
      c ≠ '[' ∧ c ≠ ']' := by
    rcases mem_intercalate h with hmem | ⟨part, hpart, hmem⟩
    · rwa [List.mem_singleton.mp hmem]
    · obtain ⟨n, -, rfl⟩ := List.mem_map.mp hpart
      obtain ⟨hopen, hclose, -⟩ := numeric_of_mem_toDigits hb hle hmem
      exact ⟨hopen, hclose⟩
  exact ⟨fun h => (hchar _ h).1 rfl, fun h => (hchar _ h).2 rfl⟩

private theorem noBracket_ipv4Text (octets : List UInt8) : noBracket (ipv4Text octets) :=
  noBracket_numbers (by decide) (by decide) (by decide) UInt8.toNat octets

private theorem noBracket_fmtSubslice (chunk : List UInt16) : noBracket (fmtSubslice chunk) :=
  noBracket_numbers (by decide) (by decide) (by decide) UInt16.toNat chunk

private theorem noBracket_ipv6Text (segments : List UInt16) : noBracket (ipv6Text segments) := by
  unfold ipv6Text
  split
  · exact noBracket_append ⟨by decide, by decide⟩ (noBracket_ipv4Text _)
  · split_ifs
    · exact noBracket_append (noBracket_append (noBracket_fmtSubslice _) ⟨by decide, by decide⟩)
        (noBracket_fmtSubslice _)
    · exact noBracket_fmtSubslice _

private theorem noBracket_ipString (ip : IpAddr) : noBracket (ipString ip) := by
  cases ip with
  | v4 octets => exact noBracket_ipv4Text _
  | v6 segments =>
    unfold ipString
    dsimp only
    split
    · exact noBracket_ipv4Text _
    · exact noBracket_ipv6Text _

private theorem noBracket_hostText (addr : UdpAddr) (h : noBracket addr.zone) :
    noBracket addr.hostText := by
  have hip : noBracket (match addr.ip with
      | none => []
      | some ip => ipString ip) := by
    split
    · exact ⟨by decide, by decide⟩
    · exact noBracket_ipString _
  unfold UdpAddr.hostText
  dsimp only
  split_ifs
  · exact hip
  · refine noBracket_append hip (noBracket_append (s := ['%']) ⟨by decide, by decide⟩ h)

private theorem display_form (addr : UdpAddr) (h : noBracket addr.zone) :
    Plain addr.display addr.hostText addr.portText ∨
      Bracketed addr.display addr.hostText addr.portText := by
  have hhost := noBracket_hostText addr h
  have hport (c : Char) (hc : c ∈ addr.portText) : numeric c :=
    numeric_of_mem_toDigits (by decide) (by decide) hc
  have hcolon : ':' ∉ addr.portText := fun hmem => (hport _ hmem).2.2 rfl
  have hbrackets : '[' ∉ addr.portText ∧ ']' ∉ addr.portText :=
    ⟨fun hmem => (hport _ hmem).1 rfl, fun hmem => (hport _ hmem).2.1 rfl⟩
  unfold UdpAddr.display
  split_ifs with hmem
  · exact .inr ⟨rfl, hcolon, hhost, hbrackets⟩
  · exact .inl ⟨rfl, hmem, hcolon, hhost, hbrackets⟩

end Display

private theorem splitChars_of_form {hostport host port : Str}
    (h : Plain hostport host port ∨ Bracketed hostport host port) :
    splitChars hostport = some (.ok (host, port)) :=
  h.elim splitChars_of_plain splitChars_of_bracketed

/-- The three splitters have the same outcome for every string and never cut a character; they
accept the two written forms, and so what any address with a zone without brackets displays as. -/
theorem splitters_agree :
    (∀ hostport : Str, ∃ r : Except String (Str × Str),
      splitHostPort hostport = some (r.mapError fun why => ⟨hostport, why⟩) ∧
      Kcp.splitHostPort hostport = some (r.mapError (Kcp.addrError hostport)) ∧
      Tcpraw.splitHostPort hostport = some (r.mapError (Tcpraw.addrError hostport)) ∧
      ∀ host port, r = .ok (host, port) ↔
        Plain hostport host port ∨ Bracketed hostport host port) ∧
    ∀ addr : UdpAddr, '[' ∉ addr.zone → ']' ∉ addr.zone →
      splitHostPort addr.display = some (.ok (addr.hostText, addr.portText)) ∧
      Kcp.splitHostPort addr.display = some (.ok (addr.hostText, addr.portText)) ∧
      Tcpraw.splitHostPort addr.display = some (.ok (addr.hostText, addr.portText)) := by
  constructor
  · intro hostport
    obtain ⟨r, hr, hform⟩ := splitChars_total hostport
    refine ⟨r, ?_, ?_, ?_, fun host port => ⟨hform host port, ?_⟩⟩
    · rw [splitHostPort, splitBytes_eq, hr]
      rfl
    · rw [Kcp.splitHostPort, splitWith, hr]
      rfl
    · rw [Tcpraw.splitHostPort, splitWith, hr]
      rfl
    · intro h
      exact Option.some.inj (hr.symm.trans (splitChars_of_form h))
  · intro addr hopen hclose
    have hsplit := splitChars_of_form (display_form addr ⟨hopen, hclose⟩)
    refine ⟨?_, ?_, ?_⟩
    · rw [splitHostPort, splitBytes_eq, hsplit]
      rfl
    · rw [Kcp.splitHostPort, splitWith, hsplit]
      rfl
    · rw [Tcpraw.splitHostPort, splitWith, hsplit]
      rfl

end Kcptun.Setup.HostPort
