/- Kcptun/Qpp/Stream
   source: crates/std/src/qpp.rs (QppStream)
   digest: The stream wrapper: over every schedule of partial writes the connection takes a prefix
     of the encryption of what was written, and a peer reads that plaintext back. -/

import Kcptun.Lib.Io
import Kcptun.Lib.Run
import Kcptun.Qpp.Transform

set_option autoImplicit false
set_option relaxedAutoImplicit false

namespace Kcptun.Qpp

open Kcptun.Lib (Poll cryptStream cryptStream_append length_cryptStream run run_invariant)
open Kcptun.Lib.LittleEndian

/-- An error of the connection is not looked into. -/
abbrev IoError := Kcptun.Lib.IoError Unit

def writeZero : IoError := .new .writeZero "write zero byte into writer"

abbrev IoPoll (α : Type) := Poll (Except IoError α)

/-- The wrapped connection: what it took, and what has arrived on it. -/
structure Inner where
  accepted : Bytes
  incoming : Bytes

structure QppStream where
  underlying : Inner
  wprng : Rand
  rprng : Rand
  obuf : Bytes
  opos : ℕ
  staged : ℕ

namespace QppStream

def new (p : Primitives) (underlying : Inner) (seed : Bytes) : QppStream :=
  { underlying
    wprng := createPrng p seed
    rprng := createPrng p seed
    obuf := []
    opos := 0
    staged := 0 }

def push (s : QppStream) (n : ℕ) : QppStream :=
  { s with
    underlying.accepted := s.underlying.accepted ++ (s.obuf.drop s.opos).take n
    opos := s.opos + n }

/-- Pushes what is left of `obuf` into the connection; also returns the polls not used. A connection
that is asked more often than the schedule says is pending. -/
def pollDrain : List (IoPoll ℕ) → QppStream → IoPoll Unit × QppStream × List (IoPoll ℕ)
  | [], s =>
    if s.opos < s.obuf.length then (.pending, s, [])
    else (.ready (.ok ()), { s with obuf := [], opos := 0 }, [])
  | poll :: rest, s =>
    if s.opos < s.obuf.length then
      match poll with
      | .pending => (.pending, s, rest)
      | .ready (.error e) => (.ready (.error e), s, rest)
      | .ready (.ok n) =>
        let n := min n (s.obuf.drop s.opos).length
        if n = 0 then (.ready (.error writeZero), s, rest) else pollDrain rest (s.push n)
    else (.ready (.ok ()), { s with obuf := [], opos := 0 }, poll :: rest)

/-- The end of `poll_write`: reports the staged bytes when all of their ciphertext is taken. -/
def pollStaged (polls : List (IoPoll ℕ)) (s : QppStream) : IoPoll ℕ × QppStream :=
  match pollDrain polls s with
  | (.ready (.ok _), s, _) => (.ready (.ok s.staged), { s with staged := 0 })
  | (.pending, s, _) => (.pending, s)
  | (.ready (.error e), s, _) => (.ready (.error e), s)

def pollWrite (pad : QuantumPermutationPad) (polls : List (IoPoll ℕ)) (buf : Bytes) (s : QppStream) :
    IoPoll ℕ × QppStream :=
  if s.staged = 0 then
    match pollDrain polls s with
    | (.pending, s, _) => (.pending, s)
    | (.ready (.error e), s, _) => (.ready (.error e), s)
    | (.ready (.ok _), s, polls) =>
      if buf = [] then (.ready (.ok 0), s)
      else
        let (obuf, wprng) := pad.encryptWithPrng buf s.wprng
        pollStaged polls { s with obuf, wprng, opos := 0, staged := buf.length }
  else pollStaged polls s

def pollFlush (polls : List (IoPoll ℕ)) (flushed : IoPoll Unit) (s : QppStream) :
    IoPoll Unit × QppStream :=
  match pollDrain polls s with
  | (.ready (.ok _), s, _) => (flushed, s)
  | (p, s, _) => (p, s)

def pollShutdown (polls : List (IoPoll ℕ)) (closed : IoPoll Unit) (s : QppStream) :
    IoPoll Unit × QppStream :=
  match pollDrain polls s with
  | (.pending, s, _) => (.pending, s)
  | (drained, s, _) =>
    match closed with
    | .ready (.ok _) => (drained, s)
    | p => (p, s)

/-- Reads into a buffer that holds `filled` and has `room` left; `arrive` bytes come with `poll`.
What came in is decrypted whatever the poll says. -/
def pollRead (pad : QuantumPermutationPad) (filled : Bytes) (room arrive : ℕ) (poll : IoPoll Unit)
    (s : QppStream) : IoPoll Unit × Bytes × QppStream :=
  let n := min arrive room
  let fresh := s.underlying.incoming.take n
  let s := { s with underlying.incoming := s.underlying.incoming.drop n }
  if fresh = [] then (poll, filled, s)
  else
    let (plain, rprng) := pad.decryptWithPrng fresh s.rprng
    (poll, filled ++ plain, { s with rprng })

/-- What a drain does: bytes move from the buffer to the connection in order, and nothing else
changes; when it is done the buffer is empty. -/
structure Drained (s : QppStream) (r : IoPoll Unit × QppStream × List (IoPoll ℕ)) : Prop where
  moved : r.2.1.underlying.accepted ++ r.2.1.obuf.drop r.2.1.opos =
    s.underlying.accepted ++ s.obuf.drop s.opos
  grown : s.underlying.accepted.length ≤ r.2.1.underlying.accepted.length
  incoming : r.2.1.underlying.incoming = s.underlying.incoming
  wprng : r.2.1.wprng = s.wprng
  rprng : r.2.1.rprng = s.rprng
  staged : r.2.1.staged = s.staged
  empty : r.1 = .ready (.ok ()) → r.2.1.obuf = [] ∧ r.2.1.opos = 0

private theorem drained_rfl (s : QppStream) (p : IoPoll Unit) (polls : List (IoPoll ℕ))
    (hp : p ≠ .ready (.ok ())) : Drained s (p, s, polls) :=
  ⟨rfl, le_rfl, rfl, rfl, rfl, rfl, fun h => absurd h hp⟩

private theorem pollDrain_done (polls : List (IoPoll ℕ)) {s : QppStream}
    (h : s.obuf.drop s.opos = []) :
    pollDrain polls s = (.ready (.ok ()), { s with obuf := [], opos := 0 }, polls) := by
  have hle := List.drop_eq_nil_iff.mp h
  cases polls with
  | nil => exact if_neg (by omega)
  | cons poll rest =>
    unfold pollDrain
    exact if_neg (by omega)

private theorem drained_done (polls : List (IoPoll ℕ)) {s : QppStream}
    (h : s.obuf.drop s.opos = []) : Drained s (pollDrain polls s) := by
  rw [pollDrain_done polls h]
  exact ⟨by rw [h]; rfl, le_rfl, rfl, rfl, rfl, rfl, fun _ => ⟨rfl, rfl⟩⟩

private theorem moved_push (s : QppStream) (n : ℕ) :
    (s.push n).underlying.accepted ++ (s.push n).obuf.drop (s.push n).opos =
      s.underlying.accepted ++ s.obuf.drop s.opos := by
  show s.underlying.accepted ++ (s.obuf.drop s.opos).take n ++ s.obuf.drop (s.opos + n) = _
  rw [List.append_assoc, ← List.drop_drop, List.take_append_drop]

private theorem Drained.push {s : QppStream} {n : ℕ} {r : IoPoll Unit × QppStream × List (IoPoll ℕ)}
    (h : Drained (s.push n) r) : Drained s r where
  moved := h.moved.trans (moved_push s n)
  grown := by
    refine le_trans ?_ h.grown
    show _ ≤ (s.underlying.accepted ++ (s.obuf.drop s.opos).take n).length
    rw [List.length_append]
    exact Nat.le_add_right _ _
  incoming := h.incoming
  wprng := h.wprng
  rprng := h.rprng
  staged := h.staged
  empty := h.empty

private theorem pollDrain_spec (polls : List (IoPoll ℕ)) (s : QppStream) :
    Drained s (pollDrain polls s) := by
  induction polls generalizing s with
  | nil =>
    by_cases hmore : s.opos < s.obuf.length
    · rw [pollDrain, if_pos hmore]
      exact drained_rfl s _ _ (by simp)
    · exact drained_done _ (List.drop_eq_nil_iff.mpr (by omega))
  | cons poll rest ih =>
    by_cases hmore : s.opos < s.obuf.length
    · unfold pollDrain
      rw [if_pos hmore]
      rcases poll with _ | e | n
      · exact drained_rfl s _ _ (by simp)
      · exact drained_rfl s _ _ (by simp)
      · dsimp only
        split_ifs with hzero
        · exact drained_rfl s _ _ (by simp)
        · exact (ih _).push
    · exact drained_done _ (List.drop_eq_nil_iff.mpr (by omega))

variable {pad : QuantumPermutationPad} {k0 : Rand}

/-- What the writing side has done: `reported` bytes are accounted for to the caller, `slice` is
encrypted but not reported yet. -/
structure Sound (pad : QuantumPermutationPad) (k0 : Rand) (reported slice : Bytes) (s : QppStream) :
    Prop where
  wprng : s.wprng = Rand.next^[(reported ++ slice).length] k0
  bytes : s.underlying.accepted ++ s.obuf.drop s.opos = pad.encryption k0 (reported ++ slice)
  reached : reported.length ≤ s.underlying.accepted.length
  staged : s.staged = slice.length

private theorem Sound.drain {reported slice : Bytes} {s : QppStream}
    (h : Sound pad k0 reported slice s)
    (polls : List (IoPoll ℕ)) : Sound pad k0 reported slice (pollDrain polls s).2.1 := by
  have hd := pollDrain_spec polls s
  exact ⟨hd.wprng.trans h.wprng, hd.moved.trans h.bytes, h.reached.trans hd.grown,
    hd.staged.trans h.staged⟩

private theorem Sound.drained {reported slice : Bytes} {s : QppStream}
    (h : Sound pad k0 reported slice s)
    (polls : List (IoPoll ℕ)) (hok : (pollDrain polls s).1 = .ready (.ok ())) :
    (pollDrain polls s).2.1.underlying.accepted = pad.encryption k0 (reported ++ slice) := by
  have hd := pollDrain_spec polls s
  have hbytes := (h.drain polls).bytes
  rw [(hd.empty hok).1, List.drop_nil, List.append_nil] at hbytes
  exact hbytes

private theorem Sound.idle {reported : Bytes} {s : QppStream} (h : Sound pad k0 reported [] s) :
    s.obuf.drop s.opos = [] := by
  have hlen := congrArg List.length h.bytes
  have hreached := h.reached
  rw [List.length_append, List.append_nil, pad.encryption_length] at hlen
  exact List.eq_nil_of_length_eq_zero (by omega)

private theorem Sound.pollStaged {reported slice : Bytes} {s : QppStream}
    (h : Sound pad k0 reported slice s) (polls : List (IoPoll ℕ)) :
    ((pollStaged polls s).1 = .ready (.ok slice.length) ∧
      Sound pad k0 (reported ++ slice) [] (pollStaged polls s).2) ∨
    ((∀ n, (pollStaged polls s).1 ≠ .ready (.ok n)) ∧
      Sound pad k0 reported slice (pollStaged polls s).2) := by
  have hdrain := h.drain polls
  have hdone := h.drained polls
  rw [QppStream.pollStaged]
  rcases hd : pollDrain polls s with ⟨p, s', polls'⟩
  rw [hd] at hdrain hdone
  rcases p with _ | e | u
  · exact .inr ⟨by simp, hdrain⟩
  · exact .inr ⟨by simp, hdrain⟩
  · refine .inl ⟨congrArg (Poll.ready ∘ Except.ok) hdrain.staged, ?_, ?_, ?_, rfl⟩
    · rw [List.append_nil]
      exact hdrain.wprng
    · rw [List.append_nil]
      exact hdrain.bytes
    · rw [hdone rfl, pad.encryption_length]

private theorem Sound.pollWrite {reported slice buf : Bytes} {s : QppStream}
    (h : Sound pad k0 reported slice s) (polls : List (IoPoll ℕ)) (hbuf : slice ≠ [] → buf = slice) :
    ((pollWrite pad polls buf s).1 = .ready (.ok buf.length) ∧
      Sound pad k0 (reported ++ buf) [] (pollWrite pad polls buf s).2) ∨
    ((∀ n, (pollWrite pad polls buf s).1 ≠ .ready (.ok n)) ∧
      Sound pad k0 reported buf (pollWrite pad polls buf s).2) := by
  rw [QppStream.pollWrite]
  by_cases hslice : slice = []
  · subst hslice
    have hstaged : s.staged = 0 := h.staged
    rw [if_pos hstaged, pollDrain_done polls h.idle]
    dsimp only
    split_ifs with hnil
    · subst hnil
      rw [List.append_nil]
      refine .inl ⟨rfl, h.wprng, ?_, h.reached, h.staged⟩
      rw [List.drop_nil, ← h.bytes, h.idle]
    · have hbytes := h.bytes
      rw [h.idle, List.append_nil, List.append_nil] at hbytes
      have hsound : Sound pad k0 reported buf { s with
          obuf := (pad.encryptWithPrng buf s.wprng).1
          wprng := (pad.encryptWithPrng buf s.wprng).2
          opos := 0
          staged := buf.length } := by
        refine ⟨?_, ?_, h.reached, rfl⟩
        · rw [pad.encryptWithPrng_eq, h.wprng, List.append_nil, List.length_append,
            ← Function.iterate_add_apply, Nat.add_comm]
        · rw [pad.encryptWithPrng_eq, h.wprng, List.append_nil, List.drop_zero, hbytes,
            pad.encryption_append]
      exact hsound.pollStaged polls
  · have hpos : 0 < slice.length := List.length_pos_iff.mpr hslice
    rw [if_neg (by rw [h.staged]; omega), hbuf hslice]
    exact h.pollStaged polls

private theorem Sound.pollFlush {reported slice : Bytes} {s : QppStream}
    (h : Sound pad k0 reported slice s) (polls : List (IoPoll ℕ)) (flushed : IoPoll Unit) :
    Sound pad k0 reported slice (pollFlush polls flushed s).2 ∧
    ((pollFlush polls flushed s).1 = .ready (.ok ()) →
      (pollFlush polls flushed s).2.underlying.accepted =
        pad.encryption k0 (reported ++ slice)) := by
  have hdrain := h.drain polls
  have hdone := h.drained polls
  rw [QppStream.pollFlush]
  rcases hd : pollDrain polls s with ⟨p, s', polls'⟩
  rw [hd] at hdrain hdone
  rcases p with _ | e | u
  · exact ⟨hdrain, fun hok => by cases hok⟩
  · exact ⟨hdrain, fun hok => by cases hok⟩
  · exact ⟨hdrain, fun _ => hdone rfl⟩

private theorem Sound.pollShutdown {reported slice : Bytes} {s : QppStream}
    (h : Sound pad k0 reported slice s) (polls : List (IoPoll ℕ)) (closed : IoPoll Unit) :
    Sound pad k0 reported slice (pollShutdown polls closed s).2 ∧
    ((pollShutdown polls closed s).1 = .ready (.ok ()) →
      (pollShutdown polls closed s).2.underlying.accepted =
        pad.encryption k0 (reported ++ slice)) := by
  have hdrain := h.drain polls
  have hdone := h.drained polls
  rw [QppStream.pollShutdown]
  rcases hd : pollDrain polls s with ⟨p, s', polls'⟩
  rw [hd] at hdrain hdone
  rcases p with _ | e | u
  · exact ⟨hdrain, fun hok => by cases hok⟩
  · rcases closed with _ | _ | _ <;> exact ⟨hdrain, fun hok => by cases hok⟩
  · rcases closed with _ | _ | _ <;> exact ⟨hdrain, fun _ => hdone rfl⟩

/-- What the reading side has done with the bytes `wire`. -/
structure ReadSound (pad : QuantumPermutationPad) (k0 : Rand) (wire returned : Bytes)
    (s : QppStream) : Prop where
  rprng : s.rprng = Rand.next^[returned.length] k0
  bytes : returned = cryptStream Rand.next pad.decryptAt k0 (wire.take returned.length)
  incoming : s.underlying.incoming = wire.drop returned.length

private theorem ReadSound.length_le {wire returned : Bytes} {s : QppStream}
    (h : ReadSound pad k0 wire returned s) : returned.length ≤ wire.length := by
  have hlen := congrArg List.length h.bytes
  rw [length_cryptStream, List.length_take] at hlen
  omega

private theorem ReadSound.pollRead {wire returned : Bytes} {s : QppStream}
    (h : ReadSound pad k0 wire returned s) (filled : Bytes) (room arrive : ℕ) (poll : IoPoll Unit) :
    ∃ plain, (pollRead pad filled room arrive poll s).2.1 = filled ++ plain ∧
      ReadSound pad k0 wire (returned ++ plain) (pollRead pad filled room arrive poll s).2.2 := by
  rw [QppStream.pollRead]
  dsimp only
  generalize min arrive room = n
  rw [h.incoming]
  split_ifs with hnil
  · refine ⟨[], (List.append_nil _).symm, ?_⟩
    rw [List.append_nil]
    refine ⟨h.rprng, h.bytes, ?_⟩
    rcases List.take_eq_nil_iff.mp hnil with hzero | hempty
    · rw [hzero, List.drop_zero]
    · rw [hempty, List.drop_nil]
  · rw [pad.decryptWithPrng_eq, h.rprng]
    have hle := h.length_le
    have hrest := List.take_append_drop n (wire.drop returned.length)
    generalize (wire.drop returned.length).take n = fresh at hrest ⊢
    generalize (wire.drop returned.length).drop n = later at hrest ⊢
    have hwire : wire = wire.take returned.length ++ fresh ++ later := by
      rw [List.append_assoc, hrest, List.take_append_drop]
    have hlen : (wire.take returned.length ++ fresh).length = returned.length + fresh.length := by
      rw [List.length_append, List.length_take_of_le hle]
    have htake : wire.take (returned.length + fresh.length) =
        wire.take returned.length ++ fresh :=
      (congrArg (List.take _) hwire).trans (List.take_left' hlen)
    have hdrop : wire.drop (returned.length + fresh.length) = later :=
      (congrArg (List.drop _) hwire).trans (List.drop_left' hlen)
    refine ⟨_, rfl, ?_, ?_, ?_⟩
    · rw [List.length_append, length_cryptStream, ← Function.iterate_add_apply, Nat.add_comm]
    · rw [List.length_append, length_cryptStream, htake, cryptStream_append, ← h.bytes,
        List.length_take_of_le hle]
    · rw [List.length_append, length_cryptStream]
      exact hdrop.symm

def SameReads (s r : QppStream) : Prop :=
  r.underlying.incoming = s.underlying.incoming ∧ r.rprng = s.rprng

private theorem sameReads_drain (polls : List (IoPoll ℕ)) (s : QppStream) :
    SameReads s (pollDrain polls s).2.1 :=
  ⟨(pollDrain_spec polls s).incoming, (pollDrain_spec polls s).rprng⟩

private theorem sameReads_staged (polls : List (IoPoll ℕ)) (s : QppStream) :
    SameReads s (pollStaged polls s).2 := by
  have hdrain := sameReads_drain polls s
  rw [QppStream.pollStaged]
  rcases hd : pollDrain polls s with ⟨p, s', polls'⟩
  rw [hd] at hdrain
  rcases p with _ | _ | _ <;> exact hdrain

private theorem sameReads_write (polls : List (IoPoll ℕ)) (buf : Bytes) (s : QppStream) :
    SameReads s (pollWrite pad polls buf s).2 := by
  have hdrain := sameReads_drain polls s
  rw [QppStream.pollWrite]
  by_cases hstaged : s.staged = 0
  · rw [if_pos hstaged]
    rcases hd : pollDrain polls s with ⟨p, s', polls'⟩
    rw [hd] at hdrain
    rcases p with _ | e | u
    · exact hdrain
    · exact hdrain
    · dsimp only
      split_ifs with hnil
      · exact hdrain
      · obtain ⟨hincoming, hrprng⟩ := sameReads_staged polls' { s' with
          obuf := (pad.encryptWithPrng buf s'.wprng).1
          wprng := (pad.encryptWithPrng buf s'.wprng).2
          opos := 0
          staged := buf.length }
        exact ⟨hincoming.trans hdrain.1, hrprng.trans hdrain.2⟩
  · rw [if_neg hstaged]
    exact sameReads_staged polls s

private theorem sameReads_flush (polls : List (IoPoll ℕ)) (flushed : IoPoll Unit) (s : QppStream) :
    SameReads s (pollFlush polls flushed s).2 := by
  have hdrain := sameReads_drain polls s
  rw [QppStream.pollFlush]
  rcases hd : pollDrain polls s with ⟨p, s', polls'⟩
  rw [hd] at hdrain
  rcases p with _ | _ | _ <;> exact hdrain

private theorem sameReads_shutdown (polls : List (IoPoll ℕ)) (closed : IoPoll Unit)
    (s : QppStream) : SameReads s (pollShutdown polls closed s).2 := by
  have hdrain := sameReads_drain polls s
  rw [QppStream.pollShutdown]
  rcases hd : pollDrain polls s with ⟨p, s', polls'⟩
  rw [hd] at hdrain
  rcases p with _ | _ | _ <;> rcases closed with _ | _ | _ <;> exact hdrain

private theorem ReadSound.frame {wire returned : Bytes} {s r : QppStream}
    (h : ReadSound pad k0 wire returned s) (hsame : SameReads s r) :
    ReadSound pad k0 wire returned r :=
  ⟨hsame.2.trans h.rprng, h.bytes, hsame.1.trans h.incoming⟩

private theorem Sound.pollRead {reported slice : Bytes} {s : QppStream}
    (h : Sound pad k0 reported slice s) (filled : Bytes) (room arrive : ℕ) (poll : IoPoll Unit) :
    Sound pad k0 reported slice (pollRead pad filled room arrive poll s).2.2 := by
  rw [QppStream.pollRead]
  dsimp only
  split_ifs with hnil
  · exact ⟨h.wprng, h.bytes, h.reached, h.staged⟩
  · exact ⟨h.wprng, h.bytes, h.reached, h.staged⟩

end QppStream

/-- A stream with what its caller has seen of it: the plaintext reported as written, the slice to
offer again, and the plaintext read. -/
structure Port where
  stream : QppStream
  reported : Bytes
  retry : Option Bytes
  returned : Bytes

/-- A call with the polls the connection answers it with. -/
inductive Call where
  | write (polls : List (IoPoll ℕ)) (buf : Bytes)
  | flush (polls : List (IoPoll ℕ)) (flushed : IoPoll Unit)
  | shutdown (polls : List (IoPoll ℕ)) (closed : IoPoll Unit)
  | read (filled : Bytes) (room arrive : ℕ) (poll : IoPoll Unit)

namespace Port

def start (p : Primitives) (seed incoming : Bytes) : Port :=
  { stream := .new p ⟨[], incoming⟩ seed
    reported := []
    retry := none
    returned := [] }

/-- A slice that came back unfinished is offered again; a finished one is reported. -/
def write (pad : QuantumPermutationPad) (s : Port) (polls : List (IoPoll ℕ)) (buf : Bytes) :
    Port × IoPoll Unit :=
  let slice := s.retry.getD buf
  let r := s.stream.pollWrite pad polls slice
  match r.1 with
  | .ready (.ok n) =>
    ({ s with stream := r.2, reported := s.reported ++ slice.take n, retry := none }, .ready (.ok ()))
  | .pending => ({ s with stream := r.2, retry := some slice }, .pending)
  | .ready (.error e) => ({ s with stream := r.2, retry := some slice }, .ready (.error e))

def step (pad : QuantumPermutationPad) (s : Port) : Call → Port × IoPoll Unit
  | .write polls buf => s.write pad polls buf
  | .flush polls flushed =>
    let r := s.stream.pollFlush polls flushed
    ({ s with stream := r.2 }, r.1)
  | .shutdown polls closed =>
    let r := s.stream.pollShutdown polls closed
    ({ s with stream := r.2 }, r.1)
  | .read filled room arrive poll =>
    let r := s.stream.pollRead pad filled room arrive poll
    ({ s with stream := r.2.2, returned := s.returned ++ r.2.1.drop filled.length }, r.1)

/-- The plaintext written so far, the slice being retried included. -/
def plain (s : Port) : Bytes := s.reported ++ s.retry.getD []

structure Sound (pad : QuantumPermutationPad) (k0 : Rand) (wire : Bytes) (s : Port) : Prop where
  writes : QppStream.Sound pad k0 s.reported (s.retry.getD []) s.stream
  reads : QppStream.ReadSound pad k0 wire s.returned s.stream

variable {pad : QuantumPermutationPad} {k0 : Rand} {wire : Bytes} {s : Port}

private theorem sound_start (p : Primitives) (seed wire : Bytes) :
    Sound pad (createPrng p seed) wire (start p seed wire) :=
  ⟨⟨rfl, rfl, le_rfl, rfl⟩, ⟨rfl, rfl, rfl⟩⟩

private theorem Sound.write (h : s.Sound pad k0 wire) (polls : List (IoPoll ℕ)) (buf : Bytes) :
    (s.write pad polls buf).1.Sound pad k0 wire := by
  have hoffer : s.retry.getD [] ≠ [] → s.retry.getD buf = s.retry.getD [] := by
    intro hne
    cases hretry : s.retry with
    | none => exact absurd (congrArg (·.getD []) hretry) hne
    | some slice => rfl
  have hreads := h.reads.frame (@QppStream.sameReads_write pad polls (s.retry.getD buf) s.stream)
  rw [Port.write]
  rcases h.writes.pollWrite polls hoffer with ⟨hok, hsound⟩ | ⟨hno, hsound⟩
  · rw [hok]
    refine ⟨?_, hreads⟩
    show QppStream.Sound pad k0 (s.reported ++ (s.retry.getD buf).take _) [] _
    rw [List.take_length]
    exact hsound
  · cases hres : (s.stream.pollWrite pad polls (s.retry.getD buf)).1 with
    | pending => exact ⟨hsound, hreads⟩
    | ready result =>
      cases result with
      | error e => exact ⟨hsound, hreads⟩
      | ok n => exact absurd hres (hno n)

private theorem Sound.step (h : s.Sound pad k0 wire) (call : Call) :
    (s.step pad call).1.Sound pad k0 wire := by
  cases call with
  | write polls buf => exact h.write polls buf
  | flush polls flushed =>
    exact ⟨(h.writes.pollFlush polls flushed).1,
      h.reads.frame (QppStream.sameReads_flush polls flushed _)⟩
  | shutdown polls closed =>
    exact ⟨(h.writes.pollShutdown polls closed).1,
      h.reads.frame (QppStream.sameReads_shutdown polls closed _)⟩
  | read filled room arrive poll =>
    obtain ⟨plain, hbuf, hsound⟩ := h.reads.pollRead filled room arrive poll
    refine ⟨h.writes.pollRead filled room arrive poll, ?_⟩
    have hreturned : (s.stream.pollRead pad filled room arrive poll).2.1.drop filled.length =
        plain := by rw [hbuf, List.drop_left]
    rw [← hreturned] at hsound
    exact hsound

theorem sound_run (p : Primitives) (seed wire : Bytes) (calls : List Call) :
    (run (step pad) (start p seed wire) calls).1.Sound pad (createPrng p seed) wire :=
  run_invariant (Sound pad (createPrng p seed) wire) (fun _ => True)
    (fun _ call _ h => h.step call) (fun _ _ => trivial) (sound_start p seed wire)

/-- What the connection has taken is a prefix of the encryption of the plaintext, and holds all that
was reported. -/
theorem Sound.accepted (h : s.Sound pad k0 wire) :
    s.stream.underlying.accepted <+: pad.encryption k0 s.plain ∧
      pad.encryption k0 s.reported <+: s.stream.underlying.accepted := by
  have hpre : s.stream.underlying.accepted <+: pad.encryption k0 s.plain := by
    rw [plain, ← h.writes.bytes]
    exact List.prefix_append _ _
  refine ⟨hpre, List.prefix_of_prefix_length_le ?_ hpre ?_⟩
  · rw [plain, pad.encryption_append]
    exact List.prefix_append _ _
  · rw [pad.encryption_length]
    exact h.writes.reached

private theorem Sound.complete (h : s.Sound pad k0 wire) (polls : List (IoPoll ℕ))
    (done : IoPoll Unit) : ∀ call ∈ [Call.flush polls done, Call.shutdown polls done],
      (s.step pad call).2 = .ready (.ok ()) →
      (s.step pad call).1.stream.underlying.accepted = pad.encryption k0 s.plain := by
  intro call hcall hok
  rcases List.mem_pair.mp hcall with rfl | rfl
  · exact (h.writes.pollFlush polls done).2 hok
  · exact (h.writes.pollShutdown polls done).2 hok

theorem Sound.peer {r : Port} {plain : Bytes} (h : r.Sound pad k0 wire)
    (hwire : wire <+: pad.encryption k0 plain) :
    r.returned = plain.take r.returned.length ∧
      r.returned.length + r.stream.underlying.incoming.length = wire.length := by
  have hle := h.reads.length_le
  constructor
  · have hread := pad.decrypt_prefix ((List.take_prefix r.returned.length wire).trans hwire)
    rw [List.length_take_of_le hle] at hread
    exact h.reads.bytes.trans hread
  · rw [h.reads.incoming, List.length_drop]
    omega

end Port

end Kcptun.Qpp
