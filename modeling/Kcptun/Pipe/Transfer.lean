/- Kcptun/Pipe/Transfer
   source: crates/std/src/pipe.rs (Phase, Transfer)
   digest: One direction of the pipe, turn by turn of its poll loop: which bytes a turn takes from
     the source, which ones the destination accepts, and what is held in between. -/

import Kcptun.Lib.Io
import Kcptun.Lib.LittleEndian

set_option autoImplicit false
set_option relaxedAutoImplicit false

namespace Kcptun.Pipe

open Kcptun.Lib (Poll IoError)
open Kcptun.Lib.LittleEndian

section Errors

variable {ε : Type}

def shortWrite : IoError ε := .new .writeZero "short write"

def stalled : IoError ε := .new .timedOut "i/o timeout"

end Errors

inductive Phase where
  | copying
  | flushing
  | done
  deriving DecidableEq, Repr

/-- What the calls that a turn may make return, what the read puts into the buffer, what a buffer from
the pool holds, and the clock. -/
structure Answers (ε : Type) where
  write : Poll (Except ε ℕ) := .pending
  readFrame : Poll (Except ε (Option Bytes)) := .pending
  read : Poll (Except ε Unit) := .pending
  filled : Bytes := []
  flush : Poll (Except ε Unit) := .ready (.ok ())
  fresh : Bytes := []
  now : ℕ

def frameBytes {ε : Type} : Poll (Except ε (Option Bytes)) → Bytes
  | .ready (.ok frame) => frame.getD []
  | _ => []

/-- How a turn goes on: with the next one, or out of the loop. -/
inductive Flow where
  | again
  | pending
  | ready
  deriving DecidableEq, Repr

/-- One direction of the pipe. The bytes `pos..cap` of `buf` and those of `frame` are read and not
yet written. -/
structure Transfer (ε : Type) where
  buf : Option Bytes := none
  pos : ℕ := 0
  cap : ℕ := 0
  frame : Option Bytes := none
  needFlush : Bool := false
  phase : Phase := .copying
  parked : Bool := false
  movedAt : ℕ
  result : Option (IoError ε) := none

namespace Transfer

variable {ε : Type}

def isDone (t : Transfer ε) : Bool := t.phase == .done

def holdsData (t : Transfer ε) : Bool := t.frame.isSome || t.pos < t.cap

def report (t : Transfer ε) (err : IoError ε) : Transfer ε :=
  { t with result := if t.result.isNone then some err else t.result }

def endCopy (t : Transfer ε) : Transfer ε :=
  { t with buf := none, pos := 0, cap := 0, frame := none, phase := .flushing }

def fail (t : Transfer ε) (err : IoError ε) : Transfer ε := (t.report err).endCopy

def wrote (t : Transfer ε) (now : ℕ) : Transfer ε := { t with needFlush := true, movedAt := now }

def park (t : Transfer ε) : Transfer ε := { t with parked := true }

def unpark (t : Transfer ε) : Transfer ε := { t with parked := false }

/-- The flush at the edge to a quiet source, and its error. -/
def flushWhileQuiet (t : Transfer ε) (flush : Poll (Except ε Unit)) : Transfer ε × Option ε :=
  if !t.needFlush then (t.unpark, none)
  else
    match flush with
    | .ready (.ok _) => ({ t.unpark with needFlush := false }, none)
    | .ready (.error e) => (t.unpark, some e)
    | .pending => (t.park, none)

def quiet (t : Transfer ε) (flush : Poll (Except ε Unit)) : Transfer ε × Flow :=
  match (t.flushWhileQuiet flush).2 with
  | some e => ((t.flushWhileQuiet flush).1.fail (.conn e), .again)
  | none => ((t.flushWhileQuiet flush).1, .pending)

/-- A write of what is held; `took` is what becomes of it when the destination took some. -/
def written (t : Transfer ε) (took : Transfer ε → ℕ → Transfer ε) (a : Answers ε) :
    Transfer ε × Flow :=
  match a.write with
  | .pending => (t.park, .pending)
  | .ready (.error e) => (t.unpark.fail (.conn e), .again)
  | .ready (.ok n) =>
    if n = 0 then (t.unpark.fail shortWrite, .again)
    else ((took t.unpark n).wrote a.now, .again)

/-- `advance` of the frame, which is gone when nothing is left of it. -/
def advanceFrame (t : Transfer ε) (n : ℕ) : Transfer ε :=
  { t with frame := t.frame.bind fun f => if (f.drop n).isEmpty then none else some (f.drop n) }

def advancePos (t : Transfer ε) (n : ℕ) : Transfer ε := { t with pos := t.pos + n }

def turnFrame (t : Transfer ε) (a : Answers ε) : Transfer ε × Flow :=
  if t.frame.isSome then t.written advanceFrame a
  else
    match a.readFrame with
    | .pending => t.quiet a.flush
    | .ready (.error e) => (t.fail (.conn e), .again)
    | .ready (.ok none) => (t.endCopy, .again)
    | .ready (.ok (some frame)) =>
      if frame.isEmpty then (t, .again) else ({ t with frame := some frame }, .again)

/-- The buffer of the direction, or one from the pool, after a read has filled its front. -/
def fill (t : Transfer ε) (a : Answers ε) : Transfer ε :=
  { t with buf := some (a.filled ++ (t.buf.getD a.fresh).drop a.filled.length) }

def holdFilled (t : Transfer ε) (a : Answers ε) : Transfer ε :=
  { t.fill a with pos := 0, cap := a.filled.length }

def turnBuffer (t : Transfer ε) (a : Answers ε) : Transfer ε × Flow :=
  if t.pos < t.cap then t.written advancePos a
  else
    match a.read with
    | .pending =>
      (if a.filled.isEmpty then { t with buf := none }
        else t.holdFilled a).quiet a.flush
    | .ready (.error e) => ((t.fill a).fail (.conn e), .again)
    | .ready (.ok _) =>
      if a.filled.isEmpty then ((t.fill a).endCopy, .again)
      else (t.holdFilled a, .again)

def turnFlush (t : Transfer ε) (a : Answers ε) : Transfer ε × Flow :=
  match a.flush with
  | .pending => (t.park, .pending)
  | .ready (.ok _) => ({ t with parked := false, phase := .done }, .again)
  | .ready (.error e) =>
    ({ t.unpark.report (.conn e) with phase := .done }, .again)

def turn (frameSource : Bool) (t : Transfer ε) (a : Answers ε) : Transfer ε × Flow :=
  match t.phase with
  | .copying => if frameSource then t.turnFrame a else t.turnBuffer a
  | .flushing => t.turnFlush a
  | .done => (t.unpark, .ready)

def unwritten (t : Transfer ε) : Bytes :=
  t.frame.getD [] ++ ((t.buf.getD []).take t.cap).drop t.pos

/-- Whether the turn writes, and otherwise reads, while it copies. -/
def writes (frameSource : Bool) (t : Transfer ε) : Bool :=
  t.phase == .copying && if frameSource then t.frame.isSome else decide (t.pos < t.cap)

def reads (frameSource : Bool) (t : Transfer ε) : Bool :=
  t.phase == .copying && !t.writes frameSource

def delivers (frameSource : Bool) (t : Transfer ε) (a : Answers ε) : Bytes :=
  if t.reads frameSource then (if frameSource then frameBytes a.readFrame else a.filled) else []

def takes (frameSource : Bool) (t : Transfer ε) (a : Answers ε) : ℕ :=
  if t.writes frameSource then
    match a.write with
    | .ready (.ok n) => n
    | _ => 0
  else 0

def accepts (frameSource : Bool) (t : Transfer ε) (a : Answers ε) : Bytes :=
  t.unwritten.take (t.takes frameSource a)

inductive Turned (frameSource : Bool) (t : Transfer ε) (a : Answers ε) : Transfer ε → Flow → Prop
  | blocked (hw : t.writes frameSource = true) (hnone : t.takes frameSource a = 0) :
    Turned frameSource t a t.park .pending
  | tookFrame (n : ℕ) (hw : t.writes frameSource = true) (hfs : frameSource = true)
    (hn : t.takes frameSource a = n) (hpos : n ≠ 0) :
    Turned frameSource t a ((t.unpark.advanceFrame n).wrote a.now) .again
  | tookBuffer (n : ℕ) (hw : t.writes frameSource = true) (hfs : frameSource = false)
    (hn : t.takes frameSource a = n) (hpos : n ≠ 0) :
    Turned frameSource t a ((t.unpark.advancePos n).wrote a.now) .again
  | failed (t' : Transfer ε) (e : IoError ε) (hnone : t.takes frameSource a = 0)
    (hmoved : t'.movedAt = t.movedAt) : Turned frameSource t a (t'.fail e) .again
  | gotFrame (f : Bytes) (hr : t.reads frameSource = true) (hfs : frameSource = true)
    (hf : t.delivers frameSource a = f) (hne : f ≠ []) :
    Turned frameSource t a { t with frame := some f } .again
  | gotBuffer (parked needFlush : Bool) (flow : Flow) (hr : t.reads frameSource = true)
    (hfs : frameSource = false) (hne : a.filled ≠ []) :
    Turned frameSource t a
      { t.holdFilled a with parked := parked, needFlush := needFlush } flow
  | nothing (hr : t.reads frameSource = true) (hfs : frameSource = true)
    (hnone : t.delivers frameSource a = []) : Turned frameSource t a t .again
  | quietFrame (parked needFlush : Bool) (hr : t.reads frameSource = true) (hfs : frameSource = true)
    (hnone : t.delivers frameSource a = []) :
    Turned frameSource t a { t with parked := parked, needFlush := needFlush } .pending
  | quietBuffer (parked needFlush : Bool) (hr : t.reads frameSource = true)
    (hfs : frameSource = false) (hnone : t.delivers frameSource a = []) :
    Turned frameSource t a
      { t with buf := none, parked := parked, needFlush := needFlush } .pending
  | ended (t' : Transfer ε) (hr : t.reads frameSource = true)
    (hnone : t.delivers frameSource a = []) (hsame : t'.result = t.result)
    (hmoved : t'.movedAt = t.movedAt) : Turned frameSource t a t'.endCopy .again
  | flushBlocked (hp : t.phase = .flushing) : Turned frameSource t a t.park .pending
  | flushed (result : Option (IoError ε)) (hp : t.phase = .flushing)
    (hsticks : t.result ≠ none → result ≠ none) :
    Turned frameSource t a { t with parked := false, phase := .done, result := result } .again
  | done (hp : t.phase = .done) : Turned frameSource t a t.unpark .ready

private theorem quiet_cases (t : Transfer ε) (flush : Poll (Except ε Unit)) :
    (∃ parked needFlush, t.quiet flush =
      ({ t with parked := parked, needFlush := needFlush }, .pending)) ∨
      ∃ e, t.quiet flush = (t.unpark.fail e, .again) := by
  unfold quiet flushWhileQuiet
  by_cases hneed : t.needFlush = true
  · rw [if_neg (by simp [hneed])]
    match flush with
    | .pending => exact .inl ⟨true, t.needFlush, rfl⟩
    | .ready (.ok _) => exact .inl ⟨false, false, rfl⟩
    | .ready (.error e) => exact .inr ⟨.conn e, rfl⟩
  · rw [if_pos (by simpa using hneed)]
    exact .inl ⟨false, t.needFlush, rfl⟩

theorem result_report (t : Transfer ε) (e : IoError ε) : (t.report e).result ≠ none := by
  unfold report
  cases t.result with
  | none => exact Option.some_ne_none e
  | some e' => exact Option.some_ne_none e'

private theorem takes_of_reads {frameSource : Bool} {t : Transfer ε}
    (hr : t.reads frameSource = true) (a : Answers ε) : t.takes frameSource a = 0 := by
  have hw : t.writes frameSource = false := by simpa [reads] using (Bool.and_eq_true_iff.mp hr).2
  unfold takes
  rw [if_neg (by rw [hw]; exact Bool.false_ne_true)]

private theorem written_turned {frameSource : Bool} {t : Transfer ε} (a : Answers ε)
    {took : Transfer ε → ℕ → Transfer ε} (hw : t.writes frameSource = true)
    (htook : ∀ n, t.takes frameSource a = n → n ≠ 0 → Turned frameSource t a
      ((took t.unpark n).wrote a.now) .again) :
    Turned frameSource t a (t.written took a).1 (t.written took a).2 := by
  have htakes : t.takes frameSource a = match a.write with
      | .ready (.ok n) => n
      | _ => 0 := if_pos hw
  unfold written
  match hwrite : a.write with
  | .pending => exact .blocked hw (by rw [htakes, hwrite])
  | .ready (.error e) => exact .failed _ _ (by rw [htakes, hwrite]) rfl
  | .ready (.ok n) =>
    have hn : t.takes frameSource a = n := by rw [htakes, hwrite]
    dsimp only
    split_ifs with hzero
    · exact .failed _ _ (hn.trans hzero) rfl
    · exact htook n hn hzero

private theorem turnFrame_turned {t : Transfer ε} (hp : t.phase = .copying) (a : Answers ε) :
    Turned true t a (t.turnFrame a).1 (t.turnFrame a).2 := by
  unfold turnFrame
  by_cases hframe : t.frame.isSome = true
  · have hw : t.writes true = true := by simp [writes, hp, hframe]
    rw [if_pos hframe]
    exact written_turned a hw fun n hn hpos => .tookFrame n hw rfl hn hpos
  · have hr : t.reads true = true := by simp [reads, writes, hp, hframe]
    have hd : t.delivers true a = frameBytes a.readFrame := by
      unfold delivers
      rw [if_pos hr, if_pos rfl]
    rw [if_neg hframe]
    match hread : a.readFrame with
    | .pending =>
      rw [hread] at hd
      rcases t.quiet_cases a.flush with ⟨parked, needFlush, hq⟩ | ⟨e, hq⟩
      · dsimp only
        rw [hq]
        exact .quietFrame parked needFlush hr rfl hd
      · dsimp only
        rw [hq]
        exact .failed _ _ (takes_of_reads hr a) rfl
    | .ready (.error e) => exact .failed _ _ (takes_of_reads hr a) rfl
    | .ready (.ok none) =>
      rw [hread] at hd
      exact .ended t hr hd rfl rfl
    | .ready (.ok (some frame)) =>
      rw [hread] at hd
      dsimp only
      split_ifs with hempty
      · exact .nothing hr rfl (hd.trans (List.isEmpty_iff.mp hempty))
      · exact .gotFrame frame hr rfl hd (fun hc => hempty (List.isEmpty_iff.mpr hc))

private theorem turnBuffer_turned {t : Transfer ε} (hp : t.phase = .copying) (a : Answers ε) :
    Turned false t a (t.turnBuffer a).1 (t.turnBuffer a).2 := by
  unfold turnBuffer
  by_cases hheld : t.pos < t.cap
  · have hw : t.writes false = true := by simp [writes, hp, hheld]
    rw [if_pos hheld]
    exact written_turned a hw fun n hn hpos => .tookBuffer n hw rfl hn hpos
  · have hr : t.reads false = true := by simp [reads, writes, hp, hheld]
    have hd : t.delivers false a = a.filled := by
      unfold delivers
      rw [if_pos hr, if_neg Bool.false_ne_true]
    rw [if_neg hheld]
    match a.read with
    | .pending =>
      dsimp only
      split_ifs with hempty
      · rcases ({ t with buf := none } : Transfer ε).quiet_cases a.flush with
          ⟨parked, needFlush, hq⟩ | ⟨e, hq⟩
        · rw [hq]
          exact .quietBuffer parked needFlush hr rfl (hd.trans (List.isEmpty_iff.mp hempty))
        · rw [hq]
          exact .failed _ _ (takes_of_reads hr a) rfl
      · rcases (t.holdFilled a).quiet_cases a.flush with
          ⟨parked, needFlush, hq⟩ | ⟨e, hq⟩
        · rw [hq]
          exact .gotBuffer parked needFlush _ hr rfl (fun hc => hempty (List.isEmpty_iff.mpr hc))
        · rw [hq]
          exact .failed _ _ (takes_of_reads hr a) rfl
    | .ready (.error e) => exact .failed _ _ (takes_of_reads hr a) rfl
    | .ready (.ok _) =>
      dsimp only
      split_ifs with hempty
      · exact .ended _ hr (hd.trans (List.isEmpty_iff.mp hempty)) rfl rfl
      · exact .gotBuffer t.parked t.needFlush _ hr rfl (fun hc => hempty (List.isEmpty_iff.mpr hc))

private theorem turnFlush_turned {t : Transfer ε} (hp : t.phase = .flushing) (a : Answers ε)
    (frameSource : Bool) : Turned frameSource t a (t.turnFlush a).1 (t.turnFlush a).2 := by
  unfold turnFlush
  match a.flush with
  | .pending => exact .flushBlocked hp
  | .ready (.ok _) => exact .flushed t.result hp id
  | .ready (.error e) => exact .flushed _ hp fun _ => result_report t (.conn e)

theorem turn_turned (frameSource : Bool) (t : Transfer ε) (a : Answers ε) :
    Turned frameSource t a (t.turn frameSource a).1 (t.turn frameSource a).2 := by
  cases hp : t.phase with
  | copying =>
    cases frameSource with
    | true =>
      simp only [turn, hp]
      exact turnFrame_turned hp a
    | false =>
      simp only [turn, hp]
      exact turnBuffer_turned hp a
  | flushing =>
    simp only [turn, hp]
    exact turnFlush_turned hp a frameSource
  | done =>
    simp only [turn, hp]
    exact .done hp

structure Shape (frameSource : Bool) (t : Transfer ε) : Prop where
  frames : frameSource = true → t.buf = none ∧ t.pos = 0 ∧ t.cap = 0
  buffered : frameSource = false → t.frame = none
  frame_ne : t.frame ≠ some []
  pos_le : t.pos ≤ t.cap
  room : t.pos < t.cap → ∃ b, t.buf = some b ∧ t.cap ≤ b.length
  stopped : t.phase ≠ .copying → t.buf = none ∧ t.pos = 0 ∧ t.cap = 0 ∧ t.frame = none

variable {frameSource : Bool} {t t' : Transfer ε} {a : Answers ε} {flow : Flow}

private theorem phase_of_writes (hw : t.writes frameSource = true) : t.phase = .copying := by
  simpa using (Bool.and_eq_true_iff.mp hw).1

private theorem phase_of_reads (hr : t.reads frameSource = true) : t.phase = .copying := by
  simpa using (Bool.and_eq_true_iff.mp hr).1

private theorem delivers_of_writes (hw : t.writes frameSource = true) :
    t.delivers frameSource a = [] := by
  have hr : t.reads frameSource = false := by simp [reads, hw]
  unfold delivers
  rw [if_neg (by rw [hr]; exact Bool.false_ne_true)]

theorem idle_of_over (hp : t.phase ≠ .copying) (a : Answers ε) :
    t.takes frameSource a = 0 ∧ t.delivers frameSource a = [] := by
  have hcopy : (t.phase == .copying) = false := by simpa using hp
  constructor
  · unfold takes writes
    rw [hcopy, Bool.false_and, if_neg Bool.false_ne_true]
  · unfold delivers reads
    rw [hcopy, Bool.false_and, if_neg Bool.false_ne_true]

theorem accepts_of_none (hnone : t.takes frameSource a = 0) : t.accepts frameSource a = [] := by
  rw [accepts, hnone, List.take_zero]

private theorem unwritten_of_frames (hbuf : t.buf = none) : t.unwritten = t.frame.getD [] := by
  simp [unwritten, hbuf]

theorem unwritten_of_buffered (hframe : t.frame = none) :
    t.unwritten = ((t.buf.getD []).take t.cap).drop t.pos := by
  simp [unwritten, hframe]

private theorem unwritten_of_filled {filled rest : Bytes} (hframe : t.frame = none)
    (hpos : t.pos = 0)
    (hcap : t.cap = filled.length) (hbuf : t.buf = some (filled ++ rest)) : t.unwritten = filled := by
  rw [unwritten_of_buffered hframe, hpos, hcap, hbuf]
  exact List.take_left

private theorem Shape.unwritten_of_reads (h : t.Shape frameSource)
    (hr : t.reads frameSource = true) : t.unwritten = [] := by
  have hp := phase_of_reads hr
  have hw : t.writes frameSource = false := by simpa [reads, hp] using hr
  cases frameSource with
  | true =>
    have hframe : t.frame = none := by simpa [writes, hp] using hw
    rw [unwritten_of_frames (h.frames rfl).1, hframe, Option.getD_none]
  | false =>
    have hpos : t.cap ≤ t.pos := by simpa [writes, hp] using hw
    rw [unwritten_of_buffered (h.buffered rfl)]
    apply List.drop_eq_nil_of_le
    rw [List.length_take]
    omega

theorem Shape.unwritten_of_over (h : t.Shape frameSource) (hp : t.phase ≠ .copying) :
    t.unwritten = [] := by
  obtain ⟨hbuf, -, -, hframe⟩ := h.stopped hp
  rw [unwritten_of_frames hbuf, hframe, Option.getD_none]

private theorem Shape.unwritten_ne_nil (h : t.Shape frameSource)
    (hw : t.writes frameSource = true) : t.unwritten ≠ [] := by
  have hp := phase_of_writes hw
  cases frameSource with
  | true =>
    have hframe : t.frame.isSome = true := by simpa [writes, hp] using hw
    obtain ⟨f, hf⟩ := Option.isSome_iff_exists.mp hframe
    rw [unwritten_of_frames (h.frames rfl).1, hf, Option.getD_some]
    intro hc
    exact h.frame_ne (hf.trans (congrArg some hc))
  | false =>
    have hpos : t.pos < t.cap := by simpa [writes, hp] using hw
    obtain ⟨b, hb, hroom⟩ := h.room hpos
    rw [unwritten_of_buffered (h.buffered rfl), hb, Option.getD_some]
    apply List.ne_nil_of_length_pos
    rw [List.length_drop, List.length_take]
    omega

/-- The shape of a direction survives every turn in which the destination takes no more than it is
offered. -/
theorem Shape.turned (h : t.Shape frameSource)
    (hfit : t.takes frameSource a ≤ t.unwritten.length) (ht : Turned frameSource t a t' flow) :
    t'.Shape frameSource := by
  cases ht with
  | blocked => exact ⟨h.frames, h.buffered, h.frame_ne, h.pos_le, h.room, h.stopped⟩
  | tookFrame n hw hfs =>
    refine ⟨h.frames, fun hc => absurd (hfs.symm.trans hc) Bool.noConfusion, ?_, h.pos_le, h.room,
      fun hc => absurd (phase_of_writes hw) hc⟩
    change (t.frame.bind fun f => if (f.drop n).isEmpty then none else some (f.drop n)) ≠ some []
    intro hc
    obtain ⟨f, -, hf⟩ := Option.bind_eq_some_iff.mp hc
    split_ifs at hf with hempty
    exact hempty (List.isEmpty_iff.mpr (Option.some.inj hf))
  | tookBuffer n hw hfs hn =>
    have hlen : t.unwritten.length ≤ t.cap - t.pos := by
      rw [unwritten_of_buffered (h.buffered hfs), List.length_drop, List.length_take]
      omega
    have hpos := h.pos_le
    refine ⟨fun hc => absurd (hfs.symm.trans hc) Bool.noConfusion, h.buffered, h.frame_ne, ?_,
      fun hlt => h.room ?_, fun hc => absurd (phase_of_writes hw) hc⟩
    · change t.pos + n ≤ t.cap
      omega
    · change t.pos + n < t.cap at hlt
      omega
  | failed t₀ e =>
    exact ⟨fun _ => ⟨rfl, rfl, rfl⟩, fun _ => rfl, Option.some_ne_none _ |>.symm, Nat.le_refl 0,
      fun hlt => absurd hlt (Nat.lt_irrefl 0), fun _ => ⟨rfl, rfl, rfl, rfl⟩⟩
  | gotFrame f hr hfs hf hne =>
    exact ⟨h.frames, fun hc => absurd (hfs.symm.trans hc) Bool.noConfusion,
      fun hc => hne (Option.some.inj hc), h.pos_le, h.room, fun hc => absurd (phase_of_reads hr) hc⟩
  | gotBuffer parked needFlush flow hr hfs hne =>
    refine ⟨fun hc => absurd (hfs.symm.trans hc) Bool.noConfusion, h.buffered, h.frame_ne,
      Nat.zero_le _, fun _ => ⟨_, rfl, ?_⟩, fun hc => absurd (phase_of_reads hr) hc⟩
    rw [List.length_append]
    exact Nat.le_add_right _ _
  | nothing => exact h
  | quietFrame => exact ⟨h.frames, h.buffered, h.frame_ne, h.pos_le, h.room, h.stopped⟩
  | quietBuffer parked needFlush hr hfs =>
    have hw : t.writes frameSource = false := by simpa [reads, phase_of_reads hr] using hr
    have hpos : ¬ t.pos < t.cap := by simpa [writes, phase_of_reads hr, hfs] using hw
    exact ⟨fun hc => absurd (hfs.symm.trans hc) Bool.noConfusion, h.buffered, h.frame_ne, h.pos_le,
      fun hlt => absurd hlt hpos, fun hc => absurd (phase_of_reads hr) hc⟩
  | ended t₀ =>
    exact ⟨fun _ => ⟨rfl, rfl, rfl⟩, fun _ => rfl, Option.some_ne_none _ |>.symm, Nat.le_refl 0,
      fun hlt => absurd hlt (Nat.lt_irrefl 0), fun _ => ⟨rfl, rfl, rfl, rfl⟩⟩
  | flushBlocked => exact ⟨h.frames, h.buffered, h.frame_ne, h.pos_le, h.room, h.stopped⟩
  | flushed result hp =>
    have hover := h.stopped (by rw [hp]; exact Phase.noConfusion)
    exact ⟨h.frames, h.buffered, h.frame_ne, h.pos_le, h.room, fun _ => hover⟩
  | done => exact ⟨h.frames, h.buffered, h.frame_ne, h.pos_le, h.room, h.stopped⟩

theorem Shape.kept (h : t.Shape frameSource) (ht : Turned frameSource t a t' flow) :
    t.accepts frameSource a ++ t'.unwritten = t.unwritten ++ t.delivers frameSource a ∨
      (t'.phase ≠ .copying ∧ t'.result ≠ none) := by
  -- nothing moves, and what is held stays as it is
  have hstill : t.takes frameSource a = 0 → t.delivers frameSource a = [] →
      t'.unwritten = t.unwritten →
      t.accepts frameSource a ++ t'.unwritten = t.unwritten ++ t.delivers frameSource a := by
    intro h1 h2 h3
    rw [accepts_of_none h1, h2, h3, List.nil_append, List.append_nil]
  cases ht with
  | blocked hw hnone => exact .inl (hstill hnone (delivers_of_writes hw) rfl)
  | tookFrame n hw hfs hn =>
    left
    obtain ⟨f, hf⟩ := Option.isSome_iff_exists.mp
      (show t.frame.isSome = true by simpa [writes, hfs, phase_of_writes hw] using hw)
    have hbuf := (h.frames hfs).1
    have hrest : ((t.unpark.advanceFrame n).wrote a.now).unwritten = f.drop n := by
      have hheld : ((t.unpark.advanceFrame n).wrote a.now).unwritten =
          (t.unpark.advanceFrame n).frame.getD [] := unwritten_of_frames hbuf
      rw [hheld]
      change (t.frame.bind fun f => if (f.drop n).isEmpty then none else some (f.drop n)).getD [] = _
      rw [hf, Option.bind_some]
      split_ifs with hempty
      · exact (List.isEmpty_iff.mp hempty).symm
      · rfl
    rw [hrest, accepts, hn, delivers_of_writes hw, unwritten_of_frames hbuf, hf, Option.getD_some,
      List.take_append_drop, List.append_nil]
  | tookBuffer n hw hfs hn =>
    left
    have hrest : ((t.unpark.advancePos n).wrote a.now).unwritten = t.unwritten.drop n := by
      rw [unwritten_of_buffered (h.buffered hfs), List.drop_drop]
      exact unwritten_of_buffered (h.buffered hfs)
    rw [hrest, accepts, hn, delivers_of_writes hw, List.take_append_drop, List.append_nil]
  | failed t₀ e => exact .inr ⟨Phase.noConfusion, result_report t₀ e⟩
  | gotFrame f hr hfs hf =>
    left
    rw [accepts_of_none (takes_of_reads hr a), h.unwritten_of_reads hr, hf, List.nil_append,
      List.nil_append]
    exact unwritten_of_frames (h.frames hfs).1
  | gotBuffer parked needFlush flow hr hfs =>
    left
    have hd : t.delivers frameSource a = a.filled := by
      unfold delivers
      rw [if_pos hr, hfs, if_neg Bool.false_ne_true]
    rw [accepts_of_none (takes_of_reads hr a), h.unwritten_of_reads hr, hd, List.nil_append,
      List.nil_append]
    exact unwritten_of_filled (h.buffered hfs) rfl rfl rfl
  | nothing hr hfs hnone => exact .inl (hstill (takes_of_reads hr a) hnone rfl)
  | quietFrame parked needFlush hr hfs hnone => exact .inl (hstill (takes_of_reads hr a) hnone rfl)
  | quietBuffer parked needFlush hr hfs hnone =>
    refine .inl (hstill (takes_of_reads hr a) hnone ?_)
    rw [h.unwritten_of_reads hr, unwritten_of_frames rfl]
    exact congrArg (·.getD []) (h.buffered hfs)
  | ended t₀ hr hnone =>
    exact .inl (hstill (takes_of_reads hr a) hnone (h.unwritten_of_reads hr).symm)
  | flushBlocked hp =>
    obtain ⟨h1, h2⟩ := @idle_of_over _ frameSource t (by rw [hp]; exact Phase.noConfusion) a
    exact .inl (hstill h1 h2 rfl)
  | flushed result hp =>
    obtain ⟨h1, h2⟩ := @idle_of_over _ frameSource t (by rw [hp]; exact Phase.noConfusion) a
    exact .inl (hstill h1 h2 rfl)
  | done hp =>
    obtain ⟨h1, h2⟩ := @idle_of_over _ frameSource t (by rw [hp]; exact Phase.noConfusion) a
    exact .inl (hstill h1 h2 rfl)

theorem Turned.sticks (ht : Turned frameSource t a t' flow) :
    (t.phase ≠ .copying → t'.phase ≠ .copying) ∧ (t.result ≠ none → t'.result ≠ none) := by
  cases ht with
  | failed t₀ e => exact ⟨fun _ => Phase.noConfusion, fun _ => result_report t₀ e⟩
  | ended t₀ hr hnone hsame => exact ⟨fun _ => Phase.noConfusion, fun hres => by rwa [← hsame] at hres⟩
  | flushed result hp hsticks => exact ⟨fun _ => Phase.noConfusion, hsticks⟩
  | _ => exact ⟨id, id⟩

theorem Shape.resting (h : t.Shape frameSource) (ht : Turned frameSource t a t' flow)
    (hflow : flow ≠ .again) (hempty : t'.unwritten = []) : t'.buf = none := by
  cases ht with
  | blocked hw => exact absurd hempty (h.unwritten_ne_nil hw)
  | gotBuffer parked needFlush flow hr hfs hne =>
    have hfilled : (t.holdFilled a).unwritten = a.filled :=
      unwritten_of_filled (h.buffered hfs) rfl rfl rfl
    exact absurd (hfilled.symm.trans hempty) hne
  | quietFrame parked needFlush hr hfs => exact (h.frames hfs).1
  | quietBuffer => rfl
  | flushBlocked hp => exact (h.stopped (by rw [hp]; exact Phase.noConfusion)).1
  | done hp => exact (h.stopped (by rw [hp]; exact Phase.noConfusion)).1
  | _ => exact absurd rfl hflow

theorem Turned.movedAt (ht : Turned frameSource t a t' flow) :
    t'.movedAt = if t.takes frameSource a = 0 then t.movedAt else a.now := by
  cases ht with
  | blocked hw hnone => exact (if_pos hnone).symm
  | tookFrame n hw hfs hn hpos => exact (if_neg (hn ▸ hpos)).symm
  | tookBuffer n hw hfs hn hpos => exact (if_neg (hn ▸ hpos)).symm
  | failed t₀ e hnone hmoved => exact hmoved.trans (if_pos hnone).symm
  | gotFrame f hr => exact (if_pos (takes_of_reads hr a)).symm
  | gotBuffer parked needFlush flow hr => exact (if_pos (takes_of_reads hr a)).symm
  | nothing hr => exact (if_pos (takes_of_reads hr a)).symm
  | quietFrame parked needFlush hr => exact (if_pos (takes_of_reads hr a)).symm
  | quietBuffer parked needFlush hr => exact (if_pos (takes_of_reads hr a)).symm
  | ended t₀ hr hnone hsame hmoved => exact hmoved.trans (if_pos (takes_of_reads hr a)).symm
  | flushBlocked hp =>
    exact (if_pos (idle_of_over (by rw [hp]; exact Phase.noConfusion) a).1).symm
  | flushed result hp =>
    exact (if_pos (idle_of_over (by rw [hp]; exact Phase.noConfusion) a).1).symm
  | done hp => exact (if_pos (idle_of_over (by rw [hp]; exact Phase.noConfusion) a).1).symm

end Transfer

end Kcptun.Pipe
