/- Kcptun/Fec/AutoTune
   source: crates/kcp/src/autotune.rs
   digest: The ring of the latest samples and the pulse widths measured in it; what the ring holds
     after any number of samples. -/

import Kcptun.Arq.Segment
import Kcptun.Fec.Gosort

set_option autoImplicit false
set_option relaxedAutoImplicit false

namespace Kcptun.Fec

open Kcptun.Lib Kcptun.Arq

/-- Size of the sample ring: 256 and 2 extra for edge detection. -/
def MAX_AUTO_TUNE_SAMPLES : ℕ := 258

/-- One sample: a signal (data shard or not) with its sequence number. -/
structure Pulse where
  bit : Bool
  seq : UInt32
  deriving DecidableEq, Repr

/-- The ring of samples: `head` is the oldest one, `tail` the next write position. -/
structure AutoTune where
  pulses : List Pulse
  head : ℕ
  tail : ℕ
  count : ℕ
  deriving DecidableEq, Repr

/-- The index of the first element that continues the run and makes an edge, `idx` being the index
of the second element of the list; `none` also when the run breaks off before. -/
def findEdge (edge : Pulse → Pulse → Bool) : ℕ → List Pulse → Option ℕ
  | idx, lastPulse :: p :: rest =>
    if lastPulse.seq + 1 = p.seq then
      if edge lastPulse p then some idx else findEdge edge (idx + 1) (p :: rest)
    else none
  | _, _ => none

/-- The width of the first complete pulse of `bit` in a sorted list of samples. -/
def pulseWidth (bit : Bool) (sorted : List Pulse) : Option ℕ := do
  let leftEdge ← findEdge (fun lastPulse p => lastPulse.bit != bit && p.bit == bit) 1 sorted
  let rightEdge ← findEdge (fun lastPulse p => lastPulse.bit == bit && p.bit != bit) (leftEdge + 1)
    (sorted.drop leftEdge)
  return rightEdge - leftEdge

def Pulse.before (_ : Unit) (a b : Pulse) : Bool × Unit := (itimediff a.seq b.seq < 0, ())

/-- `gosort::slice` of the samples. -/
def sortPulses (pulses : List Pulse) : List Pulse :=
  ((Gosort.slice Pulse.before pulses ()).map Prod.fst).getD pulses

namespace AutoTune

def new : AutoTune where
  pulses := List.replicate MAX_AUTO_TUNE_SAMPLES ⟨false, 0⟩
  head := 0
  tail := 0
  count := 0

/-- Adds a sample; when the ring is full the oldest sample is discarded. -/
def sample (t : AutoTune) (bit : Bool) (seq : UInt32) : AutoTune where
  pulses := t.pulses.set t.tail ⟨bit, seq⟩
  tail := (t.tail + 1) % MAX_AUTO_TUNE_SAMPLES
  count := if t.count < MAX_AUTO_TUNE_SAMPLES then t.count + 1 else t.count
  head := if t.count < MAX_AUTO_TUNE_SAMPLES then t.head
    else (t.head + 1) % MAX_AUTO_TUNE_SAMPLES

/-- The samples in the ring, oldest first. -/
def window (t : AutoTune) : List Pulse :=
  (List.range t.count).map fun i =>
    t.pulses.getD ((t.head + i) % MAX_AUTO_TUNE_SAMPLES) ⟨false, 0⟩

/-- Finds the period of the given signal, -1 if there is none. -/
def findPeriod (t : AutoTune) (bit : Bool) : Int :=
  if t.count < 3 then -1
  else ((pulseWidth bit (sortPulses t.window)).map Int.ofNat).getD (-1)

structure Ok (t : AutoTune) : Prop where
  length : t.pulses.length = MAX_AUTO_TUNE_SAMPLES
  head_lt : t.head < MAX_AUTO_TUNE_SAMPLES
  count_le : t.count ≤ MAX_AUTO_TUNE_SAMPLES
  tail_eq : t.tail = (t.head + t.count) % MAX_AUTO_TUNE_SAMPLES

theorem ok_new : new.Ok := by
  refine ⟨List.length_replicate, ?_, ?_, rfl⟩ <;> decide

theorem Ok.sample {t : AutoTune} (h : t.Ok) (bit : Bool) (seq : UInt32) : (t.sample bit seq).Ok := by
  obtain ⟨hlen, hhead, hcount, htail⟩ := h
  unfold MAX_AUTO_TUNE_SAMPLES at *
  unfold AutoTune.sample MAX_AUTO_TUNE_SAMPLES
  refine ⟨?_, ?_, ?_, ?_⟩
  · simpa [MAX_AUTO_TUNE_SAMPLES] using hlen
  all_goals
    dsimp only [MAX_AUTO_TUNE_SAMPLES]
    split_ifs <;> omega

@[simp] theorem length_window (t : AutoTune) : t.window.length = t.count := by
  simp [window]

private theorem getElem?_window (t : AutoTune) {i : ℕ} (hi : i < t.count) :
    t.window[i]? = some (t.pulses.getD ((t.head + i) % MAX_AUTO_TUNE_SAMPLES) ⟨false, 0⟩) := by
  simp [window, hi]

private theorem Ok.window_sample {t : AutoTune} (h : t.Ok) (bit : Bool) (seq : UInt32) :
    (t.sample bit seq).window =
      (t.window ++ [(⟨bit, seq⟩ : Pulse)]).drop (t.count + 1 - MAX_AUTO_TUNE_SAMPLES) := by
  obtain ⟨hlen, hhead, hcount, htail⟩ := h
  have hcount' : (t.sample bit seq).count = t.count + 1 - (t.count + 1 - MAX_AUTO_TUNE_SAMPLES) := by
    unfold AutoTune.sample
    dsimp only
    split_ifs <;> omega
  apply List.ext_getElem?
  intro i
  rw [List.getElem?_drop]
  rcases Nat.lt_or_ge i (t.sample bit seq).count with hi | hi
  · rw [getElem?_window _ hi]
    set k := t.count + 1 - MAX_AUTO_TUNE_SAMPLES with hk
    have hhead' : ((t.sample bit seq).head + i) % MAX_AUTO_TUNE_SAMPLES =
        (t.head + (k + i)) % MAX_AUTO_TUNE_SAMPLES := by
      unfold AutoTune.sample MAX_AUTO_TUNE_SAMPLES at *
      dsimp only
      split_ifs <;> omega
    rw [hhead']
    change some ((t.pulses.set t.tail ⟨bit, seq⟩).getD _ _) = _
    rcases Nat.lt_or_ge (k + i) t.count with hlt | hge
    · rw [List.getElem?_append_left (by rwa [length_window]), getElem?_window t hlt,
        List.getD_eq_getElem?_getD, List.getElem?_set_ne, ← List.getD_eq_getElem?_getD]
      rw [htail]
      unfold MAX_AUTO_TUNE_SAMPLES at *
      omega
    · have heq : k + i = t.count := by omega
      have hlt : t.tail < t.pulses.length := by
        rw [htail, hlen]
        exact Nat.mod_lt _ (by decide)
      rw [heq, ← htail, List.getElem?_append_right (by rw [length_window]), length_window,
        Nat.sub_self, List.getD_eq_getElem?_getD, List.getElem?_set_self hlt]
      rfl
  · rw [List.getElem?_eq_none (by rwa [length_window]), List.getElem?_eq_none]
    rw [List.length_append, length_window, List.length_singleton]
    omega

def samples (t : AutoTune) (pulses : List Pulse) : AutoTune :=
  pulses.foldl (fun t p => t.sample p.bit p.seq) t

theorem Ok.window_samples {t : AutoTune} (h : t.Ok) (pulses : List Pulse) :
    (t.samples pulses).window =
      (t.window ++ pulses).drop (t.count + pulses.length - MAX_AUTO_TUNE_SAMPLES) := by
  induction pulses generalizing t with
  | nil =>
    have := h.count_le
    rw [List.append_nil, List.length_nil, Nat.add_zero, Nat.sub_eq_zero_of_le this]
    rfl
  | cons p pulses ih =>
    have hcount : (t.sample p.bit p.seq).count =
        t.count + 1 - (t.count + 1 - MAX_AUTO_TUNE_SAMPLES) := by
      have hle := h.count_le
      unfold AutoTune.sample
      dsimp only
      split_ifs <;> omega
    have hle := h.count_le
    change ((t.sample p.bit p.seq).samples pulses).window = _
    set k := t.count + 1 - MAX_AUTO_TUNE_SAMPLES with hk
    have hsplit : (t.window ++ [p]).drop k ++ pulses = (t.window ++ [p] ++ pulses).drop k := by
      refine (List.drop_append_of_le_length ?_).symm
      rw [List.length_append, length_window, List.length_singleton]
      omega
    have hsum : k + (t.count + 1 - k + pulses.length - MAX_AUTO_TUNE_SAMPLES) =
        t.count + (p :: pulses).length - MAX_AUTO_TUNE_SAMPLES := by
      rw [List.length_cons]
      omega
    rw [ih (h.sample p.bit p.seq), h.window_sample, hcount, List.append_cons t.window p pulses, hsplit,
      List.drop_drop, hsum]

end AutoTune

end Kcptun.Fec
