/- Kcptun/Arq/ScanBound
   source: crates/kcp/src/kcp.rs (FlushScan, ScanBound, flush)
   digest: What the summary of the last scan promises about the segments it covers, that a scan
     establishes the promise, and that it makes skipping them a no-op. -/

import Kcptun.Arq.Input

set_option autoImplicit false
set_option relaxedAutoImplicit false

namespace Kcptun.Arq

open Kcptun.Lib Kcptun.Lib.LittleEndian
open Kcptun.Lib.Serial (Stands)

/-- A clock whose readings are the wrapped milliseconds of a time that never goes back. -/
class TrueClock (C : Type) extends Clock C where
  time : C → ℕ
  reading : ∀ c, (nowMs c).1 = UInt32.ofNat (time (nowMs c).2)
  mono : ∀ c, time c ≤ time (nowMs c).2

instance : TrueClock VirtualClock where
  time c := c.now.toNat
  reading c := (UInt32.ofNat_toNat (x := c.now)).symm
  mono _ := le_rfl

/-- A clock that moves on by a millisecond whenever it is read. -/
structure Ticking where
  now : ℕ
  deriving DecidableEq, Repr

instance : TrueClock Ticking where
  nowMs c := (UInt32.ofNat (c.now + 1), ⟨c.now + 1⟩)
  time c := c.now
  reading _ := rfl
  mono c := Nat.le_succ c.now

/-- How far a timer may be from the clock: half of what the wrapping comparison tells apart. -/
def HORIZON : Int := 1073741824

def Near (a b : UInt32) : Prop := -HORIZON ≤ itimediff a b ∧ itimediff a b ≤ HORIZON

instance (a b : UInt32) : Decidable (Near a b) := inferInstanceAs (Decidable (_ ∧ _))

/-- The segments a summary speaks about: all but the tail it counts as never transmitted. -/
def FlushScan.covered (f : FlushScan) (items : List Segment) : List Segment :=
  items.take (items.length - f.unsent)

def Segment.Quiet (seg : Segment) : Prop := seg.fastack = 0 ∨ seg.fastack = 0xFFFFFFFF

/-- The retransmission time of the segment, as an integer: not before `due` and not further ahead
of `now` than the horizon. -/
def Segment.NotDue (seg : Segment) (due : Int) (now : ℕ) : Prop :=
  ∃ R : Int, Stands seg.resendts R ∧ due ≤ R ∧ R ≤ now + HORIZON

/-- What `due` promises about the covered segments; `last` is when the last full flush read the
clock. -/
def ScanBound.Holds (due : ScanBound) (covered : List Segment) (now : ℕ) (last : Option ℕ) : Prop :=
  match due with
  | .unknown => True
  | .nothing => ∀ seg ∈ covered, seg.acked = true
  | .notBefore ts => ∃ l D, last = some l ∧ Stands ts D ∧ l - HORIZON ≤ D ∧ D ≤ l + HORIZON ∧
      ∀ seg ∈ covered, seg.acked = false → seg.NotDue D now

structure FlushScan.Holds (f : FlushScan) (items : List Segment) (now : ℕ) (last : Option ℕ) :
    Prop where
  sent : f.due ≠ .unknown → ∀ seg ∈ f.covered items, seg.xmit ≠ 0
  due : f.due.Holds (f.covered items) now last
  fast : f.noFastack = true → ∀ seg ∈ f.covered items, seg.acked = false → seg.Quiet

private theorem Segment.NotDue.later {seg : Segment} {due : Int} {now now' : ℕ}
    (h : seg.NotDue due now) (hle : now ≤ now') : seg.NotDue due now' := by
  obtain ⟨R, hR, hlo, hhi⟩ := h
  exact ⟨R, hR, hlo, by omega⟩

theorem ScanBound.Holds.sub {due : ScanBound} {covered covered' : List Segment} {now now' : ℕ}
    {last : Option ℕ} (h : due.Holds covered now last) (hnow : now ≤ now')
    (hsub : ∀ seg' ∈ covered', seg'.acked = false →
      ∃ seg ∈ covered, seg.acked = false ∧ seg'.resendts = seg.resendts) :
    due.Holds covered' now' last := by
  cases due with
  | unknown => trivial
  | nothing =>
    intro seg' hseg'
    by_contra hne
    obtain ⟨seg, hseg, hacked, -⟩ := hsub seg' hseg' (by simpa using hne)
    rw [h seg hseg] at hacked
    cases hacked
  | notBefore ts =>
    obtain ⟨l, D, hl, hts, hlo, hhi, hall⟩ := h
    refine ⟨l, D, hl, hts, hlo, hhi, ?_⟩
    intro seg' hseg' ha'
    obtain ⟨seg, hseg, ha, hre⟩ := hsub seg' hseg' ha'
    obtain ⟨R, hR, hlo', hhi'⟩ := (hall seg hseg ha).later hnow
    exact ⟨R, hre ▸ hR, hlo', hhi'⟩

theorem FlushScan.Holds.later {f : FlushScan} {items : List Segment} {now now' : ℕ}
    {last : Option ℕ} (h : f.Holds items now last) (hnow : now ≤ now') :
    f.Holds items now' last :=
  ⟨h.sent, h.due.sub hnow fun seg hseg ha => ⟨seg, hseg, ha, rfl⟩, h.fast⟩

/-- A bound that may be skipped on keeps every covered segment away from the four retransmit
branches and from the nearest deadline. -/
theorem FlushScan.Holds.skip {f : FlushScan} {items : List Segment} {now cur : ℕ}
    {last : Option ℕ} {interval : UInt32} (h : f.Holds items now last) (hnow : now ≤ cur)
    (hgap : ∀ l, last = some l → l ≤ cur ∧ (cur : Int) < l + HORIZON)
    (hskip : f.canSkip (UInt32.ofNat cur) interval = true) {seg : Segment}
    (hseg : seg ∈ f.covered items) (hacked : seg.acked = false) :
    seg.xmit ≠ 0 ∧ seg.Quiet ∧ 0 < itimediff seg.resendts (UInt32.ofNat cur) ∧
      (interval.toNat : Int) ≤ itimediff seg.resendts (UInt32.ofNat cur) := by
  have hcur := Serial.stands_ofNat cur
  obtain ⟨hsent, hdue, hfast⟩ := h
  unfold canSkip at hskip
  split_ifs at hskip with hoff
  rw [Bool.or_eq_true, Bool.not_eq_true', Bool.not_eq_true', not_or, Bool.not_eq_false,
    Bool.not_eq_false] at hoff
  have hquiet := hfast hoff.2 seg hseg hacked
  cases hd : f.due with
  | unknown => simp [hd] at hskip
  | nothing =>
    rw [hd] at hdue
    rw [hdue seg hseg] at hacked
    cases hacked
  | notBefore ts =>
    rw [hd] at hdue
    obtain ⟨l, D, hl, hts, hlo, hhi, hall⟩ := hdue
    obtain ⟨hle, hlt⟩ := hgap l hl
    obtain ⟨R, hR, hDR, hRn⟩ := hall seg hseg hacked
    simp only [hd, Bool.and_eq_true, decide_eq_true_eq] at hskip
    unfold HORIZON at *
    have hdue : itimediff ts (UInt32.ofNat cur) = D - cur :=
      Serial.diff_of_stands hts hcur (by omega) (by omega)
    rw [hdue] at hskip
    have hseg' : itimediff seg.resendts (UInt32.ofNat cur) = R - cur :=
      Serial.diff_of_stands hR hcur (by omega) (by omega)
    rw [hseg']
    exact ⟨hsent (by rw [hd]; simp) seg hseg, hquiet, by omega, by omega⟩

section Loop

variable {O C : Type} [Output O]

namespace Scan

/-- The same variables with another summary, which only the next flush reads. -/
def withSummary (s : Scan O C) (minRto : Int) (scanFastack : Bool) (scanUnsent : ℕ) : Scan O C :=
  { s with minRto := minRto, scanFastack := scanFastack, scanUnsent := scanUnsent }

def Like (s t : Scan O C) : Prop := ∃ minRto scanFastack scanUnsent,
  t = s.withSummary minRto scanFastack scanUnsent

omit [Output O] in
theorem Like.refl (s : Scan O C) : s.Like s := ⟨_, _, _, rfl⟩

omit [Output O] in
private theorem Like.trans {s t u : Scan O C} (h : s.Like t) (h' : t.Like u) : s.Like u := by
  obtain ⟨_, _, _, rfl⟩ := h
  obtain ⟨_, _, _, rfl⟩ := h'
  exact ⟨_, _, _, rfl⟩

omit [Output O] in
private theorem Like.current {s t : Scan O C} (h : s.Like t) : t.current = s.current := by
  obtain ⟨_, _, _, rfl⟩ := h
  rfl

omit [Output O] in
private theorem Like.noteScanned {s t : Scan O C} (h : s.Like t) (seg : Segment) (rto rto' : Int) :
    ((s.nearest rto).noteScanned seg rto').Like ((t.nearest rto).noteScanned seg rto') := by
  obtain ⟨a, b, c, rfl⟩ := h
  have hnearest : (s.withSummary a b c).nearest rto = (s.nearest rto).withSummary a b c := by
    unfold nearest withSummary
    dsimp only
    split_ifs <;> rfl
  rw [hnearest]
  exact ⟨_, _, _, rfl⟩

private theorem Like.askRoom {s t : Scan O C} (h : s.Like t) (env : ScanEnv) (seg : Segment) :
    (s.askRoom env seg).Like (t.askRoom env seg) := by
  obtain ⟨a, b, c, rfl⟩ := h
  refine ⟨a, b, c, ?_⟩
  unfold Scan.askRoom withSummary
  dsimp only
  split_ifs <;> rfl

private theorem Like.segment [Clock C] {s t : Scan O C} (h : s.Like t) (env : ScanEnv)
    (seg : Segment) : (s.segment env seg).1.Like (t.segment env seg).1 ∧
      (t.segment env seg).2 = (s.segment env seg).2 := by
  have hask := h.askRoom env seg
  have hcur := h.current
  have hback : (t.askRoom env seg).backpressured = (s.askRoom env seg).backpressured := by
    obtain ⟨_, _, _, heq⟩ := hask
    rw [heq]
    rfl
  rcases s.segment_cases env seg with ha | ⟨ha, hb⟩ | ⟨ha, hb, hm⟩ | ⟨marked, why, ha, hb, hm⟩
  · rw [segment_acked env s ha, segment_acked env t ha]
    obtain ⟨_, _, _, rfl⟩ := h
    exact ⟨⟨_, _, _, rfl⟩, rfl⟩
  · rw [segment_held env s ha hb, segment_held env t ha (hback.trans hb), hcur]
    exact ⟨hask.noteScanned seg _ _, rfl⟩
  · rw [segment_idle env s ha hb hm, segment_idle env t ha (hback.trans hb) (by rw [hcur, hm]), hcur]
    exact ⟨hask.noteScanned seg _ _, rfl⟩
  · rw [segment_sent env s ha hb hm, segment_sent env t ha (hback.trans hb) (by rw [hcur, hm])]
    obtain ⟨_, _, _, heq⟩ := hask
    rw [heq]
    exact ⟨Like.noteScanned ⟨_, _, _, rfl⟩ _ _ _, rfl⟩

theorem Like.loop [Clock C] {s t : Scan O C} (h : s.Like t) (env : ScanEnv)
    (items : List Segment) :
    (s.loop env items).1.Like (t.loop env items).1 ∧
      (t.loop env items).2 = (s.loop env items).2 := by
  induction items generalizing s t with
  | nil => exact ⟨h, rfl⟩
  | cons seg rest ih =>
    obtain ⟨hlike, hseg⟩ := h.segment env seg
    obtain ⟨hlike', hrest⟩ := ih hlike
    refine ⟨hlike', ?_⟩
    simp only [Scan.loop, hseg, hrest]

theorem loop_append [Clock C] (s : Scan O C) (env : ScanEnv) (xs ys : List Segment) :
    s.loop env (xs ++ ys) = (((s.loop env xs).1.loop env ys).1,
      (s.loop env xs).2 ++ ((s.loop env xs).1.loop env ys).2) := by
  induction xs generalizing s with
  | nil => rfl
  | cons seg rest ih => simp [Scan.loop, ih]

def Skippable (env : ScanEnv) (s : Scan O C) (seg : Segment) : Prop :=
  seg.acked = true ∨ (wouldSend env s.current seg = false ∧
    (s.nextUpdate.toNat : Int) ≤ itimediff seg.resendts s.current)

omit [Output O] in
private theorem Skippable.like {env : ScanEnv} {s t : Scan O C} {seg : Segment}
    (h : s.Skippable env seg) (hlike : s.Like t) : t.Skippable env seg := by
  obtain ⟨_, _, _, rfl⟩ := hlike
  exact h

private theorem Skippable.segment [Clock C] {env : ScanEnv} {s : Scan O C} {seg : Segment}
    (h : s.Skippable env seg) (hs : s.backpressured = false) :
    s.Like (s.segment env seg).1 ∧ (s.segment env seg).2 = seg := by
  cases ha : seg.acked with
  | true =>
    rw [segment_acked env s ha]
    exact ⟨⟨_, _, _, rfl⟩, rfl⟩
  | false =>
    obtain hacked | ⟨hwould, hlate⟩ := h
    · rw [hacked] at ha
      cases ha
    · have hask : s.askRoom env seg = s := by
        unfold Scan.askRoom
        rw [hwould, Bool.and_false, if_neg Bool.false_ne_true]
      have hmark : mark env s.current seg = none := by
        rcases hm : mark env s.current seg with _ | ⟨marked, why⟩
        · rfl
        · rw [wouldSend_of_mark hm] at hwould
          cases hwould
      have hnearest : s.nearest (itimediff seg.resendts s.current) = s := by
        unfold Scan.nearest
        rw [if_neg (by omega)]
      rw [segment_idle env s ha (by rw [hask, hs]) hmark, hask, hnearest]
      exact ⟨⟨_, _, _, rfl⟩, rfl⟩

theorem loop_skippable [Clock C] (env : ScanEnv) (s : Scan O C) (hs : s.backpressured = false)
    (items : List Segment) (h : ∀ seg ∈ items, s.Skippable env seg) :
    s.Like (s.loop env items).1 ∧ (s.loop env items).2 = items := by
  induction items generalizing s with
  | nil => exact ⟨.refl s, rfl⟩
  | cons seg rest ih =>
    obtain ⟨hlike, hseg⟩ := (h seg List.mem_cons_self).segment hs
    have hs' : (s.segment env seg).1.backpressured = false := by
      obtain ⟨_, _, _, heq⟩ := hlike
      rw [heq]
      exact hs
    obtain ⟨hlike', hrest⟩ := ih (s.segment env seg).1 hs' fun seg' hseg' =>
      (h seg' (List.mem_cons_of_mem _ hseg')).like hlike
    refine ⟨hlike.trans hlike', ?_⟩
    simp only [Scan.loop, hseg, hrest]

variable [TrueClock C]

/-- Every transmitted unacknowledged segment is within the horizon of the clock when the loop
leaves it. -/
def Timely (env : ScanEnv) : Scan O C → List Segment → Prop
  | _, [] => True
  | s, seg :: rest =>
    ((s.segment env seg).2.acked = false →
      (s.segment env seg).2.xmit ≠ 0 ∨ (s.segment env seg).2 ≠ seg →
      Near (s.segment env seg).2.resendts (s.segment env seg).1.current) ∧
    Timely env (s.segment env seg).1 rest

instance decidableTimely (env : ScanEnv) : (s : Scan O C) → (items : List Segment) →
    Decidable (s.Timely env items)
  | _, [] => isTrue trivial
  | s, seg :: rest =>
    have := decidableTimely env (s.segment env seg).1 rest
    inferInstanceAs (Decidable ((_ → _ → _) ∧ _))

theorem Timely.like {env : ScanEnv} {s t : Scan O C} {items : List Segment}
    (h : s.Timely env items) (hlike : s.Like t) : t.Timely env items := by
  induction items generalizing s t with
  | nil => trivial
  | cons seg rest ih =>
    obtain ⟨hlike', hseg⟩ := hlike.segment env seg
    refine ⟨?_, ih h.2 hlike'⟩
    rw [hseg, hlike'.current]
    exact h.1

theorem Timely.append {env : ScanEnv} {s : Scan O C} {xs ys : List Segment}
    (h : s.Timely env (xs ++ ys)) : (s.loop env xs).1.Timely env ys := by
  induction xs generalizing s with
  | nil => exact h
  | cons seg rest ih => exact ih h.2

/-- What the summary of a loop that started at `base` says about the segments it has left. -/
structure Learnt (base : ℕ) (s : Scan O C) (left : List Segment) : Prop where
  clock : s.current = UInt32.ofNat (TrueClock.time s.clock)
  base_le : base ≤ TrueClock.time s.clock
  range : s.minRto = I32_MAX ∨ (-HORIZON ≤ s.minRto ∧ s.minRto ≤ HORIZON)
  due : ∀ seg ∈ left, seg.acked = false → seg.xmit ≠ 0 →
    s.minRto ≠ I32_MAX ∧ seg.NotDue (base + s.minRto) (TrueClock.time s.clock)
  unsent : s.scanUnsent = left.countP fun seg => seg.xmit = 0
  fast : s.scanFastack = false → ∀ seg ∈ left, seg.acked = false → seg.Quiet

omit [Output O] in
private theorem Learnt.congr {base : ℕ} {s t : Scan O C} {left : List Segment}
    (h : s.Learnt base left)
    (hclock : t.clock = s.clock) (hcur : t.current = s.current) (hmin : t.minRto = s.minRto)
    (hfast : t.scanFastack = s.scanFastack) (hunsent : t.scanUnsent = s.scanUnsent) :
    t.Learnt base left := by
  obtain ⟨h1, h2, h3, h4, h5, h6⟩ := h
  exact ⟨by rw [hcur, hclock, h1], by rw [hclock]; exact h2, by rw [hmin]; exact h3,
    by rw [hmin, hclock]; exact h4, by rw [hunsent, h5], by rw [hfast]; exact h6⟩

omit [Output O] in
private theorem Learnt.nearest {base : ℕ} {s : Scan O C} {left : List Segment}
    (h : s.Learnt base left) (rto : Int) : (s.nearest rto).Learnt base left := by
  unfold Scan.nearest
  split_ifs
  · exact h.congr rfl rfl rfl rfl rfl
  · exact h

private theorem Learnt.askRoom {base : ℕ} {s : Scan O C} {left : List Segment}
    (h : s.Learnt base left)
    (env : ScanEnv) (seg : Segment) : (s.askRoom env seg).Learnt base left := by
  unfold Scan.askRoom
  split_ifs
  · exact h.congr rfl rfl rfl rfl rfl
  · exact h

private theorem quiet_of_sub_one {fastack : UInt32} (h : ¬ fastack - 1 < 0xFFFFFFFE) :
    fastack = 0 ∨ fastack = 0xFFFFFFFF := by
  rw [UInt32.lt_iff_toNat_lt, UInt32.toNat_sub] at h
  have hlt := fastack.toNat_lt
  have h1 : (1 : UInt32).toNat = 1 := rfl
  have h2 : (0xFFFFFFFE : UInt32).toNat = 4294967294 := rfl
  have : fastack.toNat = 0 ∨ fastack.toNat = 4294967295 := by omega
  exact this.imp (fun h => UInt32.toNat_inj.mp h) (fun h => UInt32.toNat_inj.mp h)

omit [Output O] in
private theorem Learnt.noteScanned {base : ℕ} {s : Scan O C} {left : List Segment}
    (h : s.Learnt base left) {seg : Segment} {rto : Int}
    (hrto : (rto = I32_MAX ∧ seg.xmit = 0) ∨
      (rto = itimediff seg.resendts s.current ∧ Near seg.resendts s.current)) :
    (s.noteScanned seg rto).Learnt base (left ++ [seg]) := by
  obtain ⟨hclock, hbase, hrange, hdue, hunsent, hfast⟩ := h
  have hmin : (s.noteScanned seg rto).minRto = min s.minRto rto := rfl
  have hmax : (HORIZON : Int) < I32_MAX := by decide
  have hrto' : rto = I32_MAX ∨ (-HORIZON ≤ rto ∧ rto ≤ HORIZON) :=
    hrto.imp And.left fun h => by
      rw [h.1]
      exact h.2
  refine ⟨hclock, hbase, ?_, ?_, ?_, ?_⟩
  · rw [hmin]
    omega
  · intro seg' hseg' ha hx
    rw [hmin]
    rcases List.mem_append.mp hseg' with hmem | hmem
    · obtain ⟨hne, R, hR, hlo, hhi⟩ := hdue seg' hmem ha hx
      exact ⟨by omega, R, hR, by omega, hhi⟩
    · rw [List.mem_singleton] at hmem
      subst hmem
      obtain ⟨-, hzero⟩ | ⟨heq, hnear⟩ := hrto
      · exact absurd hzero hx
      · unfold Near at hnear
        rw [← heq] at hnear
        have hstands : Stands seg'.resendts (TrueClock.time s.clock + rto) := by
          rw [heq, hclock]
          exact Serial.stands_add_diff (Serial.stands_ofNat _)
        refine ⟨by omega, _, hstands, by omega, ?_⟩
        have hclock' : TrueClock.time (s.noteScanned seg' rto).clock = TrueClock.time s.clock := rfl
        rw [hclock']
        omega
  · rw [List.countP_append, ← hunsent]
    simp [Scan.noteScanned, noteTail]
  · intro hfalse seg' hseg' ha
    simp only [Scan.noteScanned, Bool.or_eq_false_iff, decide_eq_false_iff_not] at hfalse
    rcases List.mem_append.mp hseg' with hmem | hmem
    · exact hfast hfalse.1 seg' hmem ha
    · rw [List.mem_singleton] at hmem
      subst hmem
      exact quiet_of_sub_one hfalse.2

omit [Output O] in
private theorem Learnt.noteTail {base : ℕ} {s : Scan O C} {left : List Segment}
    (h : s.Learnt base left)
    {seg : Segment} (ha : seg.acked = true) : (s.noteTail seg).Learnt base (left ++ [seg]) := by
  have hmem : ∀ seg' ∈ left ++ [seg], seg'.acked = false → seg' ∈ left := by
    intro seg' hseg' ha'
    rcases List.mem_append.mp hseg' with hmem | hmem
    · exact hmem
    · rw [List.mem_singleton.mp hmem, ha] at ha'
      cases ha'
  refine ⟨h.clock, h.base_le, h.range, fun seg' hseg' ha' => h.due seg' (hmem seg' hseg' ha') ha',
    ?_, fun hfalse seg' hseg' ha' => h.fast hfalse seg' (hmem seg' hseg' ha') ha'⟩
  rw [List.countP_append, ← h.unsent]
  simp [Scan.noteTail]

private theorem Learnt.transmit {base : ℕ} {s : Scan O C} {left : List Segment}
    (h : s.Learnt base left) (env : ScanEnv) (seg : Segment) (why : Resend) :
    (s.transmit env seg why).1.Learnt base left := by
  have hlater := TrueClock.mono s.clock
  refine ⟨TrueClock.reading s.clock, h.base_le.trans hlater, h.range, ?_, h.unsent, h.fast⟩
  intro seg' hseg' ha' hx
  obtain ⟨hne, hdue⟩ := h.due seg' hseg' ha' hx
  exact ⟨hne, hdue.later hlater⟩

private theorem Learnt.segment {base : ℕ} {s : Scan O C} {left : List Segment}
    (h : s.Learnt base left)
    {env : ScanEnv} {seg : Segment} (htimely : (s.segment env seg).2.acked = false →
      (s.segment env seg).2.xmit ≠ 0 ∨ (s.segment env seg).2 ≠ seg →
      Near (s.segment env seg).2.resendts (s.segment env seg).1.current) :
    (s.segment env seg).1.Learnt base (left ++ [(s.segment env seg).2]) := by
  have hask := h.askRoom env seg
  have hcurrent : ∀ (t : Scan O C) rto, (t.nearest rto).current = t.current := by
    intro t rto
    unfold Scan.nearest
    split_ifs <;> rfl
  rcases s.segment_cases env seg with ha | ⟨ha, hb⟩ | ⟨ha, hb, hm⟩ | ⟨marked, why, ha, hb, hm⟩
  · rw [segment_acked env s ha]
    exact h.noteTail ha
  · rw [segment_held env s ha hb] at htimely ⊢
    have hnear : seg.xmit ≠ 0 → Near seg.resendts s.current := by
      intro hx
      have := htimely ha (.inl hx)
      simpa [Scan.noteScanned, Scan.noteTail, hcurrent] using this
    refine (hask.nearest _).noteScanned ?_
    rw [hcurrent, askRoom_current]
    split_ifs with hx
    · exact .inl ⟨rfl, hx⟩
    · exact .inr ⟨rfl, hnear hx⟩
  · rw [segment_idle env s ha hb hm] at htimely ⊢
    have hx : seg.xmit ≠ 0 := by
      intro hx
      simp [mark, hx] at hm
    have hnear := htimely ha (.inl hx)
    refine (hask.nearest _).noteScanned (.inr ?_)
    rw [hcurrent, askRoom_current]
    exact ⟨rfl, by simpa [Scan.noteScanned, Scan.noteTail, hcurrent] using hnear⟩
  · rw [segment_sent env s ha hb hm] at htimely ⊢
    have hmarked := mark_eq_some hm
    have hacked : ((s.askRoom env seg).transmit env marked why).2.acked = false := by
      rw [hmarked]
      exact ha
    have hne : ((s.askRoom env seg).transmit env marked why).2 ≠ seg := by
      intro heq
      have hx := congrArg Segment.xmit heq
      rw [hmarked] at hx
      have hx' : seg.xmit + 1 = seg.xmit := hx
      grind
    have hnear := htimely hacked (.inr hne)
    have hsent := hask.transmit env marked why
    refine (hsent.nearest _).noteScanned (.inr ?_)
    rw [hcurrent]
    exact ⟨rfl, by simpa [Scan.noteScanned, Scan.noteTail, hcurrent] using hnear⟩

theorem Learnt.loop {base : ℕ} {s : Scan O C} {left : List Segment} (h : s.Learnt base left)
    {env : ScanEnv} {items : List Segment} (htimely : s.Timely env items) :
    (s.loop env items).1.Learnt base (left ++ (s.loop env items).2) := by
  induction items generalizing s left with
  | nil => simpa [Scan.loop] using h
  | cons seg rest ih =>
    have hrest := ih (h.segment htimely.1) htimely.2
    simpa [Scan.loop] using hrest

end Scan

end Loop

/-- Merging two bounds covers both lists. The first one lies ahead of `l`, so the wrapping
comparison picks the earlier of the two. -/
theorem ScanBound.Holds.merge {a b : ScanBound} {xs ys : List Segment} {now l : ℕ}
    (ha : a.Holds xs now (some l)) (hb : b.Holds ys now (some l))
    (hahead : ∀ ts, a = .notBefore ts → 0 < itimediff ts (UInt32.ofNat l)) :
    (a.merge b).Holds (xs ++ ys) now (some l) := by
  have hl := Serial.stands_ofNat l
  cases a with
  | unknown => cases b <;> trivial
  | nothing =>
    have hsub : ∀ seg' ∈ xs ++ ys, seg'.acked = false →
        ∃ seg ∈ ys, seg.acked = false ∧ seg'.resendts = seg.resendts := by
      intro seg' hseg' hacked
      rcases List.mem_append.mp hseg' with hmem | hmem
      · rw [ha seg' hmem] at hacked
        cases hacked
      · exact ⟨seg', hmem, hacked, rfl⟩
    cases b <;> exact hb.sub le_rfl hsub
  | notBefore ts =>
    cases b with
    | unknown => trivial
    | nothing =>
      apply ha.sub le_rfl
      intro seg' hseg' hacked
      rcases List.mem_append.mp hseg' with hmem | hmem
      · exact ⟨seg', hmem, hacked, rfl⟩
      · rw [hb seg' hmem] at hacked
        cases hacked
    | notBefore us =>
      obtain ⟨la, Da, hla, hts, hloa, hhia, halla⟩ := ha
      obtain ⟨lb, Db, hlb, hus, hlob, hhib, hallb⟩ := hb
      cases hla
      cases hlb
      have hpos := hahead ts rfl
      unfold HORIZON at *
      have hts' : itimediff ts (UInt32.ofNat l) = Da - l :=
        Serial.diff_of_stands hts hl (by omega) (by omega)
      have hdiff : itimediff us ts = Db - Da := Serial.diff_of_stands hus hts (by omega) (by omega)
      simp only [ScanBound.merge, hdiff]
      split_ifs with hlt
      · refine ⟨l, Db, rfl, hus, hlob, hhib, ?_⟩
        intro seg hseg hacked
        rcases List.mem_append.mp hseg with hmem | hmem
        · obtain ⟨R, hR, hlo, hhi⟩ := halla seg hmem hacked
          exact ⟨R, hR, by omega, hhi⟩
        · exact hallb seg hmem hacked
      · refine ⟨l, Da, rfl, hts, hloa, hhia, ?_⟩
        intro seg hseg hacked
        rcases List.mem_append.mp hseg with hmem | hmem
        · exact halla seg hmem hacked
        · obtain ⟨R, hR, hlo, hhi⟩ := hallb seg hmem hacked
          exact ⟨R, hR, by omega, hhi⟩

private theorem sent_of_unsentTail {items : List Segment}
    (h : (items.countP fun seg => seg.xmit = 0) = unsentTail items) :
    ∀ seg ∈ items.take (items.length - unsentTail items), seg.xmit ≠ 0 := by
  have hsplit : items = (items.reverse.dropWhile fun seg => seg.xmit = 0).reverse ++
      (items.reverse.takeWhile fun seg => seg.xmit = 0).reverse := by
    rw [← List.reverse_append, List.takeWhile_append_dropWhile, List.reverse_reverse]
  generalize hfront : (items.reverse.dropWhile fun seg => seg.xmit = 0).reverse = front at hsplit
  generalize hback : (items.reverse.takeWhile fun seg => seg.xmit = 0).reverse = back at hsplit
  have htail : unsentTail items = back.length := by
    rw [unsentTail, ← hback, List.length_reverse]
  have hall : ∀ seg ∈ back, seg.xmit = 0 := by
    intro seg hseg
    rw [← hback, List.mem_reverse] at hseg
    have := List.all_eq_true.mp (List.all_takeWhile (l := items.reverse)) seg hseg
    simpa using this
  have hzero : (front.countP fun seg => seg.xmit = 0) = 0 := by
    have hback' : (back.countP fun seg => seg.xmit = 0) = back.length :=
      List.countP_eq_length.mpr fun seg hseg => by simpa using hall seg hseg
    rw [htail, hsplit, List.countP_append, hback'] at h
    omega
  intro seg hseg
  rw [htail, hsplit, List.length_append, Nat.add_sub_cancel, List.take_left] at hseg
  have := List.countP_eq_zero.mp hzero seg hseg
  simpa using this

private theorem stands_add_minRto (base : ℕ) (rto : Int) :
    Stands (UInt32.ofNat base + (Int32.ofInt rto).toUInt32) (base + rto) := by
  have hnat : ((Int32.ofInt rto).toUInt32.toNat : Int) = rto % 4294967296 := by
    change ((BitVec.ofInt 32 rto).toNat : Int) = _
    rw [BitVec.toNat_ofInt]
    omega
  unfold Stands
  rw [UInt32.toNat_add, UInt32.toNat_ofNat']
  omega

/-- What is known about the segments at the head when the scan starts after them. -/
structure FlushScan.Head (f : FlushScan) (head : List Segment) (now l : ℕ) : Prop where
  due : f.due.Holds head now (some l)
  ahead : ∀ ts, f.due = .notBefore ts → 0 < itimediff ts (UInt32.ofNat l)
  sent : ∀ seg ∈ head, seg.xmit ≠ 0
  quiet : ∀ seg ∈ head, seg.acked = false → seg.Quiet

theorem FlushScan.Holds.learn {O C : Type} [TrueClock C] {f : FlushScan} {skipped base : ℕ}
    {s : Scan O C} (head : List Segment) {left : List Segment} (hs : s.Learnt base left)
    (hnil : skipped = 0 → head = [])
    (hhead : 0 < skipped → f.Head head (TrueClock.time s.clock) base) :
    (f.learn skipped (UInt32.ofNat base) s (head ++ left)).Holds (head ++ left)
      (TrueClock.time s.clock) (some base) := by
  have hsent : ∀ seg ∈ head, seg.xmit ≠ 0 := by
    rcases Nat.eq_zero_or_pos skipped with hz | hpos
    · rw [hnil hz]
      simp
    · exact (hhead hpos).sent
  have hquiet : s.scanFastack = false → ∀ seg ∈ head ++ left, seg.acked = false → seg.Quiet := by
    intro hfalse seg hseg ha
    rcases List.mem_append.mp hseg with hmem | hmem
    · rcases Nat.eq_zero_or_pos skipped with hz | hpos
      · rw [hnil hz] at hmem
        cases hmem
      · exact (hhead hpos).quiet seg hmem ha
    · exact hs.fast hfalse seg hmem ha
  -- the bound of the scan covers what it left transmitted
  have hscan : (if s.minRto = I32_MAX then ScanBound.nothing
      else .notBefore (UInt32.ofNat base + (Int32.ofInt s.minRto).toUInt32)).Holds
      (left.filter fun seg => seg.xmit ≠ 0) (TrueClock.time s.clock) (some base) := by
    split_ifs with hmax
    · intro seg hseg
      simp only [List.mem_filter, decide_eq_true_eq] at hseg
      by_contra hacked
      exact (hs.due seg hseg.1 (by simpa using hacked) hseg.2).1 hmax
    · have hrange := hs.range.resolve_left hmax
      refine ⟨base, base + s.minRto, rfl, stands_add_minRto base s.minRto, by omega, by omega, ?_⟩
      intro seg hseg hacked
      simp only [List.mem_filter, decide_eq_true_eq] at hseg
      exact (hs.due seg hseg.1 hacked hseg.2).2
  have hmerged : ((if skipped > 0 then f.due else .nothing).merge (if s.minRto = I32_MAX then
      ScanBound.nothing else .notBefore (UInt32.ofNat base + (Int32.ofInt s.minRto).toUInt32))).Holds
      (head ++ left.filter fun seg => seg.xmit ≠ 0) (TrueClock.time s.clock) (some base) := by
    rcases Nat.eq_zero_or_pos skipped with hz | hpos
    · rw [if_neg (by omega), hnil hz]
      refine ScanBound.Holds.merge ?_ hscan fun ts h => by cases h
      intro seg hseg
      cases hseg
    · rw [if_pos hpos]
      exact (hhead hpos).due.merge hscan (hhead hpos).ahead
  unfold FlushScan.learn
  dsimp only
  generalize (if s.minRto = I32_MAX then ScanBound.nothing
    else .notBefore (UInt32.ofNat base + (Int32.ofInt s.minRto).toUInt32)) = scanDue at hmerged ⊢
  split
  · refine ⟨fun h => absurd rfl h, trivial, ?_⟩
    intro hfast seg hseg ha
    exact hquiet (by simpa using hfast) seg (List.mem_of_mem_take hseg) ha
  · rename_i heq
    rw [not_not] at heq
    have hcount : ((head ++ left).countP fun seg => seg.xmit = 0) = unsentTail (head ++ left) := by
      have hzero : (head.countP fun seg => seg.xmit = 0) = 0 :=
        List.countP_eq_zero.mpr fun seg hseg => by simpa using hsent seg hseg
      rw [List.countP_append, hzero, Nat.zero_add, ← hs.unsent, heq]
    have hcovered := sent_of_unsentTail hcount
    refine ⟨fun _ => hcovered, ?_, ?_⟩
    · refine hmerged.sub le_rfl fun seg hseg ha => ⟨seg, ?_, ha, rfl⟩
      rcases List.mem_append.mp (List.mem_of_mem_take hseg) with hmem | hmem
      · exact List.mem_append_left _ hmem
      · refine List.mem_append_right _ (List.mem_filter.mpr ⟨hmem, ?_⟩)
        simpa using hcovered seg hseg
    · intro hfast seg hseg ha
      exact hquiet (by simpa using hfast) seg (List.mem_of_mem_take hseg) ha

end Kcptun.Arq
