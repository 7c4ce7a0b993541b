/- Kcptun/Tcpraw/Moves
   source: crates/tcpraw/src/conn.rs (begin_close, delete_rules, store_rules, setup_dial_rules,
     setup_listen_rules, CloseOnCancel, close_async)
   digest: Where the rules are that a connection appended: what one step of a task moves from one
     place to another. -/

import Kcptun.Lib.Tally
import Kcptun.Tcpraw.Rules

set_option autoImplicit false
set_option relaxedAutoImplicit false

namespace Kcptun.Tcpraw

open Kcptun.Lib

def CloseStage.held (r : InstalledRule) : CloseStage → ℕ
  | .delete rest => rest.count r
  | _ => 0

/-- How often an installer has a rule that it appended and neither stored nor deleted. -/
def InstallStage.held (r : InstalledRule) : InstallStage → ℕ
  | .probe _ installed => installed.count r
  | .check _ _ installed => installed.count r
  | .append _ _ installed => installed.count r
  | .write installed => installed.count r
  | .delete rest => rest.count r

def InstallStage.ahead (setup : Setup) (r : InstalledRule) : InstallStage → ℕ
  | .probe todo _ => (todo.map setup.installed).count r
  | .check proto todo _ => ((proto :: todo).map setup.installed).count r
  | .append proto todo _ => ((proto :: todo).map setup.installed).count r
  | .write _ => 0
  | .delete _ => 0

def Event.conn : Event → ℕ
  | .found c _ => c
  | .appended c _ => c
  | .deleted c _ => c

def InstallStage.unstored : InstallStage → ℕ
  | .delete _ => 0
  | _ => 1

def InstallStage.writing : InstallStage → ℕ
  | .write _ => 1
  | _ => 0

def DialStage.unspawned : DialStage → Bool
  | .push => true
  | .setTtl => true
  | .spawn => true
  | _ => false

namespace Task

/-- The connection a task is closing, and where the close stands. -/
def current : Task → Option (ℕ × CloseStage)
  | .close c _ stage => some (c, stage)
  | .reset _ (.visit (c :: _) stage) => some (c, stage)
  | _ => none

def held (c : ℕ) (r : InstalledRule) : Task → ℕ
  | .install c' _ stage => if c' = c then stage.held r else 0
  | .close c' _ stage => if c' = c then stage.held r else 0
  | .reset _ (.visit (c' :: _) stage) => if c' = c then stage.held r else 0
  | _ => 0

def ahead (c : ℕ) (r : InstalledRule) : Task → ℕ
  | .dial c' setup stage =>
    if c' = c ∧ stage.unspawned then ([.IPv4, .IPv6].map setup.installed).count r else 0
  | .install c' setup stage => if c' = c then stage.ahead setup r else 0
  | _ => 0

/-- Whether a task is going to store the rules of `c`, or to spawn the one that is. -/
def unstored (c : ℕ) : Task → ℕ
  | .dial c' _ stage => if c' = c ∧ stage.unspawned then 1 else 0
  | .install c' _ stage => if c' = c then stage.unstored else 0
  | _ => 0

def writing (c : ℕ) : Task → ℕ
  | .install c' _ stage => if c' = c then stage.writing else 0
  | _ => 0

def Draining (c : ℕ) (t : Task) : Prop :=
  t.current = some (c, .unregister) ∨ t.current = some (c, .drain)

end Task

/-- Whether something is stored, as a weight. -/
def Conn.stock (conn : Conn) : ℕ := if conn.rules = [] then 0 else 1

private theorem stock_le_one (conn : Conn) : conn.stock ≤ 1 := by
  unfold Conn.stock
  split_ifs
  · exact Nat.zero_le 1
  · exact Nat.le_refl 1

/-- What a task may do to the state that concerns the rules, when it becomes `t'` and spawns
`more`. -/
structure Moves (sh : Shared) (t : Task) (sh' : Shared) (t' : Task) (more : List Task) : Prop where
  balance : ∀ c r, sh'.log.count (.appended c r) +
      (sh.log.count (.deleted c r) + (sh.conns c).rules.count r + t.held c r) =
    sh.log.count (.appended c r) + (sh'.log.count (.deleted c r) + (sh'.conns c).rules.count r +
      (t'.held c r + tally (Task.held c r) more))
  once : ∀ c r, sh'.log.count (.appended c r) + sh'.log.count (.found c r) +
      (t'.ahead c r + tally (Task.ahead c r) more) ≤
    sh.log.count (.appended c r) + sh.log.count (.found c r) + t.ahead c r
  nextConnId : sh'.nextConnId = sh.nextConnId
  stored : ∀ c, t'.unstored c + tally (Task.unstored c) more + (sh'.conns c).stock ≤
    t.unstored c + (sh.conns c).stock
  locked : ∀ c, t'.writing c + tally (Task.writing c) more + (sh.conns c).locked.toNat =
    t.writing c + (sh'.conns c).locked.toNat
  drained : ∀ c, (sh'.conns c).closed → (sh'.conns c).rules ≠ [] ∨ (sh'.conns c).locked →
    t'.Draining c ∨ ((sh.conns c).closed ∧ ((sh.conns c).rules ≠ [] ∨ (sh.conns c).locked) ∧
      ¬ t.Draining c)
  closed : ∀ c, (sh.conns c).closed → (sh'.conns c).closed
  current : ∀ u, u = t' ∨ u ∈ more → ∀ c stage, u.current = some (c, stage) → stage ≠ .swap →
    (sh'.conns c).closed
  log : sh'.log = sh.log ∨ ∃ e, sh'.log = sh.log ++ [e] ∧ ∀ c r, e = .deleted c r → 0 < t.held c r

section Steps

variable {sh sh' : Shared} {evs : List Event} {t t' : Task} {more : List Task} {c : ℕ} {v : Conn}

@[simp] theorem setConn_self (sh : Shared) (c : ℕ) (v : Conn) : (sh.setConn c v).conns c = v := by
  unfold Shared.setConn
  exact Function.update_self ..

theorem setConn_ne (sh : Shared) {c x : ℕ} (v : Conn) (h : x ≠ c) :
    (sh.setConn c v).conns x = sh.conns x := by
  unfold Shared.setConn
  exact Function.update_of_ne h ..

/-- A step that changes nothing in the connections that the rules depend on. -/
structure Quiet (sh sh' : Shared) (evs : List Event) : Prop where
  rules : ∀ c, (sh'.conns c).rules = (sh.conns c).rules
  closed : ∀ c, (sh'.conns c).closed = (sh.conns c).closed
  locked : ∀ c, (sh'.conns c).locked = (sh.conns c).locked
  nextConnId : sh'.nextConnId = sh.nextConnId
  log : sh'.log = sh.log ++ evs

theorem quiet_refl (sh : Shared) : Quiet sh sh [] :=
  ⟨fun _ => rfl, fun _ => rfl, fun _ => rfl, rfl, (List.append_nil _).symm⟩

private theorem quiet_record (sh : Shared) (e : Event) : Quiet sh (sh.record e) [e] :=
  ⟨fun _ => rfl, fun _ => rfl, fun _ => rfl, rfl, rfl⟩

private theorem Quiet.moves (h : Quiet sh sh' evs) (hshort : evs.length ≤ 1)
    (hheld : ∀ c r, evs.count (.appended c r) + t.held c r =
      evs.count (.deleted c r) + (t'.held c r + tally (Task.held c r) more))
    (hahead : ∀ c r, evs.count (.appended c r) + evs.count (.found c r) +
      (t'.ahead c r + tally (Task.ahead c r) more) ≤ t.ahead c r)
    (hunstored : ∀ c, t'.unstored c + tally (Task.unstored c) more ≤ t.unstored c)
    (hwriting : ∀ c, t'.writing c + tally (Task.writing c) more = t.writing c)
    (hdraining : ∀ c, t.Draining c → t'.Draining c)
    (hcurrent : ∀ u, u = t' ∨ u ∈ more → ∀ c stage, u.current = some (c, stage) → stage ≠ .swap →
      (sh.conns c).closed) : Moves sh t sh' t' more := by
  constructor
  · intro c r
    have := hheld c r
    rw [h.log, List.count_append, List.count_append, h.rules]
    omega
  · intro c r
    have := hahead c r
    rw [h.log, List.count_append, List.count_append]
    omega
  · exact h.nextConnId
  · intro c
    have := hunstored c
    unfold Conn.stock
    rw [h.rules]
    omega
  · intro c
    have := hwriting c
    rw [h.locked]
    omega
  · intro c hclosed hleft
    rw [h.closed] at hclosed
    rw [h.rules, h.locked] at hleft
    by_cases hd : t.Draining c
    · exact .inl (hdraining c hd)
    · exact .inr ⟨hclosed, hleft, hd⟩
  · intro c hclosed
    rwa [h.closed]
  · intro u hu c stage hcur hstage
    rw [h.closed]
    exact hcurrent u hu c stage hcur hstage
  · rw [h.log]
    cases evs with
    | nil => exact .inl (List.append_nil _)
    | cons e evs =>
      obtain rfl : evs = [] := by
        rw [List.length_cons] at hshort
        exact List.length_eq_zero_iff.mp (by omega)
      refine .inr ⟨e, rfl, ?_⟩
      intro c r he
      subst he
      have := hheld c r
      rw [List.count_singleton_self, List.count_singleton] at this
      simp only [beq_iff_eq, reduceCtorEq, if_false] at this
      omega

private theorem moves_of_setConn
    (hother : ∀ x, x ≠ c → (∀ r, t'.held x r = t.held x r) ∧ t'.unstored x ≤ t.unstored x ∧
      t'.writing x = t.writing x ∧ (t.Draining x → t'.Draining x))
    (hheld : ∀ r, (sh.conns c).rules.count r + t.held c r = v.rules.count r + t'.held c r)
    (hahead : ∀ x r, t'.ahead x r ≤ t.ahead x r)
    (hunstored : t'.unstored c + v.stock ≤ t.unstored c + (sh.conns c).stock)
    (hwriting : t'.writing c + (sh.conns c).locked.toNat = t.writing c + v.locked.toNat)
    (hdrained : v.closed → v.rules ≠ [] ∨ v.locked → t'.Draining c ∨ ((sh.conns c).closed ∧
      ((sh.conns c).rules ≠ [] ∨ (sh.conns c).locked) ∧ ¬ t.Draining c))
    (hclosed : (sh.conns c).closed → v.closed)
    (hcurrent : ∀ x stage, t'.current = some (x, stage) → stage ≠ .swap →
      ((sh.setConn c v).conns x).closed) : Moves sh t (sh.setConn c v) t' [] := by
  constructor
  · intro x r
    change sh.log.count _ + _ = _ + (sh.log.count _ + _ + _)
    rw [tally_nil]
    rcases eq_or_ne x c with rfl | hx
    · have := hheld r
      rw [setConn_self]
      omega
    · rw [setConn_ne sh v hx, (hother x hx).1 r]
      omega
  · intro x r
    have := hahead x r
    change sh.log.count _ + sh.log.count _ + _ ≤ _
    rw [tally_nil]
    omega
  · rfl
  · intro x
    rw [tally_nil]
    rcases eq_or_ne x c with rfl | hx
    · rw [setConn_self]
      omega
    · have := (hother x hx).2.1
      rw [setConn_ne sh v hx]
      omega
  · intro x
    rw [tally_nil]
    rcases eq_or_ne x c with rfl | hx
    · rw [setConn_self]
      omega
    · have := (hother x hx).2.2.1
      rw [setConn_ne sh v hx]
      omega
  · intro x hx hleft
    rcases eq_or_ne x c with rfl | hne
    · rw [setConn_self] at hx hleft
      exact hdrained hx hleft
    · rw [setConn_ne sh v hne] at hx hleft
      by_cases hd : t.Draining x
      · exact .inl ((hother x hne).2.2.2 hd)
      · exact .inr ⟨hx, hleft, hd⟩
  · intro x hx
    rcases eq_or_ne x c with rfl | hne
    · rw [setConn_self]
      exact hclosed hx
    · rwa [setConn_ne sh v hne]
  · intro u hu x stage hcur hstage
    rcases hu with rfl | hu
    · exact hcurrent x stage hcur hstage
    · exact absurd hu List.not_mem_nil
  · exact .inl rfl

end Steps

section Closing

variable {sh sh' : Shared} {c : ℕ} {stage stage' : CloseStage} {t t' : Task}

/-- What the weights of a task are that is closing `c`, or has just closed it. -/
structure Closes (c : ℕ) (stage : CloseStage) (t : Task) : Prop where
  held : ∀ x r, t.held x r = if c = x then stage.held r else 0
  ahead : ∀ x r, t.ahead x r = 0
  unstored : ∀ x, t.unstored x = 0
  writing : ∀ x, t.writing x = 0
  draining : ∀ x, t.Draining x ↔ c = x ∧ (stage = .unregister ∨ stage = .drain)
  current : ∀ x later, t.current = some (x, later) → later ≠ .swap → x = c ∧ later = stage

private theorem closes_of_current (hcurrent : t.current = some (c, stage))
    (hheld : ∀ x r, t.held x r = if c = x then stage.held r else 0)
    (hahead : ∀ x r, t.ahead x r = 0) (hunstored : ∀ x, t.unstored x = 0)
    (hwriting : ∀ x, t.writing x = 0) : Closes c stage t := by
  refine ⟨hheld, hahead, hunstored, hwriting, ?_, ?_⟩
  · intro x
    rw [Task.Draining, hcurrent]
    simp only [Option.some.injEq, Prod.mk.injEq]
    tauto
  · intro x later hcur _
    rw [hcurrent] at hcur
    obtain ⟨rfl, rfl⟩ := Prod.mk.inj (Option.some.inj hcur)
    exact ⟨rfl, rfl⟩

theorem closes_close (c : ℕ) (caller : Caller) (stage : CloseStage) :
    Closes c stage (.close c caller stage) :=
  closes_of_current rfl (fun _ _ => rfl) (fun _ _ => rfl) (fun _ => rfl) fun _ => rfl

private theorem closes_visit (before : List (ℕ × InstalledRule)) (c : ℕ) (todo : List ℕ)
    (stage : CloseStage) : Closes c stage (.reset before (.visit (c :: todo) stage)) :=
  closes_of_current rfl (fun _ _ => rfl) (fun _ _ => rfl) (fun _ => rfl) fun _ => rfl

private theorem closes_next (before : List (ℕ × InstalledRule)) (c : ℕ) (todo : List ℕ) :
    Closes c (.delete []) (.reset before (.visit todo .swap)) := by
  constructor
  · intro x r
    cases todo <;> simp [Task.held, CloseStage.held]
  · intro x r
    rfl
  · intro x
    rfl
  · intro x
    rfl
  · intro x
    cases todo <;> simp [Task.Draining, Task.current]
  · intro x later hcur hlater
    cases todo with
    | nil => cases hcur
    | cons y todo =>
      cases hcur
      exact absurd rfl hlater

theorem closeStep_cases (h : sh.closeStep c stage = some (sh', stage')) :
    (stage = .swap ∧ (sh.conns c).closed = true ∧ sh' = sh ∧ stage' = .delete []) ∨
    (stage = .swap ∧ (sh.conns c).closed = false ∧
      sh' = sh.setConn c { sh.conns c with closed := true } ∧ stage' = .unregister) ∨
    (stage = .unregister ∧ sh' = { sh with connList := sh.connList.filter (· ≠ c) } ∧
      stage' = .drain) ∨
    (stage = .drain ∧ (sh.conns c).locked = false ∧
      sh' = sh.setConn c { sh.conns c with rules := [] } ∧ stage' = .delete (sh.conns c).rules) ∨
    ∃ r rest, stage = .delete (r :: rest) ∧ sh' = sh.record (.deleted c r) ∧
      stage' = .delete rest := by
  cases stage with
  | swap =>
    simp only [Shared.closeStep] at h
    split_ifs at h with hclosed <;> cases h
    · exact .inl ⟨rfl, hclosed, rfl, rfl⟩
    · exact .inr (.inl ⟨rfl, Bool.eq_false_iff.mpr hclosed, rfl, rfl⟩)
  | unregister =>
    cases h
    exact .inr (.inr (.inl ⟨rfl, rfl, rfl⟩))
  | drain =>
    simp only [Shared.closeStep] at h
    split_ifs at h with hlocked
    cases h
    exact .inr (.inr (.inr (.inl ⟨rfl, Bool.eq_false_iff.mpr hlocked, rfl, rfl⟩)))
  | delete rest =>
    cases rest with
    | nil => cases h
    | cons r rest =>
      cases h
      exact .inr (.inr (.inr (.inr ⟨r, rest, rfl, rfl, rfl⟩)))

private theorem moves_of_closeStep (h : sh.closeStep c stage = some (sh', stage'))
    (ht : Closes c stage t)
    (ht' : Closes c stage' t') (hclosed : stage ≠ .swap → (sh.conns c).closed) :
    Moves sh t sh' t' [] := by
  have hwrote : ∀ x, t'.writing x = t.writing x := fun x => by rw [ht.writing, ht'.writing]
  have hother : ∀ x, x ≠ c → (∀ r, t'.held x r = t.held x r) ∧ t'.unstored x ≤ t.unstored x ∧
      t'.writing x = t.writing x ∧ (t.Draining x → t'.Draining x) := by
    intro x hx
    refine ⟨?_, ?_, hwrote x, ?_⟩
    · intro r
      rw [ht.held, ht'.held, if_neg (Ne.symm hx), if_neg (Ne.symm hx)]
    · exact Nat.le_of_eq (by rw [ht.unstored, ht'.unstored])
    · intro hd
      exact absurd ((ht.draining x).mp hd).1 (Ne.symm hx)
  have hahead : ∀ x r, t'.ahead x r ≤ t.ahead x r := fun x r =>
    Nat.le_of_eq (by rw [ht.ahead, ht'.ahead])
  have hunstored : ∀ x, t'.unstored x + tally (Task.unstored x) [] ≤ t.unstored x := fun x =>
    Nat.le_of_eq (by rw [ht.unstored, ht'.unstored, tally_nil])
  have hself : ∀ r, t.held c r = stage.held r ∧ t'.held c r = stage'.held r := fun r =>
    ⟨by rw [ht.held, if_pos rfl], by rw [ht'.held, if_pos rfl]⟩
  have hlater : ∀ u, u = t' ∨ u ∈ [] → ∀ x later, u.current = some (x, later) → later ≠ .swap →
      x = c := by
    intro u hu x later hcur hl
    rcases hu with rfl | hu
    · exact (ht'.current x later hcur hl).1
    · exact absurd hu List.not_mem_nil
  rcases closeStep_cases h with ⟨rfl, hc, rfl, rfl⟩ | ⟨rfl, hc, rfl, rfl⟩ | ⟨rfl, rfl, rfl⟩ |
    ⟨rfl, hc, rfl, rfl⟩ | ⟨r, rest, rfl, rfl, rfl⟩
  · -- lost the swap
    refine (quiet_refl sh').moves (Nat.zero_le 1) ?_ ?_ ?_ ?_ ?_ ?_
    · intro x r
      rw [tally_nil, ht.held, ht'.held]
      rfl
    · intro x r
      rw [tally_nil, ht.ahead, ht'.ahead]
      exact Nat.le_refl 0
    · exact hunstored
    · intro x
      exact hwrote x
    · intro x hd
      have := ((ht.draining x).mp hd).2
      simp at this
    · intro u hu x later hcur hl
      rw [hlater u hu x later hcur hl]
      exact hc
  · -- won it
    refine moves_of_setConn hother ?_ hahead ?_ ?_ ?_ ?_ ?_
    · intro r
      rw [(hself r).1, (hself r).2]; rfl
    · rw [ht.unstored, ht'.unstored]
      exact Nat.le_refl _
    · rw [hwrote]
    · intro _ _
      exact .inl ((ht'.draining c).mpr ⟨rfl, .inl rfl⟩)
    · intro _
      rfl
    · intro x later hcur hl
      rw [hlater t' (.inl rfl) x later hcur hl, setConn_self]
  · -- left the list
    have hquiet : Quiet sh { sh with connList := sh.connList.filter (· ≠ c) } [] :=
      ⟨fun _ => rfl, fun _ => rfl, fun _ => rfl, rfl, (List.append_nil _).symm⟩
    refine hquiet.moves (Nat.zero_le 1) ?_ ?_ ?_ ?_ ?_ ?_
    · intro x r
      rw [tally_nil, ht.held, ht'.held]
      rfl
    · intro x r
      rw [tally_nil, ht.ahead, ht'.ahead]
      exact Nat.le_refl 0
    · exact hunstored
    · intro x
      exact hwrote x
    · intro x hd
      exact (ht'.draining x).mpr ⟨((ht.draining x).mp hd).1, .inr rfl⟩
    · intro u hu x later hcur hl
      rw [hlater u hu x later hcur hl]
      exact hclosed (by simp)
  · -- took the rules
    refine moves_of_setConn hother ?_ hahead ?_ ?_ ?_ ?_ ?_
    · intro r
      rw [(hself r).1, (hself r).2]
      exact (Nat.zero_add _).symm
    · rw [ht.unstored, ht'.unstored]
      exact Nat.add_le_add_left (Nat.zero_le _) 0
    · rw [hwrote]
    · intro _ hleft
      rcases hleft with hne | hlocked
      · exact absurd rfl hne
      · exact absurd (hc.symm.trans hlocked) Bool.false_ne_true
    · intro hx
      exact hx
    · intro x later hcur hl
      rw [hlater t' (.inl rfl) x later hcur hl, setConn_self]
      exact hclosed (by simp)
  · -- deleted a rule
    refine (quiet_record sh (.deleted c r)).moves (Nat.le_refl 1) ?_ ?_ ?_ ?_ ?_ ?_
    · intro x r'
      rw [tally_nil, ht.held, ht'.held, List.count_singleton, List.count_singleton]
      by_cases hx : c = x
      · subst hx
        rw [if_pos rfl, if_pos rfl, CloseStage.held, CloseStage.held, List.count_cons]
        by_cases hr : r = r'
        · subst hr
          simp
          omega
        · simp [hr]
      · simp [hx]
    · intro x r'
      rw [tally_nil, ht.ahead, ht'.ahead, List.count_singleton, List.count_singleton]
      simp
    · exact hunstored
    · intro x
      exact hwrote x
    · intro x hd
      have := ((ht.draining x).mp hd).2
      simp at this
    · intro u hu x later hcur hl
      rw [hlater u hu x later hcur hl]
      exact hclosed (by simp)

end Closing

section Installing

variable {sh sh' : Shared} {c : ℕ} {setup : Setup} {stage stage' : InstallStage} {evs : List Event}

theorem not_draining_install (x : ℕ) : ¬ (Task.install c setup stage).Draining x := by
  rintro (h | h) <;> cases h

private theorem Quiet.install (h : Quiet sh sh' evs) (hshort : evs.length ≤ 1)
    (hmine : ∀ e ∈ evs, e.conn = c) (hheld : ∀ r, evs.count (.appended c r) + stage.held r =
      evs.count (.deleted c r) + stage'.held r)
    (hahead : ∀ r, evs.count (.appended c r) + evs.count (.found c r) + stage'.ahead setup r ≤
      stage.ahead setup r)
    (hunstored : stage'.unstored ≤ stage.unstored) (hwriting : stage'.writing = stage.writing) :
    Moves sh (.install c setup stage) sh' (.install c setup stage') [] := by
  have hnone : ∀ (e : Event) (x : ℕ), c ≠ x → e.conn = x → evs.count e = 0 := by
    intro e x hx he
    rw [List.count_eq_zero]
    intro hmem
    exact hx ((hmine e hmem).symm.trans he)
  apply h.moves hshort
  · intro x r
    rw [tally_nil, Task.held, Task.held]
    split_ifs with hx
    · subst hx
      exact hheld r
    · rw [hnone _ x hx rfl, hnone _ x hx rfl]
  · intro x r
    rw [tally_nil, Task.ahead, Task.ahead]
    split_ifs with hx
    · subst hx
      exact hahead r
    · exact Nat.le_of_eq (by rw [hnone _ x hx rfl, hnone _ x hx rfl])
  · intro x
    rw [tally_nil, Task.unstored, Task.unstored]
    split_ifs
    · exact hunstored
    · exact Nat.le_refl 0
  · intro x
    rw [tally_nil, Task.writing, Task.writing, hwriting]
    rfl
  · intro x hd
    exact absurd hd (not_draining_install x)
  · intro u hu x later hcur
    rcases hu with rfl | hu
    · cases hcur
    · exact absurd hu List.not_mem_nil

private theorem moves_of_skip (hheld : ∀ r, stage.held r = stage'.held r)
    (hahead : ∀ r, stage'.ahead setup r ≤ stage.ahead setup r)
    (hunstored : stage'.unstored ≤ stage.unstored) (hwriting : stage'.writing = stage.writing) :
    Moves sh (.install c setup stage) sh (.install c setup stage') [] := by
  apply (quiet_refl sh).install (Nat.zero_le 1) _ _ _ hunstored hwriting
  · intro e he
    exact absurd he List.not_mem_nil
  · intro r
    exact congrArg (0 + ·) (hheld r)
  · intro r
    have := hahead r
    simp only [List.count_nil]
    omega

private theorem ahead_tail (setup : Setup) (proto : Protocol) (todo : List Protocol)
    (r : InstalledRule) :
    (todo.map setup.installed).count r ≤ ((proto :: todo).map setup.installed).count r :=
  List.Sublist.count_le r (List.sublist_cons_self _ _)

private theorem count_event (f : InstalledRule → Event) (hf : ∀ r r', f r = f r' → r = r')
    (r r' : InstalledRule) : [f r].count (f r') = [r].count r' := by
  rw [List.count_singleton, List.count_singleton]
  by_cases hr : r = r'
  · subst hr
    rw [beq_self_eq_true, beq_self_eq_true]
  · have hne : ¬ f r = f r' := fun heq => hr (hf r r' heq)
    simp [hr, hne]

private theorem count_cons_add (r r' : InstalledRule) (rest : List InstalledRule) :
    (r :: rest).count r' = [r].count r' + rest.count r' :=
  @List.count_append _ _ r' [r] rest

private theorem count_other (e e' : Event) (h : e ≠ e') : [e].count e' = 0 := by
  rw [List.count_eq_zero, List.mem_singleton]
  exact Ne.symm h

private theorem moves_of_installStep {answer : Option Bool}
    (h : sh.installStep c setup stage answer = some (sh', stage'))
    (hrules : stage.unstored ≠ 0 → (sh.conns c).rules = [])
    (hlocked : stage.writing ≠ 0 → (sh.conns c).locked = true) :
    Moves sh (.install c setup stage) sh' (.install c setup stage') [] := by
  have hmine : ∀ e e' : Event, e.conn = c → e' ∈ [e] → e'.conn = c := by
    intro e e' he hmem
    rwa [List.mem_singleton.mp hmem]
  have hsame : ∀ (st st' : InstallStage) (x : ℕ), x ≠ c →
      (∀ r, (Task.install c setup st').held x r = (Task.install c setup st).held x r) ∧
        (Task.install c setup st').unstored x ≤ (Task.install c setup st).unstored x ∧
        (Task.install c setup st').writing x = (Task.install c setup st).writing x ∧
        ((Task.install c setup st).Draining x → (Task.install c setup st').Draining x) := by
    intro st st' x hx
    have hne : ¬ c = x := Ne.symm hx
    refine ⟨?_, ?_, ?_, fun hd => absurd hd (not_draining_install x)⟩
    · intro r
      rw [Task.held, Task.held, if_neg hne, if_neg hne]
    · exact Nat.le_of_eq (by rw [Task.unstored, Task.unstored, if_neg hne, if_neg hne])
    · rw [Task.writing, Task.writing, if_neg hne, if_neg hne]
  cases stage with
  | probe todo l =>
    cases todo with
    | nil =>
      simp only [Shared.installStep] at h
      split_ifs at h with hlock hclosed
      · cases h
        exact moves_of_skip (fun r => rfl) (fun r => Nat.le_refl _) (Nat.zero_le 1) rfl
      · cases h
        have hfree : (sh.conns c).locked.toNat = 0 := by
          rw [Bool.eq_false_iff.mpr hlock, Bool.toNat_false]
        refine moves_of_setConn ?_ (fun r => rfl) ?_ (Nat.le_refl _) ?_
          (fun hc => absurd hc hclosed) (fun hc => hc) ?_
        · intro x hx
          exact hsame _ _ x hx
        · intro x r
          exact Nat.le_of_eq rfl
        · rw [Task.writing, Task.writing, if_pos rfl, if_pos rfl, hfree]
          rfl
        · intro x later hcur
          cases hcur
    | cons proto todo =>
      cases answer with
      | none =>
        cases h
        exact moves_of_skip (fun r => rfl) (ahead_tail setup proto todo) (Nat.le_refl 1) rfl
      | some b =>
        cases h
        exact moves_of_skip (fun r => rfl) (fun r => Nat.le_refl _) (Nat.le_refl 1) rfl
  | check proto todo l =>
    cases answer with
    | none =>
      cases h
      exact moves_of_skip (fun r => rfl) (ahead_tail setup proto todo) (Nat.le_refl 1) rfl
    | some b =>
      cases b with
      | false =>
        cases h
        exact moves_of_skip (fun r => rfl) (fun r => Nat.le_refl _) (Nat.le_refl 1) rfl
      | true =>
        cases h
        refine (quiet_record sh (.found c (setup.installed proto))).install (Nat.le_refl 1)
          (fun e => hmine _ e rfl) ?_ ?_ (Nat.le_refl 1) rfl
        · intro r
          rw [count_other _ _ (by simp), count_other _ _ (by simp)]
          rfl
        · intro r
          have := count_cons_add (setup.installed proto) r (todo.map setup.installed)
          rw [count_other _ _ (by simp), count_event (.found c) (by simp)]
          simp only [InstallStage.ahead, List.map_cons]
          omega
  | append proto todo l =>
    cases answer with
    | none =>
      cases h
      exact moves_of_skip (fun r => rfl) (ahead_tail setup proto todo) (Nat.le_refl 1) rfl
    | some b =>
      cases h
      refine (quiet_record sh (.appended c (setup.installed proto))).install (Nat.le_refl 1)
        (fun e => hmine _ e rfl) ?_ ?_ (Nat.le_refl 1) rfl
      · intro r
        rw [count_event (.appended c) (by simp), count_other _ _ (by simp)]
        simp only [InstallStage.held, List.count_append]
        omega
      · intro r
        have := count_cons_add (setup.installed proto) r (todo.map setup.installed)
        rw [count_event (.appended c) (by simp), count_other _ _ (by simp)]
        simp only [InstallStage.ahead, List.map_cons]
        omega
  | write l =>
    cases h
    have hheld : (sh.conns c).locked = true := hlocked Nat.one_ne_zero
    refine moves_of_setConn ?_ ?_ ?_ ?_ ?_ ?_ (fun hc => hc) ?_
    · intro x hx
      exact hsame _ _ x hx
    · intro r
      rw [hrules Nat.one_ne_zero, List.count_nil, Task.held, Task.held, if_pos rfl, if_pos rfl]
      exact Nat.zero_add _
    · intro x r
      exact Nat.le_of_eq rfl
    · rw [Task.unstored, Task.unstored, if_pos rfl, if_pos rfl]
      exact Nat.le_trans (Nat.le_of_eq (Nat.zero_add _))
        (Nat.le_trans (stock_le_one _) (Nat.le_add_right 1 _))
    · rw [Task.writing, Task.writing, if_pos rfl, if_pos rfl, hheld]
      rfl
    · intro hc _
      exact .inr ⟨hc, .inr hheld, not_draining_install c⟩
    · intro x later hcur
      cases hcur
  | delete rest =>
    cases rest with
    | nil => cases h
    | cons r rest =>
      cases h
      refine (quiet_record sh (.deleted c r)).install (Nat.le_refl 1) (fun e => hmine _ e rfl) ?_ ?_
        (Nat.le_refl 0) rfl
      · intro r'
        rw [count_event (.deleted c) (by simp), count_other _ _ (by simp)]
        simp only [InstallStage.held]
        rw [count_cons_add]
        omega
      · intro r'
        rw [count_other _ _ (by simp), count_other _ _ (by simp)]
        exact Nat.le_refl 0

end Installing

section Tasks

variable {sh sh' : Shared} {t t' : Task} {more tasks : List Task} {answer : Option Bool}

private theorem Quiet.idle (h : Quiet sh sh' []) (ht : ∀ x r, t.held x r = 0)
    (hd : ∀ x, ¬ t.Draining x) (hheld : ∀ x r, t'.held x r + tally (Task.held x r) more = 0)
    (hahead : ∀ x r, t'.ahead x r + tally (Task.ahead x r) more ≤ t.ahead x r)
    (hunstored : ∀ x, t'.unstored x + tally (Task.unstored x) more ≤ t.unstored x)
    (hwriting : ∀ x, t'.writing x + tally (Task.writing x) more = t.writing x)
    (hcurrent : ∀ u, u = t' ∨ u ∈ more → ∀ x stage, u.current = some (x, stage) → stage = .swap) :
    Moves sh t sh' t' more := by
  apply h.moves (Nat.zero_le 1)
  · intro x r
    rw [ht, hheld]
    rfl
  · intro x r
    have := hahead x r
    simp only [List.count_nil]
    omega
  · exact hunstored
  · exact hwriting
  · intro x hx
    exact absurd hx (hd x)
  · intro u hu x stage hcur hstage
    exact absurd (hcurrent u hu x stage hcur) hstage

theorem not_draining_dial (c : ℕ) (setup : Setup) (stage : DialStage) (x : ℕ) :
    ¬ (Task.dial c setup stage).Draining x := by
  rintro (h | h) <;> cases h

private theorem Quiet.dial (h : Quiet sh sh' []) {c : ℕ} {setup : Setup} {stage stage' : DialStage}
    (hstage : stage'.unspawned = stage.unspawned) :
    Moves sh (.dial c setup stage) sh' (.dial c setup stage') [] := by
  apply h.idle (fun x r => rfl) (not_draining_dial c setup stage) (fun x r => rfl) _ _ (fun x => rfl)
  · intro u hu x later hcur
    rcases hu with rfl | hu
    · cases hcur
    · exact absurd hu List.not_mem_nil
  · intro x r
    rw [tally_nil, Task.ahead, Task.ahead, hstage]
    exact Nat.le_refl _
  · intro x
    rw [tally_nil, Task.unstored, Task.unstored, hstage]
    exact Nat.le_refl _

theorem moves_of_cancel (sh : Shared) (c : ℕ) (setup : Setup) (stage : DialStage) :
    Moves sh (.dial c setup stage) sh (.close c .blocking .swap) [] := by
  have hcloses := closes_close c .blocking .swap
  apply (quiet_refl sh).idle (fun x r => rfl) (not_draining_dial c setup stage)
  · intro x r
    rw [tally_nil, hcloses.held]
    split_ifs <;> rfl
  · intro x r
    rw [tally_nil, hcloses.ahead]
    exact Nat.zero_le _
  · intro x
    rw [tally_nil, hcloses.unstored]
    exact Nat.zero_le _
  · intro x
    rfl
  · intro u hu x later hcur
    rcases hu with rfl | hu
    · cases hcur
      rfl
    · exact absurd hu List.not_mem_nil

private theorem moves_of_spawn (sh : Shared) (c : ℕ) (setup : Setup) (n : ℕ) :
    Moves sh (.dial c setup .spawn) sh (.dial c setup (.await n))
      [.install c setup (.probe [.IPv4, .IPv6] [])] := by
  apply (quiet_refl sh).idle (fun x r => rfl) (not_draining_dial c setup .spawn)
  · intro x r
    simp [Task.held, InstallStage.held]
  · intro x r
    simp [Task.ahead, DialStage.unspawned, InstallStage.ahead]
  · intro x
    simp [Task.unstored, DialStage.unspawned, InstallStage.unstored]
  · intro x
    simp [Task.writing, InstallStage.writing]
  · intro u hu x later hcur
    rcases hu with rfl | hu
    · cases hcur
    · rw [List.mem_singleton.mp hu] at hcur
      cases hcur

theorem quiet_setConn (sh : Shared) (c : ℕ) {v : Conn} (hrules : v.rules = (sh.conns c).rules)
    (hclosed : v.closed = (sh.conns c).closed) (hlocked : v.locked = (sh.conns c).locked) :
    Quiet sh (sh.setConn c v) [] := by
  constructor
  · intro x
    rcases eq_or_ne x c with rfl | hx
    · rw [setConn_self, hrules]
    · rw [setConn_ne sh v hx]
  · intro x
    rcases eq_or_ne x c with rfl | hx
    · rw [setConn_self, hclosed]
    · rw [setConn_ne sh v hx]
  · intro x
    rcases eq_or_ne x c with rfl | hx
    · rw [setConn_self, hlocked]
    · rw [setConn_ne sh v hx]
  · rfl
  · exact (List.append_nil _).symm

private theorem moves_of_snapshot (sh : Shared) (before : List (ℕ × InstalledRule))
    (todo : List ℕ) :
    Moves sh (.reset before .snapshot) sh (.reset before (.visit todo .swap)) [] := by
  have hnext := closes_next before 0 todo
  apply (quiet_refl sh).idle (fun x r => rfl)
  · rintro x (h | h) <;> cases h
  · intro x r
    rw [tally_nil, hnext.held]
    split_ifs <;> rfl
  · intro x r
    exact Nat.le_refl 0
  · intro x
    exact Nat.le_refl 0
  · intro x
    rfl
  · intro u hu x later hcur
    rcases hu with rfl | hu
    · cases todo with
      | nil => cases hcur
      | cons c todo =>
        cases hcur
        rfl
    · exact absurd hu List.not_mem_nil

theorem moves_of_step (h : t.step sh tasks answer = some (sh', t', more))
    (hclosed : ∀ c stage, t.current = some (c, stage) → stage ≠ .swap → (sh.conns c).closed)
    (hrules : ∀ c, t.unstored c ≠ 0 → (sh.conns c).rules = [])
    (hlocked : ∀ c, t.writing c ≠ 0 → (sh.conns c).locked = true) : Moves sh t sh' t' more := by
  cases t with
  | dial c setup stage =>
    have hpush : Quiet sh { sh with connList := sh.connList ++ [c] } [] :=
      ⟨fun _ => rfl, fun _ => rfl, fun _ => rfl, rfl, (List.append_nil _).symm⟩
    cases stage with
    | push =>
      cases h
      apply hpush.dial
      cases setup <;> rfl
    | setTtl =>
      cases answer with
      | some b =>
        cases h
        exact (quiet_refl sh).dial rfl
      | none =>
        cases h
        exact moves_of_cancel sh c setup .setTtl
    | spawn =>
      cases h
      exact moves_of_spawn sh c setup _
    | await installer =>
      simp only [Task.step] at h
      split_ifs at h with hdone
      cases h
      refine Quiet.dial (quiet_setConn sh c ?_ ?_ ?_) rfl <;> rfl
    | returned => cases h
  | install c setup stage =>
    obtain ⟨⟨sh', stage'⟩, hstep, heq⟩ := Option.map_eq_some_iff.mp h
    cases heq
    refine moves_of_installStep hstep (fun hne => hrules c ?_) fun hne => hlocked c ?_
    · rwa [Task.unstored, if_pos rfl]
    · rwa [Task.writing, if_pos rfl]
  | close c caller stage =>
    obtain ⟨⟨sh', stage'⟩, hstep, heq⟩ := Option.map_eq_some_iff.mp h
    cases heq
    exact moves_of_closeStep hstep (closes_close c caller stage) (closes_close c caller stage')
      (hclosed c stage rfl)
  | reset before stage =>
    cases stage with
    | snapshot =>
      cases h
      exact moves_of_snapshot sh before sh.connList
    | visit todo stage =>
      cases todo with
      | nil => cases h
      | cons c todo =>
        obtain ⟨⟨sh', stage'⟩, hstep, heq⟩ := Option.map_eq_some_iff.mp h
        cases heq
        refine moves_of_closeStep hstep (closes_visit before c todo stage) ?_ (hclosed c stage rfl)
        split_ifs with hdone
        · rw [show stage' = .delete [] from hdone]
          exact closes_next before c todo
        · exact closes_visit before c todo stage'

theorem moves_of_caller (sh : Shared) (c : ℕ) (caller caller' : Caller) {stage : CloseStage}
    (hclosed : stage ≠ .swap → (sh.conns c).closed) :
    Moves sh (.close c caller stage) sh (.close c caller' stage) [] := by
  apply (quiet_refl sh).moves (Nat.zero_le 1)
  · intro x r
    rfl
  · intro x r
    exact Nat.le_refl 0
  · intro x
    exact Nat.le_refl 0
  · intro x
    rfl
  · intro x hd
    exact ((closes_close c caller' stage).draining x).mpr
      (((closes_close c caller stage).draining x).mp hd)
  · intro u hu x later hcur hlater
    rcases hu with rfl | hu
    · cases hcur
      exact hclosed hlater
    · exact absurd hu List.not_mem_nil

end Tasks

end Kcptun.Tcpraw
