/- Kcptun/Tcpraw/Rules
   source: crates/tcpraw/src/conn.rs (dial, listen, CloseOnCancel, begin_close, delete_rules,
     store_rules, close, close_async, iptables_reset), iptables.rs (dial_rule, listen_rule)
   digest: The rules a tcpraw connection installs and removes, and the tasks that do it: dials and
     listens, their blocking installers, closes and the reset at exit, interleaved. -/

import Mathlib.Data.List.Basic
import Mathlib.Logic.Function.Basic

set_option autoImplicit false
set_option relaxedAutoImplicit false

namespace Kcptun.Tcpraw

inductive Protocol where
  | IPv4
  | IPv6
deriving DecidableEq, Repr

def ttlMatch : Protocol → String × String
  | .IPv4 => ("ttl", "--ttl-eq")
  | .IPv6 => ("hl", "--hl-eq")

def dialRule (proto : Protocol) (laddr lport rip : String) (rport : UInt16) : List String :=
  ["-m", (ttlMatch proto).1, (ttlMatch proto).2, "1", "-p", "tcp", "-s", laddr, "--sport", lport,
    "-d", rip, "--dport", toString rport, "-j", "DROP"]

def listenRule (proto : Protocol) (lport : UInt16) : List String :=
  ["-m", (ttlMatch proto).1, (ttlMatch proto).2, "1", "-p", "tcp", "--sport", toString lport, "-j",
    "DROP"]

/-- What `dial` and `listen` hand to the task that installs their rules. -/
inductive Setup where
  | dial (laddr lport rip : String) (rport : UInt16)
  | listen (lport : UInt16)
deriving DecidableEq, Repr

/-- A rule a connection appended, with the protocol of the binary it went to. -/
structure InstalledRule where
  proto : Protocol
  rule : List String
deriving DecidableEq, Repr

def Setup.installed (setup : Setup) (proto : Protocol) : InstalledRule where
  proto := proto
  rule :=
    match setup with
    | .dial laddr lport rip rport => dialRule proto laddr lport rip rport
    | .listen lport => listenRule proto lport

/-- What the commands of a connection did: `exists` answered yes, `append` succeeded, `delete` was
issued. -/
inductive Event where
  | found (c : ℕ) (r : InstalledRule)
  | appended (c : ℕ) (r : InstalledRule)
  | deleted (c : ℕ) (r : InstalledRule)
deriving DecidableEq, Repr

/-- The part of `TcpConnInner` that decides over the rules. `locked` says that the lock of `rules`
is held between two steps; `handle`, that the caller has the `TcpConn`. -/
structure Conn where
  closed : Bool := false
  locked : Bool := false
  rules : List InstalledRule := []
  handle : Bool := false
deriving Repr

/-- The connections by id, `CONN_LIST`, `NEXT_CONN_ID` and every command so far. -/
structure Shared where
  conns : ℕ → Conn := fun _ => {}
  nextConnId : ℕ := 0
  connList : List ℕ := []
  log : List Event := []

/-- Where a close stands: before the swap of `closed`, in the rest of `begin_close`, before the
drain, and at the commands of `delete_rules` still to be run. -/
inductive CloseStage where
  | swap
  | unregister
  | drain
  | delete (rest : List InstalledRule)
deriving DecidableEq, Repr

/-- Where an installer stands: before the binaries still to look up, before `exists` and before
`append` with the rules appended so far; between the load of `closed` and the write under the
lock; at the rules to remove again. -/
inductive InstallStage where
  | probe (todo : List Protocol) (installed : List InstalledRule)
  | check (proto : Protocol) (todo : List Protocol) (installed : List InstalledRule)
  | append (proto : Protocol) (todo : List Protocol) (installed : List InstalledRule)
  | write (installed : List InstalledRule)
  | delete (rest : List InstalledRule)
deriving DecidableEq, Repr

/-- Where `dial` or `listen` stands, from the new connection on. -/
inductive DialStage where
  | push
  | setTtl
  | spawn
  | await (installer : ℕ)
  | returned
deriving DecidableEq, Repr

inductive ResetStage where
  | snapshot
  | visit (todo : List ℕ) (stage : CloseStage)
deriving DecidableEq, Repr

/-- Who waits for a close: its own thread, or the future of `close_async` while it is kept. -/
inductive Caller where
  | blocking
  | async (kept : Bool)
deriving DecidableEq, Repr

/-- A task under way; `before` are the rules appended before the reset was called. -/
inductive Task where
  | dial (c : ℕ) (setup : Setup) (stage : DialStage)
  | install (c : ℕ) (setup : Setup) (stage : InstallStage)
  | close (c : ℕ) (caller : Caller) (stage : CloseStage)
  | reset (before : List (ℕ × InstalledRule)) (stage : ResetStage)
deriving DecidableEq, Repr

def Task.finished : Task → Bool
  | .dial _ _ .returned => true
  | .install _ _ (.delete []) => true
  | .close _ _ (.delete []) => true
  | .reset _ (.visit [] _) => true
  | _ => false

namespace Shared

def setConn (sh : Shared) (c : ℕ) (conn : Conn) : Shared :=
  { sh with conns := Function.update sh.conns c conn }

def record (sh : Shared) (e : Event) : Shared := { sh with log := sh.log ++ [e] }

/-- `close`, step by step. -/
def closeStep (sh : Shared) (c : ℕ) : CloseStage → Option (Shared × CloseStage)
  | .swap =>
    if (sh.conns c).closed then some (sh, .delete [])
    else some (sh.setConn c { sh.conns c with closed := true }, .unregister)
  | .unregister => some ({ sh with connList := sh.connList.filter (· ≠ c) }, .drain)
  | .drain =>
    if (sh.conns c).locked then none
    else some (sh.setConn c { sh.conns c with rules := [] }, .delete (sh.conns c).rules)
  | .delete [] => none
  | .delete (r :: rest) => some (sh.record (.deleted c r), .delete rest)

/-- `store_rules(setup_dial_rules(..))`, step by step; the answer is what the binary returns. -/
def installStep (sh : Shared) (c : ℕ) (setup : Setup) :
    InstallStage → Option Bool → Option (Shared × InstallStage)
  | .probe (proto :: todo) installed, some _ => some (sh, .check proto todo installed)
  | .probe (_ :: todo) installed, none => some (sh, .probe todo installed)
  | .check proto todo installed, some false => some (sh, .append proto todo installed)
  | .check proto todo installed, some true =>
    some (sh.record (.found c (setup.installed proto)), .probe todo installed)
  | .check _ todo installed, none => some (sh, .probe todo installed)
  | .append proto todo installed, some _ =>
    some (sh.record (.appended c (setup.installed proto)),
      .probe todo (installed ++ [setup.installed proto]))
  | .append _ todo installed, none => some (sh, .probe todo installed)
  | .probe [] installed, _ =>
    if (sh.conns c).locked then none
    else if (sh.conns c).closed then some (sh, .delete installed)
    else some (sh.setConn c { sh.conns c with locked := true }, .write installed)
  | .write installed, _ =>
    some (sh.setConn c { sh.conns c with rules := installed, locked := false }, .delete [])
  | .delete [], _ => none
  | .delete (r :: rest), _ => some (sh.record (.deleted c r), .delete rest)

end Shared

/-- A dial lowers the TTL of its real connection before it installs the rules; a listen has none. -/
def Setup.afterPush : Setup → DialStage
  | .dial _ _ _ _ => .setTtl
  | .listen _ => .spawn

/-- One step of a task: the shared state, the task and what it spawns. -/
def Task.step (sh : Shared) (tasks : List Task) (answer : Option Bool) :
    Task → Option (Shared × Task × List Task)
  | .dial c setup .push =>
    some ({ sh with connList := sh.connList ++ [c] }, .dial c setup setup.afterPush, [])
  | .dial c setup .setTtl =>
    match answer with
    | some _ => some (sh, .dial c setup .spawn, [])
    -- the guard closes the connection
    | none => some (sh, .close c .blocking .swap, [])
  | .dial c setup .spawn =>
    some (sh, .dial c setup (.await tasks.length), [.install c setup (.probe [.IPv4, .IPv6] [])])
  | .dial c setup (.await installer) =>
    if (tasks[installer]?).any Task.finished then
      some (sh.setConn c { sh.conns c with handle := true }, .dial c setup .returned, [])
    else none
  | .dial _ _ .returned => none
  | .install c setup stage =>
    (sh.installStep c setup stage answer).map fun r => (r.1, .install c setup r.2, [])
  | .close c caller stage => (sh.closeStep c stage).map fun r => (r.1, .close c caller r.2, [])
  | .reset before .snapshot => some (sh, .reset before (.visit sh.connList .swap), [])
  | .reset _ (.visit [] _) => none
  | .reset before (.visit (c :: todo) stage) =>
    (sh.closeStep c stage).map fun r =>
      (r.1, .reset before (if r.2 = .delete [] then .visit todo .swap else .visit (c :: todo) r.2), [])

structure State extends Shared where
  tasks : List Task := []

/-- A step of a task, or what the callers do: start a dial or a listen, drop its future, close the
connection in one of three ways, drop the future of `close_async`, reset. -/
inductive Act where
  | start (setup : Setup)
  | step (i : ℕ) (answer : Option Bool)
  | dropDial (i : ℕ)
  | close (c : ℕ)
  | closeAsync (c : ℕ)
  | dropAsync (i : ℕ)
  | dropConn (c : ℕ)
  | reset

def appendedRules (log : List Event) : List (ℕ × InstalledRule) :=
  log.filterMap fun e =>
    match e with
    | .appended c r => some (c, r)
    | _ => none

namespace State

def spawn (s : State) (t : Task) : State := { s with tasks := s.tasks ++ [t] }

def next (s : State) : Act → Option State
  | .start setup =>
    some ({ s with nextConnId := s.nextConnId + 1 }.spawn (.dial s.nextConnId setup .push))
  | .step i answer =>
    (s.tasks[i]?).bind fun t => (t.step s.toShared s.tasks answer).map fun r =>
      { toShared := r.1, tasks := s.tasks.set i r.2.1 ++ r.2.2 }
  -- a future can be dropped at an await only; its guard closes the connection
  | .dropDial i =>
    match s.tasks[i]? with
    | some (.dial c _ (.await _)) =>
      some { s with tasks := s.tasks.set i (.close c .blocking .swap) }
    | _ => none
  | .close c => if (s.conns c).handle then some (s.spawn (.close c .blocking .swap)) else none
  | .closeAsync c =>
    if (s.conns c).handle then some (s.spawn (.close c (.async true) .swap)) else none
  | .dropAsync i =>
    match s.tasks[i]? with
    | some (.close c (.async true) .drain) =>
      some { s with tasks := s.tasks.set i (.close c (.async false) .drain) }
    | some (.close c (.async true) (.delete rest)) =>
      some { s with tasks := s.tasks.set i (.close c (.async false) (.delete rest)) }
    | _ => none
  | .dropConn c =>
    if (s.conns c).handle then
      some ({ s with toShared := s.setConn c { s.conns c with handle := false } }.spawn
        (.close c .blocking .swap))
    else none
  | .reset => some (s.spawn (.reset (appendedRules s.log) .snapshot))

end State

end Kcptun.Tcpraw
