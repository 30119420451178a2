import Mdp.Calls
import Mdp.Library.Forking

/-!
# A process and its children

`mdp edit` or `mdp add` together with the processes it forks: the one that becomes gpg and the one
that stops gpg after a while. They share the files. A child starts with a copy of its parent's
globals, so with its exit handler and with its handler of `SIGINT`. That signal may arrive in any of
them at any time, from a terminal or from another one of them.

How a child goes on as long as nothing fails in it is a protocol of its own: it makes a few calls
that touch no file, and then becomes another program or ends without running its exit handler.
-/

namespace Mdp

open Interaction CStrings HardLinks

/-- What a process has done so far. -/
structure ProcessLog where
  /-- It has created the lock. -/
  created : Bool
  /-- It has removed the lock. -/
  unlocked : Bool
  /-- It has made a call of the kind that `cleanup` makes. -/
  cleaned : Bool

/-- Nothing. -/
def ProcessLog.none : ProcessLog := ⟨false, false, false⟩

/-- The calls of `cleanup`. -/
def Call.cleans : Call → Bool
  | .stat .lock => true
  | .unlink _ => true
  | .editorTmpPath => true
  | _ => false

/-- The log after an answer. -/
def ProcessLog.note : (request : Call) → Call.Answer request → ProcessLog → ProcessLog
  | .fopenWrite .lock, some _, log => { log with created := true }
  | .unlink .lock, .removed, log => { log with unlocked := true, cleaned := true }
  | request, _, log => { log with cleaned := log.cleaned || request.cleans }

/-- The processes, by their numbers, and the files. -/
structure Processes where
  files : Files
  globals : Nat → Globals
  logs : Nat → ProcessLog

/-- What one of the processes sees. -/
def Processes.view (x : Processes) (pid : Nat) : State := ⟨x.files, x.globals pid⟩

/-- The processes after an answer to one of them. -/
def Processes.turn (x : Processes) (pid : Nat) (request : Call) (answer : Call.Answer request)
    (after : State) : Processes where
  files := after.files
  globals := Function.update x.globals pid after.globals
  logs := Function.update x.logs pid ((x.logs pid).note request answer)

/-- The processes after a child was created: its globals are those of its parent. -/
def Processes.fork (x : Processes) (parent child : Nat) : Processes where
  files := x.files
  globals := Function.update x.globals child (x.globals parent)
  logs := Function.update x.logs child .none

section Turns

variable (x : Processes) (pid : Nat) (request : Call) (answer : Call.Answer request) (after : State)

/-- The files are those that the answer has left. -/
@[simp] theorem Processes.turn_files : (x.turn pid request answer after).files = after.files := rfl

/-- What the process did is noted. -/
@[simp] theorem Processes.turn_logs_self :
    (x.turn pid request answer after).logs pid = (x.logs pid).note request answer :=
  Function.update_self ..

/-- What the others did stays as it was. -/
@[simp] theorem Processes.turn_logs_other {other : Nat} (different : other ≠ pid) :
    (x.turn pid request answer after).logs other = x.logs other :=
  Function.update_of_ne different _ _

/-- A new process changes no file. -/
@[simp] theorem Processes.fork_files (child : Nat) : (x.fork pid child).files = x.files := rfl

/-- A new process has done nothing. -/
@[simp] theorem Processes.fork_logs_self (child : Nat) : (x.fork pid child).logs child = .none :=
  Function.update_self ..

/-- What the others did stays as it was. -/
@[simp] theorem Processes.fork_logs_other {child other : Nat} (different : other ≠ child) :
    (x.fork pid child).logs other = x.logs other := Function.update_of_ne different _ _

end Turns

/-- `fork` returns in the parent and in the child. -/
def spawned : Spawning posix Nat
  | .fork, .parent child => some (child, .child)
  | _, _ => none

/-- The effect of a call of one of the processes. -/
def processEffect (pid : Nat) : Effect posix Processes := fun request answer x =>
  (effect request answer (x.view pid)).map fun after =>
    match spawned request answer with
    | none => x.turn pid request answer after
    | some (child, _) => (x.turn pid request answer after).fork pid child

/-- `SIGINT` starts `sig_cleanup` where that is installed and not blocked. -/
def caughtBy (pid : Nat) (x : Processes) : Option Processes :=
  if (x.globals pid).sigint = .cleanup ∧ (x.globals pid).masked = false then
    some { x with globals := Function.update x.globals pid { x.globals pid with masked := true } }
  else none

/-- A process and its children. -/
def processes (cfg : Config) : Forking posix Ending Processes Nat where
  effect := processEffect
  spawns := spawned
  handler := interrupt cfg
  catches := caughtBy

/-- A process that has not begun. -/
structure Processes.Starting (root : Nat) (x : Processes) : Prop where
  globals : x.globals root = .initial
  logs : ∀ pid, x.logs pid = .none

/-- Whether an answer is a failure over which a child exits. -/
def failing : (request : Call) → Call.Answer request → Bool
  | .allocate, ok => !ok
  | .strftime, text => text.isNone
  | .close _, ok => !ok
  | .dup2 _ _, ok => !ok
  | .execlp _ _, ok => !ok
  | .kill _ .int, killed => killed != .sent
  | _, _ => false

/-- The calls of a child as long as nothing fails in it. -/
def Call.InChild : Call → Prop
  | .allocate => True
  | .strftime => True
  | .getpid => True
  | .getppid => True
  | .print _ => True
  | .close _ => True
  | .dup2 _ _ => True
  | .execlp _ _ => True
  | .signal _ .default => True
  | .sleep _ => True
  | .kill _ _ => True
  | _ => False

/-- What a process is. -/
inductive ForkStage where
  /-- It has not been forked. -/
  | parent
  /-- It is a child in which nothing has failed. -/
  | child
  /-- It is a child in which something has failed. -/
  | childFailed
  deriving DecidableEq

/-- What a process is after an answer. -/
def ForkStage.advance : ForkStage → (request : Call) → Call.Answer request → ForkStage
  | .parent, .fork, .child => .child
  | .child, request, answer => if failing request answer then .childFailed else .child
  | stage, _, _ => stage

/-- What each may do. Nothing is asked of a child in which something has failed. -/
def ForkStage.Allowed (key : Option Bytes) : ForkStage → Call → Prop
  | .parent, request => request = .fork ∨ request.Own key
  | .child, request => request.InChild
  | .childFailed, _ => True

/-- The protocol of a process and of its children. -/
def forkProtocol (key : Option Bytes) : Protocol posix ForkStage where
  allowed := ForkStage.Allowed key
  advance := ForkStage.advance

/-- A child does not return into the functions of its parent, and does not exit. -/
def NoReturnInChild {α : Type} (result : Except Ending α) (stage : ForkStage) : Prop :=
  match result with
  | .ok _ => stage ≠ .child
  | .error ending => stage = .child → ∀ status message, ending ≠ .exit status message

variable {cfg : Config} {L : CLocale} {key : Option Bytes} {α β : Type}

/-- Nothing is asked of a child in which something has failed. -/
theorem follows_childFailed {Q : Except Ending α → ForkStage → Prop}
    (holds : ∀ result, Q result .childFailed)
    (p : Prog α) : p.Follows (forkProtocol key) Q .childFailed := by
  induction p with
  | done value => exact holds _
  | halt ending => exact holds _
  | call request next ih => exact ⟨trivial, ih⟩

/-- Only `fork` makes a child. -/
theorem ForkStage.advance_parent {request : Call} {answer : Call.Answer request}
    (other : request ≠ .fork) :
    ForkStage.advance .parent request answer = .parent := by
  cases request <;> first | rfl | exact absurd rfl other

/-- A program that makes only its own calls has no children. -/
theorem follows_own {p : Prog α} (own : p.Uses (Call.Own key)) :
    p.Follows (forkProtocol key) (fun _ stage => stage = .parent) .parent := by
  induction p with
  | done value => rfl
  | halt ending => rfl
  | call request next ih =>
    have other : request ≠ .fork := by
      rintro rfl
      exact own.1
    refine ⟨.inr own.1, fun answer => ?_⟩
    rw [show (forkProtocol key).advance .parent request answer = .parent
      from ForkStage.advance_parent other]
    exact ih answer (own.2 answer)

/-- The children of a program follow the protocol. -/
abbrev ChildrenFollow (key : Option Bytes) (p : Prog α) : Prop :=
  p.Follows (forkProtocol key) NoReturnInChild .parent

/-- A program without children. -/
theorem ChildrenFollow.own {p : Prog α} (own : p.Uses (Call.Own key)) : ChildrenFollow key p := by
  refine (follows_own own).mono fun result stage parent => ?_
  rw [parent]
  cases result with
  | ok value => exact ForkStage.noConfusion
  | error ending => exact ForkStage.noConfusion

/-- The sequencing rule. -/
theorem ChildrenFollow.bind {p : Prog α} {rest : α → Prog β} (first : ChildrenFollow key p)
    (second : ∀ value, ChildrenFollow key (rest value)) : ChildrenFollow key (p.bind rest) := by
  refine Program.Follows.bind first ?_ fun _ _ noReturn => noReturn
  intro value stage noReturn
  cases stage with
  | parent => exact second value
  | child => exact absurd rfl noReturn
  | childFailed =>
    refine follows_childFailed (fun result => ?_) _
    cases result with
    | ok value => exact ForkStage.noConfusion
    | error ending => exact ForkStage.noConfusion

/-- What follows of a child until something fails. -/
abbrev ChildFollows (key : Option Bytes) (p : Prog α) : Prop :=
  p.Follows (forkProtocol key) NoReturnInChild .child

/-- One call of a child. -/
theorem ChildFollows.call {request : Call} {next : Call.Answer request → Prog α}
    (inChild : request.InChild)
    (each : ∀ answer, failing request answer = false → ChildFollows key (next answer)) :
    ChildFollows key (.call request next) := by
  refine ⟨inChild, fun answer => ?_⟩
  cases failed : failing request answer with
  | false =>
    have stays : (forkProtocol key).advance .child request answer = .child := by
      simp [forkProtocol, ForkStage.advance, failed]
    rw [stays]
    exact each answer failed
  | true =>
    have lost : (forkProtocol key).advance .child request answer = .childFailed := by
      simp [forkProtocol, ForkStage.advance, failed]
    rw [lost]
    refine follows_childFailed (fun result => ?_) _
    cases result with
    | ok value => exact ForkStage.noConfusion
    | error ending => exact ForkStage.noConfusion

/-- A message of a child. -/
theorem ChildFollows.debug {fmt : String} {rest : Unit → Prog α}
    (next : ChildFollows key (rest ())) :
    ChildFollows key ((Mdp.debug cfg fmt).bind rest) := by
  unfold Mdp.debug
  split
  · refine ChildFollows.call trivial fun pid _ => ChildFollows.call trivial fun tbuf sound => ?_
    cases tbuf with
    | none => cases sound
    | some tbuf =>
      refine ChildFollows.call trivial fun given sound => ?_
      cases given with
      | false => cases sound
      | true => exact ChildFollows.call trivial fun _ _ => next
  · exact next

/-- The gpg child becomes gpg. -/
theorem gpgChild_childFollows {pout : Nat × Nat} : ChildFollows key (gpgChild cfg pout) := by
  have exec : ChildFollows key (gpgExec cfg) := by
    refine ChildFollows.call trivial fun pid _ =>
      ChildFollows.debug (ChildFollows.call trivial fun ok sound => ?_)
    cases ok with
    | false => cases sound
    | true =>
      rintro - status message same
      cases same
  refine ChildFollows.call trivial fun closed sound => ?_
  cases closed with
  | false => cases sound
  | true =>
    refine ChildFollows.call trivial fun duplicated sound => ?_
    cases duplicated with
    | false => cases sound
    | true =>
      by_cases same : pout.2 = stdoutFileno
      · simp only [require, if_pos same]
        exact exec
      · simp only [require, if_neg same]
        refine ChildFollows.call trivial fun closed sound => ?_
        cases closed with
        | false => cases sound
        | true => exact exec

/-- The watcher ends without running its exit handler. -/
theorem watcherChild_childFollows {pid : Nat} {timeout : UInt32} :
    ChildFollows key (watcherChild cfg pid timeout) := by
  have immediate : ChildFollows key (.halt (.immediate 0) : Prog Nat) := by
    rintro - status message same
    cases same
  refine ChildFollows.call trivial fun _ _ => ChildFollows.call trivial fun _ _ =>
    ChildFollows.debug ?_
  refine ChildFollows.call trivial fun _ _ => ChildFollows.call trivial fun parent _ => ?_
  refine ChildFollows.call trivial fun alive _ => ?_
  cases alive with
  | sent =>
    refine ChildFollows.debug (ChildFollows.call trivial fun _ _ => ChildFollows.call trivial
      fun killed sound => ?_)
    cases killed with
    | sent => exact immediate
    | esrch => cases sound
    | failed => cases sound
  | esrch => exact ChildFollows.debug immediate
  | failed => exact ChildFollows.debug immediate

/-- A fork in a parent. -/
theorem ChildrenFollow.fork {next : Fork → Prog α} (child : ChildFollows key (next .child))
    (others : ∀ answer, answer ≠ .child → ChildrenFollow key (next answer)) :
    ChildrenFollow key (.call .fork next) := by
  refine ⟨.inl rfl, fun answer => ?_⟩
  cases answer with
  | child => exact child
  | failed => exact others .failed Fork.noConfusion
  | parent pid => exact others (.parent pid) Fork.noConfusion

/-- `set_pid_timeout` starts the watcher. -/
theorem setPidTimeout_childrenFollow {pid : Nat} {timeout : UInt32} :
    ChildrenFollow key (setPidTimeout cfg pid timeout) := by
  refine ChildrenFollow.fork watcherChild_childFollows fun answer other => ?_
  cases answer with
  | child => exact absurd rfl other
  | failed => exact .own trivial
  | parent watcherPid =>
    exact .own ⟨trivial, fun _ => (uses_debug Call.Quiet.own).bind fun _ => trivial⟩

/-- `gpg_open` starts gpg and the watcher. -/
theorem gpgOpen_childrenFollow : ChildrenFollow key (gpgOpen cfg) := by
  have parent : ∀ pout gpgPid, ChildrenFollow key (gpgParent cfg pout gpgPid) := by
    intro pout gpgPid
    refine .bind (p := ask (.close pout.2)) (.own ⟨trivial, fun _ => trivial⟩) fun closed => ?_
    refine .bind (.own uses_require) fun _ => ?_
    refine .bind (p := ask (.fdopen pout.1)) (.own ⟨trivial, fun _ => trivial⟩) fun fp => ?_
    exact setPidTimeout_childrenFollow.bind fun _ => .own trivial
  have forks : ∀ pout, ChildrenFollow key (gpgFork cfg pout) := by
    intro pout
    refine ChildrenFollow.fork gpgChild_childFollows fun answer other => ?_
    cases answer with
    | child => exact absurd rfl other
    | failed => exact .own trivial
    | parent gpgPid => exact parent pout gpgPid
  have starts : ChildrenFollow key (gpgStart cfg) := by
    refine .bind (.own (uses_debug Call.Quiet.own)) fun _ => ?_
    refine .bind (p := ask .pipe) (.own ⟨trivial, fun _ => trivial⟩) fun pout => ?_
    cases pout with
    | none => exact .own trivial
    | some pout => exact forks pout
  refine .bind (.own uses_fileExists) fun found => ?_
  cases found with
  | true => exact starts
  | false => exact .bind (.own (uses_debug Call.Quiet.own)) fun _ => .own trivial

/-- `load_results_gpg` has the children of `gpg_open`. -/
theorem loadResultsGpg_childrenFollow {memory : Memory} :
    ChildrenFollow key (loadResultsGpg cfg L memory) := by
  refine gpgOpen_childrenFollow.bind fun opened => ?_
  cases opened with
  | none => exact .own trivial
  | some opened =>
    obtain ⟨fp, gpgPid, watcherPid⟩ := opened
    cases fp with
    | false => exact .own trivial
    | true =>
      refine .own (uses_loadResultsFp.bind fun _ => (uses_gpgClose Call.Quiet.own).bind fun _ => ?_)
      exact uses_require.bind fun _ => trivial

/-- The commands have no other children. -/
theorem runCommand_childrenFollow (cfg : Config) (L : CLocale) (command : Command.Edits) :
    ChildrenFollow cfg.gpgKeyId (runCommand cfg L command) := by
  have begins : ∀ {rest : Unit → Prog Unit}, ChildrenFollow cfg.gpgKeyId (rest ()) →
      ChildrenFollow cfg.gpgKeyId ((gpgCheck cfg).bind fun _ => lockSet.bind fun _ =>
        setupSignalsAndAtexit.bind rest) := by
    intro rest later
    refine .bind (.own (uses_gpgCheck Call.Quiet.own)) fun _ => .bind (.own uses_lockSet) fun _ =>
      ?_
    exact .bind (.own uses_setupSignalsAndAtexit) fun _ => later
  cases command with
  | edit =>
    refine .bind (.own (uses_debug Call.Quiet.own)) fun _ => begins ?_
    exact loadResultsGpg_childrenFollow.bind fun memory => .own uses_editResults
  | add opts =>
    refine .bind (.own (uses_debug Call.Quiet.own)) fun _ => ?_
    refine .bind (.own (uses_addProfile Call.Quiet.own)) fun profile => begins ?_
    refine loadResultsGpg_childrenFollow.bind fun memory => ?_
    exact .bind (.own uses_profilePasswordsToResults) fun _ => .own uses_editResults

/-- A process and its children follow the protocol to their ends. -/
theorem process_forkProtocol (cfg : Config) (L : CLocale) (command : Command.Edits) :
    (process cfg L command).Follows (forkProtocol cfg.gpgKeyId) (fun _ _ => True) .parent := by
  have main : ChildrenFollow cfg.gpgKeyId (mainFrom cfg L command) := by
    refine (runCommand_childrenFollow cfg L command).bind fun _ => ?_
    exact .own ((uses_debug Call.Quiet.own).bind fun _ => trivial)
  refine Program.Follows.onHalt main ?_ fun _ _ _ => trivial
  intro ending stage noReturn
  cases stage with
  | parent => exact (follows_own (uses_leave ending)).mono fun _ _ _ => trivial
  | childFailed => exact follows_childFailed (fun _ => trivial) _
  | child =>
    -- Only `exit` runs a handler.
    cases ending with
    | exit status message => exact absurd rfl (noReturn rfl status message)
    | immediate status => trivial
    | crash => trivial
    | replaced => trivial

/-- A process that catches `SIGINT` follows it as well. -/
theorem interrupted_forkProtocol {p : Prog Unit}
    (follows : p.Follows (forkProtocol key) (fun _ _ => True) .parent) :
    (Program.interruptedBy (interrupt cfg) p).Follows (forkProtocol key)
    (fun _ _ => True) .parent := by
  refine Program.Follows.bind (follows_own uses_interrupt) ?_ fun _ _ _ => trivial
  rintro _ _ rfl
  exact follows

end Mdp
