import Mdp.Processes

/-!
# Descriptors and signals of a process and its children

What a process and its children do to each other: the first child is to become gpg with its output
on a pipe, the second one watches it, and the process waits for the first and then stops the second.
Each has a role, which says which of these things it may do next; whatever else a process asks for
has to do with no pipe, no descriptor and no other process, and its handler of `SIGINT` and its exit
handler ask for nothing of the kind either.

What no process can see is noted: which end of the pipe each descriptor of each process is on, and
what each has done to other processes.
-/

namespace Mdp

open Interaction CStrings HardLinks

/-- The ends of a pipe. -/
inductive PipeEnd where
  | reading
  | writing
  deriving DecidableEq, Repr

/-- What a process does to another one, or to itself. -/
inductive Act where
  /-- It creates another one. -/
  | forks (pid : Nat)
  /-- It learns that another one has ended. -/
  | awaits (pid : Nat)
  /-- It sends a signal to another one. -/
  | signals (pid : Nat) (signal : Signal)
  /-- It becomes gpg. -/
  | becomes
  deriving DecidableEq, Repr

/-- What is noted of a process. -/
structure Ledger where
  /-- The pipe behind each of its descriptors. -/
  descriptors : Nat → Option PipeEnd
  /-- The descriptor of the stream that `fdopen` has made. -/
  stream : Option Nat
  /-- Its acts, in their order. -/
  acts : List Act

/-- Nothing. -/
def Ledger.empty : Ledger := ⟨fun _ => none, none, []⟩

/-- The descriptors after those of a pipe were added. -/
def addPipe (pout : Nat × Nat) (table : Nat → Option PipeEnd) : Nat → Option PipeEnd :=
  Function.update (Function.update table pout.1 (some .reading)) pout.2 (some .writing)

/-- The descriptors after an answer. -/
def descriptorsAfter (stream : Option Nat) :
    (request : Call) → Call.Answer request → (Nat → Option PipeEnd) → Nat → Option PipeEnd
  | .pipe, some pout, table => addPipe pout table
  | .close fd, true, table => Function.update table fd none
  | .dup2 old new, true, table => Function.update table new (table old)
  | .fclose .pipe, true, table => stream.elim table fun fd => Function.update table fd none
  | _, _, table => table

/-- The stream after an answer. -/
def streamAfter (stream : Option Nat) : (request : Call) → Call.Answer request → Option Nat
  | .fdopen fd, true => some fd
  | _, _ => stream

/-- What an answer says that a process has done. -/
def acted : (request : Call) → Call.Answer request → List Act
  | .fork, .parent child => [.forks child]
  | .execlp _ _, true => [.becomes]
  | .waitpid child, .exited _ => [.awaits child]
  | .waitpid child, .signaled => [.awaits child]
  | .kill child .int, .sent => [.signals child .int]
  | .kill child .kill, .sent => [.signals child .kill]
  | _, _ => []

/-- What is noted after an answer. -/
def Ledger.note (ledger : Ledger) (request : Call) (answer : Call.Answer request) : Ledger where
  descriptors := descriptorsAfter ledger.stream request answer ledger.descriptors
  stream := streamAfter ledger.stream request answer
  acts := ledger.acts ++ acted request answer

/-- What is noted of a new child: it has the descriptors and the stream of its parent. -/
def Ledger.child (ledger : Ledger) : Ledger := { ledger with acts := [] }

/-- What is noted of the processes, by their numbers. -/
abbrev Ledgers := Nat → Ledger

/-- The notes after an answer to a process. -/
def Ledgers.note (pid : Nat) (request : Call) (answer : Call.Answer request) (notes : Ledgers) :
    Ledgers :=
  match spawned request answer with
  | none => Function.update notes pid ((notes pid).note request answer)
  | some (child, _) =>
    Function.update (Function.update notes pid ((notes pid).note request answer)) child
      ((notes pid).note request answer).child

/-- A process and its children, with the notes. -/
abbrev notedProcesses (cfg : Config) : Forking posix Ending (Ledgers × Processes) Nat :=
  (processes cfg).record Ledgers.note

/-- The role of a process. A pipe is given by its two descriptors. -/
inductive Role where
  /-- It has done nothing of all this. -/
  | single
  /-- It has made the pipe. -/
  | piped (pout : Nat × Nat)
  /-- It has created the process that is to become gpg. -/
  | parent (pout : Nat × Nat) (gpg : Nat)
  /-- It has closed the end it does not read from. -/
  | reader (pout : Nat × Nat) (gpg : Nat)
  /-- It has, or has not, made a stream of the other end. -/
  | opened (pout : Nat × Nat) (gpg : Nat) (fp : Bool)
  /-- It has created the watcher. -/
  | watched (pout : Nat × Nat) (gpg watcher : Nat) (fp : Bool)
  /-- It has closed the stream. -/
  | closed (gpg watcher : Nat)
  /-- It knows that gpg has ended by itself. -/
  | gpgExited (gpg watcher : Nat)
  /-- It is done with both. -/
  | complete (gpg watcher : Nat)
  /-- It is to become gpg. -/
  | child (pout : Nat × Nat)
  /-- It has closed the end it does not write to. -/
  | writer (pout : Nat × Nat)
  /-- Its output is on the pipe. -/
  | joined (pout : Nat × Nat)
  /-- Nothing else is. -/
  | ready
  /-- It has become gpg. -/
  | replaced
  /-- It watches gpg. -/
  | watching (pout : Nat × Nat) (gpg : Nat)
  /-- It has stopped gpg. -/
  | hasStopped (pout : Nat × Nat) (gpg : Nat)
  deriving DecidableEq, Repr

/-- A role in which a process may close what it likes. -/
def Role.Settled : Role → Prop
  | .single => True
  | .watched _ _ _ _ => True
  | .complete _ _ => True
  | _ => False

/-- What each role may do beside what has to do with nothing of this. -/
inductive Role.May : Role → Call → Prop where
  | pipe : May .single .pipe
  | forkGpg {pout : Nat × Nat} : May (.piped pout) .fork
  | closeWriting {pout : Nat × Nat} {gpg : Nat} : May (.parent pout gpg) (.close pout.2)
  | fdopen {pout : Nat × Nat} {gpg : Nat} : May (.reader pout gpg) (.fdopen pout.1)
  | forkWatcher {pout : Nat × Nat} {gpg : Nat} {fp : Bool} : May (.opened pout gpg fp) .fork
  | fgets {pout : Nat × Nat} {gpg watcher : Nat} :
      May (.watched pout gpg watcher true) (.fgets .pipe)
  | fclose {pout : Nat × Nat} {gpg watcher : Nat} :
      May (.watched pout gpg watcher true) (.fclose .pipe)
  | waitpid {gpg watcher : Nat} : May (.closed gpg watcher) (.waitpid gpg)
  | cancel {gpg watcher : Nat} : May (.gpgExited gpg watcher) (.kill watcher .int)
  | closeReading {pout : Nat × Nat} : May (.child pout) (.close pout.1)
  | dup2 {pout : Nat × Nat} : May (.writer pout) (.dup2 pout.2 stdoutFileno)
  | closeCopied {pout : Nat × Nat} (other : pout.2 ≠ stdoutFileno) :
      May (.joined pout) (.close pout.2)
  | execAtOnce {pout : Nat × Nat} (same : pout.2 = stdoutFileno) (file : Bytes) (path : Path) :
      May (.joined pout) (.execlp file path)
  | exec (file : Bytes) (path : Path) : May .ready (.execlp file path)
  | probe {pout : Nat × Nat} {gpg pid : Nat} : May (.watching pout gpg) (.kill pid .zero)
  | stop {pout : Nat × Nat} {gpg : Nat} : May (.watching pout gpg) (.kill gpg .int)
  /-- The descriptors of other files. -/
  | close {role : Role} (settled : role.Settled) (fd : Nat) : May role (.close fd)

/-- What each role may ask for. -/
def Role.Allowed (key : Option Bytes) (role : Role) (request : Call) : Prop :=
  request.Plain key ∨ role.May request

/-- The role after an answer. -/
def Role.advance : Role → (request : Call) → Call.Answer request → Role
  | .single, .pipe, some pout => .piped pout
  | .piped pout, .fork, .parent gpg => .parent pout gpg
  | .piped pout, .fork, .child => .child pout
  | .parent pout gpg, .close _, true => .reader pout gpg
  | .reader pout gpg, .fdopen _, fp => .opened pout gpg fp
  | .opened pout gpg fp, .fork, .parent watcher => .watched pout gpg watcher fp
  | .opened pout gpg _, .fork, .child => .watching pout gpg
  | .watched _ gpg watcher _, .fclose .pipe, true => .closed gpg watcher
  | .closed gpg watcher, .waitpid _, .exited _ => .gpgExited gpg watcher
  | .closed gpg watcher, .waitpid _, .signaled => .complete gpg watcher
  | .gpgExited gpg watcher, .kill _ _, _ => .complete gpg watcher
  | .child pout, .close _, true => .writer pout
  | .writer pout, .dup2 _ _, true => .joined pout
  | .joined _, .close _, true => .ready
  | .joined _, .execlp _ _, true => .replaced
  | .ready, .execlp _ _, true => .replaced
  | .watching pout gpg, .kill _ .int, .sent => .hasStopped pout gpg
  | role, _, _ => role

/-- The protocol of the roles. -/
def roles (key : Option Bytes) : Protocol posix Role where
  allowed := Role.Allowed key
  advance := Role.advance

variable {cfg : Config} {L : CLocale} {key : Option Bytes} {α β : Type}

/-- What has to do with nothing of this leaves every role as it is. -/
theorem Role.advance_plain {role : Role} {request : Call} {answer : Call.Answer request}
    (plain : request.Plain key) : role.advance request answer = role := by
  cases request with
  | fclose stream =>
    cases stream with
    | pipe => exact plain.elim
    | file inode => cases role <;> rfl
  | _ => first | exact plain.elim | (cases role <;> rfl)

/-- Such a process keeps its role meanwhile. -/
theorem Role.advance_close {role : Role} {fd : Nat} {answer : Bool} (settled : role.Settled) :
    role.advance (.close fd) answer = role := by
  cases role <;> first | exact settled.elim | rfl

/-- What has to do with nothing of this is no act. -/
theorem acted_plain {request : Call} {answer : Call.Answer request} (plain : request.Plain key) :
    acted request answer = [] := by
  cases request with
  | fork => exact plain.elim
  | _ => first | exact plain.elim | rfl

/-- It leaves the descriptors as they are. -/
theorem descriptorsAfter_plain {request : Call} {answer : Call.Answer request} {stream : Option Nat}
    {table : Nat → Option PipeEnd} (plain : request.Plain key) :
    descriptorsAfter stream request answer table = table := by
  cases request with
  | fclose source =>
    cases source with
    | pipe => exact plain.elim
    | file inode => rfl
  | _ => first | exact plain.elim | rfl

/-- It makes no stream of a descriptor. -/
theorem streamAfter_plain {request : Call} {answer : Call.Answer request} {stream : Option Nat}
    (plain : request.Plain key) : streamAfter stream request answer = stream := by
  cases request with
  | fdopen fd => exact plain.elim
  | _ => rfl

/-- What holds of the value and the role where a program returns. -/
def Returns (R : α → Role → Prop) (result : Except Ending α) (role : Role) : Prop :=
  match result with
  | .ok value => R value role
  | .error _ => True

/-- A program that follows the protocol of its role from here on, and in which role it returns. -/
abbrev FollowsRole (key : Option Bytes) (R : α → Role → Prop) (role : Role) (p : Prog α) : Prop :=
  p.Follows (roles key) (Returns R) role

namespace FollowsRole

variable {R R' : α → Role → Prop} {role : Role}

/-- A weaker condition holds as well. -/
theorem mono {p : Prog α} (followsRole : FollowsRole key R role p)
    (weaker : ∀ value role', R value role' → R' value role') : FollowsRole key R' role p := by
  refine Program.Follows.mono followsRole fun result role' holds => ?_
  cases result with
  | ok value => exact weaker value role' holds
  | error ending => trivial

/-- The sequencing rule. -/
theorem bind {Q : β → Role → Prop} {p : Prog α} {rest : α → Prog β}
    (first : FollowsRole key R role p)
    (second : ∀ value role', R value role' → FollowsRole key Q role' (rest value)) :
    FollowsRole key Q role (p.bind rest) :=
  Program.Follows.bind first second fun _ _ holds => holds

/-- What a role may ask for, and each answer to it. -/
theorem call {request : Call} {next : Call.Answer request → Prog α} (may : role.May request)
    (each : ∀ answer, FollowsRole key R (role.advance request answer) (next answer)) :
    FollowsRole key R role (.call request next) := ⟨.inr may, each⟩

/-- A program that has to do with nothing of this may run in every role. -/
theorem plain {p : Prog α} (uses : p.Uses (Call.Plain key)) :
    FollowsRole key (fun _ role' => role' = role) role p := by
  induction p with
  | done value => rfl
  | halt ending => trivial
  | call request next ih =>
    refine ⟨.inl uses.1, fun answer => ?_⟩
    have stays : (roles key).advance role request answer = role := Role.advance_plain uses.1
    rw [stays]
    exact ih answer (uses.2 answer)

/-- Such a program, and another one behind it. -/
theorem before {p : Prog α} {rest : α → Prog β} {Q : β → Role → Prop}
    (uses : p.Uses (Call.Plain key)) (second : ∀ value, FollowsRole key Q role (rest value)) :
    FollowsRole key Q role (p.bind rest) := by
  refine (plain uses).bind fun value role' same => ?_
  rw [same]
  exact second value

/-- A message before it. -/
theorem debug {fmt : String} {rest : Unit → Prog α} (second : FollowsRole key R role (rest ())) :
    FollowsRole key R role ((Mdp.debug cfg fmt).bind rest) := before plain_debug fun _ => second

/-- A settled process may also close descriptors. -/
theorem closing {p : Prog α} (settled : role.Settled) (uses : p.Uses (Call.Closing key)) :
    FollowsRole key (fun _ role' => role' = role) role p := by
  induction p with
  | done value => rfl
  | halt ending => trivial
  | call request next ih =>
    have here : (roles key).allowed role request ∧
        ∀ answer, (roles key).advance role request answer = role := by
      rcases uses.1.plain_or_close with plain | ⟨fd, rfl⟩
      · exact ⟨.inl plain, fun answer => Role.advance_plain plain⟩
      · exact ⟨.inr (.close settled fd), fun answer => Role.advance_close settled⟩
    refine ⟨here.1, fun answer => ?_⟩
    rw [here.2 answer]
    exact ih answer (uses.2 answer)

end FollowsRole

/-- The role in which a process returns from `gpg_open`. -/
def Opened (opened : Option GpgOpen) (role : Role) : Prop :=
  match opened with
  | none => role = .single
  | some opened => ∃ pout, role = .watched pout opened.gpgPid opened.watcherPid opened.fp

/-- The child becomes gpg with its output on the pipe. -/
theorem gpgChild_followsRole {pout : Nat × Nat} {R : Option GpgOpen → Role → Prop} :
    FollowsRole key R (.child pout) (gpgChild cfg pout) := by
  have exec : ∀ {role : Role}, (∀ file path, role.May (.execlp file path)) →
      FollowsRole key R role (gpgExec cfg) := by
    intro role may
    refine .before (p := ask .getpid) ⟨trivial, fun _ => trivial⟩ fun pid => .debug ?_
    refine .call (may _ _) fun replaced => ?_
    cases replaced <;> trivial
  refine .call .closeReading fun closed => ?_
  cases closed with
  | false => trivial
  | true =>
    refine .call .dup2 fun duplicated => ?_
    cases duplicated with
    | false => trivial
    | true =>
      by_cases same : pout.2 = stdoutFileno
      · simp only [require, if_pos same]
        exact exec (.execAtOnce same)
      · simp only [require, if_neg same]
        refine .call (.closeCopied same) fun closed => ?_
        cases closed with
        | false => trivial
        | true => exact exec .exec

/-- The watcher signals nobody but gpg. -/
theorem watcherChild_followsRole {pout : Nat × Nat} {gpg : Nat} {timeout : UInt32}
    {R : Nat → Role → Prop} :
    FollowsRole key R (.watching pout gpg) (watcherChild cfg gpg timeout) := by
  refine .before (p := ask (.signal .int .default)) ⟨trivial, fun _ => trivial⟩ fun _ => ?_
  refine .before (p := ask (.signal .kill .default)) ⟨trivial, fun _ => trivial⟩ fun _ => .debug ?_
  refine .before (p := ask (.sleep timeout)) ⟨trivial, fun _ => trivial⟩ fun _ => ?_
  refine .before (p := ask .getppid) ⟨trivial, fun _ => trivial⟩ fun parent => ?_
  refine .call .probe fun alive => ?_
  cases alive with
  | sent =>
    refine .debug (.before (p := ask (.print _)) ⟨trivial, fun _ => trivial⟩ fun _ => ?_)
    refine .call .stop fun killed => ?_
    cases killed <;> trivial
  | esrch => exact .debug trivial
  | failed => exact .debug trivial

/-- `set_pid_timeout` creates the watcher. -/
theorem setPidTimeout_followsRole {pout : Nat × Nat} {gpg : Nat} {fp : Bool} {timeout : UInt32} :
    FollowsRole key (fun watcher role => role = .watched pout gpg watcher fp) (.opened pout gpg fp)
      (setPidTimeout cfg gpg timeout) := by
  refine .call .forkWatcher fun answer => ?_
  cases answer with
  | failed => trivial
  | child => exact watcherChild_followsRole
  | parent watcher =>
    refine .before (p := ask .getpid) ⟨trivial, fun _ => trivial⟩ fun pid => .debug ?_
    rfl

/-- `gpg_open` creates both. -/
theorem gpgOpen_followsRole : FollowsRole key Opened .single (gpgOpen cfg) := by
  have parent : ∀ pout gpg, FollowsRole key Opened (.parent pout gpg) (gpgParent cfg pout gpg) := by
    intro pout gpg
    refine .call .closeWriting fun closed => ?_
    cases closed with
    | false => trivial
    | true =>
      refine .call .fdopen fun fp => ?_
      refine setPidTimeout_followsRole.bind ?_
      rintro watcher _ rfl
      exact ⟨pout, rfl⟩
  have forks : ∀ pout, FollowsRole key Opened (.piped pout) (gpgFork cfg pout) := by
    intro pout
    refine .call .forkGpg fun answer => ?_
    cases answer with
    | failed => trivial
    | child => exact gpgChild_followsRole
    | parent gpg => exact parent pout gpg
  refine .before plain_fileExists fun found => ?_
  cases found with
  | false => exact .debug rfl
  | true =>
    refine .debug (.call .pipe fun pout => ?_)
    cases pout with
    | none => trivial
    | some pout => exact forks pout

/-- `gpg_close` waits for gpg and then stops the watcher. -/
theorem gpgClose_followsRole {pout : Nat × Nat} {opened : GpgOpen} (fp : opened.fp = true) :
    FollowsRole key (fun _ role => role = .complete opened.gpgPid opened.watcherPid)
      (.watched pout opened.gpgPid opened.watcherPid opened.fp) (gpgClose cfg opened) := by
  rw [fp]
  refine .debug (.call .fclose fun done => ?_)
  cases done with
  | false => trivial
  | true =>
    refine .call .waitpid fun wait => ?_
    cases wait with
    | signaled => trivial
    | failed signaled => cases signaled <;> trivial
    | exited retcode =>
      refine .debug (FollowsRole.bind (R := fun _ role =>
        role = .complete opened.gpgPid opened.watcherPid) ?_ ?_)
      · refine .debug (.call .cancel fun killed => ?_)
        cases killed with
        | sent => rfl
        | esrch => rfl
        | failed => trivial
      · rintro _ _ rfl
        rfl

/-- `load_results_gpg` leaves the process settled. -/
theorem loadResultsGpg_followsRole {memory : Memory} :
    FollowsRole key (fun _ role => role.Settled) .single (loadResultsGpg cfg L memory) := by
  refine gpgOpen_followsRole.bind fun opened role reached => ?_
  cases opened with
  | none =>
    rw [show role = .single from reached]
    trivial
  | some opened =>
    obtain ⟨pout, rfl⟩ := reached
    cases fp : opened.fp with
    | false =>
      simp only [fp]
      trivial
    | true =>
      simp only [fp, if_true]
      refine .call .fgets fun content => .before plain_loadResultsLoop fun loaded => ?_
      have closes : FollowsRole key (fun _ role => role = .complete opened.gpgPid opened.watcherPid)
          (.watched pout opened.gpgPid opened.watcherPid opened.fp) (gpgClose cfg opened) :=
        gpgClose_followsRole fp
      rw [fp] at closes
      refine closes.bind ?_
      rintro retcode _ rfl
      exact .before uses_require fun _ => trivial

/-- The commands end settled. -/
theorem runCommand_followsRole (cfg : Config) (L : CLocale) (command : Command.Edits) :
    FollowsRole cfg.gpgKeyId (fun _ role => role.Settled) .single (runCommand cfg L command) := by
  have begins : ∀ {rest : Unit → Prog Unit},
      FollowsRole cfg.gpgKeyId (fun _ role => role.Settled) .single (rest ()) →
      FollowsRole cfg.gpgKeyId (fun _ role => role.Settled) .single ((gpgCheck cfg).bind fun _ =>
        lockSet.bind fun _ => setupSignalsAndAtexit.bind rest) := by
    intro rest later
    refine .before (checks_gpgCheck Call.Message.plain (fun _ => trivial) fun _ => trivial) fun _ =>
      ?_
    refine .before plain_lockSet fun _ => ?_
    exact .before plain_setupSignalsAndAtexit fun _ => later
  have edits : ∀ memory role, role.Settled →
      FollowsRole cfg.gpgKeyId (fun _ role => role.Settled) role (editResults cfg L memory) := by
    intro memory role settled
    refine (FollowsRole.closing settled closing_editResults).mono ?_
    rintro _ _ rfl
    exact settled
  cases command with
  | edit => exact .debug (begins (loadResultsGpg_followsRole.bind fun memory role =>
      edits memory role))
  | add opts =>
    refine .debug (.before (messages_addProfile Call.Message.plain) fun profile => begins ?_)
    refine loadResultsGpg_followsRole.bind fun memory role settled => ?_
    exact .before plain_profilePasswordsToResults fun memory => edits memory role settled

/-- A process and its children follow the protocol of their roles to their ends. -/
theorem process_roles (cfg : Config) (L : CLocale) (command : Command.Edits) :
    (process cfg L command).Follows (roles cfg.gpgKeyId) (fun _ _ => True) .single := by
  have main : FollowsRole cfg.gpgKeyId (fun _ _ => True) .single (mainFrom cfg L command) :=
    (runCommand_followsRole cfg L command).bind fun _ _ _ => .debug trivial
  refine Program.Follows.onHalt main ?_ fun _ _ _ => trivial
  intro ending role _
  exact Program.Follows.mono (FollowsRole.plain (plain_leave ending)) fun _ _ _ => trivial

/-- A process that catches `SIGINT` goes on in its role. -/
theorem interrupted_roles {p : Prog Unit} {role : Role}
    (follows : p.Follows (roles key) (fun _ _ => True) role) :
    (Program.interruptedBy (interrupt cfg) p).Follows (roles key) (fun _ _ => True) role := by
  refine Program.Follows.bind (FollowsRole.plain plain_interrupt) ?_ fun _ _ _ => trivial
  rintro _ _ rfl
  exact follows

end Mdp
