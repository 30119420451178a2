import Mdp.Processes
import Mdp.Scenario

/-!
# Children and the cleanup

As long as no call of a child fails and no `SIGINT` reaches a child that still has the handler of
its parent, no child ever makes a call of `cleanup`, and the lock is there from the moment the
parent creates it until the parent removes it. A child that fails exits through the handler it
inherited, and removes the lock of its parent.
-/

namespace Mdp.ChildCleanup

open Mdp Interaction CStrings HardLinks

/-- No child has run `cleanup`, and the lock is there from the moment the parent has created it
until it removes it itself. -/
structure ChildrenLeaveLock (root : Nat) (x : Processes) : Prop where
  children : ∀ pid, pid ≠ root → (x.logs pid).cleaned = false
  lock : (x.logs root).created = true → (x.logs root).unlocked = false →
    (x.files.entry .lock).isSome = true

/-- Answers at which no call of a child fails. -/
def noChildCallFails (root : Nat) : Turns posix Processes Nat := fun pid request answer _ =>
  pid ≠ root → failing request answer = false

/-- Interrupts that reach only the parent while they would run its handler. -/
def onlyParent (root : Nat) : Nat → Processes → Prop := fun pid _ => pid = root

variable {key : Option Bytes} {s s' : State} {request : Call} {answer : Call.Answer request}
  {log : ProcessLog}

/-- The lock is there if the log says so. -/
def Locked (log : ProcessLog) (files : Files) : Prop :=
  log.created = true → log.unlocked = false → (files.entry .lock).isSome = true

/-- A child changes no file. -/
theorem inChild_files (inChild : request.InChild) (taken : effect request answer s = some s') :
    s'.files = s.files := by
  have unchanged : some s = some s' → s'.files = s.files := by
    intro same
    rw [Option.some.inj same]
  cases request with
  | signal signal disposition =>
    cases signal with
    | int => rw [effect_signal_int taken]; rfl
    | zero => exact unchanged taken
    | kill => exact unchanged taken
  | _ => first | exact inChild.elim | exact unchanged taken

/-- It makes no call of `cleanup`. -/
theorem inChild_cleaned (inChild : request.InChild) :
    (log.note request answer).cleaned = log.cleaned := by
  cases request <;> first | exact inChild.elim | exact Bool.or_false _

/-- It does not fork. -/
theorem inChild_spawned (inChild : request.InChild) : spawned request answer = none := by
  cases request <;> first | rfl | exact inChild.elim

/-- What another call than these two does is not remembered of the lock. -/
theorem note_lock (create : request ≠ .fopenWrite .lock) (remove : request ≠ .unlink .lock) :
    (log.note request answer).created = log.created ∧
      (log.note request answer).unlocked = log.unlocked := by
  unfold ProcessLog.note
  split
  · exact absurd rfl create
  · exact absurd rfl remove
  · exact ⟨rfl, rfl⟩

/-- The own calls of a process keep the lock there, until it removes it. -/
theorem Locked.own (own : request.Own key) (taken : effect request answer s = some s')
    (locked : Locked log s.files) : Locked (log.note request answer) s'.files := by
  by_cases create : request = .fopenWrite .lock
  · subst create
    rcases effect_fopenWrite taken with ⟨rfl, rfl⟩ | ⟨inode, rfl, bound, rfl⟩ | ⟨rfl, _, rfl⟩
    · exact locked
    · intro _ _
      rw [State.setFiles_files, Directory.modify_entry, bound]
      rfl
    · intro _ _
      rw [State.setFiles_files, Directory.create_entry_self]
      rfl
  · by_cases remove : request = .unlink .lock
    · subst remove
      rcases effect_unlink taken with ⟨rfl, rfl⟩ | ⟨rfl, _, rfl⟩ | ⟨rfl, rfl⟩
      · intro _ unlocked
        cases unlocked
      · exact locked
      · exact locked
    · have other : request.binds .lock = false := by
        cases request with
        | unlink path =>
          refine beq_eq_false_iff_ne.mpr fun same => remove ?_
          rw [same]
        | fopenWrite path =>
          refine beq_eq_false_iff_ne.mpr fun same => create ?_
          rw [same]
        | link old new =>
          refine beq_eq_false_iff_ne.mpr ?_
          rintro rfl
          cases own
        | system command =>
          cases command with
          | edit editor path =>
            refine beq_eq_false_iff_ne.mpr ?_
            rintro rfl
            cases own
          | _ => rfl
        | _ => rfl
      intro made kept
      obtain ⟨created, unlocked⟩ : (log.note request answer).created = log.created ∧
          (log.note request answer).unlocked = log.unlocked := note_lock create remove
      rw [created] at made
      rw [unlocked] at kept
      rw [entry_kept other taken]
      exact locked made kept

/-- What holds along the runs that are looked at. -/
structure Held (root : Nat) (stages : Nat → ForkStage) (x : Processes) : Prop where
  parent : stages root = .parent
  child : ∀ pid, pid ≠ root → stages pid = .child
  children : ∀ pid, pid ≠ root → (x.logs pid).cleaned = false
  lock : Locked (x.logs root) x.files

variable {root : Nat} {stages : Nat → ForkStage} {x y : Processes} {pid : Nat}

/-- The parent stays what it is. -/
theorem advance_parent (taken : effect request answer s = some s') :
    ForkStage.advance .parent request answer = .parent := by
  by_cases fork : request = .fork
  · subst fork
    cases answer with
    | child => exact absurd rfl (effect_fork taken).2
    | failed => rfl
    | parent child => rfl
  · exact ForkStage.advance_parent fork

/-- A call of the parent keeps the lock. -/
theorem Locked.parent (allowed : ForkStage.Allowed key .parent request)
    (taken : effect request answer s = some s') (locked : Locked log s.files) :
    Locked (log.note request answer) s'.files := by
  rcases allowed with rfl | own
  · rw [(effect_fork taken).1]
    exact locked
  · exact locked.own own taken

/-- An answer to one of the processes that creates none. -/
theorem Held.turn (held : Held root stages x) (allowed : ForkStage.Allowed key (stages pid) request)
    (permitted : noChildCallFails root pid request answer x) {after : State}
    (taken : effect request answer (x.view pid) = some after) :
    Held root (Function.update stages pid (ForkStage.advance (stages pid) request answer))
      (x.turn pid request answer after) := by
  by_cases same : pid = root
  · subst same
    rw [held.parent] at allowed ⊢
    rw [advance_parent taken, ← held.parent, Function.update_eq_self]
    refine ⟨held.parent, held.child, fun other different => ?_, ?_⟩
    · rw [x.turn_logs_other _ _ _ _ different]
      exact held.children other different
    · rw [x.turn_logs_self, x.turn_files]
      exact held.lock.parent allowed taken
  · have child := held.child pid same
    have sound := permitted same
    rw [child] at allowed ⊢
    have stays : ForkStage.advance .child request answer = .child := by
      simp [ForkStage.advance, sound]
    rw [stays, ← child, Function.update_eq_self]
    refine ⟨held.parent, held.child, fun other different => ?_, ?_⟩
    · by_cases own : other = pid
      · subst own
        rw [x.turn_logs_self, inChild_cleaned allowed]
        exact held.children other different
      · rw [x.turn_logs_other _ _ _ _ own]
        exact held.children other different
    · have files : after.files = x.files := inChild_files allowed taken
      rw [x.turn_logs_other _ _ _ _ (Ne.symm same), x.turn_files, files]
      exact held.lock

/-- A child is created. -/
theorem Held.fork (held : Held root stages x) {parent child : Nat} (new : child ≠ root) :
    Held root (Function.update stages child .child) (x.fork parent child) := by
  constructor
  · rw [Function.update_of_ne (Ne.symm new)]
    exact held.parent
  · intro other different
    by_cases own : other = child
    · rw [own, Function.update_self]
    · rw [Function.update_of_ne own]
      exact held.child other different
  · intro other different
    by_cases own : other = child
    · rw [own, x.fork_logs_self]
      rfl
    · rw [x.fork_logs_other _ own]
      exact held.children other different
  · rw [x.fork_logs_other _ (Ne.symm new), x.fork_files]
    exact held.lock

/-- An answer that creates a child. -/
theorem Held.spawn (held : Held root stages x)
    (allowed : ForkStage.Allowed key (stages pid) request)
    (permitted : noChildCallFails root pid request answer x) {after : State} {child : Nat}
    {other : Call.Answer request} (taken : effect request answer (x.view pid) = some after)
    (double : spawned request answer = some (child, other)) (new : child ≠ root) :
    Held root (Function.update
      (Function.update stages pid (ForkStage.advance (stages pid) request answer)) child
        (ForkStage.advance (stages pid) request other))
      ((x.turn pid request answer after).fork pid child) := by
  have born : ForkStage.advance (stages pid) request other = .child := by
    by_cases same : pid = root
    · rw [same, held.parent]
      unfold spawned at double
      split at double
      · cases double
        rfl
      · cases double
    · rw [held.child pid same] at allowed
      rw [inChild_spawned allowed] at double
      cases double
  rw [born]
  exact (held.turn allowed permitted taken).fork new

/-- An interrupt that reaches the parent. -/
theorem Held.caught {cfg : Config} (held : Held root stages x) {p : Prog Unit}
    (follows : p.Follows (forkProtocol key) (fun _ _ => True) (stages pid))
    (heard : onlyParent root pid x)
    (caught : caughtBy pid x = some y) :
    (Program.interruptedBy (interrupt cfg) p).Follows (forkProtocol key) (fun _ _ => True)
      (stages pid) ∧
      Held root stages y := by
  have same : pid = root := heard
  subst same
  simp only [caughtBy, Option.ite_none_right_eq_some, Option.some.injEq] at caught
  obtain ⟨_, rfl⟩ := caught
  rw [held.parent] at follows ⊢
  exact ⟨interrupted_forkProtocol follows, held.parent, held.child, held.children, held.lock⟩

/-- Along every run that is looked at, all of it holds. -/
theorem held_run {cfg : Config} {L : CLocale} {command : Command.Edits} {x t : Processes}
    {qs : Nat → Option (Prog Unit)}
    (run : Forked (processes cfg) (noChildCallFails root) (onlyParent root)
      (alone root (process cfg L command)) x qs t) (starting : x.Starting root) : ∃ stages,
          Held root stages t := by
  have first : Held root (Function.update (fun _ => .child) root .parent) x := by
    refine ⟨Function.update_self .., fun pid other => Function.update_of_ne other _ _, ?_, ?_⟩
    · intro pid _
      rw [starting.logs pid]
      rfl
    · intro created
      rw [starting.logs root] at created
      cases created
  have follows : (process cfg L command).Follows (forkProtocol cfg.gpgKeyId) (fun _ _ => True)
      (Function.update (fun _ => ForkStage.child) root .parent root) := by
    rw [Function.update_self]
    exact process_forkProtocol cfg L command
  have there : (alone root (process cfg L command) root).isSome = true := by
    rw [alone, Function.update_self, Option.isSome_some]
  have along : ∃ stages, Following (forkProtocol cfg.gpgKeyId) (fun _ _ => True) qs stages ∧
      Held root stages t := by
    refine Following.forked ?_ ?_ ?_ run (.alone follows) there first
    · intro stages pid request answer x y allowed permitted taken single held
      have single : spawned request answer = none := single
      obtain ⟨after, done, rfl⟩ := Option.map_eq_some_iff.mp taken
      rw [single]
      exact held.turn allowed permitted done
    · intro stages pid child request answer other x y allowed permitted taken double new held
      have double : spawned request answer = some (child, other) := double
      obtain ⟨after, done, rfl⟩ := Option.map_eq_some_iff.mp taken
      rw [double]
      exact held.spawn allowed permitted done double new
    · intro stages pid p x y follows heard caught held
      exact held.caught follows heard caught
  obtain ⟨stages, _, held⟩ := along
  exact ⟨stages, held⟩

/-- In every run of a process and its children in which no call of a child fails and no child
catches `SIGINT`, no child cleans up, and the lock is there until the parent removes it. -/
theorem children_leave_lock (cfg : Config) (L : CLocale) (command : Command.Edits) (root : Nat)
    (x t : Processes)
    (starting : x.Starting root) (qs : Nat → Option (Prog Unit))
    (run : Forked (processes cfg) (noChildCallFails root) (onlyParent root)
      (alone root (process cfg L command)) x qs t) : ChildrenLeaveLock root t := by
  obtain ⟨stages, held⟩ := held_run run starting
  exact ⟨held.children, held.lock⟩

/-- A process with its number before it begins, with a password file. -/
def oneProcess : Processes where
  files := sampleFiles true
  globals _ := .initial
  logs _ := .none

/-- It has not begun. -/
theorem oneProcess_starting : oneProcess.Starting 1 := ⟨rfl, fun _ => rfl⟩

/-- Every call succeeds, except that gpg may not be found when it is to be executed. -/
def answering (found : Bool) (pid : Nat) : Oracle posix Processes
  | .execlp _ _, _ => found
  | request, x => succeeding request (x.view pid)

/-- A check that every run passes. -/
def childCallsSucceed (root pid : Nat) (request : Call) (answer : Call.Answer request)
    (_ : Processes) : Bool :=
  pid == root || !failing request answer

/-- A run that passes the check has no child in which a call fails. -/
theorem noChildCallFails_of_childCallsSucceed (root pid : Nat) (request : Call)
    (answer : Call.Answer request) (x : Processes)
    (passed : childCallsSucceed root pid request answer x = true) :
    noChildCallFails root pid request answer x := by
  intro other
  simp only [childCallsSucceed, Bool.or_eq_true, beq_iff_eq, Bool.not_eq_true'] at passed
  exact passed.resolve_left other

/-- Whether a program was replaced by another. -/
def replacedAt (qs : Nat → Option (Prog Unit)) (pid : Nat) : Bool :=
  ((qs pid).bind haltedWith).any fun ending => decide (ending = .replaced)

/-- A process starts gpg, and its child becomes gpg. -/
theorem children_leave_lock_gpg : ∃ qs t,
    Forked (processes (sampleConfig true)) (noChildCallFails 1) (onlyParent 1)
      (alone 1 (process (sampleConfig true) .ascii .edit)) oneProcess qs t ∧
    replacedAt qs 2 = true ∧ ChildrenLeaveLock 1 t := by
  have good : (playForked (processes (sampleConfig true)) (childCallsSucceed 1) (answering true)
      (List.replicate 15 1 ++ List.replicate 5 2)
      (alone 1 (process (sampleConfig true) .ascii .edit)) oneProcess).any
      (fun ended => replacedAt ended.1 2) = true := by decide +kernel
  obtain ⟨qs, t, run, replaced⟩ :=
    exists_of_playForked (noChildCallFails_of_childCallsSucceed 1) good
  exact ⟨qs, t, run, replaced,
    children_leave_lock (sampleConfig true) .ascii .edit 1 oneProcess t oneProcess_starting qs run⟩

/-- Whether the lock is gone although the parent, which created it, has not removed it. -/
def lockLost (root : Nat) (x : Processes) : Bool :=
  (x.logs root).created && !(x.logs root).unlocked && (x.files.entry .lock).isNone

/-- gpg cannot be executed in the child, which removes the lock of its parent as it exits. -/
theorem not_children_leave_lock :
    ¬ ∀ (cfg : Config) (L : CLocale) (command : Command.Edits) (root : Nat)
    (x t : Processes), x.Starting root → ∀ qs : Nat → Option (Prog Unit),
    Forked (processes cfg) (fun _ _ _ _ => True) (fun _ _ => True)
      (alone root (process cfg L command)) x qs t → ChildrenLeaveLock root t := by
  intro claim
  have good : (playForked (processes (sampleConfig true)) (fun _ _ _ _ => true) (answering false)
      (List.replicate 15 1 ++ List.replicate 9 2)
      (alone 1 (process (sampleConfig true) .ascii .edit)) oneProcess).any
      (fun ended => lockLost 1 ended.2) = true := by decide +kernel
  have permitted : ∀ (pid : Nat) (request : Call) (answer : Call.Answer request) (x : Processes),
      true = true → True := fun _ _ _ _ _ => trivial
  obtain ⟨qs, t, run, lost⟩ := exists_of_playForked permitted good
  have kept := claim (sampleConfig true) .ascii .edit 1 oneProcess t oneProcess_starting qs run
  simp only [lockLost, Bool.and_eq_true, Bool.not_eq_true', Option.isNone_iff_eq_none] at lost
  obtain ⟨⟨created, unlocked⟩, gone⟩ := lost
  have there := kept.lock created unlocked
  rw [gone] at there
  cases there

end Mdp.ChildCleanup
