import Mathlib.Data.List.Infix
import Mdp.Scenario
import Mdp.Signals

/-!
# After `sig_cleanup`

`sig_cleanup` removes the lock and the temporary file and returns, and the process goes on where it
was interrupted. What it still does to the password file depends on where that was. The stages from
which it replaces nothing any more are settled; a run that is interrupted only where the stage is
settled once the temporary file is gone, or where `sig_cleanup` finds no temporary file and exits,
leaves the password file and its backup alone after the cleanup.
-/

namespace Mdp.Aborting

open Mdp Interaction CStrings HardLinks

/-- What is remembered: the password file and its backup when `sig_cleanup` first had removed the
lock and the temporary file. -/
abbrev Removed : Type := Option (Option Node × Option Node)

/-- The memory after an answer. -/
def noteRemoved (entry : Entry posix (Place × State)) (removed : Removed) : Removed :=
  if entry.after.1.signal = some .over then some (removed.getD (stored entry.after.2.files))
  else removed

/-- The effect of the calls of a process that may be interrupted, with this memory. -/
abbrev remembered : Effect posix (Removed × (Place × State)) := placed.record noteRemoved

/-- Whether the process replaces nothing from this stage on, whatever the answers are. -/
def settled : Stage → Files → Bool
  -- gpg's status is an error.
  | .waited _ _ status, _ => status != 0
  -- `has_changed` finds no file.
  | .edited _ suffix _, files => (files.entry (.tmp suffix)).isNone
  -- However much is read, its checksum is the one from before.
  | .comparing source _ inode, files =>
    (files.node inode).bytes.inits.all fun part => checksum part == sourceCrc source
  | .compared source _ content, _ => checksum content == sourceCrc source
  -- `gpg -e` has failed, or there is neither a password file nor one to put in its place.
  | .encrypted path status, files => status != 0 ||
    (files.entry .passwordFile).isNone && (files.entry (.gpg path)).isNone
  | .vacant path, files => (files.entry (.gpg path)).isNone
  -- `chmod` sets the mode that the file has.
  | .installed _, files =>
    (files.read .passwordFile).all fun node => node.mode == ownerReadWrite
  | .unchanged _, _ => true
  | .finished _, _ => true
  | .broken, _ => true
  | .gone _, _ => true
  | stage, _ => stage.leaving

/-- Whether an interrupt here does no harm: `sig_cleanup` finds no temporary file, and exits, or the
stage is settled once it has removed that. -/
def harmless (stage : Stage) (s : State) : Bool :=
  s.globals.editorTmpPath.all fun path =>
    (s.files.entry path).isNone || settled stage (s.files.erase path)

/-- `SIGINT` starts its handler where that does no harm. -/
def caughtHarmlessly (x : Removed × (Place × State)) : Option (Removed × (Place × State)) :=
  if harmless x.2.1.stage x.2.2 then caughtAnywhere x else none

variable {cfg : Config} {L : CLocale} {command : Command.Edits} {s s' : State} {files : Files}

/-- Passwords are not edited from a settled stage. -/
theorem not_ready {stage : Stage} {source : Option Bytes} (still : settled stage files = true) :
    stage.ready ≠ some source := by
  intro ready
  cases stage with
  | absent => cases still
  | streaming gpgPid watcherPid fp => cases still
  | waited watcherPid printed status =>
    cases status with
    | zero => cases still
    | succ status => cases ready
  | _ => cases ready

/-- A call that fails does not unsettle a stage. -/
theorem settled_failed {stage : Stage} (still : settled stage files = true) :
    settled stage.failed files = true := by
  cases stage <;> exact still

/-- An exit does not unsettle a stage. -/
theorem settled_exiting {stage : Stage} {registered : Bool} (parent : stage.child = false) :
    settled (stage.exiting registered) files = true := by
  cases stage <;> cases registered <;> first | rfl | cases parent

/-- A name that is removed does not unsettle a stage. -/
theorem settled_erase {stage : Stage} {path : Path} (free : path.holdsPasswords = false)
    (still : settled stage files = true) : settled stage (files.erase path) = true := by
  have fewer : ∀ name, (files.entry name).isNone = true →
      ((files.erase path).entry name).isNone = true := by
    intro name gone
    by_cases same : name = path
    · rw [same, Directory.erase_entry_self]
      rfl
    · rw [Directory.erase_entry_other files same]
      exact gone
  cases stage with
  | edited source suffix status => exact fewer _ still
  | vacant path' => exact fewer _ still
  | encrypted path' status =>
    simp only [settled, Bool.or_eq_true, Bool.and_eq_true] at still ⊢
    exact still.imp_right fun gone => ⟨fewer _ gone.1, fewer _ gone.2⟩
  | installed path' =>
    simp only [settled] at still ⊢
    rw [Directory.erase_read_other files (ne_of_holdsPasswords rfl free)]
    exact still
  | _ => exact still

/-- A mode that a file has can be set without a change. -/
theorem modify_setMode {path : Path} {mode : Nat} {inode : Nat}
    (bound : files.entry path = some inode)
    (same : ((files.read path).all fun node => node.mode == mode) = true) :
    files.modify inode (Node.setMode mode) = files := by
  rw [Directory.read, bound, Option.map_some, Option.all_some, beq_iff_eq] at same
  have fixed : Node.setMode mode (files.node inode) = files.node inode := by
    rw [← same]
    rfl
  rw [Directory.modify, fixed, Function.update_eq_self]

/-- Every call of a settled stage keeps the password file and its backup, and leads to a settled
stage. -/
theorem settled_step {stage : Stage} {request : Call} {answer : Call.Answer request}
    (allowed : (lifetime cfg L command).allowed stage request)
    (taken : effect request answer s = some s') (apart : stage.Apart s.files)
    (named : TmpNamed s.globals) (parent : stage.child = false)
    (still : settled stage s.files = true) :
    settled (stage.advance request answer) s'.files = true ∧ stored s'.files = stored s.files := by
  have sturdy := Stage.ne_strayed (Stage.child_advance parent taken)
  have kept := (apart_step allowed taken apart named sturdy).2
  rcases allowed with allowed | leaving
  · cases allowed with
    | neutral neutral =>
      rw [effect_neutral neutral taken]
      refine ⟨?_, rfl⟩
      rcases Stage.advance_neutral neutral answer with same | same
      · rw [same]
        exact still
      · rw [same]
        exact settled_failed still
    | cancel =>
      rw [effect_kill taken]
      exact ⟨still, rfl⟩
    | makeTmp ready => exact absurd ready (not_ready still)
    | joinLine ready => exact absurd ready (not_ready still)
    | readSet ready => exact absurd ready (not_ready still)
    | @reopen source suffix status _ _ =>
      obtain ⟨rfl, found⟩ := effect_fopenRead taken
      refine ⟨?_, rfl⟩
      cases answer with
      | none => rfl
      | some inode =>
        simp [settled, found inode rfl] at still
    | @reread source suffix inode =>
      obtain ⟨rfl, part⟩ := effect_fgets taken
      refine ⟨?_, rfl⟩
      simp only [settled, List.all_eq_true] at still
      exact still answer ((List.mem_inits _ _).mpr (part inode rfl))
    | encrypt changed => exact absurd (beq_iff_eq.mp still) changed
    | report same =>
      rw [effect_print taken]
      exact ⟨rfl, rfl⟩
    | @lookAgain path =>
      obtain ⟨rfl, present, _⟩ := effect_stat taken
      simp only [settled, bne_self_eq_false, Bool.false_or, Bool.and_eq_true] at still
      refine ⟨?_, rfl⟩
      cases answer with
      | found =>
        have there := present rfl
        rw [Option.isNone_iff_eq_none.mp still.1] at there
        cases there
      | enoent => exact still.2
      | failed =>
        simp only [Stage.advance, Stage.looked, settled, bne_self_eq_false, Bool.false_or,
          Bool.and_eq_true]
        exact still
    | @install path =>
      rcases effect_link taken with ⟨_, there, _⟩ | ⟨rfl, rfl⟩
      · rw [Option.isNone_iff_eq_none.mp still] at there
        cases there
      · exact ⟨still, rfl⟩
    | @protect path =>
      rcases effect_chmod taken with ⟨rfl, inode, bound, rfl⟩ | ⟨rfl, rfl⟩
      · have same := modify_setMode bound still
        exact ⟨rfl, by rw [State.setFiles_files, same]⟩
      · exact ⟨still, rfl⟩
    | tidy => exact ⟨rfl, kept rfl⟩
    | _ => cases still
  · cases leaving with
    | leave =>
      obtain ⟨_, rfl⟩ := effect_nextHandler taken
      exact ⟨settled_exiting parent, rfl⟩
    | clean inside =>
      refine ⟨?_, kept ?_⟩
      · cases inside <;> cases answer <;> rfl
      · cases inside <;> first | rfl | exact Path.holdsPasswords_of_temporary apart
    | stray => cases parent

/-- An interrupt that does no harm still does none when another name is gone. -/
theorem harmless_erase {stage : Stage} {path : Path} (free : path.holdsPasswords = false)
    (spared : harmless stage s = true) :
    harmless stage (s.setFiles (s.files.erase path)) = true := by
  rw [harmless, Option.all_eq_true] at spared ⊢
  intro target named
  have before := spared target named
  simp only [State.setFiles_files, Bool.or_eq_true, Option.isNone_iff_eq_none] at before ⊢
  by_cases same : target = path
  · rw [same, Directory.erase_entry_self]
    exact .inl rfl
  · rw [Directory.erase_entry_other s.files same]
    refine before.imp_right fun still => ?_
    have swapped : (s.files.erase path).erase target = (s.files.erase target).erase path := by
      simp only [Directory.erase, Directory.mk.injEq, and_true]
      exact Function.update_comm (Ne.symm same) _ _ _
    rw [swapped]
    exact settled_erase free still

/-- What one call of the handler comes to: either nothing has changed but the stage of the handler,
or a name is gone that is not the password file's; and with the temporary file gone the stage of the
process is settled, if the interrupt does no harm. -/
structure Handled (stage inner : Stage) (s s' : State) : Prop where
  files : s' = s ∨ ∃ path : Path, path.holdsPasswords = false ∧
    s' = s.setFiles (s.files.erase path)
  apart : inner.Apart s'.files
  target : ∀ path, inner = .removing path → s'.globals.editorTmpPath = some path
  spared : inner ≠ .over → harmless stage s' = true
  settled : inner = .over → settled stage s'.files = true

/-- A call of the handler that changes nothing and does not end the cleanup. -/
theorem Handled.stay {stage inner : Stage} (apart : inner.Apart s.files)
    (target : ∀ path, inner = .removing path → s.globals.editorTmpPath = some path)
    (running : inner ≠ .over) (spared : harmless stage s = true) : Handled stage inner s s :=
  ⟨.inl rfl, apart, target, fun _ => spared, fun past => absurd past running⟩

/-- The calls of the handler. -/
theorem handler_step {stage inner : Stage} {request : Call} {answer : Call.Answer request}
    (allowed : handling.allowed inner request) (taken : effect request answer s = some s')
    (apart : inner.Apart s.files) (named : TmpNamed s.globals) (parent : inner.child = false)
    (target : ∀ path, inner = .removing path → s.globals.editorTmpPath = some path)
    (running : inner ≠ .over) (spared : harmless stage s = true) :
    Handled stage (inner.advance request answer) s s' := by
  rcases allowed with neutral | inside
  · rw [effect_neutral neutral taken]
    rcases Stage.advance_neutral neutral answer with same | same
    · rw [same]
      exact .stay apart target running spared
    · have sound := Stage.ne_strayed (Stage.child_failed parent)
      rw [← same] at sound
      have away := apart.neutral neutral sound
      rw [same] at away ⊢
      refine .stay away ?_ ?_ spared
      · cases inner <;> first | exact target | (intro path other; cases other)
      · cases inner <;> first | exact running | simp [Stage.failed]
  · cases inside with
    | findLock =>
      obtain ⟨rfl, _⟩ := effect_stat taken
      cases answer <;> exact .stay trivial (by simp [Stage.advance, Stage.looked])
        (by simp [Stage.advance, Stage.looked]) spared
    | removeLock =>
      rcases effect_unlink taken with ⟨rfl, rfl⟩ | ⟨rfl, _, rfl⟩ | ⟨rfl, rfl⟩
      · exact {
          files := .inr ⟨.lock, rfl, rfl⟩
          apart := trivial
          target := by simp [Stage.advance, Stage.unlinked]
          spared := fun _ => harmless_erase rfl spared
          settled := by simp [Stage.advance, Stage.unlinked] }
      · exact .stay trivial (by simp [Stage.advance, Stage.unlinked])
          (by simp [Stage.advance, Stage.unlinked]) spared
      · exact .stay trivial (by simp [Stage.advance, Stage.unlinked])
          (by simp [Stage.advance, Stage.unlinked]) spared
    | readTmpPath =>
      obtain ⟨same, rfl⟩ := effect_editorTmpPath taken
      obtain ⟨path, known, temporary⟩ := named
      rw [known] at same
      subst same
      refine .stay temporary ?_ (by simp [Stage.advance, Stage.named]) spared
      intro other removing
      simp only [Stage.advance, Stage.named, Stage.removing.injEq] at removing
      rw [known, removing]
    | @removeTmp path =>
      have known := target path rfl
      rcases effect_unlink taken with ⟨rfl, rfl⟩ | ⟨rfl, _, rfl⟩ | ⟨rfl, rfl⟩
      · have there : (s.files.entry path).isSome = true := by
          simp only [effect, Option.ite_none_right_eq_some] at taken
          exact taken.1
        rw [harmless, known, Option.all_some, Bool.or_eq_true, Option.isNone_iff_eq_none] at spared
        have still : settled stage (s.files.erase path) = true := by
          refine spared.resolve_left fun gone => ?_
          rw [gone] at there
          cases there
        exact {
          files := .inr ⟨path, Path.holdsPasswords_of_temporary apart, rfl⟩
          apart := trivial
          target := by simp [Stage.advance, Stage.unlinked]
          spared := fun more => absurd rfl more
          settled := fun _ => still }
      · exact .stay trivial (by simp [Stage.advance, Stage.unlinked])
          (by simp [Stage.advance, Stage.unlinked]) spared
      · exact .stay trivial (by simp [Stage.advance, Stage.unlinked])
          (by simp [Stage.advance, Stage.unlinked]) spared

/-- What holds along a run whose interrupts do no harm. -/
structure HarmlessSoFar (removed : Removed) (place : Place) (s : State) : Prop where
  parent : place.stage.child = false
  apart : place.stage.Apart s.files
  named : TmpNamed s.globals
  masked : Masked place s
  /-- After a cleanup the passwords are as they were, and the stage is settled. -/
  kept : ∀ before, removed = some before →
    stored s.files = before ∧ settled place.stage s.files = true
  done : place.signal = some .over → removed.isSome = true
  handler : ∀ inner, place.signal = some inner → inner.child = false ∧ inner.Apart s.files ∧
    (∀ path, inner = .removing path → s.globals.editorTmpPath = some path) ∧
    (inner ≠ .over → harmless place.stage s = true)

/-- While no handler ends, the memory stays. -/
theorem noteRemoved_same {removed : Removed} {entry : Entry posix (Place × State)}
    (other : entry.after.1.signal ≠ some .over) : noteRemoved entry removed = removed :=
        if_neg other

/-- An answer outside the handler keeps what holds. -/
theorem HarmlessSoFar.running {removed : Removed} {stage : Stage} {request : Call}
    {answer : Call.Answer request} (soFar : HarmlessSoFar removed ⟨stage, none⟩ s)
    (allowed : (lifetime cfg L command).allowed stage request)
    (taken : effect request answer s = some s') :
    HarmlessSoFar removed ⟨stage.advance request answer, none⟩ s' := by
  have parent := Stage.child_advance soFar.parent taken
  have masked := soFar.masked.step taken
  rw [Place.advance_running] at masked
  exact {
    parent := parent
    apart := (apart_step allowed taken soFar.apart soFar.named (Stage.ne_strayed parent)).1
    named := tmpNamed_step taken soFar.named
    masked := masked
    kept := by
      intro before memory
      obtain ⟨same, still⟩ := soFar.kept before memory
      obtain ⟨next, stays⟩ := settled_step allowed taken soFar.apart soFar.named soFar.parent still
      exact ⟨stays.trans same, next⟩
    done := fun past => by cases past
    handler := fun inner running => by cases running }

/-- An answer inside the handler keeps what holds. -/
theorem HarmlessSoFar.handling {removed : Removed} {stage inner : Stage} {request : Call}
    {answer : Call.Answer request} (soFar : HarmlessSoFar removed ⟨stage, some inner⟩ s)
    (allowed : handling.allowed inner request) (running : inner ≠ .over)
    (taken : effect request answer s = some s') :
    HarmlessSoFar (noteRemoved ⟨request, answer, (⟨stage, some (inner.advance request answer)⟩, s')⟩
      removed)
      ⟨stage, some (inner.advance request answer)⟩ s' := by
  obtain ⟨parent, apart, target, spared⟩ := soFar.handler inner rfl
  have handled := handler_step allowed taken apart soFar.named parent target running
    (spared running)
  have masked := soFar.masked.step taken
  rw [Place.advance_handling allowed] at masked
  have same : stored s'.files = stored s.files := by
    rcases handled.files with rfl | ⟨path, free, rfl⟩
    · rfl
    · exact stored_erase free
  have later : ∀ before, removed = some before →
      stored s'.files = before ∧ settled stage s'.files = true := by
    intro before memory
    obtain ⟨was, still⟩ := soFar.kept before memory
    refine ⟨same.trans was, ?_⟩
    rcases handled.files with rfl | ⟨path, free, rfl⟩
    · exact still
    · exact settled_erase free still
  exact {
    parent := soFar.parent
    apart := by
      rcases handled.files with rfl | ⟨path, _, rfl⟩
      · exact soFar.apart
      · exact soFar.apart.erase
    named := tmpNamed_step taken soFar.named
    masked := masked
    kept := by
      intro before memory
      by_cases past : inner.advance request answer = .over
      · simp only [noteRemoved, past, if_true, Option.some.injEq] at memory
        refine ⟨?_, handled.settled past⟩
        cases was : removed with
        | none =>
          rw [was] at memory
          exact memory
        | some earlier =>
          rw [was] at memory
          exact (later earlier was).1.trans memory
      · rw [noteRemoved_same (by simpa using past)] at memory
        exact later before memory
    done := by
      intro past
      simp only at past
      simp [noteRemoved, past]
    handler := by
      intro other now
      simp only [Option.some.injEq] at now
      subst now
      exact ⟨Stage.child_advance parent taken, handled.apart, handled.target, handled.spared⟩ }

/-- A handler that has cleaned up and exits, or returns, keeps what holds. -/
theorem HarmlessSoFar.leaving {removed : Removed} {place : Place} {stage : Stage}
    {globals : Globals}
    (soFar : HarmlessSoFar removed place s) (parent : stage.child = false)
    (apart : stage.Apart s.files) (same : globals.editorTmpPath = s.globals.editorTmpPath)
    (still : settled place.stage s.files = true → settled stage s.files = true) :
    HarmlessSoFar removed ⟨stage, none⟩ (s.setGlobals globals) where
  parent := parent
  apart := apart
  named := by
    obtain ⟨path, known, temporary⟩ := soFar.named
    exact ⟨path, same.trans known, temporary⟩
  masked := fun running => by cases running
  kept := fun before memory => (soFar.kept before memory).imp_right still
  done := fun past => by cases past
  handler := fun inner running => by cases running

/-- Every answer of a process that may be interrupted keeps what holds. -/
theorem HarmlessSoFar.step {request : Call} {answer : Call.Answer request}
    {x x' : Removed × (Place × State)}
    (allowed : (interruptible cfg L command).allowed x.2.1 request)
    (taken : remembered request answer x = some x') (soFar : HarmlessSoFar x.1 x.2.1 x.2.2) :
    HarmlessSoFar x'.1 x'.2.1 x'.2.2 := by
  obtain ⟨removed, ⟨stage, signal⟩, s⟩ := x
  obtain ⟨removed', place', s'⟩ := x'
  obtain ⟨moved, noted⟩ := Effect.record_eq_some.mp taken
  obtain ⟨done, place⟩ := Effect.record_eq_some.mp moved
  simp only at done place noted
  subst noted place
  cases signal with
  | none =>
    rw [Place.advance_running, noteRemoved_same (by simp)]
    exact soFar.running allowed done
  | some inner =>
    rcases allowed with inside | ⟨rfl, left⟩ | ⟨rfl, rfl⟩
    · by_cases past : inner = .over
      · -- The cleanup is over: nothing but messages are left.
        subst past
        have neutral : request.Neutral := inside.resolve_right fun cleaning => by cases cleaning
        have stays : Stage.advance .over request answer = .over :=
          Stage.advance_neutral_of_failed rfl neutral answer
        rw [Place.advance_handling (.inl neutral), stays, effect_neutral neutral done]
        have memory := soFar.done rfl
        cases was : removed with
        | none =>
          rw [was] at memory
          cases memory
        | some before =>
          rw [was] at soFar
          exact soFar
      · rw [Place.advance_handling inside]
        exact soFar.handling inside past done
    · obtain ⟨_, rfl⟩ := effect_nextHandler done
      have parent : (inner.exiting answer).child = false := by
        rcases left with rfl | rfl <;> cases answer <;> rfl
      rw [noteRemoved_same (by simp [Place.advance])]
      refine soFar.leaving parent (Stage.apart_exiting (Stage.ne_strayed parent)) rfl fun _ => ?_
      exact settled_exiting (soFar.handler inner rfl).1
    · rw [effect_sigreturn done, noteRemoved_same (by simp [Place.advance])]
      exact soFar.leaving soFar.parent soFar.apart rfl id

/-- An interrupt that does no harm keeps what holds. -/
theorem HarmlessSoFar.caught {x x' : Removed × (Place × State)}
    (soFar : HarmlessSoFar x.1 x.2.1 x.2.2)
    (enters : caughtHarmlessly x = some x') :
    x.2.1.signal = none ∧ x'.2.1 = ⟨x.2.1.stage, some .cleaning⟩ ∧
        HarmlessSoFar x'.1 x'.2.1 x'.2.2 := by
  obtain ⟨removed, place, s⟩ := x
  simp only [caughtHarmlessly, caughtAnywhere, Option.ite_none_right_eq_some,
    Option.map_eq_some_iff] at enters
  obtain ⟨spared, y, handled, rfl⟩ := enters
  obtain ⟨free, rfl⟩ := caught_eq_some soFar.masked handled
  refine ⟨free, rfl, ?_⟩
  exact {
    parent := soFar.parent
    apart := soFar.apart
    named := soFar.named
    masked := fun _ => rfl
    kept := soFar.kept
    done := fun past => by cases past
    handler := by
      intro inner now
      simp only [Option.some.injEq] at now
      subst now
      exact ⟨rfl, trivial, fun path other => (by cases other), fun _ => spared⟩ }

/-- In every run of `mdp edit` or `mdp add` that is interrupted only where that does no harm, from
the moment on at which `sig_cleanup` has removed the lock and the temporary file, the password file
and its backup stay what they were. -/
theorem nothing_after_cleanup (cfg : Config) (L : CLocale) (command : Command.Edits) (s t : State)
    (start : s.globals = .initial) (q : Prog Unit) (removed : Removed) (place : Place)
    (run : Interrupted remembered (interrupt cfg) caughtHarmlessly (process cfg L command)
      (none, ⟨.starting, none⟩, s) q (removed, place, t)) :
    ∀ before, removed = some before → stored t.files = before := by
  have initial : HarmlessSoFar none ⟨.starting, none⟩ s := {
    parent := rfl
    apart := trivial
    named := ⟨.template, by rw [start]; rfl, rfl⟩
    masked := fun running => by cases running
    kept := fun before memory => by cases memory
    done := fun past => by cases past
    handler := fun inner running => by cases running }
  have soFar : HarmlessSoFar removed place t := by
    refine (process_interrupted (J := fun x => HarmlessSoFar x.1 x.2.1 x.2.2) ?_
      (fun _ _ _ _ => HarmlessSoFar.step) (fun _ _ => HarmlessSoFar.caught) run rfl initial).2
    intro request answer x x' taken
    obtain ⟨moved, _⟩ := Effect.record_eq_some.mp taken
    exact (Effect.record_eq_some.mp moved).2
  exact fun before memory => (soFar.kept before memory).1

/-- The editor puts a new file where the temporary file was. -/
def recreating : Oracle posix (Removed × (Place × State))
  | .system (.edit _ _), _ => ⟨0, .replaced ⟨[0x61, newline], 0o600⟩⟩
  | request, x => succeeding request x.2.2

/-- An interrupt is wanted at the stages of some kind, until one has cleaned up. -/
def wantedOnce (kind : Stage → Bool) (x : Removed × (Place × State)) : Bool :=
  x.1.isNone && x.2.1.signal.isNone && kind x.2.1.stage

/-- The editor has exited. -/
def afterEditor : Stage → Bool
  | .edited _ _ _ => true
  | _ => false

/-- The temporary file is being written. -/
def whileDumping : Stage → Bool
  | .dumping _ _ _ => true
  | _ => false

/-- After an interrupt between the editor and `has_changed`, the process finds no temporary file. -/
theorem nothing_after_cleanup_edited : ∃ q removed place t,
    Interrupted remembered (interrupt (sampleConfig true)) caughtHarmlessly
      (process (sampleConfig true) .ascii .edit) (none, ⟨.starting, none⟩, sampleState true) q
      (removed, place, t) ∧
    removed.isSome = true ∧ ∀ before, removed = some before → stored t.files = before := by
  have good : (playInterrupted remembered (interrupt (sampleConfig true)) caughtHarmlessly
    recreating (wantedOnce afterEditor) 100 (process (sampleConfig true) .ascii .edit)
      (none, ⟨.starting, none⟩, sampleState true)).any (fun ended => ended.2.1.isSome) = true := by
    decide +kernel
  obtain ⟨q, ⟨removed, place, t⟩, run, cleaned⟩ := exists_of_playInterrupted good
  exact ⟨q, removed, place, t, run, cleaned, nothing_after_cleanup (sampleConfig true) .ascii .edit
    (sampleState true) t rfl q removed place run⟩

/-- Whether the passwords have changed since a cleanup. -/
def changedSince (ended : Prog Unit × Removed × (Place × State)) : Bool :=
  ended.2.1.any fun before => decide (stored ended.2.2.2.files ≠ before)

/-- A run that is interrupted while it writes the temporary file goes on, and saves what the editor
leaves. -/
theorem saves_after_cleanup : ¬ ∀ (cfg : Config) (L : CLocale) (command : Command.Edits)
    (s t : State) (q : Prog Unit) (removed : Removed) (place : Place), s.globals = .initial →
    Interrupted remembered (interrupt cfg) caughtAnywhere (process cfg L command)
      (none, ⟨.starting, none⟩, s) q (removed, place, t) →
    ∀ before, removed = some before → stored t.files = before := by
  intro claim
  have good : (playInterrupted remembered (interrupt (sampleConfig true)) caughtAnywhere recreating
      (wantedOnce whileDumping) 100 (process (sampleConfig true) .ascii .edit)
      (none, ⟨.starting, none⟩, sampleState true)).any changedSince = true := by
    decide +kernel
  obtain ⟨q, ⟨removed, place, t⟩, run, changed⟩ := exists_of_playInterrupted good
  obtain ⟨before, memory, differs⟩ := (Option.any_eq_true _ _).mp changed
  exact of_decide_eq_true differs
    (claim (sampleConfig true) .ascii .edit (sampleState true) t q removed place rfl run before
      memory)

end Mdp.Aborting
