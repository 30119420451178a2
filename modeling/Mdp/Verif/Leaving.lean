import Mdp.Scenario
import Mdp.Signals

/-!
# What a process leaves behind

A process that has come past `lock_set` and `setup_signals_and_atexit` removes the lock and the
temporary file when it exits. It does not if it crashes instead, on a null stream or a null string,
and `cleanup` gives up where it cannot look for the lock or remove it, before it has come to the
temporary file.
-/

namespace Mdp.Leaving

open Mdp Interaction CStrings HardLinks

/-- What is remembered of a run. -/
structure RunNotes where
  /-- Whether `atexit_cleanup` was registered, which the lock comes before. -/
  guarded : Bool
  /-- The temporary file that `edit_results` has made, by the random part of its name. -/
  made : Option Nat
  /-- Whether a removal of the lock has failed. -/
  refused : Bool
  deriving DecidableEq

/-- The notes after an answer. -/
def RunNotes.note (entry : Entry posix (Place × State)) (notes : RunNotes) : RunNotes :=
  match entry with
  | ⟨.atexit, true, _⟩ => { notes with guarded := true }
  | ⟨.mkstemp, some created, _⟩ => { notes with made := some created.suffix }
  | ⟨.unlink .lock, .failed, _⟩ => { notes with refused := true }
  | _ => notes

/-- Whether neither the lock, unless its removal has failed, nor the temporary file is there. -/
def clean (notes : RunNotes) (s : State) : Bool :=
  ((s.files.entry .lock).isNone || notes.refused) &&
    notes.made.all fun suffix => (s.files.entry (.tmp suffix)).isNone

/-- Whether a failure in a handler does no harm: there is nothing to be left behind, or `exit` still
runs `atexit_cleanup`. -/
def harmlessFailure (notes : RunNotes) (s : State) : Bool :=
  !notes.guarded || s.globals.atexit || clean notes s

/-- The answers of runs in which no stream and no string that is used is null, `cleanup` can look
for the lock and remove it, and can remove the temporary file. A failure is allowed as well where
there is nothing left to be removed; and where `atexit_cleanup` is still registered, a failure that
makes the process exit. -/
def orderly : Entry posix (RunNotes × (Place × State)) → Bool
  | ⟨.calloc, ok, x⟩ => ok || clean x.1 x.2.2
  | ⟨.readString _, present, x⟩ => present || clean x.1 x.2.2
  | ⟨.fopenRead _, stream, x⟩ => stream.isSome || clean x.1 x.2.2
  | ⟨.stat .lock, lookup, x⟩ => lookup != .failed || harmlessFailure x.1 x.2.2
  | ⟨.unlink .lock, removal, x⟩ => removal == .removed || harmlessFailure x.1 x.2.2
  | ⟨.unlink (.tmp _), removal, _⟩ => removal != .failed
  | ⟨.allocate, ok, x⟩ => ok || harmlessFailure x.1 x.2.2
  | ⟨.strftime, text, x⟩ => text.isSome || harmlessFailure x.1 x.2.2
  | ⟨.close _, ok, x⟩ => ok || harmlessFailure x.1 x.2.2
  | ⟨.dup2 _ _, ok, x⟩ => ok || harmlessFailure x.1 x.2.2
  | _ => true

/-- The effect of the calls of a process that may be interrupted, with this memory. -/
abbrev remembered : Effect posix (RunNotes × (Place × State)) := placed.record RunNotes.note

/-- Whether a process has not come past `atexit`. -/
def early : Stage → Bool
  | .starting => true
  | .lockFree => true
  | .locked _ => true
  | _ => false

/-- What has been removed at each stage of a cleanup, and where a process ends. -/
def Due (notes : RunNotes) : Stage → State → Prop
  | .unlocked, s => s.files.entry .lock = none
  | .removing path, s => s.files.entry .lock = none ∧ s.globals.editorTmpPath = some path
  | .over, s => clean notes s = true
  | .kept, s => clean notes s = true
  | .broken, s => clean notes s = true
  | .gone _, s => clean notes s = true
  | .stuck, s => harmlessFailure notes s = true
  | _, _ => True

variable {cfg : Config} {L : CLocale} {command : Command.Edits} {s s' : State} {notes : RunNotes}

/-- Neither file is there, unless the removal of the lock has failed. -/
theorem clean_iff : clean notes s = true ↔
    (s.files.entry .lock = none ∨ notes.refused = true) ∧
      ∀ suffix, notes.made = some suffix → s.files.entry (.tmp suffix) = none := by
  simp only [clean, Bool.and_eq_true, Bool.or_eq_true, Option.isNone_iff_eq_none,
    Option.all_eq_true]

/-- A name that is removed does not come back. -/
theorem entry_erase {files : Files} {path name : Path} (gone : files.entry name = none) :
    (files.erase path).entry name = none := by
  by_cases same : name = path
  · rw [same, Directory.erase_entry_self]
  · rw [Directory.erase_entry_other files same]
    exact gone

/-- What is clean stays so when a name is removed. -/
theorem clean_erase {path : Path} (before : clean notes s = true) :
    clean notes (s.setFiles (s.files.erase path)) = true := by
  rw [clean_iff] at before ⊢
  exact ⟨before.1.imp_left entry_erase, fun suffix made => entry_erase (before.2 suffix made)⟩

/-- What is due stays so when a name is removed. -/
theorem Due.erase {stage : Stage} {path : Path} (due : Due notes stage s) :
    Due notes stage (s.setFiles (s.files.erase path)) := by
  cases stage with
  | unlocked => exact entry_erase due
  | removing target => exact ⟨entry_erase due.1, due.2⟩
  | stuck =>
    have before : harmlessFailure notes s = true := due
    rw [harmlessFailure, Bool.or_eq_true] at before
    show harmlessFailure notes _ = true
    rw [harmlessFailure, Bool.or_eq_true]
    exact before.imp_right clean_erase
  | _ => first | exact clean_erase due | trivial

/-- What is due stays so when a removal of the lock fails. -/
theorem Due.refuse {stage : Stage} (due : Due notes stage s) :
    Due { notes with refused := true } stage s := by
  have still : clean notes s = true → clean { notes with refused := true } s = true := by
    intro before
    rw [clean_iff] at before ⊢
    exact ⟨.inr rfl, before.2⟩
  cases stage with
  | stuck =>
    have before : harmlessFailure notes s = true := due
    rw [harmlessFailure, Bool.or_eq_true] at before
    show harmlessFailure _ s = true
    rw [harmlessFailure, Bool.or_eq_true]
    exact before.imp_right still
  | _ => first | exact still due | exact due

/-- What is due does not depend on whether `SIGINT` is blocked. -/
theorem Due.block {stage : Stage} (due : Due notes stage s) (masked : Bool) :
    Due notes stage (s.setGlobals { s.globals with masked := masked }) := by
  cases stage <;> exact due

/-- A neutral call fails in a cleanup only where that does no harm. -/
theorem harmlessFailure_of_failed {stage : Stage} {request : Call} {answer : Call.Answer request}
    {place : Place} (neutral : request.Neutral)
    (good : orderly ⟨request, answer, (notes, place, s)⟩ = true)
    (failed : stage.advance request answer ≠ stage) : harmlessFailure notes s = true := by
  cases request with
  | allocate =>
    cases answer with
    | true => exact absurd rfl failed
    | false => exact good
  | strftime =>
    cases answer with
    | some text => exact absurd rfl failed
    | none => exact good
  | close fd =>
    cases answer with
    | true => exact absurd rfl failed
    | false => exact good
  | dup2 old new =>
    cases answer with
    | true => exact absurd rfl failed
    | false => exact good
  | kill pid signal =>
    cases signal with
    | zero => exact absurd (by cases stage <;> rfl) failed
    | int => exact neutral.elim
    | kill => exact neutral.elim
  | print text =>
    have other : text ≠ noChanges := neutral
    exact absurd (Conforms.printed_of_ne other stage) failed
  | system command => cases command <;> first | exact absurd rfl failed | exact neutral.elim
  | _ => first | exact neutral.elim | exact absurd rfl failed

/-- The calls that are remembered. -/
def isNoted : Call → Bool
  | .atexit => true
  | .mkstemp => true
  | .unlink .lock => true
  | _ => false

/-- Other calls add nothing to the memory. -/
theorem note_same {request : Call} {answer : Call.Answer request} {y : Place × State}
    (other : isNoted request = false) : RunNotes.note ⟨request, answer, y⟩ notes = notes := by
  cases request with
  | atexit => cases other
  | mkstemp => cases other
  | unlink path =>
    cases path with
    | lock => cases other
    | _ => rfl
  | _ => rfl

/-- Neutral calls are not. -/
theorem not_isNoted {request : Call} (neutral : request.Neutral) : isNoted request = false := by
  cases request <;> first | rfl | exact neutral.elim

/-- The calls of a cleanup: what is due at the next stage. -/
theorem cleaning_due {inner : Stage} {request : Call} {answer : Call.Answer request} {place : Place}
    {later : RunNotes} (allowed : handling.allowed inner request)
    (taken : effect request answer s = some s')
    (noted : later = RunNotes.note ⟨request, answer, (place, s')⟩ notes)
    (good : orderly ⟨request, answer, (later, place, s')⟩ = true) (named : TmpNamed s.globals)
    (known : ∀ suffix, notes.made = some suffix → s.globals.editorTmpPath = some (.tmp suffix))
    (due : Due notes inner s) : Due later (inner.advance request answer) s' := by
  rcases allowed with neutral | inside
  · rw [note_same (not_isNoted neutral)] at noted
    rw [effect_neutral neutral taken] at good ⊢
    subst noted
    rcases Stage.advance_neutral neutral answer with same | same
    · rw [same]
      exact due
    · by_cases failed : inner.advance request answer = inner
      · rw [failed]
        exact due
      · have spared := harmlessFailure_of_failed neutral good failed
        rw [same]
        cases inner <;> first | exact due | exact spared
  · cases inside with
    | findLock =>
      obtain ⟨rfl, _, missing⟩ := effect_stat taken
      cases answer with
      | found => trivial
      | enoent => exact missing rfl
      | failed => exact good
    | removeLock =>
      rcases effect_unlink taken with ⟨rfl, rfl⟩ | ⟨rfl, _, rfl⟩ | ⟨rfl, rfl⟩
      · exact Directory.erase_entry_self _ _
      · exact good
      · exact good
    | readTmpPath =>
      obtain ⟨same, rfl⟩ := effect_editorTmpPath taken
      obtain ⟨path, told, _⟩ := named
      rw [same, told]
      exact ⟨due, told⟩
    | @removeTmp path =>
      obtain ⟨unlocked, told⟩ := due
      have temporary : path.temporary = true := by
        obtain ⟨other, same, temporary⟩ := named
        rw [told, Option.some.injEq] at same
        rw [same]
        exact temporary
      have other : isNoted (.unlink path) = false := by
        cases path <;> first | rfl | cases temporary
      rw [note_same other] at noted
      subst noted
      have target : ∀ suffix, later.made = some suffix → path = .tmp suffix := by
        intro suffix made
        rw [known suffix made, Option.some.injEq] at told
        exact told.symm
      rcases effect_unlink taken with ⟨rfl, rfl⟩ | ⟨rfl, gone, rfl⟩ | ⟨rfl, rfl⟩
      · refine clean_iff.mpr ⟨.inl (entry_erase unlocked), fun suffix made => ?_⟩
        rw [← target suffix made]
        exact Directory.erase_entry_self _ _
      · refine clean_iff.mpr ⟨.inl unlocked, fun suffix made => ?_⟩
        rw [← target suffix made]
        exact gone
      · refine clean_iff.mpr ⟨.inl unlocked, fun suffix made => ?_⟩
        -- The temporary file can be removed.
        rw [target suffix made] at good
        cases good

/-- A process does not come back to its first stages. -/
theorem past_advance {stage : Stage} {request : Call} (answer : Call.Answer request)
    (allowed : Allowed cfg L command stage request) (past : early stage = false) :
    early (stage.advance request answer) = false := by
  cases allowed with
  | neutral neutral =>
    rcases Stage.advance_neutral neutral answer with same | same
    · rw [same]
      exact past
    · rw [same]
      cases stage <;> exact past
  | makeTmp ready =>
    cases answer with
    | none => exact past
    | some created => simp [Stage.advance, Stage.created, ready, early]
  | joinLine ready =>
    cases answer with
    | true => exact past
    | false => simp [Stage.advance, Stage.given, ready, early]
  | readSet =>
    rcases stage.dereferenced_eq answer with same | broken
    · rw [Stage.advance, same]
      exact past
    · rw [Stage.advance, broken]
      rfl
  | report same => rfl
  | _ => first | rfl | (cases answer <;> rfl) | cases past

/-- The calls of the command: what is due at the next stage. -/
theorem command_due {stage : Stage} {request : Call} {answer : Call.Answer request} {place : Place}
    (allowed : Allowed cfg L command stage request) (taken : effect request answer s = some s')
    (good : orderly ⟨request, answer, (notes, place, s')⟩ = true) (past : early stage = false)
    (due : Due notes stage s) :
    Due notes (stage.advance request answer) s' := by
  cases allowed with
  | neutral neutral =>
    rw [effect_neutral neutral taken] at good ⊢
    rcases Stage.advance_neutral neutral answer with same | same
    · rw [same]
      exact due
    · by_cases failed : stage.advance request answer = stage
      · rw [failed]
        exact due
      · have spared := harmlessFailure_of_failed neutral good failed
        rw [same]
        cases stage <;> first | exact due | exact spared
  | @makeTmp _ source ready =>
    cases answer with
    | none =>
      show Due notes stage s'
      cases stage <;> trivial
    | some created =>
      simp only [Stage.advance, Stage.created, ready]
      trivial
  | @joinLine _ source ready =>
    cases answer with
    | true =>
      show Due notes stage s'
      cases stage <;> trivial
    | false =>
      simp only [Stage.advance, Stage.given, ready]
      exact good
  | readSet ready =>
    cases answer with
    | true =>
      show Due notes (stage.dereferenced true) s'
      rw [stage.dereferenced_true]
      cases stage <;> trivial
    | false =>
      show Due notes (stage.dereferenced false) s'
      rw [Stage.dereferenced_of_ready ready]
      exact good
  | readEditor =>
    cases answer with
    | true => trivial
    | false => exact good
  | reopen =>
    cases answer with
    | none => exact good
    | some inode => trivial
  | report same => trivial
  | _ => first | trivial | (cases answer <;> trivial)

/-- What holds of a process that has come past `atexit`. -/
structure Guarded (notes : RunNotes) (place : Place) (s : State) : Prop where
  past : early place.stage = false
  due : Due notes place.stage s
  handler : ∀ inner, place.signal = some inner → Due notes inner s

/-- What holds along an orderly run. -/
structure OrderlyRun (notes : RunNotes) (place : Place) (s : State) : Prop where
  parent : place.stage.child = false
  named : TmpNamed s.globals
  known : ∀ suffix, notes.made = some suffix → s.globals.editorTmpPath = some (.tmp suffix)
  masked : Masked place s
  armed : s.globals.atexit = place.stage.armed
  guarded : notes.guarded = true → Guarded notes place s

/-- The calls of a guarded command that are remembered. -/
theorem allowed_guarded {stage : Stage} {request : Call}
    (allowed : Allowed cfg L command stage request) (past : early stage = false)
    (make : request ≠ .mkstemp) : isNoted request = false := by
  cases allowed with
  | neutral neutral => exact not_isNoted neutral
  | register => cases past
  | makeTmp => exact absurd rfl make
  | _ => rfl

/-- The calls of a cleanup. -/
theorem allowed_handling {stage : Stage} {request : Call}
    (allowed : handling.allowed stage request) :
    request ≠ .atexit ∧ request ≠ .nextHandler ∧ request ≠ .mkstemp := by
  rcases allowed with neutral | inside
  · exact ⟨fun same => by subst same; exact neutral, fun same => by subst same; exact neutral,
      fun same => by subst same; exact neutral⟩
  · cases inside <;> exact ⟨Call.noConfusion, Call.noConfusion, Call.noConfusion⟩

/-- What they add to the memory is a removal of the lock that failed. -/
theorem note_handling {request : Call} {answer : Call.Answer request} {y : Place × State}
    (register : request ≠ .atexit) (make : request ≠ .mkstemp) :
    RunNotes.note ⟨request, answer, y⟩ notes = notes ∨
      RunNotes.note ⟨request, answer, y⟩ notes = { notes with refused := true } := by
  cases request with
  | atexit => exact absurd rfl register
  | mkstemp => exact absurd rfl make
  | unlink path =>
    cases path with
    | lock => cases answer <;> first | exact .inl rfl | exact .inr rfl
    | _ => exact .inl rfl
  | _ => exact .inl rfl

/-- A call of a cleanup removes a name or changes nothing. -/
theorem handling_state {stage : Stage} {request : Call} {answer : Call.Answer request}
    (allowed : handling.allowed stage request) (taken : effect request answer s = some s') :
    s' = s ∨ ∃ path, s' = s.setFiles (s.files.erase path) := by
  have removal : ∀ {path : Path} {answer : Removal},
      effect (.unlink path) answer s = some s' →
      s' = s ∨ ∃ path, s' = s.setFiles (s.files.erase path) := by
    intro path answer taken
    rcases effect_unlink taken with ⟨_, rfl⟩ | ⟨_, _, rfl⟩ | ⟨_, rfl⟩
    · exact .inr ⟨path, rfl⟩
    · exact .inl rfl
    · exact .inl rfl
  rcases allowed with neutral | inside
  · exact .inl (effect_neutral neutral taken)
  · cases inside with
    | findLock => exact .inl (effect_stat taken).1
    | removeLock => exact removal taken
    | readTmpPath => exact .inl (effect_editorTmpPath taken).2
    | removeTmp => exact removal taken

/-- An answer outside the handler keeps a process guarded. -/
theorem Guarded.running {stage : Stage} {request : Call} {answer : Call.Answer request}
    {later : RunNotes} (guarded : Guarded notes ⟨stage, none⟩ s)
    (allowed : (lifetime cfg L command).allowed stage request)
    (taken : effect request answer s = some s') (parent : stage.child = false)
    (named : TmpNamed s.globals) (armed : s.globals.atexit = stage.armed)
    (known : ∀ suffix, notes.made = some suffix → s.globals.editorTmpPath = some (.tmp suffix))
    (noted : later = RunNotes.note ⟨request, answer, (⟨stage.advance request answer, none⟩, s')⟩
      notes)
    (good : orderly ⟨request, answer, (later, ⟨stage.advance request answer, none⟩, s')⟩ = true) :
    Guarded later ⟨stage.advance request answer, none⟩ s' := by
  obtain ⟨past, due, _⟩ := guarded
  rcases allowed with allowed | leaving
  · refine ⟨past_advance answer allowed past, ?_, fun inner running => by cases running⟩
    by_cases make : request = .mkstemp
    · subst make
      cases allowed with
      | neutral neutral => exact neutral.elim
      | makeTmp ready =>
        cases answer with
        | none =>
          show Due later stage s'
          cases stage <;> trivial
        | some created =>
          simp only [Stage.advance, Stage.created, ready]
          trivial
    · rw [note_same (allowed_guarded allowed past make)] at noted
      subst noted
      exact command_due allowed taken good past due
  · cases leaving with
    | leave first =>
      rw [note_same rfl] at noted
      subst noted
      obtain ⟨found, rfl⟩ := effect_nextHandler taken
      rw [armed] at found
      subst found
      refine ⟨?_, ?_, fun inner running => by cases running⟩
      · cases stage <;> rfl
      · cases stage with
        | gone held => exact due
        | _ => trivial
    | clean inside =>
      refine ⟨?_, cleaning_due (.inr inside) taken noted good named known due,
        fun inner running => by cases running⟩
      cases inside <;> cases answer <;> rfl
    | stray => cases parent

/-- An answer inside the handler keeps a process guarded. -/
theorem Guarded.handling {stage inner : Stage} {request : Call} {answer : Call.Answer request}
    {later : RunNotes} (guarded : Guarded notes ⟨stage, some inner⟩ s)
    (allowed : handling.allowed inner request) (taken : effect request answer s = some s')
    (named : TmpNamed s.globals)
    (known : ∀ suffix, notes.made = some suffix → s.globals.editorTmpPath = some (.tmp suffix))
    (noted : later = RunNotes.note
      ⟨request, answer, (⟨stage, some (inner.advance request answer)⟩, s')⟩ notes)
    (good : orderly ⟨request, answer, (later, ⟨stage, some (inner.advance request answer)⟩, s')⟩ =
      true) : Guarded later ⟨stage, some (inner.advance request answer)⟩ s' := by
  obtain ⟨past, due, handler⟩ := guarded
  obtain ⟨register, _, make⟩ := allowed_handling allowed
  refine ⟨past, ?_, ?_⟩
  · have still : Due notes stage s' := by
      rcases handling_state allowed taken with rfl | ⟨path, rfl⟩
      · exact due
      · exact due.erase
    rw [noted]
    rcases note_handling register make with same | refused
    · rw [same]
      exact still
    · rw [refused]
      exact still.refuse
  · intro other now
    simp only [Option.some.injEq] at now
    subst now
    exact cleaning_due allowed taken noted good named known (handler inner rfl)

/-- A handler that gives up and exits keeps a process guarded. -/
theorem Guarded.exits {stage inner : Stage} {registered : Bool}
    (guarded : Guarded notes ⟨stage, some inner⟩ s) (already : notes.guarded = true)
    (place : inner = .kept ∨ inner = .stuck) (found : registered = s.globals.atexit) :
    Guarded notes ⟨inner.exiting registered, none⟩
      (s.setGlobals { s.globals with atexit := false }) := by
  have due := guarded.handler inner rfl
  cases registered with
  | true =>
    rcases place with rfl | rfl <;> exact ⟨rfl, trivial, fun inner running => by cases running⟩
  | false =>
    have nothing : clean notes s = true := by
      rcases place with rfl | rfl
      · exact due
      · have spared : harmlessFailure notes s = true := due
        simpa [harmlessFailure, already, ← found] using spared
    rcases place with rfl | rfl <;>
      exact ⟨rfl, nothing, fun inner running => by cases running⟩

/-- The process knows the temporary file it has made. -/
theorem known_step {request : Call} {answer : Call.Answer request} {y : Place × State}
    (known : ∀ suffix, notes.made = some suffix → s.globals.editorTmpPath = some (.tmp suffix))
    (taken : effect request answer s = some s') :
    ∀ suffix, (RunNotes.note ⟨request, answer, y⟩ notes).made = some suffix →
      s'.globals.editorTmpPath = some (.tmp suffix) := by
  intro suffix made
  by_cases make : request = .mkstemp
  · subst make
    rcases effect_mkstemp taken with ⟨rfl, rfl⟩ | ⟨created, rfl, _, _, _, rfl⟩
    · exact known suffix made
    · simp only [RunNotes.note, Option.some.injEq] at made
      rw [← made]
  · rw [effect_editorTmpPath_kept make taken]
    refine known suffix ?_
    rw [← made]
    by_cases register : request = .atexit
    · subst register
      cases answer <;> rfl
    · rcases note_handling register make with same | same
      · rw [same]
      · rw [same]

/-- Only `atexit` guards a process. -/
theorem note_guarded {request : Call} {answer : Call.Answer request} {y : Place × State}
    (register : request ≠ .atexit) :
    (RunNotes.note ⟨request, answer, y⟩ notes).guarded = notes.guarded := by
  by_cases make : request = .mkstemp
  · subst make
    cases answer <;> rfl
  · rcases note_handling register make with same | same
    · rw [same]
    · rw [same]

/-- An answer outside the handler: a process that is guarded afterwards, by `atexit` or already. -/
theorem guarded_step {stage : Stage} {request : Call} {answer : Call.Answer request}
    {later : RunNotes}
    (before : notes.guarded = true → Guarded notes ⟨stage, none⟩ s)
    (allowed : (lifetime cfg L command).allowed stage request)
    (taken : effect request answer s = some s') (parent : stage.child = false)
    (named : TmpNamed s.globals) (armed : s.globals.atexit = stage.armed)
    (known : ∀ suffix, notes.made = some suffix → s.globals.editorTmpPath = some (.tmp suffix))
    (noted : later = RunNotes.note ⟨request, answer, (⟨stage.advance request answer, none⟩, s')⟩
      notes)
    (good : orderly ⟨request, answer, (later, ⟨stage.advance request answer, none⟩, s')⟩ = true)
    (now : later.guarded = true) : Guarded later ⟨stage.advance request answer, none⟩ s' := by
  by_cases register : request = .atexit
  · subst register
    have place : ∃ stream, stage = .locked stream := by
      rcases allowed with allowed | leaving
      · cases allowed with
        | neutral neutral => exact neutral.elim
        | register => exact ⟨_, rfl⟩
      · cases leaving with
        | clean inside => cases inside
        | stray => cases parent
    obtain ⟨stream, rfl⟩ := place
    rcases effect_atexit taken with ⟨rfl, rfl⟩ | ⟨rfl, rfl⟩
    · exact ⟨rfl, trivial, fun inner running => by cases running⟩
    · subst noted
      cases (before now).past
  · rw [noted, note_guarded register] at now
    exact (before now).running allowed taken parent named armed known noted good

/-- Every answer in an orderly run keeps what holds. -/
theorem OrderlyRun.step {request : Call} {answer : Call.Answer request}
    {x x' : RunNotes × (Place × State)}
    (allowed : (interruptible cfg L command).allowed x.2.1 request)
    (taken : (remembered.restrict orderly) request answer x = some x')
    (orderlyRun : OrderlyRun x.1 x.2.1 x.2.2) : OrderlyRun x'.1 x'.2.1 x'.2.2 := by
  obtain ⟨notes, ⟨stage, signal⟩, s⟩ := x
  obtain ⟨notes', place', s'⟩ := x'
  obtain ⟨recorded, good⟩ := Effect.restrict_eq_some.mp taken
  obtain ⟨moved, noted⟩ := Effect.record_eq_some.mp recorded
  obtain ⟨done, place⟩ := Effect.record_eq_some.mp moved
  simp only at done place noted good
  have named := tmpNamed_step done orderlyRun.named
  have known : ∀ suffix, notes'.made = some suffix →
      s'.globals.editorTmpPath = some (.tmp suffix) := by
    rw [noted]
    exact known_step orderlyRun.known done
  have masked := orderlyRun.masked.step done
  rw [← place] at masked
  cases signal with
  | none =>
    rw [Place.advance_running] at place
    subst place
    exact ⟨Stage.child_advance orderlyRun.parent done, named, known, masked,
      armed_step allowed done orderlyRun.parent orderlyRun.armed,
        guarded_step orderlyRun.guarded allowed done
        orderlyRun.parent orderlyRun.named orderlyRun.armed orderlyRun.known noted good⟩
  | some inner =>
    rcases allowed with inside | ⟨rfl, left⟩ | ⟨rfl, rfl⟩
    · rw [Place.advance_handling inside] at place
      subst place
      obtain ⟨register, last, _⟩ := allowed_handling inside
      refine ⟨orderlyRun.parent, named, known, masked, ?_, fun now => ?_⟩
      · rw [effect_atexit_kept register last done]
        exact orderlyRun.armed
      rw [noted, note_guarded register] at now
      exact (orderlyRun.guarded now).handling inside done orderlyRun.named orderlyRun.known noted
        good
    · obtain ⟨found, rfl⟩ := effect_nextHandler done
      rw [note_same rfl] at noted
      subst noted place
      have parent : (inner.exiting answer).child = false := by
        rcases left with rfl | rfl <;> cases answer <;> rfl
      have taken : false = (inner.exiting answer).armed := by
        rcases left with rfl | rfl <;> cases answer <;> rfl
      exact ⟨parent, named, known, masked, taken, fun now =>
        (orderlyRun.guarded now).exits now left found⟩
    · rw [note_same rfl] at noted
      subst noted place
      rw [effect_sigreturn done] at named known masked ⊢
      refine ⟨orderlyRun.parent, named, known, masked, orderlyRun.armed, fun now => ?_⟩
      obtain ⟨past, due, _⟩ := orderlyRun.guarded now
      exact ⟨past, due.block false, fun inner running => by cases running⟩

/-- An interrupt keeps what holds. -/
theorem OrderlyRun.caught {x x' : RunNotes × (Place × State)}
    (orderlyRun : OrderlyRun x.1 x.2.1 x.2.2)
    (enters : caughtAnywhere x = some x') :
    x.2.1.signal = none ∧ x'.2.1 = ⟨x.2.1.stage, some .cleaning⟩ ∧
        OrderlyRun x'.1 x'.2.1 x'.2.2 := by
  obtain ⟨notes, place, s⟩ := x
  simp only [caughtAnywhere, Option.map_eq_some_iff] at enters
  obtain ⟨y, handled, rfl⟩ := enters
  obtain ⟨free, rfl⟩ := caught_eq_some orderlyRun.masked handled
  refine ⟨free, rfl, orderlyRun.parent, orderlyRun.named, orderlyRun.known, fun _ =>
    rfl, orderlyRun.armed, fun now => ?_⟩
  obtain ⟨past, due, _⟩ := orderlyRun.guarded now
  refine ⟨past, due.block true, fun inner running => ?_⟩
  simp only [Option.some.injEq] at running
  rw [← running]
  trivial

/-- Where a guarded process has ended, everything is removed. -/
theorem OrderlyRun.ended {place : Place} {ending : Ending} (orderlyRun : OrderlyRun notes place s)
    (ended : PlaceEnded (.error ending) place) (guarded : notes.guarded = true) :
    clean notes s = true := by
  obtain ⟨_, due, _⟩ := orderlyRun.guarded guarded
  have parent := orderlyRun.parent
  have armed := orderlyRun.armed
  obtain ⟨stage, signal⟩ := place
  obtain ⟨_, may⟩ := ended
  have stuck : stage = .stuck → clean notes s = true := by
    rintro rfl
    have spared : harmlessFailure notes s = true := due
    have taken : s.globals.atexit = false := armed
    simpa [harmlessFailure, guarded, taken] using spared
  cases ending with
  | exit status message =>
    rcases may with ⟨held, rfl⟩ | rfl | rfl | same | rfl
    · exact due
    · exact due
    · exact due
    · exact stuck same
    · cases parent
  | immediate status =>
    rcases may with ⟨gpgPid, rfl⟩ | rfl <;> cases parent
  | crash =>
    rcases may with rfl | rfl | rfl
    · exact due
    · exact due
    · cases parent
  | replaced => rcases may with rfl | rfl <;> cases parent

/-- In every orderly run of `mdp edit` or `mdp add`, interrupted or not, whatever the editor does
and whatever else fails: once a process that has come past `lock_set` and `setup_signals_and_atexit`
has ended, neither the lock nor the temporary file is there. -/
theorem nothing_left (cfg : Config) (L : CLocale) (command : Command.Edits) (s t : State)
    (start : s.globals = .initial) (ending : Ending) (notes : RunNotes) (place : Place)
    (run : Interrupted (remembered.restrict orderly) (interrupt cfg) caughtAnywhere
      (process cfg L command) (⟨false, none, false⟩, ⟨.starting, none⟩, s) (.halt ending)
      (notes, place, t))
    (guarded : notes.guarded = true) :
    (notes.refused = false → t.files.entry .lock = none) ∧
      ∀ suffix, notes.made = some suffix → t.files.entry (.tmp suffix) = none := by
  have initial : OrderlyRun ⟨false, none, false⟩ ⟨.starting, none⟩ s := {
    parent := rfl
    named := ⟨.template, by rw [start]; rfl, rfl⟩
    known := fun suffix made => by cases made
    masked := fun running => by cases running
    armed := by rw [start]; rfl
    guarded := fun now => by cases now }
  have moves : ∀ request answer x x', (remembered.restrict orderly) request answer x = some x' →
      x'.2.1 = x.2.1.advance request answer := by
    intro request answer x x' taken
    obtain ⟨recorded, _⟩ := Effect.restrict_eq_some.mp taken
    obtain ⟨moved, _⟩ := Effect.record_eq_some.mp recorded
    exact (Effect.record_eq_some.mp moved).2
  obtain ⟨ended, orderlyRun⟩ := process_interrupted (J := fun x => OrderlyRun x.1 x.2.1 x.2.2) moves
    (fun _ _ _ _ => OrderlyRun.step) (fun _ _ => OrderlyRun.caught) run rfl initial
  obtain ⟨unlocked, removed⟩ := clean_iff.mp (orderlyRun.ended ended guarded)
  refine ⟨fun never => unlocked.resolve_right fun refused => ?_, removed⟩
  rw [never] at refused
  cases refused

/-- The editor puts a new file where the temporary file was, if there is one. -/
def rewriting : Oracle posix (RunNotes × (Place × State))
  | .system (.edit _ _), _ => ⟨0, .replaced ⟨[0x61, newline], 0o600⟩⟩
  | request, x => succeeding request x.2.2

/-- An interrupt is wanted once there are a temporary file and a lock. -/
def wanted (x : RunNotes × (Place × State)) : Bool :=
  x.1.made.isSome && x.2.1.signal.isNone && (x.2.2.files.entry .lock).isSome

/-- How a process has ended that has come past `atexit` and has made a temporary file. -/
def endedWith (x : Prog Unit × RunNotes × (Place × State)) : Option Ending :=
  if x.2.1.guarded && x.2.1.made.isSome then haltedWith x.1 else none

/-- What such a run has come to. -/
theorem of_endedWith {x : Prog Unit × RunNotes × (Place × State)} {ending : Ending}
    (ended : endedWith x = some ending) :
    x.1 = .halt ending ∧ x.2.1.guarded = true ∧ x.2.1.made.isSome = true := by
  simp only [endedWith, Option.ite_none_right_eq_some, Bool.and_eq_true] at ended
  exact ⟨eq_halt_of_haltedWith ended.2, ended.1⟩

/-- A process that is interrupted while it writes the temporary file, and saves what the editor
leaves, leaves nothing behind. -/
theorem nothing_left_interrupted : ∃ ending notes place t,
    Interrupted (remembered.restrict orderly) (interrupt (sampleConfig true)) caughtAnywhere
      (process (sampleConfig true) .ascii .edit) (⟨false, none, false⟩, ⟨.starting, none⟩,
        sampleState true)
      (.halt ending) (notes, place, t) ∧
    notes.guarded = true ∧ notes.made.isSome = true ∧
      (notes.refused = false → t.files.entry .lock = none) ∧
      ∀ suffix, notes.made = some suffix → t.files.entry (.tmp suffix) = none := by
  have good : (playInterrupted (remembered.restrict orderly) (interrupt (sampleConfig true))
      caughtAnywhere rewriting wanted 100 (process (sampleConfig true) .ascii .edit)
      (⟨false, none, false⟩, ⟨.starting, none⟩, sampleState true)).any (fun x =>
        (endedWith x).isSome) =
      true := by decide +kernel
  obtain ⟨q, ⟨notes, place, t⟩, run, checked⟩ := exists_of_playInterrupted good
  obtain ⟨ending, ended⟩ := Option.isSome_iff_exists.mp checked
  obtain ⟨rfl, guarded, made⟩ := of_endedWith ended
  exact ⟨ending, notes, place, t, run, guarded, made, nothing_left (sampleConfig true) .ascii .edit
    (sampleState true) t rfl ending notes place run guarded⟩

/-- The answers of runs in which the temporary file can be removed. -/
def removable : Entry posix (RunNotes × (Place × State)) → Bool
  | ⟨.unlink (.tmp _), removal, _⟩ => removal != .failed
  | _ => true

/-- The editor removes the temporary file. -/
def removing : Oracle posix (RunNotes × (Place × State))
  | .system (.edit _ _), _ => ⟨0, .removed⟩
  | request, x => succeeding request x.2.2

/-- Whether the lock is left behind by a process that has ended, though no removal of it failed. -/
def leavesLock (x : Prog Unit × RunNotes × (Place × State)) : Bool :=
  (endedWith x).isSome && !x.2.1.refused && (x.2.2.2.files.entry .lock).isSome

/-- A process whose editor removes the temporary file crashes and leaves its lock behind. -/
theorem lock_left : ¬ ∀ (cfg : Config) (L : CLocale) (command : Command.Edits) (s t : State)
    (ending : Ending) (notes : RunNotes) (place : Place), s.globals = .initial →
    Interrupted (remembered.restrict removable) (interrupt cfg) caughtAnywhere
      (process cfg L command) (⟨false, none, false⟩, ⟨.starting, none⟩, s) (.halt ending)
      (notes, place, t) →
    notes.guarded = true → (notes.refused = false → t.files.entry .lock = none) ∧
      ∀ suffix, notes.made = some suffix → t.files.entry (.tmp suffix) = none := by
  intro claim
  have good : (playInterrupted (remembered.restrict removable) (interrupt (sampleConfig true))
      caughtAnywhere removing (fun _ => false) 100 (process (sampleConfig true) .ascii .edit)
      (⟨false, none, false⟩, ⟨.starting, none⟩, sampleState true)).any leavesLock = true := by
    decide +kernel
  obtain ⟨q, ⟨notes, place, t⟩, run, checked⟩ := exists_of_playInterrupted good
  simp only [leavesLock, Bool.and_eq_true, Bool.not_eq_true'] at checked
  obtain ⟨⟨halted, never⟩, there⟩ := checked
  obtain ⟨ending, ended⟩ := Option.isSome_iff_exists.mp halted
  obtain ⟨rfl, guarded, _⟩ := of_endedWith ended
  have gone := (claim (sampleConfig true) .ascii .edit (sampleState true) t ending notes place rfl
    run guarded).1 never
  rw [gone] at there
  cases there

end Mdp.Leaving
