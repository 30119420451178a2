import Mdp.Pool
import Mdp.Scenario

/-!
# The lock between processes

`lock_set` looks for the lock and creates it in two steps. As long as no process looks for it and
finds none while another has found none and has not created it yet, at most one process at a time
holds the lock, and from then on until it replaces the password file itself nobody else does. Two
processes that look before either creates both hold it.
-/

namespace Mdp.Exclusion

open Mdp Interaction CStrings HardLinks

/-- Whether this answer says that there is no lock, to `lock_set`. -/
def findsFree (stage : Stage) : (request : Call) → Call.Answer request → Bool
  | .stat .lock, .enoent => decide (stage = .starting)
  | _, _ => false

/-- Whether this answer is a lock that was created. -/
def createsLock : (request : Call) → Call.Answer request → Bool
  | .fopenWrite .lock, some _ => true
  | _, _ => false

/-- Whether a process has found no lock, or has the lock. -/
def aboutToLock : Stage → Bool
  | .lockFree => true
  | stage => stage.inside

variable {ι : Type} [DecidableEq ι]

/-- Steps at which nobody finds that there is no lock while another process is about to create
it. -/
def alone : Turns posix (Pool ι) ι := fun i request answer pool =>
  findsFree (pool.stage i) request answer = true → ∀ j, pool.stage j ≠ .lockFree

/-- At most one process has the lock, and as long as that has not begun to replace the password file
and its backup, they are what they were when it created the lock, and what the last save left. -/
structure Exclusive (pool : Pool ι) : Prop where
  one : ∀ i j, (pool.stage i).inside = true → (pool.stage j).inside = true → i = j
  kept : ∀ i, (pool.stage i).inside = true → (pool.lockNotes i).replaced = false →
    stored pool.files = (pool.lockNotes i).opened
  left : stored pool.files = pool.left

variable {cfg : Config} {L : CLocale} {command : Command.Edits} {s s' : State} {stage : Stage}
  {request : Call} {answer : Call.Answer request}

/-- A process that has the lock has found it free before. -/
theorem aboutToLock_of_inside (inside : stage.inside = true) : aboutToLock stage = true := by
  cases stage <;> first | rfl | exact inside

/-- Passwords are edited by a process that has the lock. -/
theorem inside_of_ready {source : Option Bytes} (ready : stage.ready = some source) :
    stage.inside = true := by
  cases stage <;> first | rfl | cases ready

/-- A process that has no claim changes no file, or removes a temporary one. -/
theorem outside_step (allowed : (lifetime cfg L command).allowed stage request)
    (taken : effect request answer s = some s') (apart : stage.Apart s.files)
    (parent : stage.child = false) (outside : aboutToLock stage = false) :
    s'.files = s.files ∨ ∃ path : Path, path.temporary = true ∧ s'.files = s.files.erase path := by
  rcases allowed with allowed | leaving
  · cases allowed with
    | neutral neutral => exact .inl (by rw [effect_neutral neutral taken])
    | lookForLock => exact .inl (by rw [(effect_stat taken).1])
    | makeTmp ready =>
      rw [aboutToLock_of_inside (inside_of_ready ready)] at outside
      cases outside
    | joinLine ready =>
      rw [aboutToLock_of_inside (inside_of_ready ready)] at outside
      cases outside
    | readSet ready =>
      rw [aboutToLock_of_inside (inside_of_ready ready)] at outside
      cases outside
    | becomeGpg => cases parent
    | resetInt => cases parent
    | interruptGpg => cases parent
    | _ => cases outside
  · cases leaving with
    | leave => exact .inl (by rw [(effect_nextHandler taken).2]; rfl)
    | clean inside =>
      cases inside with
      | findLock => cases outside
      | removeLock => cases outside
      | readTmpPath => exact .inl (by rw [(effect_editorTmpPath taken).2])
      | @removeTmp path =>
        rcases effect_unlink taken with ⟨_, rfl⟩ | ⟨_, _, rfl⟩ | ⟨_, rfl⟩
        · exact .inr ⟨path, apart, rfl⟩
        · exact .inl rfl
        · exact .inl rfl
    | stray => cases parent

/-- A process gets a claim by finding that there is no lock. -/
theorem aboutToLock_advance (allowed : (lifetime cfg L command).allowed stage request)
    (taken : effect request answer s = some s') (parent : stage.child = false)
    (armed : s.globals.atexit = stage.armed)
    (after : aboutToLock (stage.advance request answer) = true) :
    aboutToLock stage = true ∨ findsFree stage request answer = true := by
  rcases allowed with allowed | leaving
  · cases allowed with
    | neutral neutral =>
      left
      rcases Stage.advance_neutral neutral answer with same | same
      · rwa [same] at after
      · rw [same] at after
        cases stage <;> exact after
    | lookForLock =>
      cases answer with
      | enoent => exact .inr rfl
      | found => cases after
      | failed => cases after
    | makeTmp ready => exact .inl (aboutToLock_of_inside (inside_of_ready ready))
    | joinLine ready => exact .inl (aboutToLock_of_inside (inside_of_ready ready))
    | readSet ready => exact .inl (aboutToLock_of_inside (inside_of_ready ready))
    | _ => first | exact .inl rfl | cases parent
  · cases leaving with
    | leave first =>
      left
      have found := (effect_nextHandler taken).1
      rw [armed] at found
      subst found
      cases stage <;> first | rfl | exact after
    | clean inside =>
      left
      cases inside <;> first | rfl | (cases answer <;> cases after)
    | stray => cases parent

/-- A process gets the lock by creating it. -/
theorem inside_advance (allowed : (lifetime cfg L command).allowed stage request)
    (taken : effect request answer s = some s') (parent : stage.child = false)
    (armed : s.globals.atexit = stage.armed)
    (after : (stage.advance request answer).inside = true) :
    stage.inside = true ∨ createsLock request answer = true := by
  rcases allowed with allowed | leaving
  · cases allowed with
    | neutral neutral =>
      left
      rcases Stage.advance_neutral neutral answer with same | same
      · rwa [same] at after
      · rw [same] at after
        cases stage <;> exact after
    | lookForLock => cases answer <;> cases after
    | createLock =>
      cases answer with
      | none => cases after
      | some stream => exact .inr rfl
    | makeTmp ready => exact .inl (inside_of_ready ready)
    | joinLine ready => exact .inl (inside_of_ready ready)
    | readSet ready => exact .inl (inside_of_ready ready)
    | _ => first | exact .inl rfl | cases parent
  · cases leaving with
    | leave first =>
      left
      have found := (effect_nextHandler taken).1
      rw [armed] at found
      subst found
      cases stage <;> first | rfl | exact after
    | clean inside =>
      left
      cases inside <;> first | rfl | (cases answer <;> cases after)
    | stray => cases parent

/-- A process that keeps the lock leaves its name as it is. -/
theorem lock_kept (allowed : (lifetime cfg L command).allowed stage request)
    (taken : effect request answer s = some s') (inside : stage.inside = true)
    (after : (stage.advance request answer).inside = true) :
    s'.files.entry .lock = s.files.entry .lock := by
  rcases allowed with allowed | leaving
  · cases allowed with
    | neutral neutral => rw [effect_neutral neutral taken]
    | createLock => cases inside
    | _ => exact entry_kept rfl taken
  · cases leaving with
    | leave => exact entry_kept rfl taken
    | clean cleaning =>
      cases cleaning with
      | findLock => exact entry_kept rfl taken
      | removeLock =>
        rcases effect_unlink taken with ⟨rfl, rfl⟩ | ⟨_, _, rfl⟩ | ⟨_, rfl⟩
        · cases after
        · rfl
        · rfl
      | readTmpPath => exact entry_kept rfl taken
      | removeTmp => cases inside
    | stray => cases inside

/-- A lock that was created is there. -/
theorem created_lock (taken : effect request answer s = some s')
    (creates : createsLock request answer = true) : (s'.files.entry .lock).isSome = true := by
  unfold createsLock at creates
  split at creates
  · rcases effect_fopenWrite taken with ⟨same, _⟩ | ⟨inode, _, bound, rfl⟩ | ⟨_, _, rfl⟩
    · cases same
    · rw [State.setFiles_files, Directory.modify_entry, bound]
      rfl
    · rw [State.setFiles_files, Directory.create_entry_self]
      rfl
  · cases creates

/-- Nobody finds that there is no lock where there is one. -/
theorem absent_of_findsFree (taken : effect request answer s = some s')
    (free : findsFree stage request answer = true) : s.files.entry .lock = none := by
  unfold findsFree at free
  split at free
  · exact (effect_stat taken).2.2 rfl
  · cases free

/-- The memory of a process that creates the lock. -/
theorem note_creates {lockNotes : LockNotes} (creates : createsLock request answer = true) :
    lockNotes.note ⟨request, answer, s'⟩ = ⟨stored s'.files, false⟩ := by
  unfold createsLock at creates
  split at creates
  · rfl
  · cases creates

/-- The memory of a process otherwise. -/
theorem note_other {lockNotes : LockNotes} (other : createsLock request answer = false) :
    lockNotes.note ⟨request, answer, s'⟩ =
      { lockNotes with replaced := lockNotes.replaced || request.replaces } := by
  cases request with
  | fopenWrite path =>
    cases path with
    | lock =>
      cases answer with
      | none => rfl
      | some stream => cases other
    | _ => rfl
  | _ => rfl

/-- What holds along the interleavings that are looked at. -/
structure Held (pool : Pool ι) : Prop where
  parent : ∀ i, (pool.stage i).child = false
  named : ∀ i, TmpNamed (pool.globals i)
  armed : ∀ i, (pool.globals i).atexit = (pool.stage i).armed
  apart : ∀ i, (pool.stage i).Apart pool.files
  one : ∀ i j, aboutToLock (pool.stage i) = true → aboutToLock (pool.stage j) = true → i = j
  present : ∀ i, (pool.stage i).inside = true → (pool.files.entry .lock).isSome = true
  kept : ∀ i, (pool.stage i).inside = true → (pool.lockNotes i).replaced = false →
    stored pool.files = (pool.lockNotes i).opened
  left : stored pool.files = pool.left

/-- Where no process has a claim, which files there are does not matter. -/
theorem apart_of_outside {files files' : Files} (outside : aboutToLock stage = false)
    (apart : stage.Apart files) : stage.Apart files' := by
  cases stage <;> trivial

section Steps

variable {configs : ι → Config} {locales : ι → CLocale} {commands : ι → Command.Edits}
  {pool : Pool ι} {i : ι} {after : State}

omit [DecidableEq ι] in
/-- Next to a process that has a claim, another process changes no file but a temporary one. -/
theorem Held.beside (held : Held pool)
    (allowed : (lifetime (configs i) (locales i) (commands i)).allowed (pool.stage i) request)
    (taken : effect request answer (pool.view i) = some after) {j : ι} (other : j ≠ i)
    (claim : aboutToLock (pool.stage j) = true) :
    after.files = pool.files ∨
      ∃ path : Path, path.temporary = true ∧ after.files = pool.files.erase path := by
  refine outside_step allowed taken (held.apart i) (held.parent i) ?_
  rw [← Bool.not_eq_true]
  exact fun own => other (held.one j i claim own)

omit [DecidableEq ι] in
/-- A process that has a claim afterwards is the only one. -/
theorem Held.sole (held : Held pool)
    (allowed : (lifetime (configs i) (locales i) (commands i)).allowed (pool.stage i) request)
    (permitted : alone i request answer pool)
    (taken : effect request answer (pool.view i) = some after)
    (claim : aboutToLock ((pool.stage i).advance request answer) = true) {j : ι}
    (there : aboutToLock (pool.stage j) = true) : j = i := by
  rcases aboutToLock_advance allowed taken (held.parent i) (held.armed i) claim with own | free
  · exact held.one j i there own
  · have nobody := permitted free j
    have absent : pool.files.entry .lock = none := absent_of_findsFree taken free
    have inside : (pool.stage j).inside = true := by
      cases stage : pool.stage j with
      | lockFree => exact absurd stage nobody
      | _ => rw [stage] at there; exact there
    have present := held.present j inside
    rw [absent] at present
    cases present

/-- Every step that is looked at keeps what holds. -/
theorem Held.turn (held : Held pool)
    (allowed : (lifetime (configs i) (locales i) (commands i)).allowed (pool.stage i) request)
    (permitted : alone i request answer pool)
    (taken : effect request answer (pool.view i) = some after) :
    Held (pool.turn i request answer after) := by
  have parent := Stage.child_advance (held.parent i) taken
  obtain ⟨apart, stays⟩ := apart_step allowed taken (held.apart i) (held.named i)
    (Stage.ne_strayed parent)
  have gets := inside_advance allowed taken (held.parent i) (held.armed i)
  constructor
  · intro j
    by_cases same : j = i
    · subst same
      rw [Pool.turn_stage_self]
      exact parent
    · rw [(pool.turn_other i request answer after same).2.1]
      exact held.parent j
  · intro j
    by_cases same : j = i
    · subst same
      rw [Pool.turn_globals_self]
      exact tmpNamed_step taken (held.named j)
    · rw [(pool.turn_other i request answer after same).1]
      exact held.named j
  · intro j
    by_cases same : j = i
    · subst same
      rw [Pool.turn_globals_self, Pool.turn_stage_self]
      exact armed_step allowed taken (held.parent j) (held.armed j)
    · rw [(pool.turn_other i request answer after same).1,
        (pool.turn_other i request answer after same).2.1]
      exact held.armed j
  · intro j
    by_cases same : j = i
    · subst same
      rw [Pool.turn_stage_self]
      exact apart
    · rw [(pool.turn_other i request answer after same).2.1, Pool.turn_files]
      cases claim : aboutToLock (pool.stage j) with
      | false => exact apart_of_outside claim (held.apart j)
      | true =>
        rcases held.beside allowed taken same claim with files | ⟨path, _, files⟩
        · rw [files]
          exact held.apart j
        · rw [files]
          exact (held.apart j).erase
  · intro j k first second
    by_cases own : j = i
    · subst own
      by_cases same : k = j
      · exact same.symm
      · rw [Pool.turn_stage_self] at first
        rw [(pool.turn_other j request answer after same).2.1] at second
        exact (held.sole allowed permitted taken first second).symm
    · rw [(pool.turn_other i request answer after own).2.1] at first
      by_cases same : k = i
      · subst same
        rw [Pool.turn_stage_self] at second
        exact held.sole allowed permitted taken second first
      · rw [(pool.turn_other i request answer after same).2.1] at second
        exact held.one j k first second
  · intro j inside
    rw [Pool.turn_files]
    by_cases same : j = i
    · subst same
      rw [Pool.turn_stage_self] at inside
      rcases gets inside with before | creates
      · rw [lock_kept allowed taken before inside]
        exact held.present j before
      · exact created_lock taken creates
    · rw [(pool.turn_other i request answer after same).2.1] at inside
      have present := held.present j inside
      rcases held.beside allowed taken same (aboutToLock_of_inside inside) with files | ⟨path, free,
        files⟩
      · rw [files]
        exact present
      · rw [files, Directory.erase_entry_other]
        · exact present
        · rintro rfl
          cases free
  · intro j inside untouched
    rw [Pool.turn_files]
    by_cases same : j = i
    · subst same
      rw [Pool.turn_stage_self] at inside
      rw [Pool.turn_lockNotes_self] at untouched ⊢
      cases creates : createsLock request answer with
      | true => rw [note_creates creates]
      | false =>
        rw [note_other creates] at untouched ⊢
        simp only [Bool.or_eq_false_iff] at untouched
        have before := (gets inside).resolve_right (by rw [creates]; decide)
        exact (stays untouched.2).trans (held.kept j before untouched.1)
    · obtain ⟨_, stage, lockNotes⟩ := pool.turn_other i request answer after same
      rw [stage] at inside
      rw [lockNotes] at untouched ⊢
      have opened := held.kept j inside untouched
      rcases held.beside allowed taken same (aboutToLock_of_inside inside) with files | ⟨path, free,
        files⟩
      · rw [files]
        exact opened
      · rw [files, stored_erase (Path.holdsPasswords_of_temporary free)]
        exact opened
  · show stored after.files = if request.replaces then stored after.files else pool.left
    cases replaces : request.replaces with
    | true => rfl
    | false => exact (stays replaces).trans held.left

end Steps

/-- For any number of processes, in every interleaving in which no process looks for the lock and
finds none while another has found none and has not created it yet: at most one process at a time
has the lock, and as long as that has not begun to replace the password file and its backup, these
are what they were when it created the lock, which is what the last save left. -/
theorem exclusive (ι : Type) [DecidableEq ι] (cfg : ι → Config) (L : ι → CLocale)
    (command : ι → Command.Edits) (pool t : Pool ι) (starting : pool.Starting)
    (qs : ι → Prog Unit)
    (run : Interleaved pooled alone (fun i => process (cfg i) (L i) (command i)) pool qs t) :
    Exclusive t := by
  have start : Held pool := {
    parent := fun i => by rw [starting.stage i]; rfl
    named := fun i => ⟨.template, by rw [starting.globals i]; rfl, rfl⟩
    armed := fun i => by rw [starting.globals i, starting.stage i]; rfl
    apart := fun i => by rw [starting.stage i]; trivial
    one := fun i j first => by rw [starting.stage i] at first; cases first
    present := fun i inside => by rw [starting.stage i] at inside; cases inside
    kept := fun i inside => by rw [starting.stage i] at inside; cases inside
    left := starting.left.symm }
  have held := (pool_run (fun i request answer pool after allowed permitted taken held =>
    Held.turn held allowed permitted taken) run starting start).2
  exact ⟨fun i j first second =>
    held.one i j (aboutToLock_of_inside first) (aboutToLock_of_inside second), held.kept, held.left⟩

/-- Two processes that have not begun. -/
def twoProcesses : Pool Bool where
  files := sampleFiles true
  globals _ := .initial
  stage _ := .starting
  lockNotes _ := ⟨(none, none), false⟩
  left := stored (sampleFiles true)

/-- Neither of them has begun. -/
theorem twoProcesses_starting : twoProcesses.Starting := ⟨fun _ => rfl, fun _ => rfl, rfl⟩

/-- Their calls succeed, and their editors write a line. -/
def savingEditors (i : Bool) : Oracle posix (Pool Bool)
  | .system (.edit _ _), _ => ⟨0, .rewritten [0x61, newline]⟩
  | request, pool => succeeding request (pool.view i)

/-- Two processes that run `mdp edit`. -/
def twoEdits : Bool → Prog Unit := fun _ => process (sampleConfig true) .ascii .edit

/-- Whether nobody is about to create the lock when it is found free. -/
def passesAlone (i : Bool) (request : Call) (answer : Call.Answer request) (pool : Pool Bool) :
    Bool :=
  !findsFree (pool.stage i) request answer ||
    decide (pool.stage false ≠ .lockFree ∧ pool.stage true ≠ .lockFree)

/-- The check of a run lets nobody else in. -/
theorem alone_of_passes (i : Bool) (request : Call) (answer : Call.Answer request)
    (pool : Pool Bool) (passes : passesAlone i request answer pool = true) :
    alone i request answer pool := by
  intro free
  rw [passesAlone, free, Bool.not_true, Bool.false_or, decide_eq_true_eq] at passes
  intro j
  cases j with
  | false => exact passes.1
  | true => exact passes.2

/-- The second process comes when the first has the lock. -/
theorem exclusive_two_processes : ∃ qs t,
    Interleaved pooled alone twoEdits twoProcesses qs t ∧
    (t.stage false).inside = true ∧ Exclusive t := by
  have good : (playInterleaved pooled passesAlone savingEditors
      (List.replicate 8 false ++ List.replicate 5 true) twoEdits twoProcesses).any
      (fun ended => (ended.2.stage false).inside) = true := by decide +kernel
  obtain ⟨qs, t, run, inside⟩ := exists_of_playInterleaved alone_of_passes good
  exact ⟨qs, t, run, inside, exclusive Bool (fun _ => sampleConfig true) (fun _ => .ascii)
    (fun _ => .edit) twoProcesses t twoProcesses_starting qs run⟩

/-- Whether the second process has the lock, but the first has changed the passwords since. -/
def replacedUnderLock (ended : (Bool → Prog Unit) × Pool Bool) : Bool :=
  (ended.2.stage true).inside && !(ended.2.lockNotes true).replaced &&
    decide (stored ended.2.files ≠ (ended.2.lockNotes true).opened)

/-- Two processes look for the lock before either creates it, both create it, and the first saves
what the second will not have seen. -/
theorem not_exclusive : ¬ ∀ (ι : Type) (_ : DecidableEq ι) (cfg : ι → Config) (L : ι → CLocale)
    (command : ι → Command.Edits) (pool t : Pool ι) (qs : ι → Prog Unit), pool.Starting →
    Interleaved pooled (fun _ _ _ _ => True) (fun i => process (cfg i) (L i) (command i)) pool qs
      t →
    Exclusive t := by
  intro claim
  have good : (playInterleaved pooled (fun _ _ _ _ => true) savingEditors
      (List.replicate 5 false ++ List.replicate 6 true ++ List.replicate 38 false) twoEdits
      twoProcesses).any replacedUnderLock = true := by decide +kernel
  have permitted : ∀ (i : Bool) (request : Call) (answer : Call.Answer request)
      (pool : Pool Bool), true = true → True := fun _ _ _ _ _ => trivial
  obtain ⟨qs, t, run, lost⟩ := exists_of_playInterleaved permitted good
  have both := claim Bool inferInstance (fun _ => sampleConfig true) (fun _ => .ascii) (fun _ =>
    .edit)
    twoProcesses t qs twoProcesses_starting run
  simp only [replacedUnderLock, Bool.and_eq_true, Bool.not_eq_true', decide_eq_true_eq] at lost
  obtain ⟨⟨inside, untouched⟩, differs⟩ := lost
  exact differs (both.kept true inside untouched)

end Mdp.Exclusion
