import Mdp.Effects

/-!
# What a session leaves alone

Only five calls of a session change the password file or its backup. Every other call that writes
goes to a file of its own: the lock, the temporary file, gpg's output. That these are not the
password file under another name is part of each stage; it holds because such files were created
under a name that was free.
-/

namespace Mdp

open Interaction CStrings HardLinks

/-- Whether a name is that of the password file or of its backup. -/
def Path.holdsPasswords : Path → Bool
  | .passwordFile => true
  | .bak .passwordFile => true
  | _ => false

/-- Whether a name is the template or one made of it. -/
def Path.temporary : Path → Bool
  | .template => true
  | .tmp _ => true
  | _ => false

/-- The calls that replace the password file and its backup. -/
def Call.replaces : Call → Bool
  | .unlink path => path.holdsPasswords
  | .link _ path => path.holdsPasswords
  | .chmod path _ => path.holdsPasswords
  | _ => false

/-- The calls that may bind or remove a name. -/
def Call.binds : Call → Path → Bool
  | .unlink path, name => path == name
  | .link _ new, name => new == name
  | .mkstemp, name => name.temporary
  | .fopenWrite path, name => path == name
  | .system (.edit _ path), name => path == name
  | .system (.encrypt _ _ path), name => .gpg path == name
  | _, _ => false

/-- The password file and its backup. -/
def stored (files : Files) : Option Node × Option Node :=
  (files.read .passwordFile, files.read (.bak .passwordFile))

/-- The contents of a file. -/
def bytesAt (s : State) (path : Path) : Option Bytes := (s.files.read path).map Node.bytes

/-- Neither the password file nor its backup is this file. -/
def Apart (files : Files) (inode : Nat) : Prop :=
  ∀ path : Path, path.holdsPasswords = true → files.entry path ≠ some inode

/-- A change that keeps what both names read as. -/
theorem stored_eq {files files' : Files}
    (same : ∀ path : Path, path.holdsPasswords = true → files'.read path = files.read path) :
    stored files' = stored files :=
  Prod.ext (same _ rfl) (same _ rfl)

/-- A temporary file is neither the password file nor its backup. -/
theorem Path.holdsPasswords_of_temporary {path : Path} (temporary : path.temporary = true) :
    path.holdsPasswords = false := by
  cases path <;>
    first
    | rfl
    | exact absurd temporary (by decide)
    | (simp [Path.temporary] at temporary)

/-- A file that holds passwords has another name than one that does not. -/
theorem ne_of_holdsPasswords {path other : Path} (names : other.holdsPasswords = true)
    (free : path.holdsPasswords = false) : other ≠ path := by
  rintro rfl
  rw [names] at free
  contradiction

variable {files files' : Files} {path : Path} {inode : Nat}

/-- Removing another name keeps the passwords. -/
theorem stored_erase (free : path.holdsPasswords = false) :
    stored (files.erase path) = stored files :=
  stored_eq fun _ names => Directory.erase_read_other files (ne_of_holdsPasswords names free)

/-- Creating a file under another name keeps the passwords. -/
theorem stored_create {node : Node} (free : path.holdsPasswords = false) :
    stored (files.create path node) = stored files :=
  stored_eq fun _ names => Directory.create_read_other files node (ne_of_holdsPasswords names free)

/-- Changing another file keeps the passwords. -/
theorem stored_modify {change : Node → Node} (apart : Apart files inode) :
    stored (files.modify inode change) = stored files :=
  stored_eq fun path names => Directory.modify_read_other files change (apart path names)

/-- An editor on another file keeps the passwords. -/
theorem stored_edited {left : Edited} (free : path.holdsPasswords = false)
    (apart : ∀ inode, files.entry path = some inode → Apart files inode)
    (applied : left.apply path files = some files') : stored files' = stored files :=
  stored_eq fun other names => (Edited.apply_other applied (ne_of_holdsPasswords names free)
    fun inode bound => apart inode bound other names).2

/-- No name is the file handed out next. -/
theorem apart_fresh : Apart files files.fresh := fun path _ => files.entry_ne_fresh path

/-- Other names do not matter. -/
theorem Apart.of_entry (apart : Apart files inode)
    (same : ∀ path : Path, path.holdsPasswords = true → files'.entry path = files.entry path) :
    Apart files' inode := by
  intro path names
  rw [same path names]
  exact apart path names

/-- At each stage, the files it writes to are not the password file or its backup. -/
def Stage.Apart : Stage → Files → Prop
  | .lockFree, files => files.entry .lock = none
  | .locked stream, files => Mdp.Apart files stream
  | .dumping _ created _, files => Mdp.Apart files created.fd ∧
      ∀ inode, files.entry (.tmp created.suffix) = some inode → Mdp.Apart files inode
  | .removing path, _ => path.temporary = true
  | .strayed, _ => False
  | _, _ => True

/-- Which inodes the passwords have not, does not depend on a name that is removed. -/
theorem Stage.Apart.erase {stage : Stage} (apart : stage.Apart files) :
    stage.Apart (files.erase path) := by
  have fewer : ∀ name inode, (files.erase path).entry name = some inode →
      files.entry name = some inode := by
    intro name inode bound
    by_cases same : name = path
    · rw [same, Directory.erase_entry_self] at bound
      cases bound
    · rwa [Directory.erase_entry_other files same] at bound
  have still : ∀ inode, Mdp.Apart files inode → Mdp.Apart (files.erase path) inode :=
    fun inode away name names bound => away name names (fewer name inode bound)
  cases stage with
  | lockFree =>
    show (files.erase path).entry .lock = none
    rw [Option.eq_none_iff_forall_ne_some]
    intro inode bound
    have before := fewer .lock inode bound
    rw [show files.entry .lock = none from apart] at before
    cases before
  | locked stream => exact still stream apart
  | dumping source created written =>
    exact ⟨still _ apart.1, fun inode bound => still inode (apart.2 inode (fewer _ inode bound))⟩
  | _ => exact apart

/-- The name `cleanup` removes is the template or one made of it. -/
def TmpNamed (globals : Globals) : Prop :=
  ∃ path, globals.editorTmpPath = some path ∧ path.temporary = true

variable {cfg : Config} {L : CLocale} {command : Command.Edits} {s s' : State}

/-- Other calls leave a name as it is. -/
theorem entry_kept {request : Call} {answer : Call.Answer request} {name : Path}
    (other : request.binds name = false) (taken : effect request answer s = some s') :
    s'.files.entry name = s.files.entry name := by
  have unchanged : some s = some s' → s'.files.entry name = s.files.entry name := by
    intro same
    rw [Option.some.inj same]
  have distinct : ∀ {path : Path}, (path == name) = false → name ≠ path :=
    fun different same => by simp [same] at different
  cases request with
  | system command =>
    cases command with
    | edit editor path =>
      obtain ⟨_, files, applied, rfl⟩ := effect_edit taken
      exact Edited.apply_entry applied (distinct other)
    | encrypt gpgPath keyId path =>
      rcases effect_encrypt taken with ⟨_, rfl⟩ | ⟨node, _, _, rfl⟩
      · rfl
      · exact Directory.create_entry_other _ _ (distinct other)
    | version gpgPath => exact unchanged taken
    | listSecretKeys gpgPath => exact unchanged taken
  | stat path => rw [(effect_stat taken).1]
  | unlink path =>
    rcases effect_unlink taken with ⟨_, rfl⟩ | ⟨_, _, rfl⟩ | ⟨_, rfl⟩
    · exact Directory.erase_entry_other _ (distinct other)
    · rfl
    · rfl
  | link old new =>
    rcases effect_link taken with ⟨_, _, _, rfl⟩ | ⟨_, rfl⟩
    · exact Directory.hardLink_entry_other _ _ (distinct other)
    · rfl
  | chmod path mode => rcases effect_chmod taken with ⟨_, inode, _, rfl⟩ | ⟨_, rfl⟩ <;> rfl
  | mkstemp =>
    rcases effect_mkstemp taken with ⟨_, rfl⟩ | ⟨created, _, _, _, _, rfl⟩
    · rfl
    · refine Directory.create_entry_other _ _ ?_
      rintro rfl
      cases other
  | write fd bytes => rcases effect_write taken with ⟨_, rfl⟩ | ⟨count, _, _, rfl⟩ <;> rfl
  | fopenWrite path =>
    rcases effect_fopenWrite taken with ⟨_, rfl⟩ | ⟨inode, _, _, rfl⟩ | ⟨_, _, rfl⟩
    · rfl
    · rfl
    · exact Directory.create_entry_other _ _ (distinct other)
  | fprintf stream bytes => rcases effect_fprintf taken with ⟨_, rfl⟩ | ⟨_, rfl⟩ <;> rfl
  | fopenRead path => rw [(effect_fopenRead taken).1]
  | fgets stream => rw [(effect_fgets taken).1]
  | fork => rw [(effect_fork taken).1]
  | signal signal disposition =>
    cases signal with
    | int => rw [effect_signal_int taken]; rfl
    | zero => exact unchanged taken
    | kill => exact unchanged taken
  | atexit => rcases effect_atexit taken with ⟨_, rfl⟩ | ⟨_, rfl⟩ <;> rfl
  | nextHandler => rw [(effect_nextHandler taken).2]; rfl
  | sigreturn => rw [effect_sigreturn taken]; rfl
  | editorTmpPath => rw [(effect_editorTmpPath taken).2]
  | arc4randomUniform bound =>
    have neutral : Call.Neutral (.arc4randomUniform bound) := trivial
    rw [effect_neutral neutral taken]
  | readString present => rw [(effect_readString taken).2]
  | _ => exact unchanged taken

/-- That name stays so. -/
theorem tmpNamed_step {request : Call} {answer : Call.Answer request}
    (taken : effect request answer s = some s') (named : TmpNamed s.globals) :
    TmpNamed s'.globals := by
  by_cases made : request = .mkstemp
  · subst made
    rcases effect_mkstemp taken with ⟨_, rfl⟩ | ⟨created, _, _, _, _, rfl⟩
    · exact named
    · exact ⟨.tmp created.suffix, rfl, rfl⟩
  · obtain ⟨path, same, free⟩ := named
    exact ⟨path, (effect_editorTmpPath_kept made taken).trans same, free⟩

/-- A neutral call that does not fail in a child keeps its stage apart. -/
theorem Stage.Apart.neutral {stage : Stage} {request : Call} {answer : Call.Answer request}
    (apart : stage.Apart files) (neutral : request.Neutral)
    (sound : stage.advance request answer ≠ .strayed) :
    (stage.advance request answer).Apart files := by
  rcases Stage.advance_neutral neutral answer with same | same
  · rw [same]
    exact apart
  · rw [same] at sound ⊢
    cases stage <;> first | exact apart | exact trivial | exact absurd rfl sound

/-- Exiting leads to stages that write to no file. -/
theorem Stage.apart_exiting {stage : Stage} {registered : Bool}
    (sound : stage.exiting registered ≠ .strayed) : (stage.exiting registered).Apart files := by
  cases stage <;> cases registered <;> first | exact trivial | exact absurd rfl sound

/-- Once loading is over, a stage does not change by a call that has nothing to do with it. -/
theorem Stage.apart_of_ready {stage : Stage} {source : Option Bytes}
    (ready : stage.ready = some source) : stage.Apart files := by
  cases stage <;> first | exact trivial | (simp [Stage.ready] at ready)

/-- `cleanup` changes neither the password file nor its backup. -/
theorem cleaning_step {stage : Stage} {request : Call} {answer : Call.Answer request}
    (inside : AllowedCleaning stage request) (taken : effect request answer s = some s')
    (apart : stage.Apart s.files) (named : TmpNamed s.globals) :
    (stage.advance request answer).Apart s'.files ∧ stored s'.files = stored s.files := by
  cases inside with
  | findLock =>
    obtain ⟨rfl, _⟩ := effect_stat taken
    refine ⟨?_, rfl⟩
    cases answer <;> exact trivial
  | removeLock =>
    constructor
    · cases answer <;> exact trivial
    · rcases effect_unlink taken with ⟨_, rfl⟩ | ⟨_, _, rfl⟩ | ⟨_, rfl⟩
      · exact stored_erase rfl
      · rfl
      · rfl
  | readTmpPath =>
    obtain ⟨rfl, rfl⟩ := effect_editorTmpPath taken
    refine ⟨?_, rfl⟩
    obtain ⟨path, same, free⟩ := named
    rw [same]
    exact free
  | removeTmp =>
    constructor
    · cases answer <;> exact trivial
    · rcases effect_unlink taken with ⟨_, rfl⟩ | ⟨_, _, rfl⟩ | ⟨_, rfl⟩
      · exact stored_erase (Path.holdsPasswords_of_temporary apart)
      · rfl
      · rfl

/-- What one call can do: the stage after it is apart, and unless it is one of the calls that
replace the password file and its backup, both are as before. -/
theorem apart_step {stage : Stage} {request : Call} {answer : Call.Answer request}
    (allowed : (lifetime cfg L command).allowed stage request)
    (taken : effect request answer s = some s') (apart : stage.Apart s.files)
    (named : TmpNamed s.globals) (sound : stage.advance request answer ≠ .strayed) :
    (stage.advance request answer).Apart s'.files ∧
      (request.replaces = false → stored s'.files = stored s.files) := by
  rcases allowed with allowed | leaving
  · cases allowed with
    | neutral neutral =>
      rw [effect_neutral neutral taken]
      exact ⟨apart.neutral neutral sound, fun _ => rfl⟩
    | lookForLock =>
      obtain ⟨rfl, _, missing⟩ := effect_stat taken
      refine ⟨?_, fun _ => rfl⟩
      cases answer with
      | enoent => exact missing rfl
      | found => exact trivial
      | failed => exact trivial
    | createLock =>
      rcases effect_fopenWrite taken with ⟨rfl, rfl⟩ | ⟨inode, rfl, bound, _⟩ | ⟨rfl, _, rfl⟩
      · exact ⟨trivial, fun _ => rfl⟩
      · exact absurd (bound.symm.trans apart) (by simp)
      · refine ⟨?_, fun _ => stored_create rfl⟩
        refine apart_fresh.of_entry fun path names => ?_
        exact Directory.create_entry_other _ _ (ne_of_holdsPasswords names rfl)
    | writeLock =>
      rcases effect_fprintf taken with ⟨rfl, rfl⟩ | ⟨rfl, rfl⟩
      · exact ⟨apart, fun _ => stored_modify apart⟩
      · exact ⟨apart, fun _ => rfl⟩
    | register =>
      rcases effect_atexit taken with ⟨rfl, rfl⟩ | ⟨rfl, rfl⟩
      · exact ⟨trivial, fun _ => rfl⟩
      · exact ⟨apart, fun _ => rfl⟩
    | catchInt => exact ⟨trivial, fun _ => by rw [effect_signal_int taken]; rfl⟩
    | resetInt => exact ⟨trivial, fun _ => by rw [effect_signal_int taken]; rfl⟩
    | lookForPasswords =>
      obtain ⟨rfl, _⟩ := effect_stat taken
      refine ⟨?_, fun _ => rfl⟩
      cases answer <;> exact trivial
    | forkGpg =>
      obtain ⟨rfl, other⟩ := effect_fork taken
      refine ⟨?_, fun _ => rfl⟩
      cases answer with
      | failed => exact trivial
      | child => exact absurd rfl other
      | parent pid => exact trivial
    | forkWatcher =>
      obtain ⟨rfl, other⟩ := effect_fork taken
      refine ⟨?_, fun _ => rfl⟩
      cases answer with
      | failed => exact trivial
      | child => exact absurd rfl other
      | parent pid => exact trivial
    | openPipe =>
      rw [effect_fdopen taken]
      exact ⟨trivial, fun _ => rfl⟩
    | readPipe =>
      obtain ⟨rfl, _⟩ := effect_fgets taken
      exact ⟨trivial, fun _ => rfl⟩
    | wait =>
      rw [effect_waitpid taken]
      refine ⟨?_, fun _ => rfl⟩
      cases answer <;> exact trivial
    | cancel =>
      rw [effect_kill taken]
      exact ⟨trivial, fun _ => rfl⟩
    | makeTmp ready =>
      rcases effect_mkstemp taken with ⟨rfl, rfl⟩ | ⟨created, rfl, _, _, fd, rfl⟩
      · exact ⟨apart, fun _ => rfl⟩
      · have new : Mdp.Apart (s.files.create (.tmp created.suffix) ⟨[], 0o600⟩) created.fd := by
          rw [fd]
          refine apart_fresh.of_entry fun path names => ?_
          exact Directory.create_entry_other _ _ (ne_of_holdsPasswords names rfl)
        refine ⟨?_, fun _ => stored_create rfl⟩
        simp only [Stage.advance, Stage.created, ready]
        refine ⟨new, fun inode bound => ?_⟩
        rw [Directory.create_entry_self, Option.some.injEq] at bound
        rw [← bound, ← fd]
        exact new
    | joinLine ready =>
      rw [effect_calloc taken]
      refine ⟨?_, fun _ => rfl⟩
      cases answer with
      | true => exact Stage.apart_of_ready ready
      | false =>
        simp only [Stage.advance, Stage.given, ready]
        exact trivial
    | readSet ready =>
      rw [(effect_readString taken).2]
      refine ⟨?_, fun _ => rfl⟩
      cases answer with
      | true =>
        show (stage.dereferenced true).Apart s.files
        rw [stage.dereferenced_true]
        exact Stage.apart_of_ready ready
      | false =>
        show (stage.dereferenced false).Apart s.files
        rw [Stage.dereferenced_of_ready ready]
        exact trivial
    | readEditor =>
      rw [(effect_readString taken).2]
      refine ⟨?_, fun _ => rfl⟩
      cases answer with
      | true => exact apart
      | false => exact trivial
    | dump =>
      rcases effect_write taken with ⟨rfl, rfl⟩ | ⟨count, rfl, _, rfl⟩
      · exact ⟨apart, fun _ => rfl⟩
      · exact ⟨apart, fun _ => stored_modify apart.1⟩
    | edit =>
      obtain ⟨_, files, applied, rfl⟩ := effect_edit taken
      exact ⟨trivial, fun _ => stored_edited rfl apart.2 applied⟩
    | reopen =>
      obtain ⟨rfl, _⟩ := effect_fopenRead taken
      refine ⟨?_, fun _ => rfl⟩
      cases answer <;> exact trivial
    | reread =>
      obtain ⟨rfl, _⟩ := effect_fgets taken
      exact ⟨trivial, fun _ => rfl⟩
    | encrypt =>
      refine ⟨trivial, fun _ => ?_⟩
      rcases effect_encrypt taken with ⟨_, rfl⟩ | ⟨node, _, _, rfl⟩
      · rfl
      · exact stored_create rfl
    | report =>
      rw [effect_print taken]
      exact ⟨trivial, fun _ => rfl⟩
    | lookAgain =>
      obtain ⟨rfl, _⟩ := effect_stat taken
      refine ⟨?_, fun _ => rfl⟩
      cases answer <;> exact trivial
    | tidy =>
      refine ⟨trivial, fun _ => ?_⟩
      rcases effect_unlink taken with ⟨_, rfl⟩ | ⟨_, _, rfl⟩ | ⟨_, rfl⟩
      · exact stored_erase rfl
      · rfl
      · rfl
    | clearBackup =>
      refine ⟨?_, fun other => by cases other⟩
      cases answer <;> exact trivial
    | backUp =>
      refine ⟨?_, fun other => by cases other⟩
      cases answer <;> exact trivial
    | unlinkPlain =>
      refine ⟨?_, fun other => by cases other⟩
      cases answer <;> exact trivial
    | unlinkBackedUp =>
      refine ⟨?_, fun other => by cases other⟩
      cases answer <;> exact trivial
    | install =>
      refine ⟨?_, fun other => by cases other⟩
      cases answer <;> exact trivial
    | protect =>
      refine ⟨?_, fun other => by cases other⟩
      cases answer <;> exact trivial
    | becomeGpg =>
      rw [effect_execlp taken]
      refine ⟨?_, fun _ => rfl⟩
      cases answer with
      | true => exact trivial
      | false => exact absurd rfl sound
    | interruptGpg =>
      rw [effect_kill taken]
      refine ⟨?_, fun _ => rfl⟩
      cases answer with
      | sent => exact trivial
      | esrch => exact absurd rfl sound
      | failed => exact absurd rfl sound
  · cases leaving with
    | leave =>
      obtain ⟨_, rfl⟩ := effect_nextHandler taken
      exact ⟨Stage.apart_exiting sound, fun _ => rfl⟩
    | clean inside =>
      obtain ⟨next, kept⟩ := cleaning_step inside taken apart named
      exact ⟨next, fun _ => kept⟩
    | stray => exact apart.elim

/-- Whether `exit` finds `atexit_cleanup` on its list: from `atexit` on, until it takes it off. -/
def Stage.armed : Stage → Bool
  | .starting => false
  | .lockFree => false
  | .locked _ => false
  | .gone _ => false
  | stage => !stage.leaving

/-- A call that fails does not change the list. -/
theorem Stage.armed_failed (stage : Stage) : stage.failed.armed = stage.armed := by
  cases stage <;> rfl

/-- The list is what the stage says. -/
theorem armed_step {stage : Stage} {request : Call} {answer : Call.Answer request}
    (allowed : (lifetime cfg L command).allowed stage request)
    (taken : effect request answer s = some s') (parent : stage.child = false)
    (armed : s.globals.atexit = stage.armed) :
    s'.globals.atexit = (stage.advance request answer).armed := by
  rcases allowed with allowed | leaving
  · by_cases register : request = .atexit
    · subst register
      cases allowed with
      | neutral neutral => exact neutral.elim
      | register =>
        rcases effect_atexit taken with ⟨rfl, rfl⟩ | ⟨rfl, rfl⟩
        · rfl
        · exact armed
    · have last : request ≠ .nextHandler := by
        rintro rfl
        cases allowed with
        | neutral neutral => exact neutral
      rw [effect_atexit_kept register last taken, armed]
      cases allowed with
      | neutral neutral =>
        rcases Stage.advance_neutral neutral answer with same | same
        · rw [same]
        · rw [same, Stage.armed_failed]
      | register => exact absurd rfl register
      | makeTmp ready =>
        cases answer with
        | none => rfl
        | some created =>
          simp only [Stage.advance, Stage.created, ready]
          cases stage <;> first | rfl | cases ready
      | joinLine ready =>
        cases answer with
        | true => rfl
        | false =>
          simp only [Stage.advance, Stage.given, ready]
          cases stage <;> first | rfl | cases ready
      | readSet ready =>
        cases answer with
        | true => exact congrArg Stage.armed stage.dereferenced_true.symm
        | false =>
          show stage.armed = (stage.dereferenced false).armed
          rw [Stage.dereferenced_of_ready ready]
          cases stage <;> first | rfl | cases ready
      | report same => rfl
      | _ => first | rfl | (cases answer <;> rfl)
  · cases leaving with
    | leave first =>
      obtain ⟨found, rfl⟩ := effect_nextHandler taken
      rw [armed] at found
      subst found
      cases stage <;> first | rfl | cases parent
    | clean inside =>
      have register : request ≠ .atexit := by
        cases inside <;> exact Call.noConfusion
      have last : request ≠ .nextHandler := by
        cases inside <;> exact Call.noConfusion
      rw [effect_atexit_kept register last taken, armed]
      cases inside <;> cases answer <;> rfl
    | stray => cases parent

end Mdp
