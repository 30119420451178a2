import Mdp.Session

/-!
# What the calls do

One lemma for each call that reads or writes the state: what its answers say about the state
before, and the state after. A call that failed leaves the state as it is.
-/

namespace Mdp

open Interaction CStrings HardLinks

variable {s s' : State}

/-- Neutral calls leave the state as it is. -/
theorem effect_neutral {request : Call} {answer : Call.Answer request} (neutral : request.Neutral)
    (taken : effect request answer s = some s') : s' = s := by
  have unchanged : some s = some s' → s' = s := fun same => (Option.some.inj same).symm
  cases request with
  | system command => cases command <;> first | exact neutral.elim | exact unchanged taken
  | kill pid signal => cases signal <;> first | exact neutral.elim | exact unchanged taken
  | signal signal disposition =>
    cases signal <;> first | exact neutral.elim | exact unchanged taken
  | arc4randomUniform bound =>
    simp only [effect, Option.ite_none_right_eq_some] at taken
    exact unchanged taken.2
  | _ => first | exact neutral.elim | exact unchanged taken

/-- Neutral calls leave the stage as it is, unless they fail. -/
theorem Stage.advance_neutral {stage : Stage} {request : Call} (neutral : request.Neutral)
    (answer : Call.Answer request) :
    stage.advance request answer = stage ∨ stage.advance request answer = stage.failed := by
  cases request with
  | system command => cases command <;> first | exact .inl rfl | exact neutral.elim
  | kill pid signal =>
    cases signal with
    | zero => cases stage <;> exact .inl rfl
    | int => exact neutral.elim
    | kill => exact neutral.elim
  | print text =>
    have other : text ≠ noChanges := neutral
    left
    cases stage <;> simp [Stage.advance, Stage.printed, other]
  | allocate => cases answer <;> simp [Stage.advance]
  | strftime => cases answer <;> simp [Stage.advance]
  | close fd => cases answer <;> simp [Stage.advance]
  | dup2 old new => cases answer <;> simp [Stage.advance]
  | _ => first | exact .inl rfl | exact neutral.elim

/-- Neutral calls leave the stages of a command as they are. -/
theorem Stage.advance_neutral_of_failed {stage : Stage} {request : Call}
    (sturdy : stage.failed = stage) (neutral : request.Neutral) (answer : Call.Answer request) :
    stage.advance request answer = stage := by
  rcases Stage.advance_neutral neutral answer with same | same
  · exact same
  · rw [same, sturdy]

/-- The stages of the processes a session forks. -/
def Stage.child : Stage → Bool
  | .gpgChild => true
  | .watcher _ => true
  | .strayed => true
  | _ => false

/-- `calloc` leaves the state as it is. -/
theorem effect_calloc {ok : Bool} (taken : effect .calloc ok s = some s') : s' = s := by
  simpa [effect, eq_comm] using taken

/-- A pointer is read as it is, and the state stays. -/
theorem effect_readString {present read : Bool}
    (taken : effect (.readString present) read s = some s') : read = present ∧ s' = s := by
  simp only [effect, Option.ite_none_right_eq_some, Option.some.injEq] at taken
  exact ⟨taken.1, taken.2.symm⟩

/-- After a request for memory that is not checked the stage is the one before, or the next step is
the last. -/
theorem Stage.given_eq (stage : Stage) (ok : Bool) :
    stage.given ok = stage ∨ stage.given ok = .broken := by
  cases ok with
  | true => exact .inl rfl
  | false =>
    unfold Stage.given
    cases stage.ready with
    | none => exact .inl rfl
    | some source => exact .inr rfl

/-- After a string is read it is the one before, or the next step is the last. -/
theorem Stage.dereferenced_eq (stage : Stage) (present : Bool) :
    stage.dereferenced present = stage ∨ stage.dereferenced present = .broken := by
  cases stage with
  | dumping source created written =>
    cases present with
    | true => exact .inl rfl
    | false => exact .inr rfl
  | _ => exact Stage.given_eq _ present

/-- A string that is there is read without more ado. -/
theorem Stage.dereferenced_true (stage : Stage) : stage.dereferenced true = stage := by
  cases stage <;> rfl

/-- Where passwords are generated, a string that is missing is the end. -/
theorem Stage.dereferenced_of_ready {stage : Stage} {source : Option Bytes}
    (ready : stage.ready = some source) : stage.dereferenced false = .broken := by
  cases stage with
  | dumping source created written => cases ready
  | _ => simp [Stage.dereferenced, Stage.given, ready]

/-- `stat` answers what is there. -/
theorem effect_stat {path : Path} {answer : Lookup}
    (taken : effect (.stat path) answer s = some s') :
    s' = s ∧ (answer = .found → (s.files.entry path).isSome) ∧
      (answer = .enoent → s.files.entry path = none) := by
  cases answer with
  | found =>
    simp only [effect, Option.ite_none_right_eq_some, Option.some.injEq] at taken
    exact ⟨taken.2.symm, fun _ => taken.1, by simp⟩
  | enoent =>
    simp only [effect, Option.ite_none_right_eq_some, Option.some.injEq] at taken
    exact ⟨taken.2.symm, by simp, fun _ => taken.1⟩
  | failed => exact ⟨by simpa [effect, eq_comm] using taken, by simp, by simp⟩

/-- `unlink` removes a name. -/
theorem effect_unlink {path : Path} {answer : Removal}
    (taken : effect (.unlink path) answer s = some s') :
    (answer = .removed ∧ s' = s.setFiles (s.files.erase path)) ∨
      (answer = .enoent ∧ s.files.entry path = none ∧ s' = s) ∨ (answer = .failed ∧ s' = s) := by
  cases answer with
  | removed =>
    simp only [effect, Option.ite_none_right_eq_some, Option.some.injEq] at taken
    exact .inl ⟨rfl, taken.2.symm⟩
  | enoent =>
    simp only [effect, Option.ite_none_right_eq_some, Option.some.injEq] at taken
    exact .inr (.inl ⟨rfl, taken.1, taken.2.symm⟩)
  | failed => exact .inr (.inr ⟨rfl, by simpa [effect, eq_comm] using taken⟩)

/-- `link` gives a file a name that was free. -/
theorem effect_link {old new : Path} {ok : Bool} (taken : effect (.link old new) ok s = some s') :
    (ok = true ∧ (s.files.entry old).isSome ∧ s.files.entry new = none ∧
      s' = s.setFiles (s.files.hardLink old new)) ∨ (ok = false ∧ s' = s) := by
  cases ok with
  | true =>
    simp only [effect, Option.ite_none_right_eq_some, Option.some.injEq] at taken
    exact .inl ⟨rfl, taken.1.1, taken.1.2, taken.2.symm⟩
  | false => exact .inr ⟨rfl, by simpa [effect, eq_comm] using taken⟩

/-- `chmod` changes the mode of the file it is given. -/
theorem effect_chmod {path : Path} {mode : Nat} {ok : Bool}
    (taken : effect (.chmod path mode) ok s = some s') :
    (ok = true ∧ ∃ inode, s.files.entry path = some inode ∧
      s' = s.setFiles (s.files.modify inode (Node.setMode mode))) ∨ (ok = false ∧ s' = s) := by
  cases ok with
  | true =>
    simp only [effect, Option.map_eq_some_iff] at taken
    obtain ⟨inode, bound, rfl⟩ := taken
    exact .inl ⟨rfl, inode, bound, rfl⟩
  | false => exact .inr ⟨rfl, by simpa [effect, eq_comm] using taken⟩

/-- `mkstemp` makes a new file under a name that was free. -/
theorem effect_mkstemp {answer : Option Created}
    (taken : effect .mkstemp answer s = some s') :
    (answer = none ∧ s' = s) ∨ ∃ created, answer = some created ∧
      s.globals.editorTmpPath = some .template ∧ s.files.entry (.tmp created.suffix) = none ∧
      created.fd = s.files.fresh ∧
      s' = ⟨s.files.create (.tmp created.suffix) ⟨[], 0o600⟩,
        { s.globals with editorTmpPath := some (.tmp created.suffix) }⟩ := by
  cases answer with
  | none => exact .inl ⟨rfl, by simpa [effect, eq_comm] using taken⟩
  | some created =>
    simp only [effect, Option.ite_none_right_eq_some, Option.some.injEq] at taken
    exact .inr ⟨created, rfl, taken.1.1, taken.1.2.1, taken.1.2.2, taken.2.symm⟩

/-- `write` appends some of the bytes to the file it is given. -/
theorem effect_write {fd : Nat} {bytes : Bytes} {answer : Option Nat}
    (taken : effect (.write fd bytes) answer s = some s') :
    (answer = none ∧ s' = s) ∨ ∃ count, answer = some count ∧ count ≤ bytes.length ∧
      s' = s.setFiles (s.files.modify fd (Node.mapBytes fun held => held ++ bytes.take count)) := by
  cases answer with
  | none => exact .inl ⟨rfl, by simpa [effect, eq_comm] using taken⟩
  | some count =>
    simp only [effect, Option.ite_none_right_eq_some, Option.some.injEq] at taken
    exact .inr ⟨count, rfl, taken.1, taken.2.symm⟩

/-- The editor does one of four things to its file. -/
theorem effect_edit {editor : Bytes} {path : Path} {answer : EditorExit}
    (taken : effect (.system (.edit editor path)) answer s = some s') :
    -1 ≤ answer.status ∧ ∃ files, answer.left.apply path s.files = some files ∧
      s' = s.setFiles files := by
  simp only [effect, Option.ite_none_right_eq_some, Option.map_eq_some_iff] at taken
  obtain ⟨bound, files, applied, rfl⟩ := taken
  exact ⟨bound, files, applied, rfl⟩

/-- `gpg -e` creates its output under a name that was free. -/
theorem effect_encrypt {gpgPath : Bytes} {keyId : Option Bytes} {path : Path}
    {answer : EncryptExit}
    (taken : effect (.system (.encrypt gpgPath keyId path)) answer s = some s') :
    (answer.wrote = none ∧ s' = s) ∨ ∃ node, answer.wrote = some node ∧
      s.files.entry (.gpg path) = none ∧ s' = s.setFiles (s.files.create (.gpg path) node) := by
  simp only [effect, Option.ite_none_right_eq_some] at taken
  obtain ⟨_, taken⟩ := taken
  split at taken
  · rename_i nothing
    exact .inl ⟨nothing, by simpa [eq_comm] using taken⟩
  · rename_i node wrote
    simp only [Option.ite_none_right_eq_some, Option.some.injEq] at taken
    exact .inr ⟨node, wrote, taken.1, taken.2.symm⟩

/-- `fopen` for reading finds the file of a name. -/
theorem effect_fopenRead {path : Path} {answer : Option Nat}
    (taken : effect (.fopenRead path) answer s = some s') :
    s' = s ∧ ∀ inode, answer = some inode → s.files.entry path = some inode := by
  cases answer with
  | none => exact ⟨by simpa [effect, eq_comm] using taken, by simp⟩
  | some inode =>
    simp only [effect, Option.ite_none_right_eq_some, Option.some.injEq] at taken
    exact ⟨taken.2.symm, fun _ same => by rw [taken.1, same]⟩

/-- `fopen` for writing empties a file or creates it. -/
theorem effect_fopenWrite {path : Path} {answer : Option Nat}
    (taken : effect (.fopenWrite path) answer s = some s') :
    (answer = none ∧ s' = s) ∨ (∃ inode, answer = some inode ∧ s.files.entry path = some inode ∧
      s' = s.setFiles (s.files.modify inode (Node.mapBytes fun _ => []))) ∨
      (answer = some s.files.fresh ∧ s.files.entry path = none ∧
        s' = s.setFiles (s.files.create path ⟨[], 0o644⟩)) := by
  cases answer with
  | none => exact .inl ⟨rfl, by simpa [effect, eq_comm] using taken⟩
  | some stream =>
    simp only [effect] at taken
    split at taken
    · rename_i inode bound
      simp only [Option.ite_none_right_eq_some, Option.some.injEq] at taken
      exact .inr (.inl ⟨inode, by rw [taken.1], bound, taken.2.symm⟩)
    · rename_i free
      simp only [Option.ite_none_right_eq_some, Option.some.injEq] at taken
      exact .inr (.inr ⟨by rw [taken.1], free, taken.2.symm⟩)

/-- `fprintf` appends to the file of its stream. -/
theorem effect_fprintf {stream : Nat} {bytes : Bytes} {ok : Bool}
    (taken : effect (.fprintf stream bytes) ok s = some s') :
    (ok = true ∧ s' = s.setFiles
      (s.files.modify stream (Node.mapBytes fun held => held ++ bytes))) ∨
      (ok = false ∧ s' = s) := by
  cases ok with
  | true => exact .inl ⟨rfl, by simpa [effect, eq_comm] using taken⟩
  | false => exact .inr ⟨rfl, by simpa [effect, eq_comm] using taken⟩

/-- Reading leaves the state as it is, and a file gives a prefix of what it holds. -/
theorem effect_fgets {stream : Stream} {bytes : Bytes}
    (taken : effect (.fgets stream) bytes s = some s') :
    s' = s ∧ ∀ inode, stream = .file inode → bytes <+: (s.files.node inode).bytes := by
  cases stream with
  | pipe => exact ⟨by simpa [effect, eq_comm] using taken, by simp⟩
  | file inode =>
    simp only [effect, Option.ite_none_right_eq_some, Option.some.injEq] at taken
    refine ⟨taken.2.symm, fun other same => ?_⟩
    cases same
    exact taken.1

/-- `atexit` registers the handler. -/
theorem effect_atexit {ok : Bool} (taken : effect .atexit ok s = some s') :
    (ok = true ∧ s' = s.setGlobals { s.globals with atexit := true }) ∨ (ok = false ∧ s' = s) := by
  cases ok with
  | true => exact .inl ⟨rfl, by simpa [effect, eq_comm] using taken⟩
  | false => exact .inr ⟨rfl, by simpa [effect, eq_comm] using taken⟩

/-- `exit` takes the handler off its list if it is on it. -/
theorem effect_nextHandler {registered : Bool}
    (taken : effect .nextHandler registered s = some s') :
    registered = s.globals.atexit ∧ s' = s.setGlobals { s.globals with atexit := false } := by
  simp only [effect, Option.ite_none_right_eq_some, Option.some.injEq] at taken
  exact ⟨taken.1, taken.2.symm⟩

/-- `signal` sets what `SIGINT` does. -/
theorem effect_signal_int {disposition : Disposition} {answer : Unit}
    (taken : effect (.signal .int disposition) answer s = some s') :
    s' = s.setGlobals { s.globals with sigint := disposition } := by
  simpa [effect, eq_comm] using taken

/-- `editor_tmp_path` is what the state says. -/
theorem effect_editorTmpPath {path : Option Path}
    (taken : effect .editorTmpPath path s = some s') :
    path = s.globals.editorTmpPath ∧ s' = s := by
  simp only [effect, Option.ite_none_right_eq_some, Option.some.injEq] at taken
  exact ⟨taken.1, taken.2.symm⟩

/-- The calls about other processes leave the state as it is. -/
theorem effect_waitpid {pid : Nat} {answer : Wait}
    (taken : effect (.waitpid pid) answer s = some s') : s' = s := by
  simpa [effect, eq_comm] using taken

/-- Signals to other processes change nothing here. -/
theorem effect_kill {pid : Nat} {signal : Signal} {answer : Killed}
    (taken : effect (.kill pid signal) answer s = some s') : s' = s := by
  simpa [effect, eq_comm] using taken

/-- A stream of a descriptor changes nothing here. -/
theorem effect_fdopen {fd : Nat} {ok : Bool} (taken : effect (.fdopen fd) ok s = some s') :
    s' = s := by
  simpa [effect, eq_comm] using taken

/-- What is executed, or not, changes nothing here. -/
theorem effect_execlp {file : Bytes} {path : Path} {ok : Bool}
    (taken : effect (.execlp file path) ok s = some s') : s' = s := by
  simpa [effect, eq_comm] using taken

/-- A message changes nothing here. -/
theorem effect_print {text : String} {answer : Unit}
    (taken : effect (.print text) answer s = some s') : s' = s := by
  simpa [effect, eq_comm] using taken

/-- `fork` returns to the process whose run is followed. -/
theorem effect_fork {answer : Fork} (taken : effect .fork answer s = some s') :
    s' = s ∧ answer ≠ .child := by
  cases answer with
  | child => simp [effect] at taken
  | failed => exact ⟨by simpa [effect, eq_comm] using taken, by simp⟩
  | parent pid => exact ⟨by simpa [effect, eq_comm] using taken, by simp⟩

/-- The calls that change the globals of the process. -/
def Call.setsGlobals : Call → Bool
  | .mkstemp => true
  | .signal .int _ => true
  | .atexit => true
  | .nextHandler => true
  | .sigreturn => true
  | _ => false

/-- The other calls keep the globals. -/
theorem effect_globals_kept {request : Call} {answer : Call.Answer request}
    (other : request.setsGlobals = false) (taken : effect request answer s = some s') :
    s'.globals = s.globals := by
  have unchanged : some s = some s' → s'.globals = s.globals := by
    intro same
    rw [Option.some.inj same]
  cases request with
  | system command =>
    cases command with
    | edit editor path =>
      obtain ⟨_, files, _, rfl⟩ := effect_edit taken
      rfl
    | encrypt gpgPath keyId path =>
      rcases effect_encrypt taken with ⟨_, rfl⟩ | ⟨node, _, _, rfl⟩ <;> rfl
    | version gpgPath => exact unchanged taken
    | listSecretKeys gpgPath => exact unchanged taken
  | stat path => rw [(effect_stat taken).1]
  | unlink path => rcases effect_unlink taken with ⟨_, rfl⟩ | ⟨_, _, rfl⟩ | ⟨_, rfl⟩ <;> rfl
  | link old new => rcases effect_link taken with ⟨_, _, _, rfl⟩ | ⟨_, rfl⟩ <;> rfl
  | chmod path mode => rcases effect_chmod taken with ⟨_, inode, _, rfl⟩ | ⟨_, rfl⟩ <;> rfl
  | write fd bytes => rcases effect_write taken with ⟨_, rfl⟩ | ⟨count, _, _, rfl⟩ <;> rfl
  | fopenWrite path =>
    rcases effect_fopenWrite taken with ⟨_, rfl⟩ | ⟨inode, _, _, rfl⟩ | ⟨_, _, rfl⟩ <;> rfl
  | fprintf stream bytes => rcases effect_fprintf taken with ⟨_, rfl⟩ | ⟨_, rfl⟩ <;> rfl
  | fopenRead path => rw [(effect_fopenRead taken).1]
  | fgets stream => rw [(effect_fgets taken).1]
  | fork => rw [(effect_fork taken).1]
  | signal signal disposition =>
    cases signal with
    | int => cases other
    | zero => exact unchanged taken
    | kill => exact unchanged taken
  | editorTmpPath => rw [(effect_editorTmpPath taken).2]
  | arc4randomUniform bound =>
    have neutral : Call.Neutral (.arc4randomUniform bound) := trivial
    rw [effect_neutral neutral taken]
  | readString present => rw [(effect_readString taken).2]
  | _ => first | exact unchanged taken | cases other

/-- `sigreturn` unblocks `SIGINT`. -/
theorem effect_sigreturn {answer : Unit} (taken : effect .sigreturn answer s = some s') :
    s' = s.setGlobals { s.globals with masked := false } := by
  simpa [effect, eq_comm] using taken

/-- What a call can change of the globals. -/
theorem effect_globals {request : Call} {answer : Call.Answer request}
    (taken : effect request answer s = some s') :
    (s'.globals.editorTmpPath = s.globals.editorTmpPath ∨ request = .mkstemp) ∧
      (s'.globals.masked = s.globals.masked ∨ request = .sigreturn) ∧
      (s'.globals.atexit = s.globals.atexit ∨ request = .atexit ∨ request = .nextHandler) := by
  cases sets : request.setsGlobals with
  | false =>
    rw [effect_globals_kept sets taken]
    exact ⟨.inl rfl, .inl rfl, .inl rfl⟩
  | true =>
    cases request with
    | mkstemp =>
      rcases effect_mkstemp taken with ⟨_, rfl⟩ | ⟨created, _, _, _, _, rfl⟩ <;>
        exact ⟨.inr rfl, .inl rfl, .inl rfl⟩
    | signal signal disposition =>
      cases signal with
      | int =>
        rw [effect_signal_int taken]
        exact ⟨.inl rfl, .inl rfl, .inl rfl⟩
      | zero => cases sets
      | kill => cases sets
    | atexit =>
      rcases effect_atexit taken with ⟨_, rfl⟩ | ⟨_, rfl⟩ <;>
        exact ⟨.inl rfl, .inl rfl, .inr (.inl rfl)⟩
    | nextHandler =>
      rw [(effect_nextHandler taken).2]
      exact ⟨.inl rfl, .inl rfl, .inr (.inr rfl)⟩
    | sigreturn =>
      rw [effect_sigreturn taken]
      exact ⟨.inl rfl, .inr rfl, .inl rfl⟩
    | _ => cases sets

/-- `mkstemp` is the only call that changes `editor_tmp_path`. -/
theorem effect_editorTmpPath_kept {request : Call} {answer : Call.Answer request}
    (other : request ≠ .mkstemp) (taken : effect request answer s = some s') :
    s'.globals.editorTmpPath = s.globals.editorTmpPath :=
  (effect_globals taken).1.resolve_right other

/-- `sigreturn` is the only call that unblocks `SIGINT`. -/
theorem effect_masked_kept {request : Call} {answer : Call.Answer request}
    (other : request ≠ .sigreturn) (taken : effect request answer s = some s') :
    s'.globals.masked = s.globals.masked :=
  (effect_globals taken).2.1.resolve_right other

/-- Only `atexit` and `exit` change what is registered. -/
theorem effect_atexit_kept {request : Call} {answer : Call.Answer request}
    (other : request ≠ .atexit) (last : request ≠ .nextHandler)
    (taken : effect request answer s = some s') : s'.globals.atexit = s.globals.atexit :=
  (effect_globals taken).2.2.resolve_right fun changed => changed.elim other last

/-- A failed call does not make a child of another process. -/
theorem Stage.child_failed {stage : Stage} (parent : stage.child = false) :
    stage.failed.child = false := by
  cases stage <;> first | rfl | exact parent

/-- Only `fork` makes a child. -/
theorem Stage.child_advance {stage : Stage} {request : Call} {answer : Call.Answer request}
    (parent : stage.child = false) (taken : effect request answer s = some s') :
    (stage.advance request answer).child = false := by
  have failed := Stage.child_failed parent
  unfold Stage.advance
  split
  · split <;> assumption
  · split <;> assumption
  · split <;> assumption
  · split <;> assumption
  · split <;> assumption
  · rename_i ok
    rcases stage.given_eq ok with same | same
    · rw [same]
      exact parent
    · rw [same]
      rfl
  · rename_i read
    rcases stage.dereferenced_eq read with same | same
    · rw [same]
      exact parent
    · rw [same]
      rfl
  · unfold Stage.looked; split <;> first | rfl | exact parent
  · unfold Stage.unlinked; split <;> first | rfl | exact parent
  · unfold Stage.linked; split <;> first | rfl | exact parent
  · unfold Stage.restricted; split <;> first | rfl | exact parent
  · unfold Stage.created
    split
    · exact parent
    · split <;> first | rfl | exact parent
  · unfold Stage.wrote; split <;> first | rfl | exact parent
  · unfold Stage.edit; split <;> first | rfl | exact parent
  · unfold Stage.encrypt; split <;> first | rfl | exact parent
  · unfold Stage.reopened; split <;> first | rfl | exact parent
  · unfold Stage.opened; split <;> first | rfl | exact parent
  · unfold Stage.drained; split <;> first | rfl | exact parent
  · unfold Stage.reaped; split <;> first | rfl | exact parent
  · have other := (effect_fork taken).2
    unfold Stage.forks
    split <;> first | rfl | exact parent | exact absurd rfl other
  · unfold Stage.adopted; split <;> first | rfl | exact parent
  · unfold Stage.killed; split <;> first | rfl | exact parent
  · unfold Stage.registered; split <;> first | rfl | exact parent
  · unfold Stage.printed
    split
    · split <;> rfl
    · exact parent
  · unfold Stage.exiting; split <;> first | rfl | exact parent
  · unfold Stage.named; split <;> first | rfl | exact parent
  · exact parent

/-- A stage of the process itself is no stage of a child in which something has failed. -/
theorem Stage.ne_strayed {stage : Stage} (parent : stage.child = false) : stage ≠ .strayed := by
  rintro rfl
  exact absurd parent (by decide)

/-- The editor binds and removes no other name. -/
theorem Edited.apply_entry {left : Edited} {path other : Path} {files files' : Files}
    (applied : left.apply path files = some files') (different : other ≠ path) :
    files'.entry other = files.entry other := by
  cases left with
  | untouched =>
    simp only [apply, Option.some.injEq] at applied
    rw [← applied]
  | removed =>
    simp only [apply, Option.ite_none_right_eq_some, Option.some.injEq] at applied
    rw [← applied.2]
    exact Directory.erase_entry_other files different
  | rewritten bytes =>
    simp only [apply, Option.map_eq_some_iff] at applied
    obtain ⟨inode, _, rfl⟩ := applied
    rfl
  | replaced node =>
    simp only [apply, Option.some.injEq] at applied
    rw [← applied]
    exact Directory.create_entry_other files node different

/-- The editor touches no other name, and no file that has another name. -/
theorem Edited.apply_other {left : Edited} {path other : Path} {files files' : Files}
    (applied : left.apply path files = some files') (different : other ≠ path)
    (apart : ∀ inode, files.entry path = some inode → files.entry other ≠ some inode) :
    files'.entry other = files.entry other ∧ files'.read other = files.read other := by
  cases left with
  | untouched =>
    simp only [apply, Option.some.injEq] at applied
    rw [← applied]
    exact ⟨rfl, rfl⟩
  | removed =>
    simp only [apply, Option.ite_none_right_eq_some, Option.some.injEq] at applied
    rw [← applied.2]
    exact ⟨by simp [different], by simp [different]⟩
  | rewritten bytes =>
    simp only [apply, Option.map_eq_some_iff] at applied
    obtain ⟨inode, bound, rfl⟩ := applied
    exact ⟨rfl, Directory.modify_read_other files _ (apart inode bound)⟩
  | replaced node =>
    simp only [apply, Option.some.injEq] at applied
    rw [← applied]
    exact ⟨by simp [different], by simp [different]⟩

end Mdp
