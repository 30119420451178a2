import Mdp.Frame
import Mdp.Messages

/-!
# Which calls the functions make

The quiet calls are what messages, memory, checks and the wait for gpg need. A process that makes
only its own calls does not fork, edits only temporary files, encrypts for one key, and gives new
names to files only where the lock or the passwords are. Every function keeps to its own calls,
except the two that fork.

Most functions do even less: they neither touch a pipe or a descriptor nor wait for a process nor
send a signal.
-/

namespace Mdp

open Interaction CStrings

/-- The calls of messages, memory, checks and the wait for gpg. -/
def Call.Quiet : Call → Prop
  | .allocate => True
  | .strftime => True
  | .getpid => True
  | .print _ => True
  | .fclose _ => True
  | .waitpid _ => True
  | .kill _ _ => True
  | .system (.version _) => True
  | .system (.listSecretKeys _) => True
  | _ => False

/-- The calls of a process that stays alone and encrypts for this key. -/
def Call.Own (key : Option Bytes) : Call → Prop
  | .fork => False
  | .fopenWrite path => path = .lock
  | .link _ new => new.holdsPasswords = true
  | .system (.edit _ path) => path.temporary = true
  | .system (.encrypt _ keyId _) => keyId = key
  | _ => True

/-- The own calls that have to do with no pipe, no descriptor and no other process. -/
def Call.Plain (key : Option Bytes) : Call → Prop
  | .pipe => False
  | .dup2 _ _ => False
  | .fdopen _ => False
  | .close _ => False
  | .fgets .pipe => False
  | .fclose .pipe => False
  | .execlp _ _ => False
  | .waitpid _ => False
  | .kill _ _ => False
  | request => request.Own key

/-- With these a process also closes descriptors. -/
def Call.Closing (key : Option Bytes) : Call → Prop
  | .close _ => True
  | request => request.Plain key

/-- A quiet call is one of the process's own. -/
theorem Call.Quiet.own {key : Option Bytes} (request : Call) (quiet : request.Quiet) :
    request.Own key := by
  cases request with
  | system command => cases command <;> first | exact trivial | exact quiet.elim
  | _ => first | exact trivial | exact quiet.elim

/-- Messages are quiet. -/
theorem Call.Message.quiet {request : Call} (message : request.Message) : request.Quiet := by
  cases request <;> first | exact trivial | exact message.elim

/-- Messages have to do with no pipe, no descriptor and no other process. -/
theorem Call.Message.plain {key : Option Bytes} (request : Call) (message : request.Message) :
    request.Plain key := by
  cases request <;> first | exact trivial | exact message.elim

/-- A plain call is one of the process's own. -/
theorem Call.Plain.own {key : Option Bytes} {request : Call} (plain : request.Plain key) :
    request.Own key := by
  cases request with
  | fgets stream => trivial
  | fclose stream => trivial
  | _ => first | exact plain | exact plain.elim

/-- A plain call may stand where descriptors are closed. -/
theorem Call.Plain.closing {key : Option Bytes} {request : Call} (plain : request.Plain key) :
    request.Closing key := by
  cases request with
  | close fd => trivial
  | _ => exact plain

/-- Where descriptors are closed, a call is plain or closes one. -/
theorem Call.Closing.plain_or_close {key : Option Bytes} {request : Call}
    (closing : request.Closing key) : request.Plain key ∨ ∃ fd, request = .close fd := by
  cases request with
  | close fd => exact .inr ⟨fd, rfl⟩
  | _ => exact .inl closing

/-- A plain call, or one that closes a descriptor, is one of the process's own. -/
theorem Call.Closing.own {key : Option Bytes} {request : Call} (closing : request.Closing key) :
    request.Own key := by
  rcases closing.plain_or_close with plain | ⟨fd, rfl⟩
  · exact plain.own
  · trivial

section Checks

variable {P : Call → Prop} (messages : ∀ request : Call, request.Message → P request) {cfg : Config}
include messages

/-- `gpg_check` runs two commands. -/
theorem checks_gpgCheck (versions : ∀ gpgPath, P (.system (.version gpgPath)))
    (lists : ∀ gpgPath, P (.system (.listSecretKeys gpgPath))) : (gpgCheck cfg).Uses P := by
  refine (messages_xasprintf messages).bind fun _ => ⟨versions _, fun _ => ?_⟩
  refine uses_require.bind fun _ => (messages_xasprintf messages).bind fun _ => ?_
  exact ⟨lists _, fun _ => uses_require.bind fun _ => uses_require⟩

/-- A profile is copied into new memory. -/
theorem messages_addProfile {opts : AddOptions} : (addProfile opts).Uses P := by
  unfold addProfile
  split
  · exact (messages_xmalloc messages).bind fun _ =>
      ⟨messages .allocate trivial, fun _ => ⟨messages .allocate trivial, fun _ => trivial⟩⟩
  · split <;> trivial

end Checks

section Quiet

variable {P : Call → Prop} (quiet : ∀ request : Call, request.Quiet → P request) {cfg : Config}
include quiet

/-- `xmalloc` makes quiet calls only. -/
theorem uses_xmalloc : xmalloc.Uses P := messages_xmalloc fun _ message => quiet _ message.quiet

/-- `xasprintf` makes quiet calls only. -/
theorem uses_xasprintf : xasprintf.Uses P :=
  messages_xasprintf fun _ message => quiet _ message.quiet

/-- `debug` makes quiet calls only. -/
theorem uses_debug {fmt : String} : (debug cfg fmt).Uses P :=
  messages_debug fun _ message => quiet _ message.quiet

/-- `ARRAY_ADD` makes quiet calls only. -/
theorem uses_arrayAdd {num : Nat} : (arrayAdd num).Uses P :=
  messages_arrayAdd fun _ message => quiet _ message.quiet

/-- `gpg_check` makes quiet calls only. -/
theorem uses_gpgCheck : (gpgCheck cfg).Uses P :=
  checks_gpgCheck (fun _ message => quiet _ message.quiet) (fun _ => quiet _ trivial)
    fun _ => quiet _ trivial

/-- The warning about an over-long line is made of quiet calls. -/
theorem uses_warnUnlessNewline {line : Bytes} : (warnUnlessNewline line).Uses P :=
  messages_warnUnlessNewline fun _ message => quiet _ message.quiet

/-- Looking up the profile takes quiet calls only. -/
theorem uses_addProfile {opts : AddOptions} : (addProfile opts).Uses P :=
  messages_addProfile fun _ message => quiet _ message.quiet

/-- `gpg_close` makes quiet calls only. -/
theorem uses_gpgClose {opened : GpgOpen} : (gpgClose cfg opened).Uses P := by
  refine (uses_debug quiet).bind fun _ => ⟨quiet (.fclose _) trivial, fun closed => ?_⟩
  refine uses_require.bind fun _ => ⟨quiet (.waitpid _) trivial, fun wait => ?_⟩
  cases wait with
  | signaled => trivial
  | failed signaled => cases signaled <;> trivial
  | exited retcode =>
    have cancelled : (cancelPidTimeout cfg opened.watcherPid).Uses P := by
      refine (uses_debug quiet).bind fun _ => ⟨quiet (.kill _ _) trivial, fun killed => ?_⟩
      cases killed <;> trivial
    exact (uses_debug quiet).bind fun _ => cancelled.bind fun _ => trivial

end Quiet

variable {cfg : Config} {L : CLocale} {key : Option Bytes}

/-- `debug` makes plain calls only. -/
theorem plain_debug {fmt : String} : (debug cfg fmt).Uses (Call.Plain key) :=
  messages_debug Call.Message.plain

/-- `file_exists` makes plain calls only. -/
theorem plain_fileExists {path : Path} : (fileExists path).Uses (Call.Plain key) := by
  refine ⟨trivial, fun lookup => ?_⟩
  cases lookup <;> trivial

/-- `file_exists` makes the process's own calls only. -/
theorem uses_fileExists {path : Path} : (fileExists path).Uses (Call.Own key) :=
  plain_fileExists.mono fun _ plain => plain.own

/-- The loop of `load_results_fp` makes plain calls only. -/
theorem plain_loadResultsLoop {memory : Memory} {ctx : CksumCtx} {pieces : List Bytes} :
    (loadResultsLoop L memory ctx pieces).Uses (Call.Plain key) := by
  induction pieces generalizing memory ctx with
  | nil => trivial
  | cons line rest ih =>
    refine (messages_warnUnlessNewline Call.Message.plain).bind fun _ => ?_
    refine (messages_xmalloc Call.Message.plain).bind fun _ => ?_
    cases loadLine L memory line with
    | none => trivial
    | some next =>
      exact (messages_xmalloc Call.Message.plain).bind fun _ =>
        (messages_arrayAdd Call.Message.plain).bind fun _ => ih

/-- `load_results_fp` makes the process's own calls only. -/
theorem uses_loadResultsFp {memory : Memory} {fp : Option Stream} :
    (loadResultsFp L memory fp).Uses (Call.Own key) := by
  cases fp with
  | none => exact plain_loadResultsLoop.mono fun _ plain => plain.own
  | some stream => exact ⟨trivial, fun _ => plain_loadResultsLoop.mono fun _ plain => plain.own⟩

/-- The weights of one character are drawn with plain calls. -/
theorem plain_drawWeights (left : Nat) : (drawWeights left).Uses (Call.Plain key) := by
  induction left with
  | zero => trivial
  | succ left ih => exact ⟨trivial, fun _ => ih.bind fun _ => trivial⟩

/-- The characters of a password are drawn with plain calls. -/
theorem plain_drawCharacters {set : List WChar} (left : Nat) :
    (drawCharacters set left).Uses (Call.Plain key) := by
  induction left with
  | zero => trivial
  | succ left ih => exact (plain_drawWeights _).bind fun _ => ih.bind fun _ => trivial

/-- `profile_generate_password` makes plain calls only. -/
theorem plain_profileGeneratePassword {opts : AddOptions} {profile : Profile} :
    (profileGeneratePassword opts profile).Uses (Call.Plain key) := by
  have fromSet : ∀ length set, (generatePasswordFromSet length set).Uses (Call.Plain key) := by
    intro length set
    refine (uses_readString trivial).bind fun _ => ?_
    split
    · trivial
    · refine uses_require.bind fun _ => ⟨trivial, fun _ => uses_require.bind fun _ => ?_⟩
      exact (plain_drawCharacters _).bind fun _ => trivial
  refine uses_require.bind fun _ => ⟨trivial, fun _ => uses_require.bind fun _ => ?_⟩
  refine (fromSet _ _).bind fun password => ?_
  cases password <;> trivial

/-- The line of a password is made with plain calls. -/
theorem plain_passwordLine {opts : AddOptions} {password : List WChar} :
    (passwordLine opts password).Uses (Call.Plain key) := by
  unfold passwordLine
  split
  · trivial
  · refine ⟨trivial, fun given => ?_⟩
    cases given with
    | true => exact ⟨trivial, fun _ => uses_require.bind fun _ => trivial⟩
    | false => trivial

/-- `profile_passwords_to_results` makes plain calls only. -/
theorem plain_profilePasswordsToResults {opts : AddOptions} {profile : Profile} {memory : Memory} :
    (profilePasswordsToResults L opts profile memory).Uses (Call.Plain key) := by
  unfold profilePasswordsToResults
  induction (profileGetPasswordCount opts profile).toNat generalizing memory with
  | zero => trivial
  | succ left ih =>
    refine plain_profileGeneratePassword.bind fun _ => plain_passwordLine.bind fun line => ?_
    refine (messages_xmalloc Call.Message.plain).bind fun _ => ?_
    cases resultNew L (upToNul line) with
    | none => trivial
    | some result =>
      exact (messages_xmalloc Call.Message.plain).bind fun _ =>
        (messages_arrayAdd Call.Message.plain).bind fun _ => ih

/-- `profile_passwords_to_results` makes the process's own calls only. -/
theorem uses_profilePasswordsToResults {opts : AddOptions} {profile : Profile} {memory : Memory} :
    (profilePasswordsToResults L opts profile memory).Uses (Call.Own key) :=
  plain_profilePasswordsToResults.mono fun _ plain => plain.own

/-- The backup is made with plain calls. -/
theorem plain_backupPrevious : (backupPrevious cfg).Uses (Call.Plain key) := by
  refine plain_debug.bind fun _ => ⟨trivial, fun _ => uses_require.bind fun _ => ?_⟩
  exact ⟨rfl, fun _ => uses_require⟩

/-- The password file is unlinked with plain calls. -/
theorem plain_unlinkPrevious : (unlinkPrevious cfg).Uses (Call.Plain key) := by
  have removal : ((ask (.unlink .passwordFile)).bind fun previous =>
      require (previous == .removed) "gpg_encrypt unlink(cfg_password_file)").Uses
          (Call.Plain key) :=
    ⟨trivial, fun _ => uses_require⟩
  unfold unlinkPrevious
  cases cfg.backup with
  | true => exact plain_backupPrevious.bind fun _ => removal
  | false => exact removal

/-- The encrypted file is moved into place with plain calls. -/
theorem plain_moveEncrypted {path : Path} : (moveEncrypted path).Uses (Call.Plain key) := by
  refine (messages_xasprintf Call.Message.plain).bind fun _ => ⟨rfl, fun _ => ?_⟩
  refine uses_require.bind fun _ => ⟨trivial, fun _ => ?_⟩
  exact uses_require.bind fun _ => ⟨trivial, fun _ => uses_require⟩

/-- `gpg_encrypt` makes plain calls only. -/
theorem plain_gpgEncrypt {path : Path} : (gpgEncrypt cfg path).Uses (Call.Plain cfg.gpgKeyId) := by
  refine (messages_xasprintf Call.Message.plain).bind fun _ => plain_debug.bind fun _ => ?_
  refine ⟨rfl, fun _ => uses_require.bind fun _ => ?_⟩
  refine (messages_xasprintf Call.Message.plain).bind fun _ => plain_fileExists.bind fun found => ?_
  cases found with
  | true => exact plain_unlinkPrevious.bind fun _ => plain_moveEncrypted
  | false => exact plain_moveEncrypted

/-- Every gpg command that `gpg_encrypt` runs names `cfg_gpg_key_id`. -/
theorem uses_gpgEncrypt {path : Path} : (gpgEncrypt cfg path).Uses (Call.Own cfg.gpgKeyId) :=
  plain_gpgEncrypt.mono fun _ plain => plain.own

/-- The results are written with plain calls. -/
theorem plain_dumpResults {fd : Nat} (results : List Result) :
    (dumpResults fd results).Uses (Call.Plain key) := by
  induction results with
  | nil => trivial
  | cons result rest ih =>
    refine ⟨trivial, fun _ => uses_require.bind fun _ => ⟨trivial, fun _ => ?_⟩⟩
    exact uses_require.bind fun _ => ih

/-- `spawn_editor` on a temporary file makes plain calls only. -/
theorem plain_spawnEditor {path : Path} (temporary : path.temporary = true) :
    (spawnEditor cfg path).Uses (Call.Plain key) := by
  refine (uses_readString trivial).bind fun _ => ?_
  refine (messages_editorCommand Call.Message.plain).bind fun _ => ?_
  refine (messages_xasprintf Call.Message.plain).bind fun _ => ?_
  refine plain_debug.bind fun _ => ⟨temporary, fun _ => ?_⟩
  exact uses_require.bind fun _ => uses_require.bind fun _ => uses_require

/-- `has_changed` makes plain calls only. -/
theorem plain_hasChanged {memory : Memory} {path : Path} :
    (hasChanged L memory path).Uses (Call.Plain key) := by
  refine ⟨trivial, fun fp => ?_⟩
  cases fp with
  | none => exact plain_loadResultsLoop.bind fun _ => trivial
  | some stream =>
    exact ⟨trivial, fun _ => plain_loadResultsLoop.bind fun _ => ⟨trivial, fun _ => trivial⟩⟩

/-- The one descriptor that `edit_results` closes is that of the temporary file. -/
theorem closing_editResults {memory : Memory} :
    (editResults cfg L memory).Uses (Call.Closing cfg.gpgKeyId) := by
  have saves : ∀ path changed, (saveResults cfg path changed).Uses (Call.Plain cfg.gpgKeyId) := by
    intro path changed
    cases changed with
    | true => exact plain_gpgEncrypt
    | false => exact ⟨trivial, fun _ => trivial⟩
  refine ⟨trivial, fun made => ?_⟩
  cases made with
  | none => trivial
  | some created =>
    refine ((plain_dumpResults memory.results).mono fun _ plain => plain.closing).bind fun _ => ?_
    refine ⟨trivial, fun _ => uses_require.bind fun _ => ?_⟩
    refine ((plain_spawnEditor rfl).mono fun _ plain => plain.closing).bind fun _ => ?_
    exact (plain_hasChanged.bind fun changed => saves _ changed).mono fun _ plain => plain.closing

/-- `edit_results` makes the process's own calls only. -/
theorem uses_editResults {memory : Memory} :
    (editResults cfg L memory).Uses (Call.Own cfg.gpgKeyId) :=
  closing_editResults.mono fun _ closing => closing.own

/-- `lock_set` makes plain calls only. -/
theorem plain_lockSet : lockSet.Uses (Call.Plain key) := by
  refine plain_fileExists.bind fun found => ?_
  cases found with
  | true => trivial
  | false =>
    refine ⟨rfl, fun fp => ⟨trivial, fun _ => ?_⟩⟩
    cases fp with
    | none => trivial
    | some stream => exact ⟨trivial, fun _ => ⟨trivial, fun _ => trivial⟩⟩

/-- `lock_set` makes the process's own calls only. -/
theorem uses_lockSet : lockSet.Uses (Call.Own key) := plain_lockSet.mono fun _ plain => plain.own

/-- `setup_signals_and_atexit` makes plain calls only. -/
theorem plain_setupSignalsAndAtexit : setupSignalsAndAtexit.Uses (Call.Plain key) := by
  refine ⟨trivial, fun _ => uses_require.bind fun _ => ?_⟩
  exact ⟨trivial, fun _ => ⟨trivial, fun _ => trivial⟩⟩

/-- `setup_signals_and_atexit` makes the process's own calls only. -/
theorem uses_setupSignalsAndAtexit : setupSignalsAndAtexit.Uses (Call.Own key) :=
  plain_setupSignalsAndAtexit.mono fun _ plain => plain.own

/-- `cleanup` makes plain calls only. -/
theorem plain_cleanup : cleanup.Uses (Call.Plain key) := by
  have lock : lockUnset.Uses (Call.Plain key) := by
    refine plain_fileExists.bind fun found => ?_
    cases found with
    | true => exact ⟨trivial, fun removal => by cases removal <;> trivial⟩
    | false => trivial
  refine lock.bind fun _ => ⟨trivial, fun path => ?_⟩
  cases path with
  | none => trivial
  | some path => exact ⟨trivial, fun removal => by cases removal <;> trivial⟩

/-- Ending a process takes plain calls only, its exit handlers included. -/
theorem plain_leave (ending : Ending) : (leave cfg ending).Uses (Call.Plain key) := by
  cases ending with
  | exit status message =>
    refine ⟨trivial, fun registered => ?_⟩
    cases registered with
    | false => trivial
    | true =>
      have handler : (atexitCleanup cfg).Uses (Call.Plain key) :=
        ⟨trivial, fun _ => plain_debug.bind fun _ => plain_cleanup⟩
      exact handler.bind fun _ => trivial
  | immediate status => trivial
  | crash => trivial
  | replaced => trivial

/-- What a process does about an ending. -/
theorem uses_leave (ending : Ending) : (leave cfg ending).Uses (Call.Own key) :=
  (plain_leave ending).mono fun _ plain => plain.own

/-- The handler of `SIGINT` makes plain calls only. -/
theorem plain_interrupt : (interrupt cfg).Uses (Call.Plain key) := by
  have handler : (sigCleanup cfg).Uses (Call.Plain key) :=
    ⟨trivial, fun _ => plain_debug.bind fun _ => plain_cleanup⟩
  exact (handler.onHalt fun ending => plain_leave ending).bind fun _ => ⟨trivial, fun _ => trivial⟩

/-- The handler of `SIGINT`. -/
theorem uses_interrupt : (interrupt cfg).Uses (Call.Own key) := plain_interrupt.mono fun _ plain =>
    plain.own

end Mdp
