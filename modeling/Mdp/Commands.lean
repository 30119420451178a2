import Mdp.Messages
import Mdp.Tokens
import Mdp.Library.LastArgument

/-!
# Shell commands

The names of the files and the texts of the commands that are given to `system`, as `join_path` and
`xasprintf` make them, and which commands `spawn_editor` and `gpg_encrypt` come to run.
-/

namespace Mdp

open Interaction CStrings

/-- `join_path`. -/
def joinPath (base suffix : Bytes) : Bytes := base ++ ascii "/" ++ suffix

/-- What the names of the files are made of. -/
structure Places where
  /-- `$HOME`. -/
  home : Bytes
  /-- `cfg_password_file`. -/
  passwordFile : Bytes
  /-- What `mkstemp` makes of the eight `X`. -/
  letters : Nat → Bytes
  /-- `mkstemp` takes bytes that are portable in file names. -/
  portable : ∀ suffix, (letters suffix).length = 8 ∧ ∀ c ∈ letters suffix, ShellWords.Portable c

/-- `config_dir`. -/
def Places.configDir (places : Places) : Bytes := joinPath places.home (ascii ".mdp")

/-- The places of a home directory where `mkstemp` makes this name, whatever was there before. -/
def Places.named (home name : Bytes)
    (portable : name.length = 8 ∧ ∀ c ∈ name, ShellWords.Portable c) :
    Places where
  home := home
  passwordFile := joinPath (joinPath home (ascii ".mdp")) (ascii "passwords")
  letters := fun _ => name
  portable := fun _ => portable

/-- The name of a file. -/
def Path.text (places : Places) : Path → Bytes
  | .passwordFile => places.passwordFile
  | .lock => joinPath places.configDir (ascii "lock")
  | .template => joinPath places.configDir (ascii "tmp_edit.XXXXXXXX")
  | .tmp suffix => joinPath places.configDir (ascii "tmp_edit." ++ places.letters suffix)
  | .bak base => base.text places ++ ascii ".bak"
  | .gpg base => base.text places ++ ascii ".gpg"

/-- The text of a command. -/
def Command.text (places : Places) : Command → Bytes
  | .version gpgPath => gpgPath ++ ascii " --version > /dev/null"
  | .listSecretKeys gpgPath => gpgPath ++ ascii " --list-secret-keys | grep -q sec"
  | .edit editor path => editor ++ ascii " \"" ++ path.text places ++ ascii "\""
  | .encrypt gpgPath keyId path =>
    gpgPath ++ ascii " -r " ++ keyId.getD nullText ++ ascii " -e " ++ path.text places

/-- The commands that were run; the system may answer anything. -/
def commandLog : Effect posix (List Command)
  | .system command, _, log => some (log ++ [command])
  | .readString present, read, log => if read = present then some log else none
  | _, _, log => some log

/-- Some run of a program comes to this command. -/
def Runs {α : Type} (p : Prog α) (command : Command) : Prop :=
  ∃ log, Asks commandLog p [] (.system command) log

/-- Some run of an edit comes to the command of `gpg_encrypt`, behind the one of `spawn_editor`. -/
def EditRuns (cfg : Config) (path : Path) (editing encrypting : Command) : Prop :=
  Asks commandLog (do
    spawnEditor cfg path
    gpgEncrypt cfg path) [] (.system encrypting) [editing]

/-- The calls that run no command. -/
def Call.Direct : Call → Prop
  | .system _ => False
  | _ => True

section Direct

variable {cfg : Config} {path : Path} {α β : Type} {p : Prog α} {command : Command}
  {log after : List Command}

/-- A direct call adds nothing to the log of commands. -/
theorem of_commandLog_direct {request : Call} {answer : Call.Answer request}
    (direct : request.Direct)
    (taken : commandLog request answer log = some after) : after = log := by
  cases request with
  | system command => exact direct.elim
  | readString present =>
    simp only [commandLog, Option.ite_none_right_eq_some, Option.some.injEq] at taken
    exact taken.2.symm
  | _ => exact (Option.some.inj taken).symm

/-- A direct program adds nothing to the log of commands. -/
theorem direct_keeps {q : Prog α} (direct : p.Uses Call.Direct)
    (run : Reaches commandLog p log q after) :
    after = log := by
  induction run with
  | refl => rfl
  | step taken later ih =>
    rw [ih (direct.2 _), of_commandLog_direct direct.1 taken]

/-- A direct program runs no command. -/
theorem direct_asks (direct : p.Uses Call.Direct) :
    ¬ Asks commandLog p log (.system command) after := by
  rintro ⟨next, run⟩
  exact (direct.reaches run).1

/-- The commands behind a program without commands. -/
theorem of_asks_bind {rest : α → Prog β} (direct : p.Uses Call.Direct)
    (asked : Asks commandLog (p.bind rest) log (.system command) after) :
    ∃ value, Asks commandLog (rest value) log (.system command) after := by
  rcases Asks.bind_iff.mp asked with first | ⟨value, middle, run, second⟩
  · exact absurd first (direct_asks direct)
  · rw [direct_keeps direct run] at second
    exact ⟨value, second⟩

/-- A command in front of a program without commands. -/
theorem asks_system {asked : Command} {next : Call.Answer (.system asked) → Prog β}
    (direct : ∀ answer, (next answer).Uses Call.Direct) :
    Asks commandLog (.call (.system asked) next) log (.system command) after ↔ command = asked ∧
        log = after := by
  rw [Asks.of_call]
  constructor
  · rintro (⟨same, rfl⟩ | ⟨answer, middle, -, later⟩)
    · exact ⟨(Call.system.inj same).symm, rfl⟩
    · exact absurd later (direct_asks (direct answer))
  · rintro ⟨rfl, rfl⟩
    exact .inl ⟨rfl, rfl⟩

/-- What is required has passed where a program goes on. -/
theorem reaches_require {passed : Bool} {message : String} {u : Unit} :
    Reaches commandLog (require passed message) log (.done u) after ↔ passed = true ∧
        log = after := by
  cases passed <;> simp [require, err]

/-- Messages run no command. -/
theorem Call.Message.direct (request : Call) (message : request.Message) : request.Direct := by
  cases request with
  | system command => exact message.elim
  | _ => trivial

/-- `file_exists` runs no command. -/
theorem direct_fileExists : (fileExists path).Uses Call.Direct := by
  refine ⟨trivial, fun lookup => ?_⟩
  cases lookup <;> trivial

/-- Unlinking the password file runs no command. -/
theorem direct_unlinkPrevious : (unlinkPrevious cfg).Uses Call.Direct := by
  have removal : ((ask (.unlink .passwordFile)).bind fun previous =>
      require (previous == .removed) "gpg_encrypt unlink(cfg_password_file)").Uses Call.Direct :=
    ⟨trivial, fun _ => uses_require⟩
  have backup : (backupPrevious cfg).Uses Call.Direct := by
    refine (messages_debug Call.Message.direct).bind fun _ =>
      ⟨trivial, fun _ => uses_require.bind fun _ => ?_⟩
    exact ⟨trivial, fun _ => uses_require⟩
  unfold unlinkPrevious
  split
  · exact backup.bind fun _ => removal
  · exact removal

/-- Moving the encrypted file into place runs no command. -/
theorem direct_moveEncrypted : (moveEncrypted path).Uses Call.Direct := by
  refine (messages_xasprintf Call.Message.direct).bind fun _ =>
    ⟨trivial, fun _ => uses_require.bind fun _ => ?_⟩
  exact ⟨trivial, fun _ => uses_require.bind fun _ => ⟨trivial, fun _ => uses_require⟩⟩

/-- Writing the results runs no command. -/
theorem direct_dumpResults {fd : Nat} (results : List Result) :
    (dumpResults fd results).Uses Call.Direct := by
  induction results with
  | nil => trivial
  | cons result rest ih =>
    refine ⟨trivial, fun _ => uses_require.bind fun _ => ⟨trivial, fun _ => ?_⟩⟩
    exact uses_require.bind fun _ => ih

/-- The loop of `load_results_fp` runs no command. -/
theorem direct_loadResultsLoop {L : CLocale} {memory : Memory} {ctx : CksumCtx}
    {pieces : List Bytes} :
    (loadResultsLoop L memory ctx pieces).Uses Call.Direct := by
  induction pieces generalizing memory ctx with
  | nil => trivial
  | cons line rest ih =>
    refine (messages_warnUnlessNewline Call.Message.direct).bind fun _ => ?_
    refine (messages_xmalloc Call.Message.direct).bind fun _ => ?_
    cases loadLine L memory line with
    | none => trivial
    | some next =>
      exact (messages_xmalloc Call.Message.direct).bind fun _ =>
        (messages_arrayAdd Call.Message.direct).bind fun _ => ih

/-- `has_changed` runs no command. -/
theorem direct_hasChanged {L : CLocale} {memory : Memory} :
    (hasChanged L memory path).Uses Call.Direct := by
  refine ⟨trivial, fun fp => ?_⟩
  have loaded : (loadResultsFp L memory (fp.map .file)).Uses Call.Direct := by
    cases fp with
    | none => exact direct_loadResultsLoop
    | some stream => exact ⟨trivial, fun _ => direct_loadResultsLoop⟩
  refine loaded.bind fun _ => ?_
  cases fp with
  | none => trivial
  | some stream => exact ⟨trivial, fun _ => trivial⟩

end Direct

section Edit

variable {cfg : Config} {path : Path} {command : Command} {log after : List Command}

/-- A program without commands that can go on. -/
structure Passes (p : Prog Unit) : Prop where
  direct : p.Uses Call.Direct
  ends : ∀ log, Reaches commandLog p log (.done ()) log

namespace Passes

variable {α : Type} {p : Prog Unit} {rest : Unit → Prog α} (passes : Passes p)
include passes

/-- The commands behind such a program are those of what follows it. -/
theorem bind_asks : Asks commandLog (p.bind rest) log (.system command) after ↔
    Asks commandLog (rest ()) log (.system command) after := by
  constructor
  · exact fun asked => (of_asks_bind passes.direct asked).elim fun _ second => second
  · exact fun asked => Asks.bind_iff.mpr (.inr ⟨(), log, passes.ends log, asked⟩)

/-- The results behind such a program are those of what follows it. -/
theorem bind_ends {value : α} : Reaches commandLog (p.bind rest) log (.done value) after ↔
    Reaches commandLog (rest ()) log (.done value) after := by
  rw [Reaches.bind_done_iff]
  constructor
  · rintro ⟨u, middle, first, second⟩
    rwa [direct_keeps passes.direct first] at second
  · exact fun ended => ⟨(), log, passes.ends log, ended⟩

end Passes

/-- `xasprintf` is such a program. -/
theorem passes_xasprintf : Passes xasprintf where
  direct := (messages_xasprintf Call.Message.direct)
  ends := by simp [xasprintf, ask, require, commandLog]

/-- `debug` is such a program. -/
theorem passes_debug {fmt : String} : Passes (debug cfg fmt) where
  direct := (messages_debug Call.Message.direct)
  ends := by
    intro log
    unfold debug
    split
    · simp only [debugPrint, ask, Program.bind_eq, Program.call_bind, Program.done_bind,
        Reaches.of_call]
      refine ⟨(0 : Nat), log, rfl, some "", log, rfl, ?_⟩
      rw [passes_xasprintf.bind_ends]
      exact .step rfl (.refl _ _)
    · exact .refl _ _

/-- The editor with its option. -/
def editorText (editor : Bytes) : Bytes :=
  if editorIsVim editor then editor ++ ascii " -n" else editor

/-- A copy of an editor without the option that found no memory is a null pointer. -/
theorem reaches_editorCommand {editor : Bytes} {copied : Option Bytes} :
    Reaches commandLog (editorCommand editor) log (.done copied) after ↔ log = after ∧
      (copied = some (editorText editor) ∨ editorIsVim editor = false ∧ copied = none) := by
  have option : ascii " -n" = [0x20, 0x2d, 0x6e] := rfl
  unfold editorCommand editorText
  split
  · rename_i vim
    simp [vim, passes_xasprintf.bind_ends, option, and_comm, eq_comm]
  · rename_i other
    simp [ask, other, commandLog, and_comm, eq_comm, or_comm]

/-- A string that is read is there. -/
theorem reaches_readString {pointer : Option Bytes} {text : Bytes} :
    Reaches commandLog (readString pointer) log (.done text) after ↔
      pointer = some text ∧ log = after := by
  cases pointer with
  | none => simp [readString, ask, commandLog, Reaches.of_call]
  | some given => simp [readString, ask, commandLog, Reaches.of_call, eq_comm]

/-- The part of `spawn_editor` behind the choice of the editor. -/
theorem asks_spawn {editor : Option Bytes} : Asks commandLog (do
    xasprintf
    debug cfg "spawn_editor: %s"
    let exit ← ask (.system (.edit (editor.getD nullText) path))
    require (exit.status != -1) "unable to spawn editor: %s"
    require (¬ exit.status > 0) "editor returned with an error: %s"
    require editor.isSome "null pointer") log (.system command) after ↔
      command = .edit (editor.getD nullText) path ∧ log = after := by
  simp only [Program.bind_eq, passes_xasprintf.bind_asks, passes_debug.bind_asks]
  exact asks_system fun exit => uses_require.bind fun _ => uses_require.bind fun _ => uses_require

/-- `spawn_editor` runs one command, for an editor that is there. -/
theorem asks_spawnEditor : Asks commandLog (spawnEditor cfg path) log (.system command) after ↔
    log = after ∧ ∃ editor, cfg.editor = some editor ∧ (command = .edit (editorText editor) path ∨
      editorIsVim editor = false ∧ command = .edit nullText path) := by
  have reads : (readString cfg.editor).Uses Call.Direct := uses_readString trivial
  have copies : ∀ editor, (editorCommand editor).Uses Call.Direct :=
    fun _ => messages_editorCommand Call.Message.direct
  have spawned := fun editor log => @asks_spawn cfg path command log after editor
  simp only [Program.bind_eq] at spawned
  unfold spawnEditor
  rw [Program.bind_eq, Asks.bind_iff]
  simp only [direct_asks reads, reaches_readString, Program.bind_eq,
    Asks.bind_iff (p := editorCommand _), direct_asks (copies _), spawned, reaches_editorCommand,
      false_or]
  constructor
  · rintro ⟨editor, _, ⟨given, rfl⟩, copied, _, ⟨rfl, rfl | ⟨other, rfl⟩⟩, rfl, rfl⟩
    · exact ⟨rfl, editor, given, .inl rfl⟩
    · exact ⟨rfl, editor, given, .inr ⟨other, rfl⟩⟩
  · rintro ⟨rfl, editor, given, rfl | ⟨other, rfl⟩⟩
    · exact ⟨editor, log, ⟨given, rfl⟩, _, log, ⟨rfl, .inl rfl⟩, rfl, rfl⟩
    · exact ⟨editor, log, ⟨given, rfl⟩, _, log, ⟨rfl, .inr ⟨other, rfl⟩⟩, rfl, rfl⟩

/-- The commands that `spawn_editor` may run. -/
theorem runs_spawnEditor : Runs (spawnEditor cfg path) command ↔
    ∃ editor, cfg.editor = some editor ∧
    (command = .edit (editorText editor) path ∨
      editorIsVim editor = false ∧ command = .edit nullText path) := by
  unfold Runs
  simp only [asks_spawnEditor, exists_and_right, exists_eq', true_and]

/-- It returns where the editor was not a null pointer. -/
theorem reaches_spawnEditor {u : Unit} :
    Reaches commandLog (spawnEditor cfg path) log (.done u) after ↔
    ∃ editor, cfg.editor = some editor ∧ after = log ++ [.edit (editorText editor) path] := by
  unfold spawnEditor
  simp only [Program.bind_eq, Reaches.bind_done_iff (p := readString _), reaches_readString,
    Reaches.bind_done_iff (p := editorCommand _), reaches_editorCommand,
    passes_xasprintf.bind_ends, passes_debug.bind_ends, ask, Program.call_bind, Program.done_bind,
    Reaches.of_call, Reaches.bind_done_iff, reaches_require]
  constructor
  · rintro ⟨editor, _, ⟨given, rfl⟩, copied, middle, ⟨rfl, rfl | ⟨other, rfl⟩⟩, exit, later, taken,
      -, last, ⟨-, rfl⟩, -, final, ⟨-, rfl⟩, held, rfl⟩
    · exact ⟨editor, given, (Option.some.inj taken).symm⟩
    · cases held
  · rintro ⟨editor, given, rfl⟩
    exact ⟨editor, log, ⟨given, rfl⟩, _, log, ⟨rfl, .inl rfl⟩, (⟨0, .untouched⟩ : EditorExit), _,
      rfl, (), _, ⟨rfl, rfl⟩, (), _, ⟨rfl, rfl⟩, rfl, rfl⟩

/-- `gpg_encrypt` runs one command. -/
theorem asks_gpgEncrypt : Asks commandLog (gpgEncrypt cfg path) log (.system command) after ↔
    command = .encrypt cfg.gpgPath cfg.gpgKeyId path ∧ log = after := by
  unfold gpgEncrypt
  simp only [Program.bind_eq, passes_xasprintf.bind_asks, passes_debug.bind_asks]
  refine asks_system fun encrypted => uses_require.bind fun _ =>
    (messages_xasprintf Call.Message.direct).bind fun _ => ?_
  refine direct_fileExists.bind fun found => ?_
  cases found with
  | true => exact direct_unlinkPrevious.bind fun _ => direct_moveEncrypted
  | false => exact direct_moveEncrypted

/-- The commands of an edit that runs both. -/
theorem editRuns_iff {editing encrypting : Command} : EditRuns cfg path editing encrypting ↔
    ∃ editor, cfg.editor = some editor ∧ editing = .edit (editorText editor) path ∧
      encrypting = .encrypt cfg.gpgPath cfg.gpgKeyId path := by
  unfold EditRuns
  rw [Program.bind_eq, Asks.bind_iff]
  constructor
  · rintro (asked | ⟨u, log, returned, asked⟩)
    · exact absurd (asks_spawnEditor.mp asked).1.symm (List.cons_ne_nil _ _)
    · obtain ⟨same, rfl⟩ := asks_gpgEncrypt.mp asked
      obtain ⟨editor, given, ran⟩ := reaches_spawnEditor.mp returned
      exact ⟨editor, given, by simpa using ran, same⟩
  · rintro ⟨editor, given, rfl, rfl⟩
    exact .inr ⟨(), _, reaches_spawnEditor.mpr ⟨editor, given, rfl⟩, asks_gpgEncrypt.mpr ⟨rfl, rfl⟩⟩

/-- The commands of `edit_results`: the one of `spawn_editor`, or behind it the one of
`gpg_encrypt`, for a file that `mkstemp` made. -/
theorem of_asks_editResults {L : CLocale} {memory : Memory}
    (asked : Asks commandLog (editResults cfg L memory) [] (.system command) log) :
    ∃ suffix, log = [] ∧ Runs (spawnEditor cfg (.tmp suffix)) command ∨
      ∃ editing, log = [editing] ∧ EditRuns cfg (.tmp suffix) editing command := by
  have mkstemp : (ask .mkstemp).Uses Call.Direct := ⟨trivial, fun _ => trivial⟩
  obtain ⟨made, asked⟩ := of_asks_bind mkstemp asked
  cases made with
  | none => exact absurd asked Asks.of_halt
  | some created =>
    obtain ⟨-, asked⟩ := of_asks_bind (direct_dumpResults memory.results) asked
    have close : (ask (.close created.fd)).Uses Call.Direct := ⟨trivial, fun _ => trivial⟩
    obtain ⟨closed, asked⟩ := of_asks_bind close asked
    obtain ⟨-, asked⟩ := of_asks_bind uses_require asked
    refine ⟨created.suffix, ?_⟩
    rcases Asks.bind_iff.mp asked with first | ⟨u, middle, returned, behind⟩
    · exact .inl ⟨(asks_spawnEditor.mp first).1.symm, _, first⟩
    · obtain ⟨changed, behind⟩ := of_asks_bind direct_hasChanged behind
      cases changed with
      | true =>
        obtain ⟨editor, given, ran⟩ := reaches_spawnEditor.mp returned
        have same := (asks_gpgEncrypt.mp behind).2
        rw [ran] at same
        exact .inr ⟨_, same.symm, editRuns_iff.mpr ⟨editor, given, rfl,
          (asks_gpgEncrypt.mp behind).1⟩⟩
      | false =>
        have print : (saveResults cfg (.tmp created.suffix) false).Uses Call.Direct :=
          ⟨trivial, fun _ => trivial⟩
        exact absurd behind (direct_asks print)

end Edit

end Mdp
