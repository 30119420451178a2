import Mdp.CommandLine
import Mdp.ConfigFile
import Mdp.Main

/-!
# From the command line to a command

`main` and `read_config` up to the branch of a command: the core options, the configuration file and
its defaults, then the options of the command itself. The directories and the owner of the files are
taken to pass their checks, which set no variable.
-/

namespace Mdp

open Interaction CStrings

/-- What a process finds when it starts. -/
structure Surroundings where
  /-- Whether `getopt` goes on past a word that is no option of the command. -/
  permute : Bool
  /-- `$EDITOR`. -/
  editor : Option Bytes
  /-- `"$HOME/.mdp"`. -/
  configDir : Bytes
  /-- What the configuration file holds, if it can be opened. -/
  config : Option Bytes

/-- What an error of `config.c` ends the process with: every one of them is an exit. -/
def ConfigError.ending : ConfigError → Ending
  | .conf _ message => .exit exitFailure ("config:%d: " ++ message)
  | .line _ message => .exit exitFailure message
  | .plain message => .exit exitFailure message

/-- `config_set_defaults`. -/
def configSetDefaults (configDir : Bytes) (cmd : CommandVariables) (cfg : Settings) : Settings :=
  { cfg with
    gpgPath := some (cfg.gpgPath.getD (ascii "/usr/bin/gpg"))
    gpgKeyId := cmd.gpgKeyId.or cfg.gpgKeyId
    passwordFile := some (cfg.passwordFile.getD (configDir ++ ascii "/passwords"))
    editor := some (cfg.editor.getD (ascii "/usr/bin/vi")) }

/-- `read_config`. -/
def readConfig (L : CLocale) (around : Surroundings) (cmd : CommandVariables) :
    Except Ending ConfigState :=
  match configRead L (.initial around.editor) around.config with
  | .error error => .error error.ending
  | .ok state =>
    .ok { state with settings := configSetDefaults around.configDir cmd state.settings }

/-- The variables that the commands read. -/
def configOf (cmd : CommandVariables) (cfg : Settings) : Config where
  debugEnabled := cmd.debugEnabled
  backup := cfg.backup
  editor := cfg.editor
  gpgPath := cfg.gpgPath.getD []
  gpgKeyId := cfg.gpgKeyId
  gpgTimeout := cfg.gpgTimeout

/-- The variables that generate passwords. -/
def addOptions (cmd : CommandVariables) (state : ConfigState) : AddOptions where
  profileName := cmd.profileName
  prefixText := cmd.addPrefix
  passwordCount := cmd.passwordCount
  characterCount := cmd.characterCount
  defaultPasswordCount := state.settings.passwordCount
  defaultCharacterCount := state.settings.characterCount
  defaultCharacterSet := state.settings.characterSet
  profiles := state.profiles

/-- A command with what it was started with. -/
inductive Started where
  | edits (command : Command.Edits)
  | generate (opts : AddOptions)
  | get (raw regex : Bool) (keywords : List Bytes)
  | prompt (regex : Bool)

/-- The dispatch of `main`, from the command's word on. -/
def dispatch (L : CLocale) (permute : Bool) (cmd : CommandVariables) (state : ConfigState)
    (command : Bytes) (argv : List Bytes) : Except Ending Started := do
  if ← commandMatch command (ascii "edit") 1 then do
    let _ ← cmdParseEdit permute cmd argv
    .ok (.edits .edit)
  else if ← commandMatch command (ascii "generate") 3 then do
    let cmd ← cmdParseGenerate permute cmd argv
    .ok (.generate (addOptions cmd state))
  else if ← commandMatch command (ascii "add") 1 then do
    let cmd ← cmdParseAdd L permute cmd argv
    .ok (.edits (.add (addOptions cmd state)))
  else if ← commandMatch command (ascii "get") 3 then do
    let parsed ← cmdParseGet permute cmd argv
    .ok (.get parsed.1.raw parsed.1.regex parsed.2)
  else if ← commandMatch command (ascii "prompt") 1 then do
    let cmd ← cmdParsePrompt permute cmd argv
    .ok (.prompt cmd.regex)
  else usageError "unknown command '%s' (try mdp -h)"

/-- `main`, from the words after the program's name to a command and its configuration. -/
def launch (L : CLocale) (around : Surroundings) (argv : List Bytes) :
    Except Ending (Config × Started) := do
  let parsed ← cmdParseCore argv
  let state ← readConfig L around parsed.1
  match parsed.2 with
  | [] => usageExit
  | command :: words => do
    let started ← dispatch L around.permute parsed.1 state command words
    .ok (configOf parsed.1 state.settings, started)

/-- A process that comes to a command has read its configuration. -/
theorem of_launch {L : CLocale} {around : Surroundings} {argv : List Bytes} {cfg : Config}
    {started : Started} (launched : launch L around argv = .ok (cfg, started)) :
    ∃ cmd command words state,
      cmdParseCore argv = .ok (cmd, command :: words) ∧ readConfig L around cmd = .ok state ∧
        dispatch L around.permute cmd state command words = .ok started ∧
        cfg = configOf cmd state.settings := by
  obtain ⟨⟨cmd, rest⟩, parsed, later⟩ := bind_eq_ok launched
  obtain ⟨state, read, later⟩ := bind_eq_ok later
  cases rest with
  | nil => cases later
  | cons command words =>
    obtain ⟨found, dispatched, same⟩ := bind_eq_ok later
    cases same
    exact ⟨cmd, command, words, state, parsed, read, dispatched, rfl⟩

/-- The configuration that was read, before its defaults. -/
theorem of_readConfig {L : CLocale} {around : Surroundings} {cmd : CommandVariables}
    {state : ConfigState} (read : readConfig L around cmd = .ok state) :
    ∃ before, configRead L (.initial around.editor) around.config = .ok before ∧
      state =
        { before with settings := configSetDefaults around.configDir cmd before.settings } := by
  unfold readConfig at read
  cases accepted : configRead L (.initial around.editor) around.config with
  | error error => simp [accepted] at read
  | ok before =>
    simp only [accepted, Except.ok.injEq] at read
    exact ⟨before, rfl, read.symm⟩

/-- What `dispatch` makes of the words of a command. -/
inductive Dispatched (L : CLocale) (permute : Bool) (cmd : CommandVariables) (state : ConfigState)
    (argv : List Bytes) : Started → Prop where
  | edit {cmd' : CommandVariables} (parsed : cmdParseEdit permute cmd argv = .ok cmd') :
    Dispatched L permute cmd state argv (.edits .edit)
  | generate {cmd' : CommandVariables} (parsed : cmdParseGenerate permute cmd argv = .ok cmd') :
    Dispatched L permute cmd state argv (.generate (addOptions cmd' state))
  | add {cmd' : CommandVariables} (parsed : cmdParseAdd L permute cmd argv = .ok cmd') :
    Dispatched L permute cmd state argv (.edits (.add (addOptions cmd' state)))
  | get {parsed' : CommandVariables × List Bytes}
      (parsed : cmdParseGet permute cmd argv = .ok parsed') :
    Dispatched L permute cmd state argv (.get parsed'.1.raw parsed'.1.regex parsed'.2)
  | prompt {cmd' : CommandVariables} (parsed : cmdParsePrompt permute cmd argv = .ok cmd') :
    Dispatched L permute cmd state argv (.prompt cmd'.regex)

/-- What a command was started with. -/
theorem of_dispatch {L : CLocale} {permute : Bool} {cmd : CommandVariables} {state : ConfigState}
    {command : Bytes} {argv : List Bytes} {started : Started}
    (dispatched : dispatch L permute cmd state command argv = .ok started) :
    Dispatched L permute cmd state argv started := by
  obtain ⟨edit, _, dispatched⟩ := bind_eq_ok dispatched
  cases edit with
  | true =>
    obtain ⟨_, parsed, same⟩ := bind_eq_ok dispatched
    cases same
    exact .edit parsed
  | false =>
    obtain ⟨generate, _, dispatched⟩ := bind_eq_ok dispatched
    cases generate with
    | true =>
      obtain ⟨_, parsed, same⟩ := bind_eq_ok dispatched
      cases same
      exact .generate parsed
    | false =>
      obtain ⟨add, _, dispatched⟩ := bind_eq_ok dispatched
      cases add with
      | true =>
        obtain ⟨_, parsed, same⟩ := bind_eq_ok dispatched
        cases same
        exact .add parsed
      | false =>
        obtain ⟨get, _, dispatched⟩ := bind_eq_ok dispatched
        cases get with
        | true =>
          obtain ⟨_, parsed, same⟩ := bind_eq_ok dispatched
          cases same
          exact .get parsed
        | false =>
          obtain ⟨prompt, _, dispatched⟩ := bind_eq_ok dispatched
          cases prompt with
          | true =>
            obtain ⟨_, parsed, same⟩ := bind_eq_ok dispatched
            cases same
            exact .prompt parsed
          | false => cases dispatched

end Mdp
