import Mdp.Commands
import Mdp.Launch

/-!
# Startup

`main` and `read_config` with the checks of the files they use: the directories are made if they are
missing, and neither they nor the files in them may belong to somebody else or be open to others.
The program has an interface of its own here, since what is asked of a file is its owner and its
mode. Memory is taken to be available.
-/

namespace Mdp

open Interaction CStrings

/-- What `S_ISDIR` and `S_ISREG` tell apart. -/
inductive FileKind where
  | directory
  | regular
  | other
  deriving DecidableEq, Repr

/-- The fields of `struct stat` that are read. -/
structure StatBuf where
  kind : FileKind
  /-- The permission bits of `st_mode`. -/
  mode : Nat
  uid : Nat
  deriving DecidableEq, Repr

/-- What `stat` gives. -/
inductive StatResult where
  | found (sb : StatBuf)
  | enoent
  | failed
  deriving DecidableEq, Repr

/-- The calls of the startup. -/
inductive StartupCall where
  /-- `setlocale(LC_ALL, "")`. -/
  | setlocale
  | getenv (name : Bytes)
  | stat (path : Bytes)
  | mkdir (path : Bytes) (mode : Nat)
  | getuid
  /-- `fopen`, `fgets` to the end and `fclose`. -/
  | read (path : Bytes)
  /-- `fprintf(stderr, ...)`. -/
  | warn (text : String)

/-- What may be answered. A new directory can also be what other names mean that meant nothing. -/
abbrev StartupCall.Answer : StartupCall → Type
  | .setlocale => Bool
  | .getenv _ => Option Bytes
  | .stat _ => StatResult
  | .mkdir _ _ => Option (Bytes → Bool)
  | .getuid => Nat
  | .read _ => Option Bytes
  | .warn _ => Unit

/-- The interface of the startup. -/
abbrev startupInterface : Interface := ⟨StartupCall, StartupCall.Answer⟩

/-- A program that runs before a command. -/
abbrev Startup (α : Type) := Program startupInterface Ending α

/-- Make one call. -/
def starts (request : StartupCall) : Startup (StartupCall.Answer request) :=
  .call (E := startupInterface) request .done

/-- `err` and `errx`. -/
def refuse {α : Type} (message : String) : Startup α := .halt (.exit exitFailure message)

/-- `'/'`. -/
def slash : UInt8 := 0x2f

/-- `dirname`, as POSIX has it. -/
def dirname (path : Bytes) : Bytes :=
  let named := path.rdropWhile (· == slash)
  let before := named.rdropWhile (· != slash)
  let dir := before.rdropWhile (· == slash)
  if named = [] then if path = [] then ascii "." else ascii "/"
  else if before = [] then ascii "."
  else if dir = [] then ascii "/"
  else dir

/-- The directory of a name in a directory is that directory. -/
theorem dirname_joinPath {base suffix : Bytes} {last : UInt8} (named : suffix ≠ [])
    (plain : ∀ byte ∈ suffix, byte ≠ slash) (ends : last ≠ slash) :
    dirname (joinPath (base ++ [last]) suffix) = base ++ [last] := by
  have bar : ascii "/" = [slash] := by decide
  have split : suffix = suffix.dropLast ++ [suffix.getLast named] :=
    (List.dropLast_append_getLast named).symm
  have kept : ¬ (suffix.getLast named == slash) = true := by
    simpa using plain _ (List.getLast_mem named)
  have whole : (joinPath (base ++ [last]) suffix).rdropWhile (· == slash) =
      joinPath (base ++ [last]) suffix := by
    rw [joinPath, split, ← List.append_assoc]
    exact List.rdropWhile_concat_neg _ _ _ kept
  have upTo : (joinPath (base ++ [last]) suffix).rdropWhile (· != slash) = base ++ [last] ++
      [slash] := by
    have all : ∀ byte ∈ suffix, (byte != slash) = true := by
      intro byte inside
      simpa using plain byte inside
    rw [joinPath, bar]
    exact rdropWhile_append (base ++ [last]) suffix (by simp) all
  have without : (base ++ [last] ++ [slash]).rdropWhile (· == slash) = base ++ [last] := by
    rw [List.rdropWhile_concat_pos _ _ _ (by simp)]
    exact List.rdropWhile_concat_neg _ _ _ (by simpa using ends)
  simp only [dirname, whole, upTo, without]
  simp [joinPath]

/-- `xdirname`, which only copies what it gives and gets. -/
def xdirname (path : Bytes) : Bytes := dirname path

/-- `file_exists`, for any path. -/
def startupFileExists (filepath : Bytes) : Startup Bool := do
  match ← starts (.stat filepath) with
  | .found _ => pure true
  | .enoent => pure false
  | .failed => refuse "file_exists stat()"

/-- `get_home`. -/
def getHome : Startup Bytes := do
  match ← starts (.getenv (ascii "HOME")) with
  | none => refuse "unknown variable '$HOME'"
  | some s => do
    if ← startupFileExists s then pure s else refuse "your $HOME does not exist"

/-- The owner of a file is taken as good: root, who is not asked for, or the user. -/
def checkOwner (sb : StatBuf) (message : String) : Startup Unit := do
  if sb.uid = 0 then pure ()
  else do
    let uid ← starts .getuid
    if sb.uid = uid then pure () else refuse message

/-- The checks at the end of `config_ensure_directory`. -/
def checkDirectory (sb : StatBuf) : Startup Unit := do
  if sb.kind ≠ .directory then refuse "%s is not a directory"
  else do
    checkOwner sb "bad owner on %s"
    if sb.mode &&& 0o077 ≠ 0 then refuse "bad permissions on %s" else pure ()

/-- `config_ensure_directory`. -/
def configEnsureDirectory (path : Bytes) : Startup Unit := do
  match ← starts (.stat path) with
  | .found sb => checkDirectory sb
  | .failed => refuse "can't access %s"
  | .enoent => do
    match ← starts (.mkdir path 0o700) with
    | none => refuse "can't create %s"
    | some _ => do
      match ← starts (.stat path) with
      | .found sb => checkDirectory sb
      | _ => refuse "can't stat newly created file %s"

/-- What `config_check_file` and `config_check_password_file` share: a file that is there is regular
and has a good owner, and none of these bits of its mode is set. -/
def checkFile (path : Bytes) (forbidden : Nat) : Startup Unit := do
  match ← starts (.stat path) with
  | .enoent => pure ()
  | .failed => refuse "can't access %s"
  | .found sb => do
    if sb.kind ≠ .regular then refuse "%s is not a regular file"
    else do
      checkOwner sb "bad owner on %s"
      if sb.mode &&& forbidden ≠ 0 then refuse "bad permissions on %s" else pure ()

/-- `config_check_file`, which does not look at the mode. -/
def configCheckFile (path : Bytes) : Startup Unit := checkFile path 0

/-- `config_check_password_file`. -/
def configCheckPasswordFile (path : Bytes) : Startup Unit := checkFile path 0o022

/-- The warning of `config_set_defaults`. -/
def warnEditor (cfg : Settings) : Startup Unit := do
  if cfg.editor.isNone then
    starts (.warn
      "WARNING: neither $EDITOR or 'set editor' was defined, defaulting to /usr/bin/vi.\n")
  else pure ()

/-- What `read_config` leaves in the variables that name files. -/
structure StartupPaths where
  /-- `config_dir`. -/
  configDir : Bytes
  /-- `cmd_config_path`. -/
  configPath : Bytes
  /-- `editor_tmp_path`. -/
  editorTmpPath : Bytes
  /-- `lock_path`. -/
  lockPath : Bytes
  /-- `cfg_password_file`. -/
  passwordFile : Bytes

/-- The paths, from the directory, the command line and the configuration with its defaults. -/
def startupPaths (home : Bytes) (cmd : CommandVariables) (cfg : Settings) : StartupPaths :=
  let configDir := joinPath home (ascii ".mdp")
  { configDir
    configPath := cmd.configPath.getD (joinPath configDir (ascii "config"))
    editorTmpPath := joinPath configDir (ascii "tmp_edit.XXXXXXXX")
    lockPath := joinPath configDir (ascii "lock")
    passwordFile := cfg.passwordFile.getD [] }

/-- `read_config`, with its checks. -/
def readConfigChecked (L : CLocale) (cmd : CommandVariables) :
    Startup (ConfigState × StartupPaths) := do
  let home ← getHome
  let configDir := joinPath home (ascii ".mdp")
  configEnsureDirectory configDir
  -- `editor_init`
  let editor ← starts (.getenv (ascii "EDITOR"))
  let configPath := cmd.configPath.getD (joinPath configDir (ascii "config"))
  configCheckFile configPath
  let config ← starts (.read configPath)
  match configRead L (.initial editor) config with
  | .error error => .halt error.ending
  | .ok before => do
    warnEditor before.settings
    let state := { before with settings := configSetDefaults configDir cmd before.settings }
    let paths := startupPaths home cmd state.settings
    configEnsureDirectory (xdirname paths.passwordFile)
    configCheckPasswordFile paths.passwordFile
    pure (state, paths)

/-- `setlocale` at the beginning of `main`. -/
def setLocale : Startup Unit := do
  if ← starts .setlocale then pure ()
  else do
    let _ ← starts (.getenv (ascii "LC_ALL"))
    starts (.warn "WARNING: setting the locale failed, make sure %s is available on your system.\n")

/-- `main`, up to the branch of a command. -/
def startMain (L : CLocale) (permute : Bool) (argv : List Bytes) :
    Startup (Config × Started × StartupPaths) := do
  setLocale
  match cmdParseCore argv with
  | .error ending => .halt ending
  | .ok (_, []) => .halt (.exit exitFailure "")
  | .ok (cmd, command :: words) => do
    let (state, paths) ← readConfigChecked L cmd
    match dispatch L permute cmd state command words with
    | .error ending => .halt ending
    | .ok started => pure (configOf cmd state.settings, started, paths)

/-- What a process finds. Nobody else changes it while the process starts. -/
structure Machine where
  env : Bytes → Option Bytes
  /-- What the names mean. -/
  view : Bytes → Option StatBuf
  /-- The real user, for whom `getuid` asks. -/
  uid : Nat
  /-- The effective user, to whom new directories belong. -/
  euid : Nat
  umask : Nat

/-- A directory that `mkdir` makes. -/
def Machine.fresh (m : Machine) (mode : Nat) : StatBuf :=
  ⟨.directory, mode &&& (0o777 ^^^ (m.umask &&& 0o777)), m.euid⟩

/-- The names after `mkdir`: the one it was given, and others that mean the same place. -/
def Machine.made (m : Machine) (path : Bytes) (mode : Nat) (alsoNamed : Bytes → Bool) : Machine :=
  { m with
    view := fun name =>
      if (m.view name).isNone ∧ (name = path ∨ alsoNamed name = true) then some (m.fresh mode)
      else m.view name }

/-- The answers that the machine can give. Every call on the file system may fail. -/
def machine : Effect startupInterface Machine
  | .setlocale, _, m => some m
  | .getenv name, value, m => if value = m.env name then some m else none
  | .stat path, .found sb, m => if m.view path = some sb then some m else none
  | .stat path, .enoent, m => if m.view path = none then some m else none
  | .stat _, .failed, m => some m
  | .mkdir path mode, some alsoNamed, m =>
    if m.view path = none then some (m.made path mode alsoNamed) else none
  | .mkdir _ _, none, m => some m
  | .getuid, uid, m => if uid = m.uid then some m else none
  | .read _, _, m => some m
  | .warn _, _, m => some m

end Mdp
