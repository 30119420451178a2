import Mdp.Library.Program
import Mdp.Library.Files
import Mdp.Library.Lines

/-!
# System calls of an mdp process

The calls a process makes while it runs `mdp edit` or `mdp add`, what may be answered, and what an
answer does to the files and to the process's own globals. Failures are answers: every call that
can fail may fail in every state, and then changes nothing.

External programs run inside one call. What the editor did to the file it was given, and what
`gpg -e` wrote, are part of the answer of `system`. The editor touches only that file; `gpg -e`
creates its output under a name that was free, since it refuses to overwrite a file unless told
to. A read of a stream to its end is one call, because nothing the process does between two
`fgets` is visible to anyone else.
-/

namespace Mdp

open Interaction HardLinks CStrings

/-- The files of one user's mdp, by the expression the source has for each. -/
inductive Path where
  /-- `cfg_password_file`. -/
  | passwordFile
  /-- `lock_path`. -/
  | lock
  /-- `editor_tmp_path` as `editor_init` builds it, ending in `tmp_edit.XXXXXXXX`. -/
  | template
  /-- What `mkstemp` makes of the template; the suffix is the random part. -/
  | tmp (suffix : Nat)
  /-- `"%s.bak"`. -/
  | bak (base : Path)
  /-- `"%s.gpg"`. -/
  | gpg (base : Path)
  deriving DecidableEq, Repr

/-- A regular file. -/
structure Node where
  /-- Its contents. -/
  bytes : Bytes
  /-- Its permission bits. -/
  mode : Nat
  deriving DecidableEq, Repr

/-- The directory tree, as far as mdp touches it. -/
abbrev Files := Directory Path Node

/-- The command lines given to `system`. -/
inductive Command where
  /-- `"%s --version > /dev/null"`. -/
  | version (gpgPath : Bytes)
  /-- `"%s --list-secret-keys | grep -q sec"`. -/
  | listSecretKeys (gpgPath : Bytes)
  /-- `"%s \"%s\""`. -/
  | edit (editor : Bytes) (path : Path)
  /-- `"%s -r %s -e %s"`. -/
  | encrypt (gpgPath : Bytes) (keyId : Option Bytes) (path : Path)
  deriving DecidableEq, Repr

/-- What the editor did to the file it was given. -/
inductive Edited where
  /-- Nothing. -/
  | untouched
  /-- It removed the file. -/
  | removed
  /-- It wrote new contents into the file. -/
  | rewritten (bytes : Bytes)
  /-- It put a new file in its place. -/
  | replaced (node : Node)
  deriving DecidableEq, Repr

/-- The end of the editor. -/
structure EditorExit where
  /-- What `system` returns. -/
  status : Int
  /-- What became of the file. -/
  left : Edited
  deriving DecidableEq, Repr

/-- The end of `gpg -e`. -/
structure EncryptExit where
  /-- What `system` returns. -/
  status : Int
  /-- The output file it created, if it created one. -/
  wrote : Option Node
  deriving DecidableEq, Repr

/-- The result of `stat`. -/
inductive Lookup where
  | found
  /-- It failed with `ENOENT`. -/
  | enoent
  /-- It failed otherwise. -/
  | failed
  deriving DecidableEq, Repr

/-- The result of `unlink`. -/
inductive Removal where
  | removed
  /-- It failed with `ENOENT`. -/
  | enoent
  /-- It failed otherwise. -/
  | failed
  deriving DecidableEq, Repr

/-- The result of `fork`, in each of the processes it returns to. -/
inductive Fork where
  | failed
  | child
  | parent (pid : Nat)
  deriving DecidableEq, Repr

/-- The result of `waitpid`. -/
inductive Wait where
  /-- It failed and left `status` as it was; `signaled` is what `WIFSIGNALED` makes of that. -/
  | failed (signaled : Bool)
  | signaled
  | exited (status : Nat)
  deriving DecidableEq, Repr

/-- The result of `kill`. -/
inductive Killed where
  | sent
  /-- It failed with `ESRCH`. -/
  | esrch
  /-- It failed otherwise. -/
  | failed
  deriving DecidableEq, Repr

/-- The signals mdp names. -/
inductive Signal where
  /-- The null signal, which only asks whether the process exists. -/
  | zero
  | int
  | kill
  deriving DecidableEq, Repr

/-- What a signal does when it arrives. -/
inductive Disposition where
  /-- `SIG_DFL`. -/
  | default
  /-- `sig_cleanup`. -/
  | cleanup
  deriving DecidableEq, Repr

/-- Where an open stream reads from. -/
inductive Stream where
  /-- The output of the gpg child. -/
  | pipe
  /-- A file that was open when it was named by this inode. -/
  | file (inode : Nat)
  deriving DecidableEq, Repr

/-- A file `mkstemp` made. -/
structure Created where
  /-- The random part of its name. -/
  suffix : Nat
  /-- The file the descriptor writes to. -/
  fd : Nat
  deriving DecidableEq, Repr

/-- The calls. -/
inductive Call where
  /-- A request for memory, directly or in `vasprintf`. -/
  | allocate
  /-- A request for memory whose failure is not looked for. -/
  | calloc
  /-- A string is read through a pointer, which is null if it is not present. -/
  | readString (present : Bool)
  | strftime
  | system (command : Command)
  | stat (path : Path)
  | unlink (path : Path)
  | link (old new : Path)
  | chmod (path : Path) (mode : Nat)
  /-- `mkstemp(editor_tmp_path)`. -/
  | mkstemp
  | write (fd : Nat) (bytes : Bytes)
  | close (fd : Nat)
  /-- `fopen(path, "w")`. -/
  | fopenWrite (path : Path)
  | fprintf (stream : Nat) (bytes : Bytes)
  /-- `fopen(path, "r")`. -/
  | fopenRead (path : Path)
  /-- Read a stream until `fgets` returns `NULL`. -/
  | fgets (stream : Stream)
  | fclose (stream : Stream)
  | pipe
  | fork
  | dup2 (old new : Nat)
  /-- `execlp(file, "-q", "--decrypt", path, NULL)`. -/
  | execlp (file : Bytes) (path : Path)
  | fdopen (fd : Nat)
  | waitpid (pid : Nat)
  | kill (pid : Nat) (signal : Signal)
  | signal (signal : Signal) (disposition : Disposition)
  | sleep (seconds : UInt32)
  | getpid
  | getppid
  /-- `atexit(atexit_cleanup)`. -/
  | atexit
  /-- `exit` takes the next registered handler off its list. -/
  | nextHandler
  /-- The kernel returns from a signal handler. -/
  | sigreturn
  /-- Read the global `editor_tmp_path`. -/
  | editorTmpPath
  | arc4randomUniform (bound : UInt32)
  | swprintf
  /-- Write a message to the standard error stream. What is formatted into it is left out. -/
  | print (text : String)
  deriving DecidableEq, Repr

/-- The answers. A `Bool` says whether the call succeeded. -/
@[reducible] def Call.Answer : Call → Type
  | .allocate => Bool
  | .calloc => Bool
  | .readString _ => Bool
  | .strftime => Option String
  | .system (.version _) => Int
  | .system (.listSecretKeys _) => Int
  | .system (.edit _ _) => EditorExit
  | .system (.encrypt _ _ _) => EncryptExit
  | .stat _ => Lookup
  | .unlink _ => Removal
  | .link _ _ => Bool
  | .chmod _ _ => Bool
  | .mkstemp => Option Created
  | .write _ _ => Option Nat
  | .close _ => Bool
  | .fopenWrite _ => Option Nat
  | .fprintf _ _ => Bool
  | .fopenRead _ => Option Nat
  | .fgets _ => Bytes
  | .fclose _ => Bool
  | .pipe => Option (Nat × Nat)
  | .fork => Fork
  | .dup2 _ _ => Bool
  | .execlp _ _ => Bool
  | .fdopen _ => Bool
  | .waitpid _ => Wait
  | .kill _ _ => Killed
  | .signal _ _ => Unit
  | .sleep _ => Unit
  | .getpid => Nat
  | .getppid => Nat
  | .atexit => Bool
  | .nextHandler => Bool
  | .sigreturn => Unit
  | .editorTmpPath => Option Path
  | .arc4randomUniform _ => UInt32
  | .swprintf => Bool
  | .print _ => Unit

/-- The interface between a process and its system. -/
abbrev posix : Interface := ⟨Call, Call.Answer⟩

/-- The ways a process stops running its program. -/
inductive Ending where
  /-- `exit`, `err` and `errx`, with the message the latter two print. -/
  | exit (status : Nat) (message : String)
  /-- `_Exit`, which runs no handler. -/
  | immediate (status : Nat)
  /-- A null pointer was used. -/
  | crash
  /-- `execlp` replaced the program by another. -/
  | replaced
  deriving DecidableEq, Repr

/-- What stops a program whose accesses to arrays are followed. -/
inductive Stop where
  | ending (ending : Ending)
  /-- An access outside the cells of an array. Nothing is known of what follows it. -/
  | outside
  deriving DecidableEq, Repr

/-- A program of mdp. -/
abbrev Prog (α : Type) := Program posix Ending α

/-- The globals of a process that its signal and exit handlers read or that the system keeps
for it. -/
structure Globals where
  /-- `editor_tmp_path`. -/
  editorTmpPath : Option Path
  /-- Whether `atexit_cleanup` is on the list of exit handlers. -/
  atexit : Bool
  /-- What `SIGINT` does. -/
  sigint : Disposition
  /-- `SIGINT` is blocked, because its handler is running. -/
  masked : Bool
  deriving DecidableEq, Repr

/-- The globals when a command starts: `editor_init` has set the template. -/
def Globals.initial : Globals := ⟨some .template, false, .default, false⟩

/-- A process and the files. -/
structure State where
  files : Files
  globals : Globals

/-- The state with other files. -/
def State.setFiles (s : State) (files : Files) : State := { s with files := files }

/-- The state with other globals. -/
def State.setGlobals (s : State) (globals : Globals) : State := { s with globals := globals }

/-- The files are those that were set. -/
@[simp] theorem State.setFiles_files (s : State) (files : Files) :
    (s.setFiles files).files = files := rfl

/-- Setting the files keeps the globals. -/
@[simp] theorem State.setFiles_globals (s : State) (files : Files) :
    (s.setFiles files).globals = s.globals := rfl

/-- Setting the globals keeps the files. -/
@[simp] theorem State.setGlobals_files (s : State) (globals : Globals) :
    (s.setGlobals globals).files = s.files := rfl

/-- The globals are those that were set. -/
@[simp] theorem State.setGlobals_globals (s : State) (globals : Globals) :
    (s.setGlobals globals).globals = globals := rfl

/-- A file whose bytes change and whose mode stays. -/
def Node.mapBytes (change : Bytes → Bytes) (node : Node) : Node :=
  { node with bytes := change node.bytes }

/-- A file whose mode changes and whose bytes stay. -/
def Node.setMode (mode : Nat) (node : Node) : Node := { node with mode := mode }

/-- What the editor leaves of the files. -/
def Edited.apply (path : Path) (files : Files) : Edited → Option Files
  | .untouched => some files
  | .removed => if (files.entry path).isSome then some (files.erase path) else none
  | .rewritten bytes => (files.entry path).map fun inode =>
      files.modify inode (Node.mapBytes fun _ => bytes)
  | .replaced node => some (files.create path node)

/-- The state after an answer; `none` where the system cannot give it. -/
def effect : Effect posix State
  | .system (.edit _ path), exit, s =>
    if -1 ≤ exit.status then (exit.left.apply path s.files).map s.setFiles else none
  | .system (.encrypt _ _ path), exit, s =>
    if -1 ≤ exit.status then
      match exit.wrote with
      | none => some s
      | some node =>
        if s.files.entry (.gpg path) = none then some (s.setFiles (s.files.create (.gpg path) node))
        else none
    else none
  | .stat path, .found, s => if (s.files.entry path).isSome then some s else none
  | .stat path, .enoent, s => if s.files.entry path = none then some s else none
  | .unlink path, .removed, s =>
    if (s.files.entry path).isSome then some (s.setFiles (s.files.erase path)) else none
  | .unlink path, .enoent, s => if s.files.entry path = none then some s else none
  | .link old new, true, s =>
    if (s.files.entry old).isSome ∧ s.files.entry new = none then
      some (s.setFiles (s.files.hardLink old new))
    else none
  | .chmod path mode, true, s =>
    (s.files.entry path).map fun inode => s.setFiles (s.files.modify inode (Node.setMode mode))
  | .mkstemp, some created, s =>
    if s.globals.editorTmpPath = some .template ∧ s.files.entry (.tmp created.suffix) = none ∧
        created.fd = s.files.fresh then
      some ⟨s.files.create (.tmp created.suffix) ⟨[], 0o600⟩,
        { s.globals with editorTmpPath := some (.tmp created.suffix) }⟩
    else none
  | .write fd bytes, some count, s =>
    if count ≤ bytes.length then
      some (s.setFiles (s.files.modify fd (Node.mapBytes fun held => held ++ bytes.take count)))
    else none
  | .fopenWrite path, some stream, s =>
    match s.files.entry path with
    | some inode =>
      if stream = inode then
        some (s.setFiles (s.files.modify inode (Node.mapBytes fun _ => [])))
      else none
    | none =>
      if stream = s.files.fresh then some (s.setFiles (s.files.create path ⟨[], 0o644⟩)) else none
  | .fprintf stream bytes, true, s =>
    some (s.setFiles (s.files.modify stream (Node.mapBytes fun held => held ++ bytes)))
  | .fopenRead path, some stream, s =>
    if s.files.entry path = some stream then some s else none
  -- A read error ends the loop of the caller early, as the end of the file does.
  | .fgets (.file inode), bytes, s =>
    if bytes <+: (s.files.node inode).bytes then some s else none
  -- The run that is followed is the one of the process that called `fork`.
  | .fork, .child, _ => none
  | .signal .int disposition, _, s => some (s.setGlobals { s.globals with sigint := disposition })
  | .atexit, true, s => some (s.setGlobals { s.globals with atexit := true })
  | .nextHandler, registered, s =>
    if registered = s.globals.atexit then some (s.setGlobals { s.globals with atexit := false })
    else none
  | .sigreturn, _, s => some (s.setGlobals { s.globals with masked := false })
  | .editorTmpPath, path, s => if path = s.globals.editorTmpPath then some s else none
  | .arc4randomUniform bound, drawn, s => if drawn < bound then some s else none
  | .readString present, read, s => if read = present then some s else none
  | _, _, s => some s

/-- The child of a `fork` has a run of its own. -/
@[simp] theorem effect_fork_child (s : State) : effect .fork .child s = none := by
  simp only [effect]

end Mdp
