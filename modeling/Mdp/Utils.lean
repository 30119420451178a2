import Mdp.System

/-!
# Errors, debugging and watched processes

The functions of `utils.c`, `debug.c` and `xmalloc.c` that the other modules call.
-/

namespace Mdp

open Interaction CStrings

/-- The configuration a command runs with. -/
structure Config where
  /-- `debug_enabled`. -/
  debugEnabled : Bool
  /-- `cfg_backup`. -/
  backup : Bool
  /-- `cfg_editor`, which is `NULL` where `strdup` has failed. -/
  editor : Option Bytes
  /-- `cfg_gpg_path`. -/
  gpgPath : Bytes
  /-- `cfg_gpg_key_id`, which may be `NULL`. -/
  gpgKeyId : Option Bytes
  /-- `cfg_gpg_timeout`. -/
  gpgTimeout : UInt32

/-- Make one call. -/
def ask (request : Call) : Prog (Call.Answer request) := .call request .done

/-- `EXIT_FAILURE`. -/
def exitFailure : Nat := 1

/-- `err`: the message of `errno` that it adds is left out, and so are formatted arguments. -/
def err {α : Type} (status : Nat) (message : String) : Prog α := .halt (.exit status message)

/-- `errx`. -/
def errx {α : Type} (status : Nat) (message : String) : Prog α := .halt (.exit status message)

/-- An `if` around `err` or `errx`: exit unless a test succeeded. -/
def require (passed : Bool) (message : String) : Prog Unit :=
  if passed then .done () else err exitFailure message

/-- `xmalloc`, and `xcalloc` for a size that does not overflow. -/
def xmalloc : Prog Unit := do
  require (← ask .allocate) "xmalloc failed"

/-- A string is read through a pointer. A null pointer ends the process. -/
def readString {α : Type} (pointer : Option (List α)) : Prog (List α) := do
  if ← ask (.readString pointer.isSome) then pure (pointer.getD []) else .halt .crash

/-- `xasprintf`: what it formats is written where the string is used. -/
def xasprintf : Prog Unit := do
  require (← ask .allocate) "xvasprintf failed"

/-- The part of `debug` that is run if debugging is enabled. -/
def debugPrint (fmt : String) : Prog Unit := do
  let pid ← ask .getpid
  match ← ask .strftime with
  | none => errx exitFailure "strftime failed"
  | some tbuf => do
    xasprintf
    ask (.print ("[" ++ tbuf ++ "] [pid:" ++ toString pid ++ "] " ++ fmt))

/-- `debug`. -/
def debug (cfg : Config) (fmt : String) : Prog Unit :=
  if cfg.debugEnabled then debugPrint fmt else .done ()

/-- `file_exists`. -/
def fileExists (filepath : Path) : Prog Bool := do
  match ← ask (.stat filepath) with
  | .found => pure true
  | .enoent => pure false
  | .failed => err exitFailure "file_exists stat()"

/-- `cancel_pid_timeout`, for a watcher that was started. -/
def cancelPidTimeout (cfg : Config) (watcherPid : Nat) : Prog Unit := do
  debug cfg "cancel_pid_timeout on %d"
  match ← ask (.kill watcherPid .int) with
  | .sent => pure ()
  | .esrch => pure ()
  | .failed => err exitFailure "cancel_pid_timeout"

/-- What the child of `set_pid_timeout` does when its time is over. -/
def watcherTimeout (cfg : Config) (pid : Nat) : Prog Nat := do
  let parent ← ask .getppid
  match ← ask (.kill parent .zero) with
  | .sent => do
    debug cfg "set_pid_timeout kill(%d, SIGINT)"
    ask (.print "gpg timed out after %d seconds, aborting\n")
    match ← ask (.kill pid .int) with
    | .sent => .halt (.immediate 0)
    | _ => err exitFailure "set_pid_timeout child kill"
  | _ => do
    debug cfg "set_pid_timeout parent is gone, aborting"
    .halt (.immediate 0)

/-- The child of `set_pid_timeout`. It does not return. -/
def watcherChild (cfg : Config) (pid : Nat) (timeout : UInt32) : Prog Nat := do
  ask (.signal .int .default)
  ask (.signal .kill .default)
  debug cfg "set_pid_timeout sleep(%d)"
  ask (.sleep timeout)
  watcherTimeout cfg pid

/-- `set_pid_timeout`: the new value of `watcher_pid`. -/
def setPidTimeout (cfg : Config) (pid : Nat) (timeout : UInt32) : Prog Nat := do
  match ← ask .fork with
  | .failed => err exitFailure "set_pid_timeout fork()"
  | .child => watcherChild cfg pid timeout
  | .parent watcherPid => do
    let _ ← ask .getpid
    debug cfg "set_pid_timeout parent pid=%d, watcher pid=%d"
    pure watcherPid

end Mdp
