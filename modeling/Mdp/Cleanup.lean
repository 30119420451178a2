import Mdp.Utils

/-!
# The lock, and the end of a process

`lock.c` and `cleanup.c`, and what `exit` does with the one handler mdp registers.
-/

namespace Mdp

open Interaction CStrings

/-- `"%d"`. -/
def decimal (n : Nat) : Bytes := (Nat.toDigits 10 n).map fun digit => UInt8.ofNat digit.toNat

/-- `lock_exists`. -/
def lockExists : Prog Bool := fileExists .lock

/-- The part of `lock_set` after its check. A null stream is not looked for before it is used. -/
def lockCreate : Prog Unit := do
  let fp ← ask (.fopenWrite .lock)
  let pid ← ask .getpid
  match fp with
  | none => .halt .crash
  | some stream => do
    let _ ← ask (.fprintf stream (decimal pid))
    let _ ← ask (.fclose (.file stream))
    pure ()

/-- `lock_set`. -/
def lockSet : Prog Unit := do
  if ← lockExists then errx exitFailure "locked (%s)" else lockCreate

/-- The removal in `lock_unset`. -/
def lockRemove : Prog Unit := do
  match ← ask (.unlink .lock) with
  | .removed => pure ()
  | _ => err exitFailure "lock_unset:unlink()"

/-- `lock_unset`. -/
def lockUnset : Prog Unit := do
  if ← lockExists then lockRemove else pure ()

/-- The removal of the temporary file in `cleanup`, for a path that is not `NULL`. -/
def removeTmp (path : Path) : Prog Unit := do
  match ← ask (.unlink path) with
  | .removed => pure ()
  | _ => err exitFailure "unable to remove '%s'"

/-- The part of `cleanup` after `lock_unset`. -/
def cleanupTmp : Prog Unit := do
  match ← ask .editorTmpPath with
  | none => pure ()
  | some path => removeTmp path

/-- `cleanup`. Curses is never started by the commands modelled here, so `shutdown_curses` does
nothing. -/
def cleanup : Prog Unit := do
  lockUnset
  cleanupTmp

/-- `atexit_cleanup`. -/
def atexitCleanup (cfg : Config) : Prog Unit := do
  let _ ← ask .getpid
  debug cfg "atexit_cleanup (PID: %d)"
  cleanup

/-- `sig_cleanup`. -/
def sigCleanup (cfg : Config) : Prog Unit := do
  let _ ← ask .getpid
  debug cfg "sig_cleanup (PID: %d)"
  cleanup

/-- `exit` once it has taken the registered handler off its list: an `exit` inside the handler ends
the process. -/
def runHandler (cfg : Config) (ending : Ending) (registered : Bool) : Prog Unit :=
  if registered then do
    atexitCleanup cfg
    .halt ending
  else .halt ending

/-- `exit`. -/
def runHandlers (cfg : Config) (ending : Ending) : Prog Unit := do
  runHandler cfg ending (← ask .nextHandler)

/-- What a process does about an ending: only `exit` runs handlers. -/
def leave (cfg : Config) : Ending → Prog Unit
  | .exit status message => runHandlers cfg (.exit status message)
  | ending => .halt ending

/-- The program that runs when `SIGINT` is caught: the handler, and what its own endings lead
to, and the return from it. -/
def interrupt (cfg : Config) : Prog Unit := do
  (sigCleanup cfg).onHalt (leave cfg)
  ask .sigreturn

end Mdp
