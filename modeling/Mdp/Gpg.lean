import Mdp.Load

/-!
# Running gpg

`gpg.c`, and `load_results_gpg` of `results.c`. The globals `gpg_pid` and `watcher_pid` are set and
read within one load, so they are passed along.
-/

namespace Mdp

open Interaction CStrings

/-- `gpg_check`. -/
def gpgCheck (cfg : Config) : Prog Unit := do
  xasprintf
  let version ← ask (.system (.version cfg.gpgPath))
  require (version == 0) "unable to run gpg (check gpg_path)"
  xasprintf
  let keys ← ask (.system (.listSecretKeys cfg.gpgPath))
  require (keys == 0) "no gpg key found"
  require cfg.gpgKeyId.isSome "no gpg_key_id (use -k or ~/.mdp/config)."

/-- What `gpg_open` leaves behind once gpg was started. -/
structure GpgOpen where
  /-- Whether the stream it returns is not `NULL`. -/
  fp : Bool
  /-- `gpg_pid`. -/
  gpgPid : Nat
  /-- `watcher_pid`. -/
  watcherPid : Nat
  deriving DecidableEq, Repr

/-- `STDOUT_FILENO`. -/
def stdoutFileno : Nat := 1

/-- The end of the gpg child: it becomes gpg, or exits. -/
def gpgExec (cfg : Config) : Prog (Option GpgOpen) := do
  let _ ← ask .getpid
  debug cfg "gpg_open child pid: %d"
  if ← ask (.execlp cfg.gpgPath .passwordFile) then .halt .replaced
  else err exitFailure "couldn't execute"

/-- The gpg child. -/
def gpgChild (cfg : Config) (pout : Nat × Nat) : Prog (Option GpgOpen) := do
  require (← ask (.close pout.1)) "child close(pout[0])"
  require (← ask (.dup2 pout.2 stdoutFileno)) "dup2 (child stdout)"
  if pout.2 = stdoutFileno then gpgExec cfg
  else do
    require (← ask (.close pout.2)) "child close(pipe_out[1])"
    gpgExec cfg

/-- The rest of `gpg_open` in the parent. -/
def gpgParent (cfg : Config) (pout : Nat × Nat) (gpgPid : Nat) : Prog (Option GpgOpen) := do
  require (← ask (.close pout.2)) "close(pout[1])"
  let fp ← ask (.fdopen pout.1)
  let watcherPid ← setPidTimeout cfg gpgPid cfg.gpgTimeout
  pure (some ⟨fp, gpgPid, watcherPid⟩)

/-- The fork of `gpg_open`. -/
def gpgFork (cfg : Config) (pout : Nat × Nat) : Prog (Option GpgOpen) := do
  match ← ask .fork with
  | .failed => err exitFailure "gpg_decode fork"
  | .child => gpgChild cfg pout
  | .parent gpgPid => gpgParent cfg pout gpgPid

/-- The part of `gpg_open` for a password file that exists. -/
def gpgStart (cfg : Config) : Prog (Option GpgOpen) := do
  debug cfg "gpg_open %s %s"
  match ← ask .pipe with
  | none => err exitFailure "gpg_decode pipe(pout)"
  | some pout => gpgFork cfg pout

/-- `gpg_open`. -/
def gpgOpen (cfg : Config) : Prog (Option GpgOpen) := do
  if ← fileExists .passwordFile then gpgStart cfg
  else do
    debug cfg "gpg_open password file does not exist (yet)"
    pure none

/-- `gpg_close`. -/
def gpgClose (cfg : Config) (opened : GpgOpen) : Prog Nat := do
  debug cfg "gpg_close"
  require (← ask (.fclose .pipe)) "gpg_close fclose()"
  match ← ask (.waitpid opened.gpgPid) with
  | .signaled => errx exitFailure "gpg_close gpg interrupted"
  | .failed true => errx exitFailure "gpg_close gpg interrupted"
  | .failed false => err exitFailure "gpg_close wait()"
  | .exited retcode => do
    debug cfg "gpg_close return code: %d"
    cancelPidTimeout cfg opened.watcherPid
    pure retcode

/-- `load_results_gpg`, from the memory before it to the memory after it. A stream that could not
be opened is taken for a password file that does not exist. -/
def loadResultsGpg (cfg : Config) (L : CLocale) (memory : Memory) : Prog Memory := do
  match ← gpgOpen cfg with
  | none => pure memory
  | some opened =>
    if opened.fp then do
      let loaded ← loadResultsFp L memory (some .pipe)
      let retcode ← gpgClose cfg opened
      require (retcode == 0) "GnuPG returned with an error"
      pure loaded
    else pure memory

/-- `S_IRUSR | S_IWUSR`. -/
def ownerReadWrite : Nat := 0o600

/-- The backup in `gpg_encrypt`. -/
def backupPrevious (cfg : Config) : Prog Unit := do
  debug cfg "gpg_encrypt backup: %s"
  let previous ← ask (.unlink (.bak .passwordFile))
  require (previous != .failed) "gpg_encrypt backup unlink"
  require (← ask (.link .passwordFile (.bak .passwordFile))) "gpg_encrypt backup link"

/-- The part of `gpg_encrypt` for a password file that exists. -/
def unlinkPrevious (cfg : Config) : Prog Unit := do
  if cfg.backup then backupPrevious cfg else pure ()
  let previous ← ask (.unlink .passwordFile)
  require (previous == .removed) "gpg_encrypt unlink(cfg_password_file)"

/-- The part of `gpg_encrypt` that moves the encrypted file to its new location. -/
def moveEncrypted (tmpPath : Path) : Prog Unit := do
  xasprintf
  require (← ask (.link (.gpg tmpPath) .passwordFile))
    "gpg_encrypt link(tmp_encrypted_path=%s, cfg_password_file=%s)"
  require (← ask (.chmod .passwordFile ownerReadWrite)) "gpg_encrypt chmod"
  let moved ← ask (.unlink (.gpg tmpPath))
  require (moved == .removed) "gpg_encrypt unlink(tmp_encrypted_path)"

/-- `gpg_encrypt`. -/
def gpgEncrypt (cfg : Config) (tmpPath : Path) : Prog Unit := do
  xasprintf
  debug cfg "gpg_encrypt system(%s)"
  let encrypted ← ask (.system (.encrypt cfg.gpgPath cfg.gpgKeyId tmpPath))
  require (encrypted.status == 0) "gpg_encrypt system(%s) != 0"
  xasprintf
  if ← fileExists .passwordFile then unlinkPrevious cfg else pure ()
  moveEncrypted tmpPath

end Mdp
