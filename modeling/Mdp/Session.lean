import Mdp.Library.Protocol
import Mdp.Main

/-!
# The session protocol

What a process that runs `mdp edit` or `mdp add` is for, seen from outside: it takes the lock,
registers its cleanup, lets gpg decrypt the password file, lets the user edit a temporary file,
replaces the password file if the temporary file changed, and cleans up. A stage says how far it
has come and remembers what later calls depend on: the bytes gpg printed, the temporary file, the
bytes read back from it. The calls allowed at a stage carry the conditions under which the next
part may begin. `Mdp.Conformance` shows that the commands follow the protocol.
-/

namespace Mdp

open Interaction CStrings

/-- The stages of a process. -/
inductive Stage where
  /-- `lock_set` has not yet looked for the lock. -/
  | starting
  /-- `lock_set` has found no lock. -/
  | lockFree
  /-- `lock_set` has created the lock. -/
  | locked (stream : Nat)
  /-- `atexit_cleanup` is registered. -/
  | guarded
  /-- `gpg_open` has found the password file. -/
  | opening
  /-- gpg was started. -/
  | forked (gpgPid : Nat)
  /-- `fdopen` has answered. -/
  | timing (gpgPid : Nat) (fp : Bool)
  /-- The watcher was started. -/
  | streaming (gpgPid watcherPid : Nat) (fp : Bool)
  /-- What gpg printed was read. -/
  | read (gpgPid watcherPid : Nat) (printed : Bytes)
  /-- gpg has exited. -/
  | waited (watcherPid : Nat) (printed : Bytes) (status : Nat)
  /-- `gpg_open` has found no password file. -/
  | absent
  /-- The temporary file is being written. The source is what was loaded, if anything was. -/
  | dumping (source : Option Bytes) (created : Created) (written : Bytes)
  /-- The editor has exited. -/
  | edited (source : Option Bytes) (suffix : Nat) (status : Int)
  /-- `has_changed` has opened the temporary file. -/
  | comparing (source : Option Bytes) (suffix inode : Nat)
  /-- `has_changed` has read the temporary file. -/
  | compared (source : Option Bytes) (path : Path) (content : Bytes)
  /-- "No changes" was reported. -/
  | unchanged (path : Path)
  /-- gpg has encrypted the temporary file. -/
  | encrypted (path : Path) (status : Int)
  /-- `gpg_encrypt` has found the password file. -/
  | replacing (path : Path)
  /-- The previous backup is gone. -/
  | cleared (path : Path)
  /-- The password file is linked as its backup. -/
  | backedUp (path : Path)
  /-- There is no password file. -/
  | vacant (path : Path)
  /-- The encrypted file is linked as the password file. -/
  | installed (path : Path)
  /-- The password file has its permissions. -/
  | finished (path : Path)
  /-- `exit` runs `atexit_cleanup`. -/
  | cleaning
  /-- `lock_unset` has found the lock. -/
  | unlocking
  /-- `lock_unset` has returned. -/
  | unlocked
  /-- `cleanup` is about to remove the temporary file. -/
  | removing (path : Path)
  /-- `cleanup` has removed the temporary file. -/
  | over
  /-- `cleanup` has found nothing to remove, or could not remove it. -/
  | kept
  /-- The cleanup exited before the lock was removed. -/
  | stuck
  /-- The process uses a null pointer next. -/
  | broken
  /-- The process ends without a handler; whether it leaves its lock behind. -/
  | gone (held : Bool)
  /-- The process is the child that becomes gpg. -/
  | gpgChild
  /-- The process is the watcher. -/
  | watcher (gpgPid : Nat)
  /-- The process is a child in which something has failed. -/
  | strayed
  deriving DecidableEq

/-- What `edit_results` prints if nothing changed. -/
def noChanges : String := "No changes, exiting...\n"

namespace Stage

/-- Whether the process has created the lock and not removed it. -/
def inside : Stage → Bool
  | .starting => false
  | .lockFree => false
  | .unlocked => false
  | .removing _ => false
  | .over => false
  | .kept => false
  | .gone held => held
  | .gpgChild => false
  | .watcher _ => false
  | .strayed => false
  | _ => true

/-- Whether `exit` was called. -/
def leaving : Stage → Bool
  | .cleaning => true
  | .unlocking => true
  | .unlocked => true
  | .removing _ => true
  | .over => true
  | .kept => true
  | .stuck => true
  | _ => false

/-- What `edit_results` starts from: what was loaded, once loading is over. -/
def ready : Stage → Option (Option Bytes)
  | .absent => some none
  | .streaming _ _ false => some none
  | .waited _ printed 0 => some (some printed)
  | _ => none

/-- A call that children and handlers do not recover from has failed. -/
def failed : Stage → Stage
  | .cleaning => .stuck
  | .gpgChild => .strayed
  | .watcher _ => .strayed
  | stage => stage

/-- After a request for memory that is not checked. -/
def given (stage : Stage) : Bool → Stage
  | true => stage
  | false =>
    match stage.ready with
    | none => stage
    | some _ => .broken

/-- After a string was read through a pointer, or would have been. -/
def dereferenced : Stage → Bool → Stage
  | .dumping _ _ _, false => .broken
  | stage, present => stage.given present

/-- After `stat`. -/
def looked : Stage → Path → Lookup → Stage
  | .starting, .lock, .enoent => .lockFree
  | .guarded, .passwordFile, .found => .opening
  | .guarded, .passwordFile, .enoent => .absent
  | .encrypted path _, .passwordFile, .found => .replacing path
  | .encrypted path _, .passwordFile, .enoent => .vacant path
  | .cleaning, .lock, .found => .unlocking
  | .cleaning, .lock, .enoent => .unlocked
  | .cleaning, .lock, .failed => .stuck
  | stage, _, _ => stage

/-- After `unlink`. -/
def unlinked : Stage → Path → Removal → Stage
  | .replacing path, .bak _, .removed => .cleared path
  | .replacing path, .bak _, .enoent => .cleared path
  | .replacing path, .passwordFile, .removed => .vacant path
  | .backedUp path, .passwordFile, .removed => .vacant path
  | .unlocking, .lock, .removed => .unlocked
  | .unlocking, .lock, _ => .stuck
  | .removing _, _, .removed => .over
  | .removing _, _, _ => .kept
  | stage, _, _ => stage

/-- After `link`. -/
def linked : Stage → Bool → Stage
  | .cleared path, true => .backedUp path
  | .vacant path, true => .installed path
  | stage, _ => stage

/-- After `chmod`. -/
def restricted : Stage → Bool → Stage
  | .installed path, true => .finished path
  | stage, _ => stage

/-- After `mkstemp`. -/
def created (stage : Stage) : Option Created → Stage
  | none => stage
  | some created =>
    match stage.ready with
    | none => stage
    | some source => .dumping source created []

/-- After `write`. -/
def wrote : Stage → Bytes → Option Nat → Stage
  | .dumping source created written, bytes, some _ => .dumping source created (written ++ bytes)
  | stage, _, _ => stage

/-- After the editor. -/
def edit : Stage → Int → Stage
  | .dumping source created _, status => .edited source created.suffix status
  | stage, _ => stage

/-- After `gpg -e`. -/
def encrypt : Stage → Int → Stage
  | .compared _ path _, status => .encrypted path status
  | stage, _ => stage

/-- After `fopen` for reading. -/
def reopened : Stage → Option Nat → Stage
  | .edited source suffix _, some inode => .comparing source suffix inode
  | .edited _ _ _, none => .broken
  | stage, _ => stage

/-- After `fopen` for writing. -/
def opened : Stage → Option Nat → Stage
  | .lockFree, some stream => .locked stream
  | .lockFree, none => .gone false
  | stage, _ => stage

/-- After a stream was read. -/
def drained : Stage → Bytes → Stage
  | .streaming gpgPid watcherPid true, bytes => .read gpgPid watcherPid bytes
  | .comparing source suffix _, bytes => .compared source (.tmp suffix) bytes
  | stage, _ => stage

/-- After `waitpid`. -/
def reaped : Stage → Wait → Stage
  | .read _ watcherPid printed, .exited status => .waited watcherPid printed status
  | stage, _ => stage

/-- After `fork`. -/
def forks : Stage → Fork → Stage
  | .opening, .parent pid => .forked pid
  | .opening, .child => .gpgChild
  | .timing gpgPid fp, .parent pid => .streaming gpgPid pid fp
  | .timing gpgPid _, .child => .watcher gpgPid
  | stage, _ => stage

/-- After `fdopen`. -/
def adopted : Stage → Bool → Stage
  | .forked gpgPid, fp => .timing gpgPid fp
  | stage, _ => stage

/-- After `kill`. -/
def killed : Stage → Signal → Killed → Stage
  | .watcher gpgPid, .int, .sent => .watcher gpgPid
  | .watcher _, .int, _ => .strayed
  | stage, _, _ => stage

/-- After `atexit`. -/
def registered : Stage → Bool → Stage
  | .locked _, true => .guarded
  | stage, _ => stage

/-- After a message. -/
def printed : Stage → String → Stage
  | .compared source path content, text =>
    if text = noChanges then .unchanged path else .compared source path content
  | stage, _ => stage

/-- After `exit` took a handler off its list, or found none. -/
def exiting : Stage → Bool → Stage
  | .gpgChild, _ => .strayed
  | .watcher _, _ => .strayed
  | .strayed, _ => .strayed
  | _, true => .cleaning
  | stage, false => .gone stage.inside

/-- After `cleanup` has read `editor_tmp_path`. -/
def named : Stage → Option Path → Stage
  | .unlocked, some path => .removing path
  | .unlocked, none => .over
  | stage, _ => stage

/-- The stage after an answer. -/
def advance (stage : Stage) : (request : Call) → Call.Answer request → Stage
  | .allocate, ok => if ok then stage else stage.failed
  | .strftime, text => if text.isSome then stage else stage.failed
  | .close _, ok => if ok then stage else stage.failed
  | .dup2 _ _, ok => if ok then stage else stage.failed
  | .execlp _ _, ok => if ok then stage else stage.failed
  | .calloc, ok => stage.given ok
  | .readString _, present => stage.dereferenced present
  | .stat path, lookup => stage.looked path lookup
  | .unlink path, removal => stage.unlinked path removal
  | .link _ _, ok => stage.linked ok
  | .chmod _ _, ok => stage.restricted ok
  | .mkstemp, made => stage.created made
  | .write _ bytes, count => stage.wrote bytes count
  | .system (.edit _ _), exit => stage.edit exit.status
  | .system (.encrypt _ _ _), exit => stage.encrypt exit.status
  | .fopenRead _, inode => stage.reopened inode
  | .fopenWrite _, stream => stage.opened stream
  | .fgets _, bytes => stage.drained bytes
  | .waitpid _, wait => stage.reaped wait
  | .fork, fork => stage.forks fork
  | .fdopen _, ok => stage.adopted ok
  | .kill _ signal, killed => stage.killed signal killed
  | .atexit, ok => stage.registered ok
  | .print text, _ => stage.printed text
  | .nextHandler, registered => stage.exiting registered
  | .editorTmpPath, path => stage.named path
  | _, _ => stage

end Stage

/-- Calls that are allowed at every stage: they touch no file and no global. -/
def Call.Neutral : Call → Prop
  | .allocate => True
  | .strftime => True
  | .system (.version _) => True
  | .system (.listSecretKeys _) => True
  | .close _ => True
  | .fclose _ => True
  | .pipe => True
  | .dup2 _ _ => True
  | .kill _ .zero => True
  | .signal .kill _ => True
  | .sleep _ => True
  | .getpid => True
  | .getppid => True
  | .arc4randomUniform _ => True
  | .swprintf => True
  | .print text => text ≠ noChanges
  | _ => False

/-- `result_crc32` after the source was loaded. -/
def sourceCrc : Option Bytes → UInt32
  | none => 0
  | some printed => checksum printed

/-- What `mdp edit` writes to the temporary file for a source. -/
def shown (L : CLocale) : Option Bytes → Bytes
  | none => []
  | some printed =>
    match loadContent L .initial printed with
    | .ok loaded => dump loaded.results
    | .error _ => []

/-- The calls allowed at each stage. -/
inductive Allowed (cfg : Config) (L : CLocale) (command : Command.Edits) : Stage → Call → Prop where
  | neutral {stage : Stage} {request : Call} (neutral : request.Neutral) :
      Allowed cfg L command stage request
  | lookForLock : Allowed cfg L command .starting (.stat .lock)
  | createLock : Allowed cfg L command .lockFree (.fopenWrite .lock)
  | writeLock {stream : Nat} {bytes : Bytes} :
      Allowed cfg L command (.locked stream) (.fprintf stream bytes)
  | register {stream : Nat} : Allowed cfg L command (.locked stream) .atexit
  | catchInt : Allowed cfg L command .guarded (.signal .int .cleanup)
  | lookForPasswords : Allowed cfg L command .guarded (.stat .passwordFile)
  | forkGpg : Allowed cfg L command .opening .fork
  | openPipe {gpgPid fd : Nat} : Allowed cfg L command (.forked gpgPid) (.fdopen fd)
  | forkWatcher {gpgPid : Nat} {fp : Bool} : Allowed cfg L command (.timing gpgPid fp) .fork
  | readPipe {gpgPid watcherPid : Nat} :
      Allowed cfg L command (.streaming gpgPid watcherPid true) (.fgets .pipe)
  | wait {gpgPid watcherPid : Nat} {printed : Bytes} :
      Allowed cfg L command (.read gpgPid watcherPid printed) (.waitpid gpgPid)
  | cancel {watcherPid status : Nat} {printed : Bytes} :
      Allowed cfg L command (.waited watcherPid printed status) (.kill watcherPid .int)
  /-- The temporary file is only made once loading is over, with gpg's status zero. -/
  | makeTmp {stage : Stage} {source : Option Bytes} (ready : stage.ready = some source) :
      Allowed cfg L command stage .mkstemp
  /-- Passwords are only generated once loading is over. -/
  | joinLine {stage : Stage} {source : Option Bytes} (ready : stage.ready = some source) :
      Allowed cfg L command stage .calloc
  /-- So are they before the characters of a profile are read. -/
  | readSet {stage : Stage} {source : Option Bytes} {present : Bool}
      (ready : stage.ready = some source) : Allowed cfg L command stage (.readString present)
  | readEditor {source : Option Bytes} {created : Created} {written : Bytes} {present : Bool} :
      Allowed cfg L command (.dumping source created written) (.readString present)
  | dump {source : Option Bytes} {created : Created} {written bytes : Bytes} :
      Allowed cfg L command (.dumping source created written) (.write created.fd bytes)
  /-- The editor of `mdp edit` is given the whole dump of the source. -/
  | edit {source : Option Bytes} {created : Created} {written editor : Bytes}
      (whole : command = .edit → written = shown L source) :
      Allowed cfg L command (.dumping source created written)
        (.system (.edit editor (.tmp created.suffix)))
  /-- The temporary file is only looked at if `system` did not fail and the editor's status is
  not positive. -/
  | reopen {source : Option Bytes} {suffix : Nat} {status : Int} (ran : status ≠ -1)
      (fine : ¬ status > 0) :
      Allowed cfg L command (.edited source suffix status) (.fopenRead (.tmp suffix))
  | reread {source : Option Bytes} {suffix inode : Nat} :
      Allowed cfg L command (.comparing source suffix inode) (.fgets (.file inode))
  /-- Only a temporary file with another checksum is encrypted. -/
  | encrypt {source keyId : Option Bytes} {path : Path} {content gpgPath : Bytes}
      (changed : checksum content ≠ sourceCrc source) :
      Allowed cfg L command (.compared source path content)
        (.system (.encrypt gpgPath keyId path))
  | report {source : Option Bytes} {path : Path} {content : Bytes}
      (same : checksum content = sourceCrc source) :
      Allowed cfg L command (.compared source path content) (.print noChanges)
  /-- The password file is only replaced after gpg's status zero. -/
  | lookAgain {path : Path} : Allowed cfg L command (.encrypted path 0) (.stat .passwordFile)
  | clearBackup {path : Path} (backup : cfg.backup = true) :
      Allowed cfg L command (.replacing path) (.unlink (.bak .passwordFile))
  | backUp {path : Path} :
      Allowed cfg L command (.cleared path) (.link .passwordFile (.bak .passwordFile))
  /-- Without `cfg_backup` the password file is unlinked right away. -/
  | unlinkPlain {path : Path} (plain : cfg.backup = false) :
      Allowed cfg L command (.replacing path) (.unlink .passwordFile)
  | unlinkBackedUp {path : Path} :
      Allowed cfg L command (.backedUp path) (.unlink .passwordFile)
  | install {path : Path} : Allowed cfg L command (.vacant path) (.link (.gpg path) .passwordFile)
  | protect {path : Path} :
      Allowed cfg L command (.installed path) (.chmod .passwordFile ownerReadWrite)
  | tidy {path : Path} : Allowed cfg L command (.finished path) (.unlink (.gpg path))
  | becomeGpg {file : Bytes} {path : Path} : Allowed cfg L command .gpgChild (.execlp file path)
  | resetInt {gpgPid : Nat} : Allowed cfg L command (.watcher gpgPid) (.signal .int .default)
  | interruptGpg {gpgPid : Nat} : Allowed cfg L command (.watcher gpgPid) (.kill gpgPid .int)

/-- The calls of `cleanup`. -/
inductive AllowedCleaning : Stage → Call → Prop where
  | findLock : AllowedCleaning .cleaning (.stat .lock)
  | removeLock : AllowedCleaning .unlocking (.unlink .lock)
  | readTmpPath : AllowedCleaning .unlocked .editorTmpPath
  | removeTmp {path : Path} : AllowedCleaning (.removing path) (.unlink path)

/-- The calls of `exit`, which is called once. -/
inductive AllowedLeaving : Stage → Call → Prop where
  | leave {stage : Stage} (first : stage.leaving = false) : AllowedLeaving stage .nextHandler
  | clean {stage : Stage} {request : Call} (inside : AllowedCleaning stage request) :
      AllowedLeaving stage request
  /-- Nothing is promised about a child in which something has failed. -/
  | stray {request : Call} : AllowedLeaving .strayed request

/-- The protocol of a command. -/
def session (cfg : Config) (L : CLocale) (command : Command.Edits) : Protocol posix Stage where
  allowed := Allowed cfg L command
  advance := Stage.advance

/-- The protocol of a handler that cleans up. -/
def handling : Protocol posix Stage where
  allowed stage request := request.Neutral ∨ AllowedCleaning stage request
  advance := Stage.advance

/-- The protocol of a process that runs a command and then exits. -/
def lifetime (cfg : Config) (L : CLocale) (command : Command.Edits) : Protocol posix Stage where
  allowed stage request := Allowed cfg L command stage request ∨ AllowedLeaving stage request
  advance := Stage.advance

/-- Where a program may end, before `exit` runs its handler: with status zero only once nothing
was found to have changed or the password file was replaced; what is not an `exit` has its own
stages. -/
def MayLeave : Ending → Stage → Prop
  | .exit 0 _, stage => (∃ path, stage = .unchanged path) ∨ ∃ path, stage = .finished path
  | .exit (_ + 1) _, _ => True
  | .crash, stage => stage = .gone false ∨ stage = .broken ∨ stage = .strayed
  | .immediate _, stage => (∃ gpgPid, stage = .watcher gpgPid) ∨ stage = .strayed
  | .replaced, stage => stage = .gpgChild ∨ stage = .strayed

/-- Where a process may end. -/
def MayEnd : Ending → Stage → Prop
  | .exit _ _, stage => (∃ held, stage = .gone held) ∨ stage = .over ∨ stage = .kept ∨
      stage = .stuck ∨ stage = .strayed
  | ending, stage => MayLeave ending stage

end Mdp
