import Mdp.Main

/-!
# Scenarios

An environment in which every call succeeds, for runs that are played. A scenario changes some of
its answers.
-/

namespace Mdp

open Interaction CStrings HardLinks

/-- Answers every call truthfully and with success. gpg prints nothing, writes one byte, and the
editor leaves its file as it is. -/
def succeeding : Oracle posix State
  | .allocate, _ => true
  | .calloc, _ => true
  | .readString present, _ => present
  | .strftime, _ => some ""
  | .system (.version _), _ => 0
  | .system (.listSecretKeys _), _ => 0
  | .system (.edit _ _), _ => ⟨0, .untouched⟩
  | .system (.encrypt _ _ _), _ => ⟨0, some ⟨[0x65], 0o644⟩⟩
  | .stat path, s => if (s.files.entry path).isSome then .found else .enoent
  | .unlink path, s => if (s.files.entry path).isSome then .removed else .enoent
  | .link old new, s => (s.files.entry old).isSome && (s.files.entry new).isNone
  | .chmod path _, s => (s.files.entry path).isSome
  | .mkstemp, s => some ⟨0, s.files.fresh⟩
  | .write _ bytes, _ => some bytes.length
  | .close _, _ => true
  | .fopenWrite path, s => some ((s.files.entry path).getD s.files.fresh)
  | .fprintf _ _, _ => true
  | .fopenRead path, s => s.files.entry path
  | .fgets .pipe, _ => []
  | .fgets (.file inode), s => (s.files.node inode).bytes
  | .fclose _, _ => true
  | .pipe, _ => some (3, 4)
  | .fork, _ => .parent 2
  | .dup2 _ _, _ => true
  | .execlp _ _, _ => true
  | .fdopen _, _ => true
  | .waitpid _, _ => .exited 0
  | .kill _ _, _ => .sent
  | .signal _ _, _ => ()
  | .sleep _, _ => ()
  | .getpid, _ => 1
  | .getppid, _ => 1
  | .atexit, _ => true
  | .nextHandler, s => s.globals.atexit
  | .sigreturn, _ => ()
  | .editorTmpPath, s => s.globals.editorTmpPath
  | .arc4randomUniform _, _ => 0
  | .swprintf, _ => true
  | .print _, _ => ()

/-- The same answers, with gpg printing some bytes. -/
def printing (printed : Bytes) : Oracle posix State
  | .fgets .pipe, _ => printed
  | request, s => succeeding request s

/-- The ending of a program that has halted. -/
def haltedWith : Prog Unit → Option Ending
  | .halt ending => some ending
  | _ => none

/-- A program that has halted so is that halt. -/
theorem eq_halt_of_haltedWith {q : Prog Unit} {ending : Ending}
    (halted : haltedWith q = some ending) : q = .halt ending := by
  cases q with
  | halt found =>
    simp only [haltedWith, Option.some.injEq] at halted
    rw [halted]
  | done value => simp [haltedWith] at halted
  | call request next => simp [haltedWith] at halted

/-- The only name of the sample directory is that of the password file, if it is there. -/
def sampleEntry (present : Bool) : Path → Option Nat
  | .passwordFile => if present then some 0 else none
  | _ => none

/-- There is one file at most. -/
theorem sampleEntry_bounded (present : Bool) (path : Path) (inode : Nat)
    (bound : sampleEntry present path = some inode) : inode < 1 := by
  unfold sampleEntry at bound
  split at bound
  · simp only [Option.ite_none_right_eq_some, Option.some.injEq] at bound
    omega
  · contradiction

/-- A directory with a password file of one byte, or with no file at all. -/
def sampleFiles (present : Bool) : Files where
  entry := sampleEntry present
  node _ := ⟨[0x70], 0o600⟩
  fresh := 1
  bounded := sampleEntry_bounded present

/-- A process that starts in such a directory. -/
def sampleState (present : Bool) : State := ⟨sampleFiles present, .initial⟩

/-- A configuration without debugging, with a key. -/
def sampleConfig (backup : Bool) : Config where
  debugEnabled := false
  backup := backup
  editor := some [0x76, 0x69]
  gpgPath := [0x67, 0x70, 0x67]
  gpgKeyId := some [0x6b]
  gpgTimeout := 20

end Mdp
