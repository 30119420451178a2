import Mdp.Conformance
import Mdp.Frame
import Mdp.Scenario

/-!
# Replacing the password file

`gpg_encrypt` makes the backup by linking, frees the name of the password file by unlinking it,
and links the encrypted file there. Contents are never written in place, so what each name reads as
follows from the names alone. Between the unlink and the link there is no password file; the old
contents are then in the backup, if there is one, and the new ones in gpg's output.
-/

namespace Mdp.Replacement

open Interaction CStrings HardLinks

/-- One call of a run, its answer and the state after it. -/
abbrev Step := Entry posix State

/-- What is noted of the steps of a run of `gpg_encrypt`. -/
structure Noted where
  /-- The contents of gpg's output when `gpg -e` ended. -/
  ciphertext : Option Bytes
  /-- Whether the password file was unlinked and no file linked in its place since. -/
  between : Bool
  /-- The contents last linked as the password file, or else those found there at first. -/
  installed : Option Bytes

/-- What a step adds to the notes. -/
def note (path : Path) (step : Step) (noted : Noted) : Noted :=
  match step with
  | ⟨.system (.encrypt _ _ _), _, after⟩ => { noted with ciphertext := bytesAt after (.gpg path) }
  | ⟨.unlink .passwordFile, .removed, _⟩ => { noted with between := true }
  | ⟨.link _ .passwordFile, true, after⟩ =>
    { noted with between := false, installed := bytesAt after .passwordFile }
  | _ => noted

/-- The runs of `gpg_encrypt`, with notes. -/
abbrev noting (path : Path) : Effect posix (Noted × State) := effect.record (note path)

/-- A neutral call adds nothing to the notes. -/
theorem note_neutral {path : Path} {request : Call} (neutral : request.Neutral)
    (answer : Call.Answer request) (after : State) (noted : Noted) :
    note path ⟨request, answer, after⟩ noted = noted := by
  unfold note
  split <;> first | rfl | (rename_i same; cases same; exact neutral.elim)

section Invariant

variable (backup : Bool) (path : Path) (first previous found : Option Bytes)

/-- What a run that started with these contents of the password file and of its backup may rely on
once the password file was replaced. -/
def Kept (s : State) : Prop :=
  (first = none ∧ bytesAt s (.bak .passwordFile) = previous) ∨
    (first ≠ none ∧ (backup = true → bytesAt s (.bak .passwordFile) = first))

/-- Up to the first change of the password file. -/
structure Waiting (noted : Noted) (s : State) : Prop where
  between : noted.between = false
  installed : noted.installed = found
  ciphertext : noted.ciphertext = bytesAt s (.gpg path)
  password : bytesAt s .passwordFile = first

/-- The stages of `gpg_encrypt`. -/
def Invariant : Stage → Noted × State → Prop
  | .compared source p content, (noted, s) => p = path ∧ checksum content ≠ sourceCrc source ∧
      noted.between = false ∧ noted.installed = found ∧
      bytesAt s .passwordFile = first ∧ bytesAt s (.bak .passwordFile) = previous
  | .encrypted p _, (noted, s) => p = path ∧ Waiting path first found noted s ∧
      bytesAt s (.bak .passwordFile) = previous
  | .replacing p, (noted, s) => p = path ∧ Waiting path first found noted s ∧ first ≠ none
  | .cleared p, (noted, s) => p = path ∧ Waiting path first found noted s ∧ first ≠ none
  | .backedUp p, (noted, s) => p = path ∧ Waiting path first found noted s ∧ first ≠ none ∧
      bytesAt s (.bak .passwordFile) = first
  | .vacant p, (noted, s) => p = path ∧ noted.installed = found ∧
      noted.ciphertext = bytesAt s (.gpg path) ∧ bytesAt s .passwordFile = none ∧
      (first ≠ none → noted.between = true) ∧ Kept backup first previous s
  | .installed p, (noted, s) => p = path ∧ noted.between = false ∧
      bytesAt s .passwordFile = noted.ciphertext ∧ noted.ciphertext ≠ none ∧
      noted.installed = noted.ciphertext ∧ Kept backup first previous s
  | .finished p, (noted, s) => p = path ∧ noted.between = false ∧
      bytesAt s .passwordFile = noted.ciphertext ∧ noted.ciphertext ≠ none ∧
      noted.installed = noted.ciphertext ∧ Kept backup first previous s
  | _, _ => False

end Invariant

/-- Removing a name keeps the content under another. -/
theorem bytesAt_erase_other {s : State} {name other : Path} (different : other ≠ name) :
    bytesAt (s.setFiles (s.files.erase name)) other = bytesAt s other := by
  simp [bytesAt, different]

/-- There is no content under a name that was removed. -/
theorem bytesAt_erase_self {s : State} {name : Path} :
    bytesAt (s.setFiles (s.files.erase name)) name = none := by
  simp [bytesAt]

/-- A link has the content of the file it links to. -/
theorem bytesAt_hardLink_new {s : State} {old new : Path} :
    bytesAt (s.setFiles (s.files.hardLink old new)) new = bytesAt s old := by
  simp [bytesAt]

/-- A link keeps the content under another name. -/
theorem bytesAt_hardLink_other {s : State} {old new other : Path} (different : other ≠ new) :
    bytesAt (s.setFiles (s.files.hardLink old new)) other = bytesAt s other := by
  simp [bytesAt, different]

/-- A new file keeps the content under another name. -/
theorem bytesAt_create_other {s : State} {name other : Path} {node : Node}
    (different : other ≠ name) :
    bytesAt (s.setFiles (s.files.create name node)) other = bytesAt s other := by
  simp [bytesAt, different]

/-- A change of a mode is no change of contents. -/
theorem bytesAt_setMode {s : State} {inode mode : Nat} {other : Path} :
    bytesAt (s.setFiles (s.files.modify inode (Node.setMode mode))) other = bytesAt s other :=
  Directory.modify_read_map s.files other Node.bytes inode fun _ => rfl

/-- A name without an entry has no contents, and one with an entry has some. -/
theorem bytesAt_eq_none {s : State} {path : Path} :
    bytesAt s path = none ↔ s.files.entry path = none := by
  simp [bytesAt]

/-- There is content under a name that is bound. -/
theorem bytesAt_ne_none {s : State} {path : Path} (bound : (s.files.entry path).isSome) :
    bytesAt s path ≠ none := by
  rw [ne_eq, bytesAt_eq_none]
  intro absent
  simp [absent] at bound

variable {cfg : Config} {L : CLocale} {command : Command.Edits}
  {path : Path} {first previous found : Option Bytes}

/-- Every call that the protocol allows keeps the invariant. -/
theorem invariant_step {stage : Stage} {request : Call} {answer : Call.Answer request}
    {x x' : Noted × State} (allowed : Allowed cfg L command stage request)
    (taken : noting path request answer x = some x')
    (holds : Invariant cfg.backup path first previous found stage x) :
    Invariant cfg.backup path first previous found (stage.advance request answer) x' := by
  obtain ⟨noted, s⟩ := x
  obtain ⟨noted', s'⟩ := x'
  obtain ⟨done, added⟩ := Effect.record_eq_some.mp taken
  simp only at done added
  subst added
  cases allowed with
  | neutral neutral =>
    have sturdy : stage.failed = stage := by
      cases stage <;> first | rfl | exact holds.elim
    rw [Stage.advance_neutral_of_failed sturdy neutral, note_neutral neutral,
      effect_neutral neutral done]
    exact holds
  | encrypt changed =>
    obtain ⟨rfl, _, waits, same, password, kept⟩ := holds
    rcases effect_encrypt done with ⟨_, rfl⟩ | ⟨node, _, _, rfl⟩
    · exact ⟨rfl, ⟨waits, same, rfl, password⟩, kept⟩
    · refine ⟨rfl, ⟨waits, same, rfl, ?_⟩, ?_⟩
      · rw [bytesAt_create_other (by simp)]
        exact password
      · rw [bytesAt_create_other (by simp)]
        exact kept
  | report same => exact absurd same holds.2.1
  | lookAgain =>
    obtain ⟨rfl, waiting, kept⟩ := holds
    obtain ⟨rfl, present, missing⟩ := effect_stat done
    cases answer with
    | found =>
      refine ⟨rfl, waiting, ?_⟩
      rw [← waiting.password]
      exact bytesAt_ne_none (present rfl)
    | enoent =>
      have absent : first = none := by
        rw [← waiting.password, bytesAt_eq_none]
        exact missing rfl
      exact ⟨rfl, waiting.installed, waiting.ciphertext, bytesAt_eq_none.mpr (missing rfl),
        fun exist => absurd absent exist, .inl ⟨absent, kept⟩⟩
    | failed => exact ⟨rfl, waiting, kept⟩
  | clearBackup backup =>
    obtain ⟨rfl, waiting, exist⟩ := holds
    rcases effect_unlink done with ⟨rfl, rfl⟩ | ⟨rfl, _, rfl⟩ | ⟨rfl, rfl⟩
    · refine ⟨rfl, ⟨waiting.between, waiting.installed, ?_, ?_⟩, exist⟩
      · rw [bytesAt_erase_other (by simp)]
        exact waiting.ciphertext
      · rw [bytesAt_erase_other (by simp)]
        exact waiting.password
    · exact ⟨rfl, waiting, exist⟩
    · exact ⟨rfl, waiting, exist⟩
  | backUp =>
    obtain ⟨rfl, waiting, exist⟩ := holds
    rcases effect_link done with ⟨rfl, _, _, rfl⟩ | ⟨rfl, rfl⟩
    · refine ⟨rfl, ⟨waiting.between, waiting.installed, ?_, ?_⟩, exist, ?_⟩
      · rw [bytesAt_hardLink_other (by simp)]
        exact waiting.ciphertext
      · rw [bytesAt_hardLink_other (by simp)]
        exact waiting.password
      · rw [bytesAt_hardLink_new]
        exact waiting.password
    · exact ⟨rfl, waiting, exist⟩
  | unlinkPlain plain =>
    obtain ⟨rfl, waiting, exist⟩ := holds
    rcases effect_unlink done with ⟨rfl, rfl⟩ | ⟨rfl, _, rfl⟩ | ⟨rfl, rfl⟩
    · refine ⟨rfl, waiting.installed, ?_, bytesAt_erase_self, fun _ => rfl,
        .inr ⟨exist, by simp [plain]⟩⟩
      rw [bytesAt_erase_other (by simp)]
      exact waiting.ciphertext
    · exact ⟨rfl, waiting, exist⟩
    · exact ⟨rfl, waiting, exist⟩
  | unlinkBackedUp =>
    obtain ⟨rfl, waiting, exist, backed⟩ := holds
    rcases effect_unlink done with ⟨rfl, rfl⟩ | ⟨rfl, _, rfl⟩ | ⟨rfl, rfl⟩
    · refine ⟨rfl, waiting.installed, ?_, bytesAt_erase_self, fun _ => rfl,
        .inr ⟨exist, fun _ => ?_⟩⟩
      · rw [bytesAt_erase_other (by simp)]
        exact waiting.ciphertext
      · rw [bytesAt_erase_other (by simp)]
        exact backed
    · exact ⟨rfl, waiting, exist, backed⟩
    · exact ⟨rfl, waiting, exist, backed⟩
  | @install p =>
    obtain ⟨rfl, installed, ciphertext, vacant, free, kept⟩ := holds
    rcases effect_link done with ⟨rfl, bound, _, rfl⟩ | ⟨rfl, rfl⟩
    · have new : bytesAt (s.setFiles (s.files.hardLink (.gpg p) .passwordFile)) .passwordFile =
          bytesAt s (.gpg p) := bytesAt_hardLink_new
      refine ⟨rfl, rfl, ?_, ?_, ?_, ?_⟩
      · rw [new]
        exact ciphertext.symm
      · exact fun absent => bytesAt_ne_none bound (ciphertext.symm.trans absent)
      · exact new.trans ciphertext.symm
      · unfold Kept
        rw [bytesAt_hardLink_other (by simp)]
        exact kept
    · exact ⟨rfl, installed, ciphertext, vacant, free, kept⟩
  | protect =>
    obtain ⟨rfl, free, password, present, installed, kept⟩ := holds
    rcases effect_chmod done with ⟨rfl, inode, _, rfl⟩ | ⟨rfl, rfl⟩
    · refine ⟨rfl, free, ?_, present, installed, ?_⟩
      · rw [bytesAt_setMode]
        exact password
      · unfold Kept
        rw [bytesAt_setMode]
        exact kept
    · exact ⟨rfl, free, password, present, installed, kept⟩
  | tidy =>
    obtain ⟨rfl, free, password, present, installed, kept⟩ := holds
    rcases effect_unlink done with ⟨rfl, rfl⟩ | ⟨rfl, _, rfl⟩ | ⟨rfl, rfl⟩
    · refine ⟨rfl, free, ?_, present, installed, ?_⟩
      · rw [bytesAt_erase_other (by simp)]
        exact password
      · unfold Kept
        rw [bytesAt_erase_other (by simp)]
        exact kept
    · exact ⟨rfl, free, password, present, installed, kept⟩
    · exact ⟨rfl, free, password, present, installed, kept⟩
  | joinLine ready =>
    cases stage <;> first | exact holds.elim | (simp [Stage.ready] at ready)
  | readSet ready =>
    cases stage <;> first | exact holds.elim | (simp [Stage.ready] at ready)
  | makeTmp ready =>
    cases stage <;> first | exact holds.elim | (simp [Stage.ready] at ready)
  | _ => exact holds.elim

/-- The notes at the start of a run. -/
def Noted.start (found : Option Bytes) : Noted := ⟨none, false, found⟩

/-- Every run of `gpg_encrypt` keeps the invariant. -/
theorem invariant_run {q : Prog Unit} {s s' : State} {noted : Noted}
    (run : Reaches (noting path) (gpgEncrypt cfg path) (.start found, s) q (noted, s')) :
    ∃ stage, Conforms cfg .ascii .edit q stage (fun _ stage' => stage' = .finished path) ∧
      Invariant cfg.backup path (bytesAt s .passwordFile) (bytesAt s (.bak .passwordFile)) found
        stage (noted, s') := by
  have changed : checksum [] ≠ sourceCrc none := cksum_nil_ne_zero
  exact Program.Follows.reaches (fun _ _ _ _ _ => invariant_step) run
    (gpgEncrypt_conforms changed) ⟨rfl, changed, rfl, rfl, rfl, rfl⟩

/-- Wherever `gpg_encrypt` stops, the password file has its old contents or the new ones, or it is
between its unlink and a link; then the new contents are in gpg's output, and with `cfg_backup`
the old ones in the backup. -/
theorem gpgEncrypt_password (cfg : Config) (path : Path) {s s' : State} {old : Bytes}
    (existing : bytesAt s .passwordFile = some old) {q : Prog Unit} {noted : Noted}
    (run : Reaches (noting path) (gpgEncrypt cfg path) (.start (some old), s) q (noted, s')) :
    bytesAt s' .passwordFile = some old ∨
    (bytesAt s' .passwordFile = noted.ciphertext ∧ noted.ciphertext ≠ none) ∨
    (noted.between = true ∧ bytesAt s' .passwordFile = none ∧
      bytesAt s' (.gpg path) = noted.ciphertext ∧
      (cfg.backup = true → bytesAt s' (.bak .passwordFile) = some old)) := by
  obtain ⟨stage, _, holds⟩ := invariant_run run
  rw [existing] at holds
  cases stage with
  | compared source p content => exact .inl holds.2.2.2.2.1
  | encrypted p status => exact .inl holds.2.1.password
  | replacing p => exact .inl holds.2.1.password
  | cleared p => exact .inl holds.2.1.password
  | backedUp p => exact .inl holds.2.1.password
  | vacant p =>
    obtain ⟨_, _, ciphertext, vacant, between, kept⟩ := holds
    rcases kept with ⟨absent, _⟩ | ⟨_, backed⟩
    · contradiction
    · exact .inr (.inr ⟨between (by simp), vacant, ciphertext.symm, backed⟩)
  | installed p => exact .inr (.inl ⟨holds.2.2.1, holds.2.2.2.1⟩)
  | finished p => exact .inr (.inl ⟨holds.2.2.1, holds.2.2.2.1⟩)
  | _ => exact holds.elim

/-- The oracle of a run that may carry notes. -/
def noted (oracle : Oracle posix State) : Oracle posix (Noted × State) :=
  fun request x => oracle request x.2

/-- The file system refuses to link anything as the password file. -/
def refusingLink : Oracle posix State
  | .link _ .passwordFile, _ => false
  | request, s => succeeding request s

/-- What a run comes to that is refused that link: the new contents are in gpg's output, and there
is no password file. -/
def refused (e : Prog Unit × Noted × State) : Bool :=
  e.2.1.between && e.2.1.ciphertext.isSome && (bytesAt e.2.2 .passwordFile).isNone

/-- There is such a run. -/
theorem refused_reaches : ∃ q n s',
    Reaches (noting (.tmp 0)) (gpgEncrypt (sampleConfig true) (.tmp 0))
      (.start (some [0x70]), sampleState true) q (n, s') ∧
    n.between = true ∧ n.ciphertext ≠ none ∧ bytesAt s' .passwordFile = none := by
  have good : (play (noting (.tmp 0)) (noted refusingLink) 20
      (gpgEncrypt (sampleConfig true) (.tmp 0)) (.start (some [0x70]), sampleState true)).any
      refused = true := by decide +kernel
  obtain ⟨q, ⟨n, s'⟩, run, refusal⟩ := exists_of_play good
  simp only [refused, Bool.and_eq_true, Option.isSome_iff_ne_none, Option.isNone_iff_eq_none]
    at refusal
  exact ⟨q, n, s', run, refusal.1.1, refusal.1.2, refusal.2⟩

/-- In that run the old contents end up in the backup only. -/
theorem gpgEncrypt_password_refused : ∃ q n s',
    Reaches (noting (.tmp 0)) (gpgEncrypt (sampleConfig true) (.tmp 0))
      (.start (some [0x70]), sampleState true) q (n, s') ∧
    n.between = true ∧
    (bytesAt s' .passwordFile = some [0x70] ∨
      (bytesAt s' .passwordFile = n.ciphertext ∧ n.ciphertext ≠ none) ∨
      (n.between = true ∧ bytesAt s' .passwordFile = none ∧
        bytesAt s' (.gpg (.tmp 0)) = n.ciphertext ∧
        ((sampleConfig true).backup = true →
          bytesAt s' (.bak .passwordFile) = some [0x70]))) := by
  obtain ⟨q, n, s', run, between, _, _⟩ := refused_reaches
  exact ⟨q, n, s', run, between, gpgEncrypt_password (sampleConfig true) (.tmp 0) rfl run⟩

/-- A run that is refused the link leaves no password file, so it keeps neither contents. -/
theorem password_absent_after_refused_link :
    ¬ ∀ (cfg : Config) (path : Path) (s s' : State) (old : Bytes) (q : Prog Unit) (n : Noted),
      bytesAt s .passwordFile = some old →
      Reaches (noting path) (gpgEncrypt cfg path) (.start (some old), s) q (n, s') →
      bytesAt s' .passwordFile = some old ∨
        (bytesAt s' .passwordFile = n.ciphertext ∧ n.ciphertext ≠ none) := by
  intro claim
  obtain ⟨q, n, s', run, _, wrote, absent⟩ := refused_reaches
  rcases claim (sampleConfig true) (.tmp 0) (sampleState true) s' [0x70] q n rfl run with
    kept | ⟨same, _⟩
  · exact absurd (absent.symm.trans kept) (by simp)
  · exact wrote (same.symm.trans absent)

/-- What has happened to the password file with `cfg_backup` set: it was there at first,
`gpg_encrypt` was run and stopped somewhere, other files changed. -/
inductive History : Option Bytes → State → Prop where
  /-- A password file was found. -/
  | start {s : State} (existing : bytesAt s .passwordFile ≠ none) :
      History (bytesAt s .passwordFile) s
  /-- A run completed, or stopped before or after any of its calls. -/
  | run {cfg : Config} {path : Path} {last : Option Bytes} {s s' : State} {q : Prog Unit}
      {n : Noted} (before : History last s) (backup : cfg.backup = true)
      (run : Reaches (noting path) (gpgEncrypt cfg path) (.start last, s) q (n, s')) :
      History n.installed s'
  /-- Something else changed. -/
  | elsewhere {last : Option Bytes} {s s' : State} (before : History last s)
      (password : bytesAt s' .passwordFile = bytesAt s .passwordFile)
      (backup : bytesAt s' (.bak .passwordFile) = bytesAt s (.bak .passwordFile)) :
      History last s'

/-- The contents last installed are the password file's, or there is none and they are the
backup's. -/
def Stored (last : Option Bytes) (s : State) : Prop :=
  last ≠ none ∧ (bytesAt s .passwordFile = last ∨
    (bytesAt s .passwordFile = none ∧ bytesAt s (.bak .passwordFile) = last))

/-- A run with a backup keeps the contents last installed stored. -/
theorem stored_run {last : Option Bytes} {s s' : State} {q : Prog Unit} {n : Noted}
    (backup : cfg.backup = true) (stored : Stored last s)
    (run : Reaches (noting path) (gpgEncrypt cfg path) (.start last, s) q (n, s')) :
    Stored n.installed s' := by
  obtain ⟨present, place⟩ := stored
  obtain ⟨stage, _, holds⟩ := invariant_run run
  have first : bytesAt s .passwordFile ≠ none → bytesAt s .passwordFile = last := by
    intro exist
    rcases place with same | ⟨absent, _⟩
    · exact same
    · exact absurd absent exist
  have unchanged : n.installed = last → bytesAt s' .passwordFile = bytesAt s .passwordFile →
      bytesAt s' (.bak .passwordFile) = bytesAt s (.bak .passwordFile) →
      Stored n.installed s' := by
    intro same password previous
    rw [Stored, same, password, previous]
    exact ⟨present, place⟩
  have kept : n.installed = last → bytesAt s' .passwordFile = bytesAt s .passwordFile →
      bytesAt s .passwordFile ≠ none → Stored n.installed s' := by
    intro same password exist
    rw [same]
    exact ⟨present, .inl (password.trans (first exist))⟩
  cases stage with
  | compared source p content =>
    obtain ⟨_, _, _, installed, password, previous⟩ := holds
    exact unchanged installed password previous
  | encrypted p status =>
    obtain ⟨_, waiting, previous⟩ := holds
    exact unchanged waiting.installed waiting.password previous
  | replacing p => exact kept holds.2.1.installed holds.2.1.password holds.2.2
  | cleared p => exact kept holds.2.1.installed holds.2.1.password holds.2.2
  | backedUp p => exact kept holds.2.1.installed holds.2.1.password holds.2.2.1
  | vacant p =>
    obtain ⟨_, installed, _, vacant, _, kept⟩ := holds
    rw [installed]
    refine ⟨present, .inr ⟨vacant, ?_⟩⟩
    rcases kept with ⟨absent, same⟩ | ⟨exist, same⟩
    · rcases place with found | ⟨_, found⟩
      · exact absurd (found.symm.trans absent) present
      · exact same.trans found
    · exact (same backup).trans (first exist)
  | installed p =>
    obtain ⟨_, _, password, some, installed, _⟩ := holds
    exact ⟨by rw [installed]; exact some, .inl (password.trans installed.symm)⟩
  | finished p =>
    obtain ⟨_, _, password, some, installed, _⟩ := holds
    exact ⟨by rw [installed]; exact some, .inl (password.trans installed.symm)⟩
  | _ => exact holds.elim

/-- Every history keeps the contents last installed stored. -/
theorem stored_of_history {last : Option Bytes} {s : State} (history : History last s) :
    Stored last s := by
  induction history with
  | start existing => exact ⟨existing, .inl rfl⟩
  | run _ backup run ih => exact stored_run backup ih run
  | elsewhere _ password previous ih =>
    rw [Stored, password, previous]
    exact ih

/-- A run that completes leaves the new contents installed, and backs up what it replaced. -/
theorem completed_run {found : Option Bytes} {s s' : State} {n : Noted}
    (backup : cfg.backup = true)
    (run : Reaches (noting path) (gpgEncrypt cfg path) (.start found, s) (.done ()) (n, s')) :
    bytesAt s' .passwordFile = n.ciphertext ∧ n.ciphertext ≠ none ∧
      ∀ replaced, bytesAt s .passwordFile = some replaced →
        bytesAt s' (.bak .passwordFile) = some replaced := by
  obtain ⟨stage, finished, holds⟩ := invariant_run run
  have last : stage = .finished path := finished
  rw [last] at holds
  obtain ⟨_, _, password, some, _, kept⟩ := holds
  refine ⟨password, some, fun replaced existing => ?_⟩
  rcases kept with ⟨absent, _⟩ | ⟨_, same⟩
  · exact absurd (existing.symm.trans absent) (by simp)
  · exact (same backup).trans existing

/-- Over any history of runs with `cfg_backup`, the contents last installed are in full in the
password file or in its backup; and a run that completes next leaves its new contents in the
password file, and in the backup what it replaced. -/
theorem history_keeps_installed {last : Option Bytes} {s : State} (history : History last s) :
    (last ≠ none ∧
      (bytesAt s .passwordFile = last ∨ bytesAt s (.bak .passwordFile) = last)) ∧
    ∀ (cfg : Config) (path : Path) (n : Noted) (s' : State), cfg.backup = true →
      Reaches (noting path) (gpgEncrypt cfg path) (.start last, s) (.done ()) (n, s') →
      (bytesAt s' .passwordFile = n.ciphertext ∧ n.ciphertext ≠ none) ∧
        ∀ replaced, bytesAt s .passwordFile = some replaced →
          bytesAt s' (.bak .passwordFile) = some replaced := by
  obtain ⟨present, place⟩ := stored_of_history history
  refine ⟨⟨present, place.imp_right And.right⟩, fun cfg path n s' backup run => ?_⟩
  obtain ⟨password, some, replaced⟩ := completed_run backup run
  exact ⟨⟨password, some⟩, replaced⟩

/-- A run that was refused the link: the installed contents are in the backup. -/
theorem history_keeps_installed_refused : ∃ last s,
    bytesAt s .passwordFile = none ∧
    (last ≠ none ∧ (bytesAt s .passwordFile = last ∨ bytesAt s (.bak .passwordFile) = last)) ∧
    ∀ (cfg : Config) (path : Path) (n : Noted) (s' : State), cfg.backup = true →
      Reaches (noting path) (gpgEncrypt cfg path) (.start last, s) (.done ()) (n, s') →
      (bytesAt s' .passwordFile = n.ciphertext ∧ n.ciphertext ≠ none) ∧
        ∀ replaced, bytesAt s .passwordFile = some replaced →
          bytesAt s' (.bak .passwordFile) = some replaced := by
  obtain ⟨q, n, s', run, _, _, absent⟩ := refused_reaches
  have start : History (some [0x70]) (sampleState true) :=
    .start (s := sampleState true)
      (by simp [bytesAt_eq_none, sampleState, sampleFiles, sampleEntry])
  have backup : (sampleConfig true).backup = true := rfl
  exact ⟨n.installed, s', absent, history_keeps_installed (.run start backup run)⟩

end Mdp.Replacement
