import Mdp.Conformance
import Mdp.Frame

/-!
# What a run comes to

The outcomes of a run that decide whether it may save: what `gpg_open` found, what gpg printed and
how it exited, how the editor ended and what it left, what `gpg -e` returned. They are noted beside
the state, and an invariant relates the notes to the stages of the session. It holds in runs in
which the two outcomes that mdp does not look at are good: `fdopen` gives a stream, and reading back
the temporary file comes to its end.
-/

namespace Mdp

open Interaction CStrings HardLinks

/-- What is noted of a run. -/
structure Outcome where
  /-- Whether `gpg_open` found the password file. -/
  existed : Option Bool
  /-- What was read of gpg's output. -/
  printed : Option Bytes
  /-- How gpg ended. -/
  decrypted : Option Wait
  /-- Whether everything that was to be written to the temporary file was written. -/
  complete : Bool
  /-- How the editor ended. -/
  editor : Option EditorExit
  /-- The contents of the temporary file after it. -/
  left : Option Bytes
  /-- What `gpg -e` returned. -/
  encrypted : Option Int
  /-- Whether "No changes" was reported. -/
  reported : Bool

/-- The notes at the start. -/
def Outcome.initial : Outcome := ⟨none, none, none, true, none, none, none, false⟩

/-- What an answered call adds to the notes. -/
def Outcome.note (entry : Entry posix State) (outcome : Outcome) : Outcome :=
  match entry with
  | ⟨.stat .passwordFile, .found, _⟩ => { outcome with existed := outcome.existed.or (some true) }
  | ⟨.stat .passwordFile, .enoent, _⟩ => { outcome with existed := outcome.existed.or (some false) }
  | ⟨.fgets .pipe, bytes, _⟩ => { outcome with printed := some bytes }
  | ⟨.waitpid _, wait, _⟩ => { outcome with decrypted := some wait }
  | ⟨.write _ bytes, count, _⟩ =>
    { outcome with complete := outcome.complete && count == some bytes.length }
  | ⟨.system (.edit _ path), exit, after⟩ =>
    { outcome with editor := some exit, left := bytesAt after path }
  | ⟨.system (.encrypt _ _ _), exit, _⟩ => { outcome with encrypted := some exit.status }
  | ⟨.print text, _, _⟩ => { outcome with reported := outcome.reported || text == noChanges }
  | _ => outcome

/-- The answers of runs in which `fdopen` gives a stream and a file is read to its end. -/
def sound : Entry posix State → Bool
  | ⟨.fdopen _, ok, _⟩ => ok
  | ⟨.fgets (.file inode), bytes, after⟩ => bytes == (after.files.node inode).bytes
  | _ => true

/-- These runs, with notes. -/
abbrev observed : Effect posix (Outcome × State) := (effect.restrict sound).record Outcome.note

/-- An oracle for runs with notes. -/
def watched (oracle : Oracle posix State) : Oracle posix (Outcome × State) :=
  fun request x => oracle request x.2

/-- A neutral call adds nothing to the notes. -/
theorem Outcome.note_neutral {request : Call} (neutral : request.Neutral)
    (answer : Call.Answer request) (after : State) (outcome : Outcome) :
    Outcome.note ⟨request, answer, after⟩ outcome = outcome := by
  cases request with
  | print text =>
    have other : text ≠ noChanges := neutral
    simp [note, beq_eq_false_iff_ne.mpr other]
  | system command => cases command <;> first | rfl | exact neutral.elim
  | _ => first | rfl | exact neutral.elim

/-- What `gpg_open` found stays noted when `gpg_encrypt` looks again. -/
theorem Outcome.note_stat_again {outcome : Outcome} {found : Bool}
    (known : outcome.existed = some found) (answer : Lookup) (after : State) :
    Outcome.note ⟨.stat .passwordFile, answer, after⟩ outcome = outcome := by
  cases outcome
  subst known
  cases answer <;> rfl

namespace Outcome

/-- What a saving run has to have come to: gpg exited with status zero or there was no password
file, the editor's status was zero, it left a file with another checksum than what was loaded, and
`gpg -e` returned zero. -/
structure Justified (outcome : Outcome) : Prop where
  decrypted : outcome.decrypted = some (.exited 0) ∨ outcome.existed = some false
  editor : ∃ left, outcome.editor = some ⟨0, left⟩
  changed : ∃ content, outcome.left = some content ∧ checksum content ≠ sourceCrc outcome.printed
  encrypted : outcome.encrypted = some 0

/-- Nothing is decided yet. -/
structure Undecided (outcome : Outcome) : Prop where
  encrypted : outcome.encrypted = none
  reported : outcome.reported = false

/-- Nothing was written or edited yet. -/
structure Early (outcome : Outcome) : Prop extends Undecided outcome where
  editor : outcome.editor = none
  complete : outcome.complete = true

/-- Nothing was loaded yet. -/
structure Loading (existed : Option Bool) (printed : Option Bytes) (outcome : Outcome) : Prop
    extends Early outcome where
  existed : outcome.existed = existed
  printed : outcome.printed = printed

/-- What is loaded is the source. -/
structure Sourced (source : Option Bytes) (outcome : Outcome) : Prop where
  printed : outcome.printed = source
  missing : source = none → outcome.existed = some false
  decrypted : source ≠ none →
    outcome.existed = some true ∧ outcome.decrypted = some (.exited 0)

/-- An editor of `mdp edit` that does nothing leaves what the source shows, if that was written. -/
def Shows (L : CLocale) (command : Command.Edits) (source : Option Bytes) (outcome : Outcome) :
    Prop :=
  command = .edit → outcome.complete = true →
    (∃ status, outcome.editor = some ⟨status, .untouched⟩) → outcome.left = some (shown L source)

/-- The temporary file was compared with the source. -/
structure Compared (L : CLocale) (command : Command.Edits) (source : Option Bytes)
    (content : Bytes) (outcome : Outcome) : Prop extends Sourced source outcome where
  editor : ∃ left, outcome.editor = some ⟨0, left⟩
  left : outcome.left = some content
  shows : outcome.Shows L command source

/-- What was decided was decided by the checksums. -/
structure Decided (L : CLocale) (command : Command.Edits) (outcome : Outcome) : Prop where
  reported : outcome.reported = true → outcome.encrypted = none ∧ ∃ source content,
    outcome.Compared L command source content ∧ checksum content = sourceCrc source
  encrypted : outcome.encrypted ≠ none → outcome.reported = false ∧ ∃ source content,
    outcome.Compared L command source content ∧ checksum content ≠ sourceCrc source

variable {L : CLocale} {command : Command.Edits} {outcome : Outcome}

/-- Without `gpg -e` nothing is justified. -/
theorem Undecided.not_justified (undecided : outcome.Undecided) : ¬ outcome.Justified := by
  intro justified
  have none := undecided.encrypted
  rw [justified.encrypted] at none
  contradiction

/-- Where nothing is decided, nothing was decided wrongly. -/
theorem Undecided.decided (undecided : outcome.Undecided) : outcome.Decided L command where
  reported reported := by
    rw [undecided.reported] at reported
    contradiction
  encrypted encrypted := absurd undecided.encrypted encrypted

/-- What was decided by the checksums is justified once `gpg -e` has returned zero. -/
theorem Decided.justified (decided : outcome.Decided L command)
    (zero : outcome.encrypted = some 0) : outcome.Justified := by
  have encrypted : outcome.encrypted ≠ none := by
    rw [zero]
    simp
  obtain ⟨_, source, content, compared, differs⟩ := decided.encrypted encrypted
  refine ⟨?_, compared.editor, ⟨content, compared.left, ?_⟩, zero⟩
  · cases source with
    | none => exact .inr (compared.missing rfl)
    | some printed => exact .inl (compared.decrypted (by simp)).2
  · rw [compared.printed]
    exact differs

end Outcome

/-- What the notes say at each stage. -/
def Stage.Facts (L : CLocale) (command : Command.Edits) : Stage → Outcome × State → Prop
  | .starting, (o, _) => o.Loading none none
  | .lockFree, (o, _) => o.Loading none none
  | .locked _, (o, _) => o.Loading none none
  | .guarded, (o, _) => o.Loading none none
  | .opening, (o, _) => o.Loading (some true) none
  | .forked _, (o, _) => o.Loading (some true) none
  | .timing _ fp, (o, _) => o.Loading (some true) none ∧ fp = true
  | .streaming _ _ fp, (o, _) => o.Loading (some true) none ∧ fp = true
  | .read _ _ printed, (o, _) => o.Loading (some true) (some printed)
  | .waited _ printed status, (o, _) =>
    o.Loading (some true) (some printed) ∧ o.decrypted = some (.exited status)
  | .absent, (o, _) => o.Loading (some false) none
  | .dumping source created written, (o, s) => o.Undecided ∧ o.Sourced source ∧
      s.files.entry (.tmp created.suffix) = some created.fd ∧
      (o.complete = true → (s.files.node created.fd).bytes = written)
  | .edited source suffix status, (o, s) => o.Undecided ∧ o.Sourced source ∧
      -1 ≤ status ∧ (∃ left, o.editor = some ⟨status, left⟩) ∧ o.left = bytesAt s (.tmp suffix) ∧
      o.Shows L command source
  | .comparing source _ inode, (o, s) => o.Undecided ∧
      o.Compared L command source (s.files.node inode).bytes
  | .compared source _ content, (o, _) => o.Undecided ∧ o.Compared L command source content
  | .unchanged _, (o, _) => o.reported = true
  | .encrypted _ status, (o, _) => o.encrypted = some status
  | .replacing _, (o, _) => o.encrypted = some 0
  | .cleared _, (o, _) => o.encrypted = some 0
  | .backedUp _, (o, _) => o.encrypted = some 0
  | .vacant _, (o, _) => o.encrypted = some 0
  | .installed _, (o, _) => o.encrypted = some 0
  | .finished _, (o, _) => o.encrypted = some 0
  | .gpgChild, _ => False
  | .watcher _, _ => False
  | .strayed, _ => False
  | _, _ => True

/-- What holds at every stage of a run that began with these two files. -/
structure Observed (L : CLocale) (command : Command.Edits) (first : Option Node × Option Node)
    (stage : Stage) (x : Outcome × State) : Prop where
  apart : stage.Apart x.2.files
  named : TmpNamed x.2.globals
  saved : stored x.2.files = first ∨ x.1.Justified
  decided : x.1.Decided L command
  existed : ∀ found, x.1.existed = some found → found = first.1.isSome
  facts : stage.Facts L command x

variable {L : CLocale} {command : Command.Edits} {first : Option Node × Option Node}
  {stage stage' : Stage} {o o' : Outcome} {s s' : State}

/-- Where nothing is decided the two files are as they were. -/
theorem Observed.unchanged (holds : Observed L command first stage (o, s))
    (undecided : o.Undecided) : stored s.files = first := by
  rcases holds.saved with same | justified
  · exact same
  · exact absurd justified undecided.not_justified

/-- A call that adds nothing to the notes and keeps the two files. -/
theorem Observed.same (holds : Observed L command first stage (o, s))
    (apart : stage'.Apart s'.files) (named : TmpNamed s'.globals)
    (kept : stored s'.files = stored s.files) (facts : stage'.Facts L command (o, s')) :
    Observed L command first stage' (o, s') where
  apart := apart
  named := named
  saved := by
    show stored s'.files = first ∨ o.Justified
    rw [kept]
    exact holds.saved
  decided := holds.decided
  existed := holds.existed
  facts := facts

/-- A call that keeps the two files while nothing is decided. -/
theorem Observed.early (holds : Observed L command first stage (o, s)) (before : o.Undecided)
    (after : o'.Undecided) (apart : stage'.Apart s'.files) (named : TmpNamed s'.globals)
    (kept : stored s'.files = stored s.files)
    (existed : ∀ found, o'.existed = some found → found = first.1.isSome)
    (facts : stage'.Facts L command (o', s')) : Observed L command first stage' (o', s') where
  apart := apart
  named := named
  saved := .inl (kept.trans (holds.unchanged before))
  decided := after.decided
  existed := existed
  facts := facts

/-- A call that may change the two files, once saving is justified. -/
theorem Observed.justified (holds : Observed L command first stage (o, s))
    (zero : o.encrypted = some 0) (apart : stage'.Apart s'.files) (named : TmpNamed s'.globals)
    (facts : stage'.Facts L command (o, s')) : Observed L command first stage' (o, s') where
  apart := apart
  named := named
  saved := .inr (holds.decided.justified zero)
  decided := holds.decided
  existed := holds.existed
  facts := facts

/-- Once loading is over, what was loaded is the source. -/
theorem Stage.Facts.ready {source : Option Bytes} (facts : stage.Facts L command (o, s))
    (ready : stage.ready = some source) : o.Early ∧ o.Sourced source := by
  cases stage with
  | absent =>
    simp only [Stage.ready, Option.some.injEq] at ready
    subst ready
    exact ⟨facts.toEarly, facts.printed, fun _ => facts.existed, by simp⟩
  | streaming gpgPid watcherPid fp =>
    have opened : fp = true := facts.2
    simp [Stage.ready, opened] at ready
  | waited watcherPid printed status =>
    cases status with
    | zero =>
      simp only [Stage.ready, Option.some.injEq] at ready
      subst ready
      exact ⟨facts.1.toEarly, facts.1.printed, by simp, fun _ => ⟨facts.1.existed, facts.2⟩⟩
    | succ status => simp [Stage.ready] at ready
  | _ => simp [Stage.ready] at ready

/-- Every call of a session, answered soundly, keeps what holds. -/
theorem Observed.step {cfg : Config} {request : Call} {answer : Call.Answer request}
    {x x' : Outcome × State} (allowed : (lifetime cfg L command).allowed stage request)
    (taken : observed request answer x = some x') (holds : Observed L command first stage x) :
    Observed L command first (stage.advance request answer) x' := by
  obtain ⟨o, s⟩ := x
  obtain ⟨o', s'⟩ := x'
  obtain ⟨restricted, noted⟩ := Effect.record_eq_some.mp taken
  obtain ⟨done, good⟩ := Effect.restrict_eq_some.mp restricted
  simp only at done good noted
  subst noted
  have facts := holds.facts
  have parent : stage.child = false := by
    cases stage <;> first | rfl | exact facts.elim
  have sturdy := Stage.ne_strayed (Stage.child_advance parent done)
  obtain ⟨apart, kept⟩ := apart_step allowed done holds.apart holds.named sturdy
  have named := tmpNamed_step done holds.named
  rcases allowed with allowed | leaving
  · cases allowed with
    | neutral neutral =>
      rw [Outcome.note_neutral neutral]
      have stays := effect_neutral neutral done
      subst stays
      refine holds.same apart named rfl ?_
      rcases Stage.advance_neutral neutral answer with same | same
      · rw [same]
        exact facts
      · rw [same]
        cases stage <;> exact facts
    | lookForLock => cases answer <;> exact holds.same apart named (kept rfl) facts
    | createLock =>
      cases answer with
      | none => exact holds.same apart named (kept rfl) trivial
      | some stream => exact holds.same apart named (kept rfl) facts
    | writeLock => exact holds.same apart named (kept rfl) facts
    | register => cases answer <;> exact holds.same apart named (kept rfl) facts
    | catchInt => exact holds.same apart named (kept rfl) facts
    | lookForPasswords =>
      obtain ⟨rfl, present, missing⟩ := effect_stat done
      have unchanged := holds.unchanged facts.toUndecided
      have nothing : o.existed = none := facts.existed
      cases answer with
      | found =>
        have loading : (o.note ⟨.stat .passwordFile, .found, s'⟩).Loading (some true) none :=
          ⟨⟨⟨facts.encrypted, facts.reported⟩, facts.editor, facts.complete⟩,
            by simp [Outcome.note, nothing], facts.printed⟩
        have there : true = first.1.isSome := by
          rw [← unchanged]
          simpa [stored, Directory.read] using (present rfl).symm
        refine holds.early facts.toUndecided loading.toUndecided apart named rfl ?_ loading
        intro found same
        rw [loading.existed, Option.some.injEq] at same
        exact same ▸ there
      | enoent =>
        have loading : (o.note ⟨.stat .passwordFile, .enoent, s'⟩).Loading (some false) none :=
          ⟨⟨⟨facts.encrypted, facts.reported⟩, facts.editor, facts.complete⟩,
            by simp [Outcome.note, nothing], facts.printed⟩
        have gone : false = first.1.isSome := by
          rw [← unchanged]
          simp [stored, Directory.read, missing rfl]
        refine holds.early facts.toUndecided loading.toUndecided apart named rfl ?_ loading
        intro found same
        rw [loading.existed, Option.some.injEq] at same
        exact same ▸ gone
      | failed => exact holds.same apart named rfl facts
    | forkGpg =>
      cases answer with
      | failed => exact holds.same apart named (kept rfl) facts
      | child => exact absurd rfl (effect_fork done).2
      | parent pid => exact holds.same apart named (kept rfl) facts
    | openPipe =>
      have opened : answer = true := good
      exact holds.same apart named (kept rfl) ⟨facts, opened⟩
    | forkWatcher =>
      cases answer with
      | failed => exact holds.same apart named (kept rfl) facts
      | child => exact absurd rfl (effect_fork done).2
      | parent pid => exact holds.same apart named (kept rfl) facts
    | readPipe =>
      have loading : (o.note ⟨.fgets .pipe, answer, s'⟩).Loading (some true) (some answer) :=
        ⟨⟨⟨facts.1.encrypted, facts.1.reported⟩, facts.1.editor, facts.1.complete⟩,
          facts.1.existed, rfl⟩
      exact holds.early facts.1.toUndecided loading.toUndecided apart named (kept rfl)
        holds.existed loading
    | @wait gpgPid watcherPid printed =>
      have loading : (o.note ⟨.waitpid gpgPid, answer, s'⟩).Loading (some true) (some printed) :=
        ⟨⟨⟨facts.encrypted, facts.reported⟩, facts.editor, facts.complete⟩,
          facts.existed, facts.printed⟩
      refine holds.early facts.toUndecided loading.toUndecided apart named (kept rfl)
        holds.existed ?_
      cases answer with
      | failed signaled => exact loading
      | signaled => exact loading
      | exited status => exact ⟨loading, rfl⟩
    | cancel => exact holds.same apart named (kept rfl) facts
    | makeTmp ready =>
      obtain ⟨early, sourced⟩ := facts.ready ready
      rcases effect_mkstemp done with ⟨rfl, rfl⟩ | ⟨created, rfl, _, _, fd, rfl⟩
      · exact holds.same apart named (kept rfl) facts
      · refine holds.same apart named (kept rfl) ?_
        simp only [Stage.advance, Stage.created, ready]
        refine ⟨early.toUndecided, sourced, ?_, fun _ => ?_⟩
        · rw [fd]
          exact Directory.create_entry_self _ _ _
        · simp [fd, Directory.create]
    | joinLine ready =>
      rw [effect_calloc done] at apart named kept ⊢
      cases answer with
      | true => exact holds.same apart named (kept rfl) facts
      | false =>
        refine holds.same apart named (kept rfl) ?_
        simp only [Stage.advance, Stage.given, ready]
        exact trivial
    | readSet ready =>
      rw [(effect_readString done).2] at apart named kept ⊢
      refine holds.same apart named (kept rfl) ?_
      cases answer with
      | true =>
        show (stage.dereferenced true).Facts L command _
        rw [stage.dereferenced_true]
        exact facts
      | false =>
        show (stage.dereferenced false).Facts L command _
        rw [Stage.dereferenced_of_ready ready]
        exact trivial
    | readEditor =>
      rw [(effect_readString done).2] at apart named kept ⊢
      refine holds.same apart named (kept rfl) ?_
      cases answer with
      | true => exact facts
      | false => exact trivial
    | @dump source created written bytes =>
      obtain ⟨undecided, sourced, bound, content⟩ := facts
      have still : (o.note ⟨.write created.fd bytes, answer, s'⟩).Undecided :=
        ⟨undecided.encrypted, undecided.reported⟩
      refine holds.early undecided still apart named (kept rfl) holds.existed ?_
      rcases effect_write done with ⟨rfl, rfl⟩ | ⟨count, rfl, _, rfl⟩
      · refine ⟨still, ⟨sourced.printed, sourced.missing, sourced.decrypted⟩, bound, ?_⟩
        intro complete
        simp [Outcome.note] at complete
      · refine ⟨still, ⟨sourced.printed, sourced.missing, sourced.decrypted⟩, bound, ?_⟩
        intro complete
        simp only [Outcome.note, Bool.and_eq_true, beq_iff_eq, Option.some.injEq] at complete
        simp [Directory.modify, Node.mapBytes, content complete.1, complete.2]
    | @edit source created written editor whole =>
      obtain ⟨undecided, sourced, bound, content⟩ := facts
      have still : (o.note ⟨.system (.edit editor (.tmp created.suffix)), answer, s'⟩).Undecided :=
        ⟨undecided.encrypted, undecided.reported⟩
      obtain ⟨least, files, applied, rfl⟩ := effect_edit done
      refine holds.early undecided still apart named (kept rfl) holds.existed
        ⟨still, ⟨sourced.printed, sourced.missing, sourced.decrypted⟩, least, ⟨_, rfl⟩, rfl, ?_⟩
      intro isEdit complete untouched
      obtain ⟨status, same⟩ := untouched
      simp only [Outcome.note, Option.some.injEq] at same
      rw [same] at applied
      simp only [Edited.apply, Option.some.injEq] at applied
      subst applied
      show bytesAt s (.tmp created.suffix) = some (shown L source)
      rw [bytesAt, Directory.read, bound, ← whole isEdit, ← content complete]
      rfl
    | @reopen source suffix status ran fine =>
      obtain ⟨undecided, sourced, least, editor, left, shows⟩ := facts
      obtain ⟨rfl, found⟩ := effect_fopenRead done
      have zero : status = 0 := by omega
      subst zero
      cases answer with
      | none => exact holds.same apart named (kept rfl) trivial
      | some inode =>
        have same : o.left = some (s'.files.node inode).bytes := by
          rw [left, bytesAt, Directory.read, found inode rfl]
          rfl
        exact holds.same apart named (kept rfl) ⟨undecided, ⟨sourced, editor, same, shows⟩⟩
    | reread =>
      obtain ⟨undecided, compared⟩ := facts
      obtain ⟨rfl, _⟩ := effect_fgets done
      have whole : answer = _ := beq_iff_eq.mp good
      refine holds.same apart named (kept rfl) ?_
      rw [whole]
      exact ⟨undecided, compared⟩
    | @encrypt source keyId path content gpgPath changed =>
      obtain ⟨undecided, compared⟩ := facts
      exact {
        apart := apart
        named := named
        saved := .inl ((kept rfl).trans (holds.unchanged undecided))
        decided := {
          reported := fun reported => absurd (undecided.reported.symm.trans reported) (by decide)
          encrypted := fun _ => ⟨undecided.reported, source, content,
            ⟨⟨compared.printed, compared.missing, compared.decrypted⟩, compared.editor,
              compared.left, compared.shows⟩, changed⟩ }
        existed := holds.existed
        facts := rfl }
    | @report source path content same =>
      obtain ⟨undecided, compared⟩ := facts
      have reported : (o.note ⟨.print noChanges, answer, s'⟩).reported = true := by
        simp [Outcome.note]
      exact {
        apart := apart
        named := named
        saved := .inl ((kept rfl).trans (holds.unchanged undecided))
        decided := {
          reported := fun _ => ⟨undecided.encrypted, source, content,
            ⟨⟨compared.printed, compared.missing, compared.decrypted⟩, compared.editor,
              compared.left, compared.shows⟩, same⟩
          encrypted := fun encrypted => absurd undecided.encrypted encrypted }
        existed := holds.existed
        facts := reported }
    | lookAgain =>
      have encrypted : o.encrypted = some 0 := facts
      obtain ⟨_, source, content, compared, _⟩ := holds.decided.encrypted (by simp [encrypted])
      have noted : o.note ⟨.stat .passwordFile, answer, s'⟩ = o := by
        cases source with
        | none => exact Outcome.note_stat_again (compared.missing rfl) answer s'
        | some printed => exact Outcome.note_stat_again (compared.decrypted (by simp)).1 answer s'
      rw [noted]
      refine holds.same apart named (kept rfl) ?_
      cases answer <;> exact encrypted
    | clearBackup => cases answer <;> exact holds.justified facts apart named facts
    | backUp => cases answer <;> exact holds.justified facts apart named facts
    | unlinkPlain => cases answer <;> exact holds.justified facts apart named facts
    | unlinkBackedUp => cases answer <;> exact holds.justified facts apart named facts
    | install => cases answer <;> exact holds.justified facts apart named facts
    | protect => cases answer <;> exact holds.justified facts apart named facts
    | tidy => exact holds.justified facts apart named facts
    | becomeGpg => exact facts.elim
    | resetInt => exact facts.elim
    | interruptGpg => exact facts.elim
  · cases leaving with
    | leave =>
      refine holds.same apart named (kept rfl) ?_
      cases stage <;> cases answer <;> first | exact trivial | exact facts.elim
    | clean inside =>
      cases inside with
      | findLock => cases answer <;> exact holds.same apart named (kept rfl) trivial
      | removeLock => cases answer <;> exact holds.same apart named (kept rfl) trivial
      | readTmpPath => cases answer <;> exact holds.same apart named (kept rfl) trivial
      | removeTmp =>
        have free := Path.holdsPasswords_of_temporary holds.apart
        cases answer <;> exact holds.same apart named (kept free) trivial
    | stray => exact facts.elim

/-- Every observed run of a program that follows the protocol comes to a stage at which this
holds. -/
theorem observed_run {cfg : Config} {p q : Prog Unit} {Q : Except Ending Unit → Stage → Prop}
    {t : State} (follows : p.Follows (lifetime cfg L command) Q .starting)
    (start : s.globals = .initial) (run : Reaches observed p (.initial, s) q (o, t)) :
    ∃ stage, q.Follows (lifetime cfg L command) Q stage ∧
      Observed L command (stored s.files) stage (o, t) := by
  have undecided : Outcome.initial.Undecided := ⟨rfl, rfl⟩
  have initial : Observed L command (stored s.files) .starting (.initial, s) := {
    apart := trivial
    named := ⟨.template, by rw [start]; rfl, rfl⟩
    saved := .inl rfl
    decided := undecided.decided
    existed := by simp [Outcome.initial]
    facts := ⟨⟨undecided, rfl, rfl⟩, rfl, rfl⟩ }
  exact Program.Follows.reaches (fun _ _ _ _ _ => Observed.step) run follows initial

end Mdp
