import Mdp.Outcome
import Mdp.Scenario

/-!
# Saving only after success

A run that has changed the password file or its backup has come through every earlier part with
success. The one part it may have skipped is the decryption: if `fdopen` gives no stream, the run
goes on as if there were no password file.
-/

namespace Mdp.Saving

open Interaction CStrings HardLinks

/-- In every run in which `fdopen` gives a stream and the temporary file is read back to its end,
the password file and its backup are as they were, unless gpg exited with status zero or there was
no password file, the editor's status was zero, the file it left has another checksum than what was
loaded, and `gpg -e` returned zero. -/
theorem justified_of_changed (cfg : Config) (L : CLocale) (command : Command.Edits) {s t : State}
    (start : s.globals = .initial) {q : Prog Unit} {outcome : Outcome}
    (run : Reaches observed (process cfg L command) (.initial, s) q (outcome, t))
    (changed : stored t.files ≠ stored s.files) : outcome.Justified := by
  obtain ⟨stage, _, holds⟩ := observed_run (process_follows cfg L command) start run
  rcases holds.saved with same | justified
  · exact absurd same changed
  · exact justified

/-- An editor that writes one line. -/
def writingEditor : Oracle posix State
  | .system (.edit _ _), _ => ⟨0, .rewritten [0x61, newline]⟩
  | request, s => succeeding request s

/-- Whether a run has changed the password file or its backup. -/
def saves (e : Prog Unit × Outcome × State) : Bool :=
  decide (stored e.2.2.files ≠ stored (sampleState true).files)

/-- A run of `mdp edit` with this editor saves. -/
theorem justified_of_changed_saving : ∃ q outcome t,
    Reaches observed (process (sampleConfig true) .ascii .edit) (.initial, sampleState true) q
      (outcome, t) ∧
    stored t.files ≠ stored (sampleState true).files ∧ outcome.Justified := by
  have good : (play observed (watched writingEditor) 80
      (process (sampleConfig true) .ascii .edit) (.initial, sampleState true)).any saves =
          true := by
    decide +kernel
  obtain ⟨q, ⟨outcome, t⟩, run, saved⟩ := exists_of_play good
  have changed : stored t.files ≠ stored (sampleState true).files := of_decide_eq_true saved
  exact ⟨q, outcome, t, run, changed,
    justified_of_changed (sampleConfig true) .ascii .edit rfl run changed⟩

/-- Nothing can be read of what gpg prints, because `fdopen` fails. -/
def streamless : Oracle posix State
  | .fdopen _, _ => false
  | request, s => succeeding request s

/-- Whether a run has saved although gpg was not waited for and the password file was there. -/
def savesBlindly (e : Prog Unit × Outcome × State) : Bool :=
  saves e && decide (e.2.1.decrypted = none) && decide (e.2.1.existed = some true)

/-- A run in which `fdopen` fails replaces the password file, though gpg was never waited for. -/
theorem changed_without_decryption :
    ¬ ∀ (cfg : Config) (L : CLocale) (command : Command.Edits) (s t : State) (q : Prog Unit)
      (outcome : Outcome), s.globals = .initial →
      Reaches (effect.record Outcome.note) (process cfg L command) (.initial, s) q (outcome, t) →
      stored t.files ≠ stored s.files → outcome.Justified := by
  intro claim
  have good : (play (effect.record Outcome.note) (watched streamless) 80
      (process (sampleConfig true) .ascii .edit) (.initial, sampleState true)).any
      savesBlindly = true := by decide +kernel
  obtain ⟨q, ⟨outcome, t⟩, run, blind⟩ := exists_of_play good
  simp only [savesBlindly, saves, Bool.and_eq_true, decide_eq_true_eq] at blind
  obtain ⟨⟨changed, waited⟩, existed⟩ := blind
  have justified := claim (sampleConfig true) .ascii .edit (sampleState true) t q outcome rfl run
    changed
  rcases justified.decrypted with zero | absent
  · rw [waited] at zero
    exact Option.some_ne_none _ zero.symm
  · rw [existed, Option.some.injEq] at absent
    exact absurd absent (by decide)

end Mdp.Saving
