import Mdp.Launch
import Mdp.Scenario
import Mdp.Verif.Appending
import Mdp.Verif.Undisturbed

/-!
# What `mdp add` adds

After a run of `mdp add` that nothing disturbs and that saves, the password file reads back as the
entries it had and the new ones behind them, exactly if a line can hold each of the new ones. A
character set may contain blanks, and a password that ends in one is read back without it.
-/

namespace Mdp.Adding

open Mdp Interaction CStrings Entries Appending Undisturbed

/-- The results of a load, of nothing where there is no password file. -/
def resultsOf (L : CLocale) : Option Bytes → List Result
  | none => []
  | some content =>
    match loadContent L .initial content with
    | .ok loaded => loaded.results
    | .error _ => []

/-- The entries of a load. -/
def entriesOf (L : CLocale) (content : Option Bytes) : List (List WChar) :=
  (resultsOf L content).map Result.wcsValue

variable {L : CLocale} {decrypt : Bytes → Bytes} {opts : AddOptions} {weights : List UInt32}
  {s t : State} {old new : List Result}

/-- The old results are those of the old file. -/
theorem resultsOf_before (added : Added decrypt L opts weights s t old new) :
    resultsOf L (plaintext decrypt s) = old := by
  have loaded := added.loaded
  cases content : plaintext decrypt s with
  | none =>
    rw [content] at loaded
    exact loaded.symm
  | some bytes =>
    rw [content] at loaded
    obtain ⟨memory, ok, results⟩ := loaded
    rw [resultsOf, ok, ← results]

/-- The new file reads back as the file for the old results and the new ones. -/
theorem entriesOf_after (added : Added decrypt L opts weights s t old new) :
    entriesOf L (plaintext decrypt t) = reloaded L (old ++ new) := by
  rw [added.left, entriesOf, resultsOf, reloaded]
  cases loadContent L .initial (dump (old ++ new)) <;> rfl

/-- Whatever the old results read back as, the new entries come back behind them exactly if lines
can hold them. -/
theorem entriesOf_after_iff (exact : L.Exact) (added : Added decrypt L opts weights s t old new) :
    entriesOf L (plaintext decrypt t) = reloaded L old ++ generated opts weights ↔
      ∀ entry ∈ generated opts weights, Storable L entry := by
  rw [entriesOf_after added]
  exact reloaded_append_iff exact added.made

/-- After a run of `mdp add` that nothing disturbs and that saves, on a password file whose lines
are short enough and decode, the password file reads back as the entries it had, followed by exactly
the generated ones in their order, if and only if a line can hold each of these. -/
theorem added_come_back_iff (cfg : Config) (L : CLocale) (exact : L.Exact)
    (decrypt : Bytes → Bytes) (opts : AddOptions) (s t : State) (weights : List UInt32)
    (run : Reaches (undisturbedCalls decrypt) (mdpAdd cfg L opts) (⟨[], false⟩, s) (.done ())
      (⟨weights, true⟩, t))
    (short : ∀ content, plaintext decrypt s = some content →
      ∀ line ∈ lines content, (lineBody line).length < maxLineSize - 1)
    (valid : ∀ content, plaintext decrypt s = some content →
      ∀ line ∈ lines content, (L.decode (upToNul line)).isSome) :
    entriesOf L (plaintext decrypt t) =
        entriesOf L (plaintext decrypt s) ++ generated opts weights ↔
      ∀ entry ∈ generated opts weights, Storable L entry := by
  obtain ⟨old, new, added⟩ := (mdpAdd_ends opts rfl).of_run run rfl
  have before : entriesOf L (plaintext decrypt s) = reloaded L old := by
    rw [entriesOf, resultsOf_before added]
    have loaded := added.loaded
    cases content : plaintext decrypt s with
    | none =>
      rw [content] at loaded
      have none : old = [] := loaded
      rw [none]
      rfl
    | some bytes =>
      rw [content] at loaded
      obtain ⟨memory, ok, results⟩ := loaded
      rw [← results]
      exact (reloaded_of_loaded exact ok (short bytes content) (valid bytes content)).symm
  rw [before]
  exact entriesOf_after_iff exact added

/-- gpg prints the password file as it is and encrypts into a copy, and the random numbers choose
one character of a set. -/
def copying (choice : Nat) : Oracle posix (Notes × State)
  | .fgets .pipe, x => (bytesAt x.2 .passwordFile).getD []
  | .system (.encrypt _ _ path), x => ⟨0, some ⟨(bytesAt x.2 path).getD [], 0o644⟩⟩
  | .arc4randomUniform _, x => if x.1.weights.length = choice then 1 else 0
  | request, x => succeeding request x.2

/-- The configuration and the options of `mdp add`, where a process comes to it. -/
def addCommand : Except Ending (Config × Started) → Option (Config × AddOptions)
  | .ok (cfg, .edits (.add opts)) => some (cfg, opts)
  | _ => none

/-- A command that adds was started. -/
theorem eq_of_addCommand {launched : Except Ending (Config × Started)} {cfg : Config}
    {opts : AddOptions} (found : addCommand launched = some (cfg, opts)) :
    launched = .ok (cfg, .edits (.add opts)) := by
  unfold addCommand at found
  split at found
  · cases found
    rfl
  · cases found

/-- What a process finds, with some lines in the configuration file. -/
def surroundings (config : String) : Surroundings :=
  ⟨true, none, ascii "/home/u/.mdp", some (ascii config)⟩

/-- `mdp add -n 1 -l 1` with this configuration. -/
def launched (config : String) : Except Ending (Config × Started) :=
  launch .ascii (surroundings config) [ascii "add", ascii "-n", ascii "1", ascii "-l", ascii "1"]

/-- A played run of it, and its options. -/
def played (config : String) (choice : Nat) :
    Option (Config × AddOptions × Prog Unit × Notes × State) :=
  (addCommand (launched config)).bind fun command =>
    (play (undisturbedCalls id) (copying choice) 300 (mdpAdd command.1 .ascii command.2)
      (⟨[], false⟩, sampleState true)).map fun ended => (command.1, command.2, ended)

/-- Whether the run has saved, what was generated, and what the new file holds. -/
def savedAs (generation : List (List WChar)) (content : Bytes)
    (ended : Config × AddOptions × Prog Unit × Notes × State) : Bool :=
  (match ended.2.2.1 with | .done _ => true | _ => false) && ended.2.2.2.1.saved &&
    decide (generated ended.2.1 ended.2.2.2.1.weights = generation) &&
    decide (plaintext id ended.2.2.2.2 = some content)

/-- What is played is a run. -/
theorem exists_of_played {config : String} {choice : Nat} {generation : List (List WChar)}
    {content : Bytes} (good : (played config choice).any (savedAs generation content) = true) :
    ∃ cfg opts weights t, launched config = .ok (cfg, .edits (.add opts)) ∧
      Reaches (undisturbedCalls id) (mdpAdd cfg .ascii opts) (⟨[], false⟩, sampleState true)
        (.done ())
        (⟨weights, true⟩, t) ∧
      generated opts weights = generation ∧ plaintext id t = some content := by
  obtain ⟨⟨cfg, opts, q, ⟨weights, saved⟩, t⟩, found, checked⟩ := (Option.any_eq_true _ _).mp good
  simp only [played, Option.bind_eq_some_iff, Option.map_eq_some_iff] at found
  obtain ⟨⟨cfg', opts'⟩, command, ⟨q', n', t'⟩, run, same⟩ := found
  simp only [Prod.mk.injEq] at same
  obtain ⟨rfl, rfl, rfl, rfl, rfl⟩ := same
  simp only [savedAs, Bool.and_eq_true, decide_eq_true_eq] at checked
  obtain ⟨⟨⟨ended, rfl⟩, generation⟩, content⟩ := checked
  have reached := play_reaches run
  cases q' with
  | done value => exact ⟨cfg', opts', weights, t', eq_of_addCommand command, reached, generation,
      content⟩
  | halt ending => cases ended
  | call request next => cases ended

/-- The one line of the old file is short, and decodes. -/
theorem sample_line {content : Bytes} (same : plaintext id (sampleState true) = some content) :
    ∀ line ∈ lines content,
      (lineBody line).length < maxLineSize - 1 ∧ (CLocale.ascii.decode (upToNul line)).isSome := by
  have before : plaintext id (sampleState true) = some (ascii "p") := rfl
  rw [before, Option.some.injEq] at same
  rw [← same]
  decide

/-- A letter is added behind a line of the old file. -/
theorem added_come_back_iff_letter : ∃ cfg opts weights t,
    launched "set gpg_key_id k\n" = .ok (cfg, .edits (.add opts)) ∧
    Reaches (undisturbedCalls id) (mdpAdd cfg .ascii opts) (⟨[], false⟩, sampleState true)
      (.done ())
      (⟨weights, true⟩, t) ∧
    (entriesOf .ascii (plaintext id t) =
        entriesOf .ascii (plaintext id (sampleState true)) ++ generated opts weights ↔
      ∀ entry ∈ generated opts weights, Storable .ascii entry) := by
  have good : (played "set gpg_key_id k\n" 1).any (savedAs [[0x62]] (ascii "p\nb\n")) = true := by
    decide +kernel
  obtain ⟨cfg, opts, weights, t, command, run, _, _⟩ := exists_of_played good
  exact ⟨cfg, opts, weights, t, command, run,
    added_come_back_iff cfg .ascii CLocale.ascii_exact id opts _ t weights run
      (fun _ same line member => (sample_line same line member).1)
    (fun _ same line member => (sample_line same line member).2)⟩

/-- A password that is one blank is added as an empty line. -/
theorem not_added_come_back : ¬ ∀ (L : CLocale) (around : Surroundings) (argv : List Bytes)
    (cfg : Config) (decrypt : Bytes → Bytes) (opts : AddOptions) (s t : State)
    (weights : List UInt32), L.Exact → launch L around argv = .ok (cfg, .edits (.add opts)) →
    Reaches (undisturbedCalls decrypt) (mdpAdd cfg L opts) (⟨[], false⟩, s) (.done ())
      (⟨weights, true⟩, t) →
    (∀ content, plaintext decrypt s = some content →
      ∀ line ∈ lines content, (lineBody line).length < maxLineSize - 1) →
    (∀ content, plaintext decrypt s = some content →
      ∀ line ∈ lines content, (L.decode (upToNul line)).isSome) →
    entriesOf L (plaintext decrypt t) =
      entriesOf L (plaintext decrypt s) ++ generated opts weights := by
  intro claim
  have good : (played "set gpg_key_id k\nset character_set \"a \"\n" 1).any
      (savedAs [[0x20]] (ascii "p\n \n")) = true := by decide +kernel
  obtain ⟨cfg, opts, weights, t, command, run, generation, content⟩ := exists_of_played good
  have before : plaintext id (sampleState true) = some (ascii "p") := rfl
  have after :=
    claim .ascii _ _ cfg id opts (sampleState true) t weights CLocale.ascii_exact command
    run (fun _ same line member => (sample_line same line member).1)
    (fun _ same line member => (sample_line same line member).2)
  rw [content, before, generation] at after
  exact absurd after (by decide +kernel)

end Mdp.Adding
