import Mdp.Commands

/-!
# The temporary file in the shell

Both commands of an edit name the temporary file, `spawn_editor` between double quotes and
`gpg_encrypt` bare. Which home directories reach both programs unaltered, after `sh` has split the
commands.
-/

namespace Mdp.ShellPaths

open Mdp ShellWords
open CStrings (Bytes CLocale)

variable {cfg : Config} {editor home : Bytes}

/-- The last argument of both commands of every edit is the name of the temporary file,
unaltered. -/
def Unaltered (cfg : Config) (home : Bytes) : Prop :=
  ∀ places : Places, places.home = home → ∀ suffix editing encrypting,
    EditRuns cfg (.tmp suffix) editing encrypting →
      lastArgument (editing.text places) = some (literals ((Path.tmp suffix).text places)) ∧
        lastArgument (encrypting.text places) = some (literals ((Path.tmp suffix).text places))

/-- What `gpg_encrypt` puts in front of the name. -/
def encryptText (cfg : Config) : Bytes :=
  cfg.gpgPath ++ ascii " -r " ++ cfg.gpgKeyId.getD nullText ++ ascii " -e"

/-- The shell is between two words in front of both names, and the home directory has no byte that
it does not leave alone. -/
structure Harmless (cfg : Config) (editor home : Bytes) : Prop where
  editor : (Lexer.start.run (editorText editor ++ [space])).Ready
  gpg : (Lexer.start.run (encryptText cfg ++ [space])).Ready
  home : Plain home

/-- The name of the temporary file without the letters of `mkstemp`. -/
def stem (home : Bytes) : Bytes := home ++ ascii "/.mdp/tmp_edit."

/-- What `mkstemp` can make of the template. -/
def suffixes : Set Bytes := {name | name.length = 8 ∧ ∀ c ∈ name, Portable c}

/-- The name of the temporary file ends in the letters of `mkstemp`. -/
theorem text_tmp (places : Places) (suffix : Nat) :
    (Path.tmp suffix).text places = stem places.home ++ places.letters suffix := by
  simp only [Path.text, Places.configDir, joinPath, stem, List.append_assoc]
  rfl

/-- `mkstemp` can make more than one name. -/
theorem suffixes_nontrivial : suffixes.Nontrivial :=
  ⟨ascii "aaaaaaaa", ⟨rfl, List.forall_iff_forall_mem.mp (by decide)⟩, ascii "bbbbbbbb",
    ⟨rfl, List.forall_iff_forall_mem.mp (by decide)⟩, by decide⟩

/-- All of them are made of portable characters. -/
theorem suffixes_portable : ∀ name ∈ suffixes, name ≠ [] ∧ ∀ c ∈ name, Portable c := by
  rintro name ⟨length, portable⟩
  refine ⟨?_, portable⟩
  rintro rfl
  cases length

/-- The shell leaves the rest of the name alone. -/
theorem plain_stem_iff : Plain (stem home) ↔ Plain home :=
  plain_append_iff (List.forall_iff_forall_mem.mp (by decide))

/-- There is no newline in front of the letters either. -/
theorem newline_notMem_stem (line : newline ∉ home) : newline ∉ stem home := by
  rw [stem, List.mem_append, not_or]
  exact ⟨line, by decide⟩

/-- The two commands, for every name that `mkstemp` can make. -/
theorem unaltered_iff_names (given : cfg.editor = some editor) : Unaltered cfg home ↔
    (∀ name ∈ suffixes, lastArgument
      (editorText editor ++ [space] ++ doubleQuote :: (stem home ++ name ++ [doubleQuote])) =
        some (literals (stem home ++ name))) ∧
      ∀ name ∈ suffixes, lastArgument (encryptText cfg ++ [space] ++ (stem home ++ name)) =
        some (literals (stem home ++ name)) := by
  have edit : ∀ (places : Places) suffix,
    (Command.edit (editorText editor) (.tmp suffix)).text places =
      editorText editor ++ [space] ++ doubleQuote ::
        (stem places.home ++ places.letters suffix ++ [doubleQuote]) := by
    intro places suffix
    rw [Command.text, text_tmp]
    simp only [List.append_assoc]
    rfl
  have encrypt : ∀ (places : Places) suffix,
      (Command.encrypt cfg.gpgPath cfg.gpgKeyId (.tmp suffix)).text places =
        encryptText cfg ++ [space] ++ (stem places.home ++ places.letters suffix) := by
    intro places suffix
    rw [Command.text, text_tmp, encryptText]
    simp only [List.append_assoc]
    rfl
  rw [← forall₂_and]
  constructor
  · intro unaltered name member
    have both := unaltered (.named home name member) rfl 0 _ _ 
      (editRuns_iff.mpr ⟨editor, given, rfl, rfl⟩)
    rw [edit, encrypt, text_tmp] at both
    exact both
  · intro named places here suffix editing encrypting run
    obtain ⟨other, there, rfl, rfl⟩ := editRuns_iff.mp run
    obtain rfl : editor = other := Option.some.inj (given.symm.trans there)
    rw [edit, encrypt, text_tmp, here]
    exact named _ (places.portable suffix)

/-- Where everything is harmless, both commands name the temporary file. -/
theorem unaltered_of_harmless (given : cfg.editor = some editor)
    (harmless : Harmless cfg editor home) : Unaltered cfg home := by
  have plain := plain_stem_iff.mpr harmless.home
  refine (unaltered_iff_names given).mpr ⟨?_, fun name member => ?_⟩
  · exact (lastArgument_quoted_iff suffixes_portable suffixes_nontrivial plain.ordinary).mpr
      harmless.editor
  · obtain ⟨nonempty, letters⟩ := suffixes_portable name member
    have whole := (plain_append_iff fun c letter => (letters c letter).within).mpr plain
    exact lastArgument_bare harmless.gpg whole (by simp [nonempty])

/-- Then `edit_results` encrypts the file that it had edited. -/
theorem editResults_unaltered {L : CLocale} {memory : Memory} {places : Places}
    {editing encrypting : Command}
    (harmless : ∀ editor, cfg.editor = some editor → Harmless cfg editor places.home)
    (asked : Interaction.Asks commandLog (editResults cfg L memory) [] (.system encrypting)
      [editing]) :
    ∃ suffix, lastArgument (editing.text places) = some (literals ((Path.tmp suffix).text places)) ∧
      lastArgument (encrypting.text places) = some (literals ((Path.tmp suffix).text places)) := by
  obtain ⟨suffix, ⟨nothing, -⟩ | ⟨first, same, run⟩⟩ := of_asks_editResults asked
  · cases nothing
  · cases same
    obtain ⟨editor, given, -⟩ := editRuns_iff.mp run
    exact ⟨suffix, unaltered_of_harmless given (harmless editor given) places rfl suffix _ _ run⟩

/-- Both commands name the temporary file if and only if the home directory is harmless for the
editor that is there: the quotes of `spawn_editor` would let more through, but `gpg_encrypt` has
none. -/
theorem unaltered_iff (line : newline ∉ home) : Unaltered cfg home ↔
    ∀ editor, cfg.editor = some editor → Harmless cfg editor home := by
  constructor
  · intro unaltered editor given
    obtain ⟨quoted, bare⟩ := (unaltered_iff_names given).mp unaltered
    obtain ⟨ready, plain⟩ := (lastArgument_bare_iff suffixes_portable suffixes_nontrivial
      (newline_notMem_stem line)).mp bare
    refine ⟨?_, ready, plain_stem_iff.mp plain⟩
    exact (lastArgument_quoted_iff suffixes_portable suffixes_nontrivial plain.ordinary).mp quoted
  · intro harmless places here suffix editing encrypting run
    obtain ⟨editor, given, -⟩ := editRuns_iff.mp run
    exact unaltered_of_harmless given (harmless editor given) places here suffix _ _ run

/-- With an editor, a gpg and a key that are words of their own, only the home directory matters. -/
theorem harmless_iff_plain {keyId : Bytes} (key : cfg.gpgKeyId = some keyId)
    (words : ∀ word ∈ [editor, cfg.gpgPath, keyId], Plain word ∧ word ≠ []) :
    Harmless cfg editor home ↔ Plain home := by
  simp only [List.forall_mem_cons] at words
  obtain ⟨editorWord, gpgWord, keyWord, -⟩ := words
  have spawned : editorText editor ++ [space] =
      (editor :: if editorIsVim editor then [ascii "-n"] else []).flatMap (· ++ [space]) := by
    unfold editorText
    split <;> simp [ascii]
  have gpg : encryptText cfg ++ [space] =
      [cfg.gpgPath, ascii "-r", keyId, ascii "-e"].flatMap (· ++ [space]) := by
    simp [encryptText, key, ascii]
  constructor
  · exact Harmless.home
  · intro plain
    refine ⟨?_, ?_, plain⟩
    · rw [spawned]
      refine ready_words rfl rfl (List.cons_ne_nil _ _) (List.forall_mem_cons.mpr ⟨editorWord, ?_⟩)
      split <;> decide
    · rw [gpg]
      refine ready_words rfl rfl (List.cons_ne_nil _ _) ?_
      simp only [List.forall_mem_cons]
      exact ⟨gpgWord, by decide, keyWord, by decide, nofun⟩

/-- A user whose home directory has a blank in its name encrypts another file. -/
theorem not_unaltered_blank : 0 ∉ ascii "/home/a b" ∧ newline ∉ ascii "/home/a b" ∧
    ¬ Unaltered ⟨false, true, some (ascii "vi"), ascii "gpg", some (ascii "0"), 20⟩
        (ascii "/home/a b") := by
  refine ⟨by decide, by decide, fun unaltered => ?_⟩
  have bare := ((unaltered_iff_names rfl).mp unaltered).2 (ascii "aaaaaaaa")
    ⟨rfl, List.forall_iff_forall_mem.mp (by decide)⟩
  exact absurd bare (by decide +kernel)

/-- An ordinary home directory, with the editor vi. -/
theorem unaltered_plain : newline ∉ ascii "/home/u" ∧
    Unaltered ⟨false, true, some (ascii "vi"), ascii "gpg", some (ascii "0"), 20⟩
        (ascii "/home/u") := by
  refine ⟨by decide, (unaltered_iff (by decide)).mpr ?_⟩
  intro editor given
  cases given
  exact (harmless_iff_plain rfl (by decide)).mpr (by decide)

end Mdp.ShellPaths
