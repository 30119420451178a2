import Mdp.Commands

/-!
# Editing without a swap file

Which editors get the option `-n` from `spawn_editor`. It looks for the end of the command word at
the first space only, so where a tab ends that word it looks at what stands behind the tab instead.
-/

namespace Mdp.SwapFile

open Mdp Interaction CStrings

variable {cfg : Config} {places : Places} {path : Path}

/-- The command word: the characters in front of the first space or tab. -/
def commandWord (editor : Bytes) : Bytes := editor.takeWhile fun c => c ≠ 0x09 ∧ c ≠ 0x20

/-- Where a tab ends the command word, the characters behind it that are in front of the first
space. -/
def behindTab (editor : Bytes) : Option Bytes :=
  ((editor.takeWhile fun c => c ≠ 0x20).dropWhile fun c => c ≠ 0x09).tail?

/-- The command has the option between the editor and the quoted path. -/
def HasOption (places : Places) (editor : Bytes) (path : Path) (command : Command) : Prop :=
  command.text places = editor ++ ascii " -n" ++ ascii " \"" ++ path.text places ++ ascii "\""

/-- The commands that `spawn_editor` runs have the option if and only if the command word ends in
`vim`. -/
def VimOnly (cfg : Config) (places : Places) (path : Path) : Prop :=
  ∀ editor, cfg.editor = some editor → ∀ command, Runs (spawnEditor cfg path) command →
    (HasOption places editor path command ↔ ascii "vim" <:+ commandWord editor)

/-- `editor_is_vim` looks at the characters in front of the first space. -/
theorem editorIsVim_iff (command : Bytes) :
    editorIsVim command = true ↔ ascii "vim" <:+ command.takeWhile fun c => c ≠ 0x20 := by
  have vim : ascii "vim" = [0x76, 0x69, 0x6d] := rfl
  unfold editorIsVim
  rw [List.suffix_iff_eq_drop, vim, decide_eq_true_iff, eq_comm]
  constructor
  · exact fun both => both.2
  · intro same
    refine ⟨?_, same⟩
    have length := congrArg List.length same
    rw [List.length_drop, List.length_cons, List.length_cons, List.length_cons,
      List.length_nil] at length
    omega

/-- A command for another text of the editor has the option if that text has it. -/
theorem hasOption_edit_iff {editor text : Bytes} :
    HasOption places editor path (.edit text path) ↔ text = editor ++ ascii " -n" := by
  unfold HasOption Command.text
  rw [List.append_left_inj, List.append_left_inj, List.append_left_inj]

/-- The text of a null pointer does not have the option. -/
theorem nullText_ne (editor : Bytes) : nullText ≠ editor ++ ascii " -n" := by
  intro same
  have last := congrArg List.getLast? same
  rw [List.getLast?_append_of_ne_nil _ (by decide)] at last
  exact absurd last (by decide)

/-- The command has the option where the editor is seen to be vim. -/
theorem hasOption_editorText_iff {editor : Bytes} :
    HasOption places editor path (.edit (editorText editor) path) ↔ editorIsVim editor = true := by
  rw [hasOption_edit_iff, editorText]
  split
  · rename_i vim
    exact iff_of_true rfl vim
  · rename_i other
    refine iff_of_false ?_ other
    intro same
    have length := congrArg List.length same
    rw [List.length_append] at length
    exact absurd length (by simp [ascii])

/-- The commands are guarded exactly for the editors where both words agree. -/
theorem vimOnly_iff_agree : VimOnly cfg places path ↔ ∀ editor, cfg.editor = some editor →
    (editorIsVim editor = true ↔ ascii "vim" <:+ commandWord editor) := by
  refine forall₂_congr fun editor given => ?_
  constructor
  · intro only
    rw [← only _ (runs_spawnEditor.mpr ⟨editor, given, .inl rfl⟩), hasOption_editorText_iff]
  · intro agree command run
    rw [← agree]
    obtain ⟨same, there, ran⟩ := runs_spawnEditor.mp run
    obtain rfl : editor = same := Option.some.inj (given.symm.trans there)
    rcases ran with rfl | ⟨other, rfl⟩
    · exact hasOption_editorText_iff
    · rw [hasOption_edit_iff, other]
      exact iff_of_false (nullText_ne _) Bool.false_ne_true

/-- What ends with characters none of which is a tab does so behind the tab. -/
theorem suffix_append_cons_iff {suffix front rest : Bytes} {c : UInt8} (free : c ∉ suffix) :
    suffix <:+ front ++ c :: rest ↔ suffix <:+ rest := by
  constructor
  · intro whole
    rcases List.suffix_or_suffix_of_suffix whole
      (List.suffix_append front (c :: rest)) with inside | longer
    · rcases List.suffix_cons_iff.mp inside with same | behind
      · exact absurd (same ▸ List.mem_cons_self) free
      · exact behind
    · exact absurd (longer.mem List.mem_cons_self) free
  · intro behind
    exact List.suffix_append_of_suffix (behind.trans (List.suffix_cons c rest))

/-- The characters in front of the first space are the command word and, behind a tab, others. -/
theorem takeWhile_space (editor : Bytes) : (editor.takeWhile fun c => c ≠ 0x20) =
    commandWord editor ++ ((behindTab editor).map fun rest => 0x09 :: rest).getD [] := by
  have word : commandWord editor = (editor.takeWhile fun c => c ≠ 0x20).takeWhile fun c =>
      c ≠ 0x09 := by
    simp [commandWord, List.takeWhile_takeWhile]
  unfold behindTab
  rw [word]
  generalize (editor.takeWhile fun c => c ≠ 0x20) = text
  have split := @List.takeWhile_append_dropWhile _ (fun c : UInt8 => decide (c ≠ 0x09)) text
  cases behind : text.dropWhile fun c => c ≠ 0x09 with
  | nil =>
    rw [behind] at split
    exact split.symm
  | cons c rest =>
    have tab : c = 0x09 := by
      have first := List.head?_dropWhile_not (fun c : UInt8 => decide (c ≠ 0x09)) text
      rw [behind] at first
      simpa using first
    rw [behind, tab] at split
    exact split.symm

/-- The commands have the option for vim only, unless a tab ends the command word and what is behind
it, in front of the first space, ends in `vim` where the command word does not, or the other way
round. -/
theorem vimOnly_iff : VimOnly cfg places path ↔ ∀ editor, cfg.editor = some editor →
    ∀ rest, behindTab editor = some rest →
      (ascii "vim" <:+ rest ↔ ascii "vim" <:+ commandWord editor) := by
  rw [vimOnly_iff_agree]
  refine forall₂_congr fun editor _ => ?_
  rw [editorIsVim_iff, takeWhile_space]
  cases behindTab editor with
  | none => simp
  | some rest =>
    rw [Option.map_some, Option.getD_some, suffix_append_cons_iff (by decide)]
    simp

/-- `vim` with an argument behind a tab does not get the option. -/
theorem not_vimOnly_tab :
    ¬ VimOnly ⟨false, true, some (ascii "vim\t-R"), ascii "gpg", some (ascii "0"), 20⟩
    (.named (ascii "/home/u") (ascii "a1B2c3D4")
      ⟨rfl, List.forall_iff_forall_mem.mp (by decide)⟩) (.tmp 0) := by
  rw [vimOnly_iff_agree]
  intro agree
  exact absurd (agree _ rfl) (by decide)

end Mdp.SwapFile
