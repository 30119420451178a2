import Mdp.Gpg

/-!
# Editing the results

`editor.c`. The global `editor_tmp_path` is part of the state of the process, since the handlers
read it; `mkstemp` writes the name it made into it.
-/

namespace Mdp

open Interaction CStrings

/-- `editor_is_vim`. The set given to `strpbrk` ends at the NUL in it, so only a space ends the
command. -/
def editorIsVim (command : Bytes) : Bool :=
  let word := command.takeWhile (· ≠ 0x20)
  3 ≤ word.length ∧ word.drop (word.length - 3) = [0x76, 0x69, 0x6d]

/-- The local variable `editor` of `spawn_editor`; `none` is the null pointer of a `strdup` that
failed. -/
def editorCommand (editor : Bytes) : Prog (Option Bytes) := do
  if editorIsVim editor then do
    xasprintf
    pure (some (editor ++ [0x20, 0x2d, 0x6e]))
  else do
    let copied ← ask .allocate
    pure (if copied then some editor else none)

/-- What `printf` makes of a null pointer. -/
def nullText : Bytes := [0x28, 0x6e, 0x75, 0x6c, 0x6c, 0x29]

/-- `spawn_editor`. A `cfg_editor` that is `NULL` ends the process in `editor_is_vim`, and the null
pointer of a failed `strdup` is noticed when it is freed. -/
def spawnEditor (cfg : Config) (path : Path) : Prog Unit := do
  let editor ← editorCommand (← readString cfg.editor)
  xasprintf
  debug cfg "spawn_editor: %s"
  let exit ← ask (.system (.edit (editor.getD nullText) path))
  require (exit.status != -1) "unable to spawn editor: %s"
  require (¬ exit.status > 0) "editor returned with an error: %s"
  require editor.isSome "null pointer"

/-- `has_changed`, with the memory after its load. A null stream loads as an empty one, and is
then closed. -/
def hasChanged (L : CLocale) (memory : Memory) (path : Path) : Prog Bool := do
  let fp ← ask (.fopenRead path)
  let loaded ← loadResultsFp L memory (fp.map .file)
  match fp with
  | none => .halt .crash
  | some stream => do
    let _ ← ask (.fclose (.file stream))
    pure (memory.resultCrc32 != loaded.resultCrc32)

/-- The loop of `edit_results` that writes the results. -/
def dumpResults (fd : Nat) : List Result → Prog Unit
  | [] => .done ()
  | result :: rest => do
    let text ← ask (.write fd (result.mbsValue.take result.mbsLen))
    require text.isSome "edit_results write"
    let ended ← ask (.write fd [newline])
    require ended.isSome "edit_results write (new-line)"
    dumpResults fd rest

/-- The end of `edit_results`. -/
def saveResults (cfg : Config) (path : Path) (changed : Bool) : Prog Unit :=
  if changed then gpgEncrypt cfg path else ask (.print "No changes, exiting...\n")

/-- The part of `edit_results` after the temporary file was made. -/
def editCreated (cfg : Config) (L : CLocale) (memory : Memory) (created : Created) : Prog Unit := do
  dumpResults created.fd memory.results
  require (← ask (.close created.fd)) "edit_results close(tmp_fd)"
  spawnEditor cfg (.tmp created.suffix)
  let changed ← hasChanged L memory (.tmp created.suffix)
  saveResults cfg (.tmp created.suffix) changed

/-- `edit_results`. -/
def editResults (cfg : Config) (L : CLocale) (memory : Memory) : Prog Unit := do
  match ← ask .mkstemp with
  | none => err exitFailure "edit_results mkstemp()"
  | some created => editCreated cfg L memory created

end Mdp
