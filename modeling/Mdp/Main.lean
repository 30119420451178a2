import Mdp.Cleanup
import Mdp.Editor
import Mdp.Profile

/-!
# The commands

`mdp_edit`, `mdp_add` and `mdp_generate` of `main.c`, and the whole process around them from the
point where the configuration is read.
-/

namespace Mdp

open Interaction CStrings

/-- `setup_signals_and_atexit`. -/
def setupSignalsAndAtexit : Prog Unit := do
  require (← ask .atexit) "get_results atexit"
  ask (.signal .int .cleanup)
  ask (.signal .kill .cleanup)

/-- `mdp_edit`. -/
def mdpEdit (cfg : Config) (L : CLocale) : Prog Unit := do
  debug cfg "mdp_edit()"
  gpgCheck cfg
  lockSet
  setupSignalsAndAtexit
  let memory ← loadResultsGpg cfg L .initial
  editResults cfg L memory

/-- The profile of `mdp_add` and of `mdp_generate`. -/
def addProfile (opts : AddOptions) : Prog Profile :=
  match opts.profileName with
  | none => profileNew opts [0x64, 0x65, 0x66, 0x61, 0x75, 0x6c, 0x74]
  | some name =>
    match profileGetFromName opts name with
    | none => errx exitFailure "unknown profile"
    | some profile => .done profile

/-- `mdp_add`. -/
def mdpAdd (cfg : Config) (L : CLocale) (opts : AddOptions) : Prog Unit := do
  debug cfg "mdp_add()"
  let profile ← addProfile opts
  gpgCheck cfg
  lockSet
  setupSignalsAndAtexit
  let memory ← loadResultsGpg cfg L .initial
  let memory ← profilePasswordsToResults L opts profile memory
  editResults cfg L memory

/-- `mdp_generate`, with the passwords it prints. -/
def mdpGenerate (cfg : Config) (opts : AddOptions) : Prog (List (List WChar)) := do
  debug cfg "mdp_generate()"
  let profile ← addProfile opts
  profileFprintPasswords opts profile

/-- The commands that edit. -/
inductive Command.Edits where
  | edit
  | add (opts : AddOptions)

/-- The branch of `main` for a command. -/
def runCommand (cfg : Config) (L : CLocale) : Command.Edits → Prog Unit
  | .edit => mdpEdit cfg L
  | .add opts => mdpAdd cfg L opts

/-- `main` from its dispatch on: it returns `EXIT_SUCCESS`, which is given to `exit`. -/
def mainFrom (cfg : Config) (L : CLocale) (command : Command.Edits) : Prog Unit := do
  runCommand cfg L command
  debug cfg "normal shutdown"
  .halt (.exit 0 "")

/-- A process that runs a command, to its very end. -/
def process (cfg : Config) (L : CLocale) (command : Command.Edits) : Prog Unit :=
  (mainFrom cfg L command).onHalt (leave cfg)

end Mdp
