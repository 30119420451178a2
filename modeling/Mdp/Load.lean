import Mdp.Results
import Mdp.Utils

/-!
# The calls of a load

`result_new` and `load_results_fp` with the calls they make. The stream is read in one call; what
each line becomes is `loadLine`.
-/

namespace Mdp

open Interaction CStrings

/-- `UINT_MAX`. -/
def uintMax : Nat := 4294967295

/-- `ARRAY_ADD` on an array of `num` items, which may have to grow. -/
def arrayAdd (num : Nat) : Prog Unit := do
  require (num < uintMax) "number too big"
  require (← ask .allocate) "xrealloc failed"

/-- The warning of `load_results_fp` about a buffer without newline. -/
def warnUnlessNewline (line : Bytes) : Prog Unit :=
  if newline ∈ upToNul line then .done ()
  else ask (.print
    "WARNING: Line %d is too long (max:%ld) or does not end with a new line.\n")

/-- The loop of `load_results_fp`. The first memory asked for is the result's, the second its
multibyte string's. -/
def loadResultsLoop (L : CLocale) (memory : Memory) (ctx : CksumCtx) : List Bytes → Prog Memory
  | [] => .done { memory with resultCrc32 := cksumFinal ctx }
  | line :: rest => do
    warnUnlessNewline line
    xmalloc
    match loadLine L memory line with
    | none => errx exitFailure "unable to read line %d with the current locale."
    | some next => do
      xmalloc
      arrayAdd memory.results.length
      loadResultsLoop L next (cksumUpdate ctx (upToNul line)) rest

/-- `load_results_fp`. -/
def loadResultsFp (L : CLocale) (memory : Memory) : Option Stream → Prog Memory
  | none => loadResultsLoop L memory cksumInit []
  | some fp => do
    let content ← ask (.fgets fp)
    loadResultsLoop L memory cksumInit (chunks maxLineSize content)

end Mdp
