import Mdp.Gpg

/-!
# Searching the results

The second half of `results.c`, with `wcscasestr` of `str.c` and `wcsncasecmp.c`, and what prints
the matching lines. `towlower` and the regular expressions are the C library's, so they are
parameters. The keyword buffer of `line_matches_plain` is on the stack and is not initialised, and a
line that is too long leaves no terminator in the buffer of `line_matches_regex`: what is found
there in memory is a parameter too, for each call.
-/

namespace Mdp

open Interaction CStrings

/-- What the C library knows about characters and regular expressions. -/
structure Library where
  towlower : WChar → WChar
  /-- `regcomp`, and the strings that `regexec` then accepts. -/
  regcomp : Bytes → Option (Bytes → Bool)

/-- `KEYWORD_LENGTH`. -/
def keywordLength : Nat := 50

/-- What a comparison finds in memory that it has not stored there itself. -/
structure Leftovers where
  /-- The buffer of `line_matches_plain`. A conversion leaves in it what it does not overwrite. -/
  kw : List WChar
  /-- What stands behind the bytes that `line_matches_regex` stores. -/
  behind : Bytes

/-- `'#'`. -/
def hash : WChar := 0x23

/-- `wcsncasecmp`. The lists end at their NUL, which reads as zero. -/
def wcsncasecmp (towlower : WChar → WChar) : List WChar → List WChar → Nat → Int
  | _, _, 0 => 0
  | [], s2, _ + 1 => -(s2.headD 0).toNat
  | wide :: s1, s2, n + 1 =>
    if towlower wide = towlower (s2.headD 0) then wcsncasecmp towlower s1 s2.tail n
    else ((towlower wide).toNat : Int) - (towlower (s2.headD 0)).toNat

/-- The loops of `wcscasestr`: the next place where the first character and then the others are
found. -/
def wcscasestrLoop (towlower : WChar → WChar) (c : WChar) (find : List WChar) :
    List WChar → Option (List WChar)
  | [] => none
  | sc :: s =>
    if towlower sc ≠ c then wcscasestrLoop towlower c find s
    else if wcsncasecmp towlower s find find.length ≠ 0 then wcscasestrLoop towlower c find s
    else some (sc :: s)

/-- `wcscasestr`. -/
def wcscasestr (towlower : WChar → WChar) (s : List WChar) : List WChar → Option (List WChar)
  | [] => some s
  | first :: find => wcscasestrLoop towlower (towlower first) find s

variable (lib : Library) (L : CLocale)

/-- The loop of `line_matches_plain`, from what is in its buffer. -/
def lineMatchesPlain (line : List WChar) : List WChar → List Bytes → Bool
  | _, [] => true
  | kw, keyword :: rest =>
    let kw := (L.mbstowcs keywordLength keyword kw).1
    if (wcscasestr lib.towlower line (upToNul kw)).isNone then false
    else lineMatchesPlain line kw rest

/-- The loop of `line_matches_regex`. -/
def lineMatchesRegex (behind : Bytes) (line : List WChar) : List Bytes → Except Ending Bool
  | [] => .ok true
  | keyword :: rest =>
    let mbsLine := L.wcstombs behind maxLineSize line
    match lib.regcomp keyword with
    | none => .error (.exit exitFailure "line_matches_regex")
    | some accepts => if accepts mbsLine then lineMatchesRegex behind line rest else .ok false

/-- `line_matches`. -/
def lineMatches (regex : Bool) (leftovers : Leftovers) (keywords : List Bytes) (line : List WChar) :
    Except Ending Bool :=
  if line.head? = some hash then .ok false
  else if regex then lineMatchesRegex lib L leftovers.behind line keywords
  else .ok (lineMatchesPlain lib L line leftovers.kw keywords)

/-- The loop of `filter_results`, from an index on. -/
def filterFrom (regex : Bool) (leftovers : Nat → Leftovers) (keywords : List Bytes) :
    Nat → List Result → Except Ending (List Result)
  | _, [] => .ok []
  | i, result :: rest =>
    match lineMatches lib L regex (leftovers i) keywords result.wcsValue with
    | .error ending => .error ending
    | .ok visible =>
      match filterFrom regex leftovers keywords (i + 1) rest with
      | .error ending => .error ending
      | .ok others => .ok ({ result with visible } :: others)

/-- `filter_results`. -/
def filterResults (regex : Bool) (leftovers : Nat → Leftovers) (keywords : List Bytes)
    (results : List Result) : Except Ending (List Result) :=
  filterFrom lib L regex leftovers keywords 0 results

/-- `printf("%ls\n", value)`, which prints nothing where a character is not in the locale. -/
def printLine (value : List WChar) : Bytes :=
  match L.encode value with
  | none => []
  | some mbs => mbs ++ [newline]

/-- `print_results`. -/
def printResults (results : List Result) : Bytes :=
  (results.filter Result.visible).flatMap fun result => printLine L result.wcsValue

/-- What `mdp_get` and `mdp_prompt` load. -/
def loadPasswords (cfg : Config) : Prog Memory := do
  gpgCheck cfg
  let memory ← loadResultsGpg cfg L .initial
  require (memory.results.length != 0) "no passwords"
  pure memory

/-- Go on with what a search comes to, or exit as it does. -/
def orExit {α : Type} : Except Ending α → Prog α
  | .error ending => .halt ending
  | .ok value => .done value

/-- `mdp_get` with `cmd_raw`: what it prints to the standard output. -/
def mdpGetRaw (cfg : Config) (regex : Bool) (leftovers : Nat → Leftovers) (keywords : List Bytes) :
    Prog Bytes := do
  debug cfg "mdp_get()"
  let memory ← loadPasswords L cfg
  let results ← orExit (filterResults lib L regex leftovers keywords memory.results)
  pure (printResults L results)

variable {lib L}

/-- Characters are compared one by one until two differ. -/
theorem wcsncasecmp_cons (towlower : WChar → WChar) (first wide : WChar) (s find : List WChar)
    (n : Nat) : wcsncasecmp towlower (first :: s) (wide :: find) (n + 1) =
      if towlower first = towlower wide then wcsncasecmp towlower s find n
      else ((towlower first).toNat : Int) - (towlower wide).toNat := rfl

/-- The comparison of a keyword's other characters is that of a prefix. -/
theorem wcsncasecmp_eq_zero {towlower : WChar → WChar} {s find : List WChar}
    (nonNull : ∀ wide ∈ find, wide ≠ 0) :
    wcsncasecmp towlower s find find.length = 0 ↔ find.map towlower <+: s.map towlower := by
  induction find generalizing s with
  | nil => simp [wcsncasecmp]
  | cons wide find ih =>
    rw [List.forall_mem_cons] at nonNull
    cases s with
    | nil =>
      have positive : wide.toNat ≠ 0 := fun zero => nonNull.1 (UInt32.toNat_inj.mp zero)
      simp [wcsncasecmp, positive]
    | cons first s =>
      rw [List.length_cons, wcsncasecmp_cons, List.map_cons, List.map_cons, List.cons_prefix_cons]
      by_cases same : towlower first = towlower wide
      · rw [if_pos same, ih nonNull.2]
        simp [same]
      · rw [if_neg same]
        have apart : ((towlower first).toNat : Int) - (towlower wide).toNat ≠ 0 := by
          have values : (towlower first).toNat ≠ (towlower wide).toNat := fun equal =>
            same (UInt32.toNat_inj.mp equal)
          omega
        simp [apart, Ne.symm same]

/-- `wcscasestr` finds a keyword exactly where it is a substring after `towlower`. -/
theorem wcscasestr_isSome_iff {towlower : WChar → WChar} {s find : List WChar}
    (nonNull : ∀ wide ∈ find, wide ≠ 0) :
    (wcscasestr towlower s find).isSome ↔ find.map towlower <:+: s.map towlower := by
  cases find with
  | nil => simp [wcscasestr]
  | cons first find =>
    rw [List.forall_mem_cons] at nonNull
    rw [wcscasestr]
    induction s with
    | nil => simp [wcscasestrLoop]
    | cons sc s ih =>
      rw [wcscasestrLoop, List.map_cons, List.map_cons, List.infix_cons_iff, List.cons_prefix_cons,
        ← wcsncasecmp_eq_zero nonNull.2, ← List.map_cons, ← ih]
      by_cases head : towlower sc = towlower first
      · by_cases others : wcsncasecmp towlower s find find.length = 0
        · simp [head, others]
        · simp [head, others]
      · simp [head, Ne.symm head]

end Mdp
