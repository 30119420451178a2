import Mdp.Results
import Mdp.Tokens
import Mdp.Utils

/-!
# The command line

`cmd.c`, with `getopt` under it. Memory is taken to be available here. Whether `getopt` goes on past
a word that is no option is up to the C library and the state `cmd_parse_core` leaves it in, so it
is a parameter of what parses the arguments of a command; in front of the command the `+` forbids
it.
-/

namespace Mdp

open CStrings

/-- What one call of `getopt` finds. -/
inductive OptionEvent where
  | flag (letter : UInt8)
  /-- An option and its `optarg`. -/
  | given (letter : UInt8) (optarg : Bytes)
  /-- `'?'`: an unknown option, or one without the argument it takes. -/
  | question
  deriving DecidableEq, Repr

/-- `':'`. -/
def colon : UInt8 := 0x3a

/-- What `optstring` says about a letter: whether it takes an argument, if it is an option at
all. -/
def optionKind (letter : UInt8) : Bytes → Option Bool
  | [] => none
  | known :: rest =>
    if letter = known ∧ letter ≠ colon then some (rest.head? == some colon)
    else optionKind letter rest

/-- The options in one word after its `-`, and the one whose argument is the next word. What follows
an unknown option does not matter, since every caller exits. -/
def optionCluster (optstring : Bytes) : Bytes → List OptionEvent × Option UInt8
  | [] => ([], none)
  | letter :: letters =>
    match optionKind letter optstring with
    | none => ([.question], none)
    | some false =>
      let others := optionCluster optstring letters
      (.flag letter :: others.1, others.2)
    | some true => if letters = [] then ([], some letter) else ([.given letter letters], none)

/-- All that `getopt` finds in some words, and the operands that are left. The option that still
waits for its argument is passed along. -/
def getopt (permute : Bool) (optstring : Bytes) :
    Option UInt8 → List Bytes → List OptionEvent × List Bytes
  | none, [] => ([], [])
  | some _, [] => ([.question], [])
  | some letter, optarg :: words =>
    let others := getopt permute optstring none words
    (.given letter optarg :: others.1, others.2)
  | none, word :: words =>
    if word = ascii "--" then ([], words)
    else match word with
      | 0x2d :: letter :: letters =>
        let found := optionCluster optstring (letter :: letters)
        let others := getopt permute optstring found.2 words
        (found.1 ++ others.1, others.2)
      | _ =>
        if permute then
          let others := getopt permute optstring none words
          (others.1, word :: others.2)
        else ([], word :: words)

/-- The `cmd_` variables, and `debug_enabled`. -/
structure CommandVariables where
  addPrefix : Option (List WChar)
  configPath : Option Bytes
  gpgKeyId : Option Bytes
  profileName : Option Bytes
  regex : Bool
  raw : Bool
  characterCount : UInt32
  passwordCount : UInt32
  debugEnabled : Bool
  deriving DecidableEq

/-- Their values when the process starts. -/
def CommandVariables.initial : CommandVariables :=
  ⟨none, none, none, none, false, false, 0, 0, false⟩

/-- A message of `getopt` or a usage, and `exit(EXIT_FAILURE)`. -/
def usageExit {α : Type} : Except Ending α := .error (.exit exitFailure "")

/-- `errx` while the command line is read. -/
def usageError {α : Type} (message : String) : Except Ending α := .error (.exit exitFailure message)

/-- The `switch` of `cmd_parse_core`. -/
def coreOption (cmd : CommandVariables) : OptionEvent → Except Ending CommandVariables
  -- 'V' prints the version; 'd', 'c'
  | .flag 0x56 => .error (.exit 0 "")
  | .flag 0x64 => .ok { cmd with debugEnabled := true }
  | .given 0x63 optarg => .ok { cmd with configPath := some optarg }
  -- 'e', 'g', 'r', 'q'
  | .flag 0x65 => usageError "this flag is deprecated, use 'mdp edit' instead"
  | .flag 0x67 => usageError "this flag is deprecated, use 'mdp gen' instead"
  | .flag 0x72 => usageError "this flag is deprecated, use 'mdp get -r' instead"
  | .flag 0x71 => usageError "this flag is deprecated, use 'mdp prompt' instead"
  | _ => usageExit

/-- The cases `'p'`, `'l'` and `'n'` of `cmd_parse_add` and `cmd_parse_generate`. -/
def passwordOption (cmd : CommandVariables) : OptionEvent → Except Ending CommandVariables
  | .given 0x70 optarg => .ok { cmd with profileName := some optarg }
  | .given 0x6c optarg => .ok { cmd with characterCount := unsignedOf optarg }
  | .given 0x6e optarg => .ok { cmd with passwordCount := unsignedOf optarg }
  | _ => usageExit

/-- The case `'k'` of `cmd_parse_add` and `cmd_parse_edit`. -/
def keyOption (cmd : CommandVariables) : OptionEvent → Except Ending CommandVariables
  | .given 0x6b optarg => .ok { cmd with gpgKeyId := some optarg }
  | _ => usageExit

/-- The `switch` of `cmd_parse_add`. -/
def addOption (cmd : CommandVariables) : OptionEvent → Except Ending CommandVariables
  | .given 0x6b optarg => keyOption cmd (.given 0x6b optarg)
  | event => passwordOption cmd event

/-- The cases `'r'` and `'E'` of `cmd_parse_get` and `cmd_parse_prompt`. -/
def searchOption (raw : Bool) (cmd : CommandVariables) :
    OptionEvent → Except Ending CommandVariables
  | .flag 0x72 => if raw then .ok { cmd with raw := true } else usageExit
  | .flag 0x45 => .ok { cmd with regex := true }
  | _ => usageExit

/-- The loop around `getopt`, from left to right. -/
def optionLoop (option : CommandVariables → OptionEvent → Except Ending CommandVariables)
    (cmd : CommandVariables) : List OptionEvent → Except Ending CommandVariables
  | [] => .ok cmd
  | event :: rest =>
    match option cmd event with
    | .error ending => .error ending
    | .ok cmd => optionLoop option cmd rest

/-- `join_list(' ', ...)`. -/
def joinList (tokens : List Bytes) : Bytes := [0x20].intercalate tokens

/-- `mbs_duplicate_as_wcs`. -/
def mbsDuplicateAsWcs (L : CLocale) (str : Bytes) : Option (List WChar) := L.decode str

/-- `cmd_parse_core`, from the words after the program's name: the variables and the words from the
command on, of which `main` requires one. -/
def cmdParseCore (argv : List Bytes) : Except Ending (CommandVariables × List Bytes) :=
  let found := getopt false (ascii "hVdc:egrq") none argv
  match optionLoop coreOption .initial found.1 with
  | .error ending => .error ending
  | .ok cmd => if found.2 = [] then usageExit else .ok (cmd, found.2)

/-- `cmd_parse_add`, from the words after the command. -/
def cmdParseAdd (L : CLocale) (permute : Bool) (cmd : CommandVariables) (argv : List Bytes) :
    Except Ending CommandVariables :=
  let found := getopt permute (ascii "hp:l:n:k:") none argv
  match optionLoop addOption cmd found.1 with
  | .error ending => .error ending
  | .ok cmd =>
    if found.2 = [] then .ok cmd
    else match mbsDuplicateAsWcs L (joinList found.2) with
      | none => usageError "unable to read the prefix (wrong locale?)"
      | some addPrefix => .ok { cmd with addPrefix := some addPrefix }

/-- `cmd_parse_edit`. -/
def cmdParseEdit (permute : Bool) (cmd : CommandVariables) (argv : List Bytes) :
    Except Ending CommandVariables :=
  let found := getopt permute (ascii "hk:") none argv
  match optionLoop keyOption cmd found.1 with
  | .error ending => .error ending
  | .ok cmd => if found.2 = [] then .ok cmd else usageExit

/-- `cmd_parse_generate`. -/
def cmdParseGenerate (permute : Bool) (cmd : CommandVariables) (argv : List Bytes) :
    Except Ending CommandVariables :=
  let found := getopt permute (ascii "hp:l:n:") none argv
  match optionLoop passwordOption cmd found.1 with
  | .error ending => .error ending
  | .ok cmd => if found.2 = [] then .ok cmd else usageExit

/-- `cmd_parse_get`, with the keywords it loads. -/
def cmdParseGet (permute : Bool) (cmd : CommandVariables) (argv : List Bytes) :
    Except Ending (CommandVariables × List Bytes) :=
  let found := getopt permute (ascii "hrE") none argv
  match optionLoop (searchOption true) cmd found.1 with
  | .error ending => .error ending
  | .ok cmd => if found.2 = [] then usageExit else .ok (cmd, found.2)

/-- `cmd_parse_prompt`. -/
def cmdParsePrompt (permute : Bool) (cmd : CommandVariables) (argv : List Bytes) :
    Except Ending CommandVariables :=
  let found := getopt permute (ascii "hE") none argv
  match optionLoop (searchOption false) cmd found.1 with
  | .error ending => .error ending
  | .ok cmd => if found.2 = [] then .ok cmd else usageExit

/-- An argument in the same word and in the next one, a repeated option, and an operand. -/
example : (cmdParseAdd .ascii true .initial [ascii "-ka", ascii "x", ascii "-l12", ascii "-k",
    ascii "b"]).toOption.map (fun cmd => (cmd.gpgKeyId, cmd.characterCount, cmd.addPrefix)) =
    some (some (ascii "b"), 12, some [0x78]) := by decide +kernel

/-- `command_match`. -/
def commandMatch (s name : Bytes) (min : Nat) : Except Ending Bool :=
  if s <+: name then
    if s.length < min then usageError "ambiguous command '%s'" else .ok true
  else .ok false

end Mdp
