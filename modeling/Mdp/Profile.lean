import Mdp.Load

/-!
# Generated passwords

`profile.c` and `randpass.c`, as far as `mdp add` and `mdp generate` run them.
-/

namespace Mdp

open Interaction CStrings

/-- `struct profile`. -/
structure Profile where
  name : Bytes
  passwordCount : UInt32
  characterCount : UInt32
  /-- `NULL` where `wcsdup` has failed. -/
  characterSet : Option (List WChar)

/-- The options and configuration that `mdp add` and `mdp generate` read. -/
structure AddOptions where
  /-- `cmd_profile_name`. -/
  profileName : Option Bytes
  /-- `cmd_add_prefix`. -/
  prefixText : Option (List WChar)
  /-- `cmd_password_count`, zero if not given. -/
  passwordCount : UInt32
  /-- `cmd_character_count`, zero if not given. -/
  characterCount : UInt32
  /-- `cfg_password_count`. -/
  defaultPasswordCount : UInt32
  /-- `cfg_character_count`. -/
  defaultCharacterCount : UInt32
  /-- `cfg_character_set`. -/
  defaultCharacterSet : Option (List WChar)
  /-- `profiles`. -/
  profiles : List Profile

/-- A string literal as wide characters. -/
def wideLiteral (text : String) : List WChar := text.toList.map fun c => UInt32.ofNat c.toNat

/-- `CHARSET_ALPHANUMERIC`. -/
def charsetAlphanumeric : List WChar :=
  wideLiteral "abcdefghijklmnopqrstuvwxyzABCDEFGHIJKLMNOPQRSTUVWXYZ1234567890"

/-- The characters of a profile; a missing set has none. -/
def Profile.letters (profile : Profile) : List WChar := profile.characterSet.getD []

/-- A set that has characters is there. -/
theorem Profile.characterSet_of_letters {profile : Profile} (full : profile.letters ≠ []) :
    profile.characterSet = some profile.letters := by
  unfold letters at full ⊢
  cases there : profile.characterSet with
  | none =>
    rw [there] at full
    exact absurd rfl full
  | some set => rfl

/-- `profile_new`. Neither copy is checked; the one of the name is not read again. -/
def profileNew (opts : AddOptions) (name : Bytes) : Prog Profile := do
  xmalloc
  let _ ← ask .allocate
  let copied ← ask .allocate
  let set := opts.defaultCharacterSet.getD charsetAlphanumeric
  pure
    { name := name
      passwordCount := opts.defaultPasswordCount
      characterCount := opts.defaultCharacterCount
      characterSet := if copied then some set else none }

/-- `profile_get_from_name`. -/
def profileGetFromName (opts : AddOptions) (name : Bytes) : Option Profile :=
  opts.profiles.find? fun profile => profile.name = name

/-- `profile_get_password_count`. -/
def profileGetPasswordCount (opts : AddOptions) (profile : Profile) : UInt32 :=
  if opts.passwordCount > 0 then opts.passwordCount else profile.passwordCount

/-- `MAX_PASSWORD_LENGTH`. -/
def maxPasswordLength : Int := 256

/-- An `unsigned int` passed as an `int`. -/
def asInt (n : UInt32) : Int :=
  if n.toNat < 2147483648 then n.toNat else n.toNat - 4294967296

/-- The random weights of one position. -/
def drawWeights : Nat → Prog (List Nat)
  | 0 => .done []
  | left + 1 => do
    let drawn ← ask (.arc4randomUniform 20000)
    let others ← drawWeights left
    pure ((1 + drawn.toNat) :: others)

/-- The search for the largest weight from position `j` on: the first of the largest wins. -/
def heaviest (j : Nat) (maxWeight element : Nat) : List Nat → Nat
  | [] => element
  | weight :: weights =>
    if weight > maxWeight then heaviest (j + 1) weight j weights
    else heaviest (j + 1) maxWeight element weights

/-- The heaviest position is one of the positions. -/
theorem heaviest_lt {count : Nat} {weights : List Nat} {j maxWeight element : Nat}
    (first : element < count) (others : j + weights.length ≤ count) :
    heaviest j maxWeight element weights < count := by
  induction weights generalizing j maxWeight element with
  | nil => exact first
  | cons weight weights ih =>
    rw [List.length_cons] at others
    unfold heaviest
    split
    · exact ih (by omega) (by omega)
    · exact ih first (by omega)

/-- The loop of `generate_password_from_set`. -/
def drawCharacters (set : List WChar) : Nat → Prog (List WChar)
  | 0 => .done []
  | left + 1 => do
    let weights ← drawWeights set.length
    let others ← drawCharacters set left
    pure (set.getD (heaviest 0 0 0 weights) 0 :: others)

/-- `generate_password_from_set`; `none` is its return value -1. -/
def generatePasswordFromSet (length : Int) (set : Option (List WChar)) :
    Prog (Option (List WChar)) := do
  let set ← readString set
  if length > maxPasswordLength ∨ length < 1 then pure none
  else do
    require (set.length != 0) "zero size"
    require (← ask .allocate) "xcalloc failed"
    let password ← drawCharacters set length.toNat
    pure (some password)

/-- `profile_generate_password`. -/
def profileGeneratePassword (opts : AddOptions) (profile : Profile) : Prog (List WChar) := do
  let characterCount :=
    if opts.characterCount > 0 then opts.characterCount else profile.characterCount
  require (characterCount + 1 != 0) "zero size"
  require (← ask .allocate) "xcalloc failed"
  match ← generatePasswordFromSet (asInt characterCount) profile.characterSet with
  | none => errx exitFailure "failed to generate password"
  | some password => pure password

/-- `wcsjoin`. The memory it asks for is not checked before it is written to. -/
def wcsjoin (sep : WChar) (base suffix : List WChar) : Prog (List WChar) := do
  if ← ask .calloc then do
    require (← ask .swprintf) "wsprintf failed"
    pure (base ++ sep :: suffix)
  else .halt .crash

/-- The line `profile_passwords_to_results` makes of a password. -/
def passwordLine (opts : AddOptions) (password : List WChar) : Prog (List WChar) :=
  match opts.prefixText with
  | none => .done password
  | some text => wcsjoin 0x09 text password

/-- The loop of `profile_passwords_to_results`. -/
def passwordsLoop (L : CLocale) (opts : AddOptions) (profile : Profile) :
    Nat → Memory → Prog Memory
  | 0, memory => .done memory
  | left + 1, memory => do
    let password ← profileGeneratePassword opts profile
    let line ← passwordLine opts password
    xmalloc
    match resultNew L (upToNul line) with
    | none => errx exitFailure "unable to use generated password (wrong locale?)"
    | some result => do
      xmalloc
      arrayAdd memory.results.length
      passwordsLoop L opts profile left { memory with results := memory.results ++ [result] }

/-- `profile_passwords_to_results`. -/
def profilePasswordsToResults (L : CLocale) (opts : AddOptions) (profile : Profile)
    (memory : Memory) : Prog Memory :=
  passwordsLoop L opts profile (profileGetPasswordCount opts profile).toNat memory

/-- The loop of `profile_fprint_passwords`: the passwords that are printed, in their order. What the
stream makes of them is not looked at. -/
def printLoop (opts : AddOptions) (profile : Profile) : Nat → Prog (List (List WChar))
  | 0 => .done []
  | left + 1 => do
    let password ← profileGeneratePassword opts profile
    let others ← printLoop opts profile left
    pure (password :: others)

/-- `profile_fprint_passwords`. -/
def profileFprintPasswords (opts : AddOptions) (profile : Profile) : Prog (List (List WChar)) :=
  printLoop opts profile (profileGetPasswordCount opts profile).toNat

end Mdp
