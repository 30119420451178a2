import Mdp.Profile
import Mdp.Tokens

/-!
# The configuration file

`config.c`: each line asks for one thing, `set_variable` or `set_profile_variable` does it, and
`config_read` goes on line by line. Memory is taken to be available here. An exit is an error with
its message, and the number of the line where the message has one.
-/

namespace Mdp

open CStrings

/-- What a line asks for. -/
inductive Directive where
  /-- The line is ignored. -/
  | nothing
  /-- `set`, with a name and perhaps a value. -/
  | set (name : Bytes) (value : Option Bytes)
  /-- `set` without a name. -/
  | setNothing
  | profile (name : Bytes)
  /-- `profile` without a name. -/
  | profileNothing
  | unknown
  deriving DecidableEq, Repr

/-- The keyword of a line, and what follows it: an empty first token is passed over. -/
def configKeyword (line : Bytes) : Option Bytes × Option Bytes :=
  let first := strdelim (some (stripTrailingWhitespaces line))
  if first.1 = some [] then strdelim first.2 else first

/-- Whether `process_config_line` ignores a keyword. -/
def ignoredKeyword : Bytes → Bool
  | [] => true
  | byte :: _ => byte = newline || byte = 0x23

/-- What `process_config_line` reads off a line. -/
def directive (line : Bytes) : Directive :=
  match configKeyword line with
  | (none, _) => .nothing
  | (some keyword, rest) =>
    if ignoredKeyword keyword then .nothing
    else if keyword = ascii "set" then
      match strdelim rest with
      | (none, _) => .setNothing
      | (some name, rest) => .set name (strdelim rest).1
    else if keyword = ascii "profile" then
      match strdelim rest with
      | (none, _) => .profileNothing
      | (some name, _) => .profile name
    else .unknown

/-- The exits of `config.c`. -/
inductive ConfigError where
  /-- `"config:%d: "` and a message. -/
  | conf (linenum : Nat) (message : String)
  /-- A message that names the line at its end. -/
  | line (linenum : Nat) (message : String)
  /-- A message without a line number. -/
  | plain (message : String)
  deriving DecidableEq, Repr

/-- The `cfg_` variables. -/
structure Settings where
  backup : Bool
  characterCount : UInt32
  characterSet : Option (List WChar)
  editor : Option Bytes
  gpgPath : Option Bytes
  gpgKeyId : Option Bytes
  gpgTimeout : UInt32
  passwordCount : UInt32
  passwordFile : Option Bytes
  timeout : UInt32
  deriving DecidableEq

/-- Their values when `config_read` begins: `editor_init` has set `cfg_editor` to `$EDITOR`. -/
def Settings.initial (editor : Option Bytes) : Settings where
  backup := true
  characterCount := 16
  characterSet := none
  editor := editor
  gpgPath := none
  gpgKeyId := none
  gpgTimeout := 20
  passwordCount := 4
  passwordFile := none
  timeout := 10

/-- `CHARSET_LOWERCASE`. -/
def charsetLowercase : List WChar := wideLiteral "abcdefghijklmnopqrstuvwxyz"

/-- `CHARSET_UPPERCASE`. -/
def charsetUppercase : List WChar := wideLiteral "ABCDEFGHIJKLMNOPQRSTUVWXYZ"

/-- `CHARSET_ALPHA`. -/
def charsetAlpha : List WChar := charsetLowercase ++ charsetUppercase

/-- `CHARSET_DIGITS`. -/
def charsetDigits : List WChar := wideLiteral "1234567890"

/-- `CHARSET_SYMBOLS`. -/
def charsetSymbols : List WChar := wideLiteral "~`!@#$%^&*()_+-=[]\\\x7b\x7d|;':\",./<>?"

/-- `CHARSET_PRINTABLE`. -/
def charsetPrintable : List WChar := charsetAlphanumeric ++ charsetSymbols

/-- The aliases of `config_resolve_character_set`. -/
def characterSetAlias (value : Bytes) : Option (List WChar) :=
  if value = ascii "$DIGITS" then some charsetDigits
  else if value = ascii "$LOWERCASE" then some charsetLowercase
  else if value = ascii "$UPPERCASE" then some charsetUppercase
  else if value = ascii "$ALPHA" then some charsetAlpha
  else if value = ascii "$ALPHANUMERIC" then some charsetAlphanumeric
  else if value = ascii "$SYMBOLS" then some charsetSymbols
  else if value = ascii "$PRINTABLE" then some charsetPrintable
  else none

/-- `config_resolve_character_set`; `none` where the value is no string of the locale. -/
def configResolveCharacterSet (L : CLocale) (value : Bytes) : Option (List WChar) :=
  (characterSetAlias value).or (L.decode value)

/-- `parse_boolean`. -/
def parseBoolean : Option Bytes → Bool
  | some (0x6f :: _) => true
  | _ => false

/-- A value that is there and not empty. -/
def givenValue (linenum : Nat) (message : String) : Option Bytes → Except ConfigError Bytes
  | some (byte :: rest) => .ok (byte :: rest)
  | _ => .error (.conf linenum message)

/-- A value for a variable that may be set once. -/
def onceValue (linenum : Nat) (again message : String) (held value : Option Bytes) :
    Except ConfigError Bytes :=
  if held.isSome then .error (.conf linenum again) else givenValue linenum message value

/-- A value that names a character set. -/
def characterSetValue (L : CLocale) (linenum : Nat) (message : String) (value : Option Bytes) :
    Except ConfigError (List WChar) := do
  let given ← givenValue linenum "invalid value for character_set" value
  match configResolveCharacterSet L given with
  | none => .error (.plain message)
  | some set => .ok set

/-- `set_variable`. -/
def setVariable (L : CLocale) (name : Bytes) (value : Option Bytes) (linenum : Nat)
    (cfg : Settings) : Except ConfigError Settings :=
  if name = ascii "backup" then .ok { cfg with backup := parseBoolean value }
  else if name = ascii "character_count" then do
    let given ← givenValue linenum "invalid value for character_count" value
    .ok { cfg with characterCount := unsignedOf given }
  else if name = ascii "character_set" then do
    let set ← characterSetValue L linenum "unable to load global character_set (wrong locale?)"
      value
    .ok { cfg with characterSet := some set }
  else if name = ascii "editor" then do
    let given ← givenValue linenum "invalid value for editor" value
    .ok { cfg with editor := some given }
  else if name = ascii "gpg_key_id" then do
    let given ← onceValue linenum "gpg_key_id defined multiple times"
      "invalid value for gpg_key_id" cfg.gpgKeyId value
    .ok { cfg with gpgKeyId := some given }
  else if name = ascii "gpg_path" then do
    let given ← onceValue linenum "gpg_path defined multiple times"
      "invalid value for gpg_path" cfg.gpgPath value
    .ok { cfg with gpgPath := some given }
  else if name = ascii "gpg_timeout" then do
    let given ← givenValue linenum "invalid value for gpg_timeout" value
    .ok { cfg with gpgTimeout := unsignedOf given }
  else if name = ascii "password_count" then do
    let given ← givenValue linenum "invalid value for password_count" value
    .ok { cfg with passwordCount := unsignedOf given }
  else if name = ascii "password_file" then do
    let given ← onceValue linenum "password_file defined multiple times"
      "invalid value for password_file" cfg.passwordFile value
    .ok { cfg with passwordFile := some given }
  else if name = ascii "timeout" then do
    let given ← givenValue linenum "invalid value for timeout" value
    .ok { cfg with timeout := unsignedOf given }
  else .error (.conf linenum "unknown variable")

/-- `set_profile_variable`. -/
def setProfileVariable (L : CLocale) (name : Bytes) (value : Option Bytes) (linenum : Nat)
    (profile : Profile) : Except ConfigError Profile :=
  if name = ascii "character_count" then do
    let given ← givenValue linenum "invalid value for character_count" value
    .ok { profile with characterCount := unsignedOf given }
  else if name = ascii "character_set" then do
    let set ← characterSetValue L linenum
      "unable to load global character_set for profile '%s' (wrong locale?)" value
    .ok { profile with characterSet := some set }
  else if name = ascii "password_count" then do
    let given ← givenValue linenum "invalid value for password_count" value
    .ok { profile with passwordCount := unsignedOf given }
  else .error (.conf linenum "unknown profile variable")

/-- The globals of `config.c` and the registry of profiles. The current profile is the one that was
registered last, so the registry is the older ones and then the current one. -/
structure ConfigState where
  settings : Settings
  /-- The profiles before the current one. -/
  older : List Profile
  /-- `current_profile`. -/
  currentProfile : Option Profile

namespace ConfigState

/-- The state when `config_read` begins. -/
def initial (editor : Option Bytes) : ConfigState := ⟨.initial editor, [], none⟩

/-- `profiles`. -/
def profiles (state : ConfigState) : List Profile := state.older ++ state.currentProfile.toList

end ConfigState

/-- `profile_new` where memory is available, from the globals it copies. -/
def newProfile (cfg : Settings) (name : Bytes) : Profile where
  name := name
  passwordCount := cfg.passwordCount
  characterCount := cfg.characterCount
  characterSet := some (cfg.characterSet.getD charsetAlphanumeric)

/-- A `set` line: of the current profile, if there is one. -/
def configSet (L : CLocale) (name : Bytes) (value : Option Bytes) (linenum : Nat)
    (state : ConfigState) : Except ConfigError ConfigState :=
  match state.currentProfile with
  | none => do
    let settings ← setVariable L name value linenum state.settings
    .ok { state with settings }
  | some profile => do
    let profile ← setProfileVariable L name value linenum profile
    .ok { state with currentProfile := some profile }

/-- A `profile` line: `profile_new` and `profile_register`. -/
def configProfile (name : Bytes) (state : ConfigState) : Except ConfigError ConfigState :=
  if uintMax ≤ state.profiles.length then .error (.plain "number too big")
  else .ok { state with
    older := state.profiles, currentProfile := some (newProfile state.settings name) }

/-- What a line does. -/
def Directive.run (L : CLocale) (linenum : Nat) (state : ConfigState) :
    Directive → Except ConfigError ConfigState
  | .nothing => .ok state
  | .set name value => configSet L name value linenum state
  | .setNothing => .error (.line linenum "%s: set without variable name on line %d.")
  | .profile name => configProfile name state
  | .profileNothing => .error (.line linenum "%s: profile without variable name on line %d.")
  | .unknown => .error (.line linenum "%s: unknown command on line %d.")

/-- `process_config_line`. -/
def processConfigLine (L : CLocale) (line : Bytes) (linenum : Nat) (state : ConfigState) :
    Except ConfigError ConfigState := (directive line).run L linenum state

/-- The loop of `config_read`. -/
def configLines (L : CLocale) (linenum : Nat) (state : ConfigState) :
    List Bytes → Except ConfigError ConfigState
  | [] => .ok state
  | line :: rest =>
    match processConfigLine L (upToNul line) linenum state with
    | .error error => .error error
    | .ok state => configLines L (linenum + 1) state rest

/-- `config_read`, for a file with some content or none. -/
def configRead (L : CLocale) (state : ConfigState) : Option Bytes → Except ConfigError ConfigState
  | none => .ok state
  | some content => configLines L 1 state (chunks maxLineSize content)

/-- The directives of the lines that are read. -/
def directives (lines : List Bytes) : List Directive :=
  lines.map fun line => directive (upToNul line)

/-- The state after some directives, without the numbers of the lines. -/
def runAll (L : CLocale) (state : ConfigState) : List Directive → Option ConfigState
  | [] => some state
  | first :: rest =>
    match first.run L 0 state with
    | .error _ => none
    | .ok state => runAll L state rest

/-- What is accepted of a sequence depends on what is accepted of its first part. -/
theorem toOption_bind_congr {ε α β : Type} {first other : Except ε α} {rest : α → Except ε β}
    (same : first.toOption = other.toOption) :
    (first >>= rest).toOption = (other >>= rest).toOption := by
  cases first <;> cases other <;>
    simp only [Except.toOption, reduceCtorEq, Option.some.injEq] at same
  · rfl
  · rw [same]

/-- A sequence that is accepted was accepted in both its parts. -/
theorem bind_eq_ok {ε α β : Type} {first : Except ε α} {rest : α → Except ε β} {final : β}
    (accepted : (first >>= rest) = .ok final) :
    ∃ value, first = .ok value ∧ rest value = .ok final := by
  cases first with
  | error error => cases accepted
  | ok value => exact ⟨value, rfl, accepted⟩

/-- What is accepted of a choice is what is accepted of its branches. -/
theorem toOption_ite_congr {ε α : Type} {test : Prop} [Decidable test]
    {yes yes' no no' : Except ε α}
    (left : yes.toOption = yes'.toOption) (right : no.toOption = no'.toOption) :
    (if test then yes else no).toOption = (if test then yes' else no').toOption := by
  split <;> assumption

/-- Whether a value is accepted does not depend on the number of its line. -/
theorem givenValue_toOption (linenum other : Nat) (message : String) (value : Option Bytes) :
    (givenValue linenum message value).toOption = (givenValue other message value).toOption := by
  rcases value with _ | _ | ⟨byte, rest⟩ <;> rfl

/-- The line number and the messages do not matter to what is set. -/
theorem onceValue_toOption (linenum other : Nat) (again message : String)
    (held value : Option Bytes) : (onceValue linenum again message held value).toOption =
      (onceValue other again message held value).toOption :=
  toOption_ite_congr rfl (givenValue_toOption linenum other message value)

/-- The line number does not matter to a character set. -/
theorem characterSetValue_toOption (L : CLocale) (linenum other : Nat) (message : String)
    (value : Option Bytes) : (characterSetValue L linenum message value).toOption =
      (characterSetValue L other message value).toOption :=
  toOption_bind_congr (givenValue_toOption linenum other _ value)

/-- The line number does not matter to a variable. -/
theorem setVariable_toOption (L : CLocale) (name : Bytes) (value : Option Bytes)
    (linenum other : Nat) (cfg : Settings) : (setVariable L name value linenum cfg).toOption =
      (setVariable L name value other cfg).toOption := by
  unfold setVariable
  repeat' first
    | exact toOption_bind_congr (givenValue_toOption linenum other _ value)
    | exact toOption_bind_congr (onceValue_toOption linenum other _ _ _ value)
    | exact toOption_bind_congr (characterSetValue_toOption L linenum other _ value)
    | apply toOption_ite_congr
    | rfl

/-- The line number does not matter to a variable of a profile. -/
theorem setProfileVariable_toOption (L : CLocale) (name : Bytes) (value : Option Bytes)
    (linenum other : Nat) (profile : Profile) :
    (setProfileVariable L name value linenum profile).toOption =
      (setProfileVariable L name value other profile).toOption := by
  unfold setProfileVariable
  repeat' first
    | exact toOption_bind_congr (givenValue_toOption linenum other _ value)
    | exact toOption_bind_congr (characterSetValue_toOption L linenum other _ value)
    | apply toOption_ite_congr
    | rfl

/-- Whether a line is accepted, and what it does, does not depend on its number. -/
theorem Directive.run_toOption (L : CLocale) (linenum other : Nat) (state : ConfigState)
    (first : Directive) :
    (first.run L linenum state).toOption = (first.run L other state).toOption := by
  cases first with
  | set name value =>
    simp only [run, configSet]
    cases state.currentProfile with
    | none => exact toOption_bind_congr (setVariable_toOption L name value linenum other _)
    | some profile =>
      exact toOption_bind_congr (setProfileVariable_toOption L name value linenum other profile)
  | _ => rfl

/-- `config_read` accepts a file, with the globals and profiles it leaves, exactly when all its
directives can be run. -/
theorem configLines_toOption (L : CLocale) (linenum : Nat) (state : ConfigState)
    (lines : List Bytes) :
    (configLines L linenum state lines).toOption = runAll L state (directives lines) := by
  induction lines generalizing linenum state with
  | nil => rfl
  | cons line rest ih =>
    have same := Directive.run_toOption L linenum 0 state (directive (upToNul line))
    simp only [configLines, processConfigLine, directives, List.map_cons, runAll]
    cases here : (directive (upToNul line)).run L linenum state with
    | error error =>
      cases there : (directive (upToNul line)).run L 0 state with
      | error error' => rfl
      | ok state' => simp [here, there, Except.toOption] at same
    | ok next =>
      cases there : (directive (upToNul line)).run L 0 state with
      | error error' => simp [here, there, Except.toOption] at same
      | ok state' =>
        simp only [here, there, Except.toOption, Option.some.injEq] at same
        subst same
        exact ih (linenum + 1) next

/-- Directives one after the other. -/
theorem runAll_append (L : CLocale) (state : ConfigState) (first later : List Directive) :
    runAll L state (first ++ later) = (runAll L state first).bind fun next =>
        runAll L next later := by
  induction first generalizing state with
  | nil => rfl
  | cons directive rest ih =>
    simp only [List.cons_append, runAll]
    cases directive.run L 0 state with
    | error error => rfl
    | ok next => exact ih next

/-- What is accepted of a file with some content. -/
theorem configRead_toOption (L : CLocale) (state : ConfigState) (content : Bytes) :
    (configRead L state (some content)).toOption =
      runAll L state (directives (chunks maxLineSize content)) :=
  configLines_toOption L 1 state (chunks maxLineSize content)

/-- A value that is accepted is there and is not empty. -/
theorem of_givenValue {linenum : Nat} {message : String} {value : Option Bytes} {given : Bytes}
    (accepted : givenValue linenum message value = .ok given) :
    value = some given ∧ given ≠ [] := by
  rcases value with _ | _ | ⟨byte, rest⟩
  · cases accepted
  · cases accepted
  · cases accepted
    simp

/-- A character set that is accepted is what the value resolves to. -/
theorem of_characterSetValue {L : CLocale} {linenum : Nat} {message : String}
    {value : Option Bytes} {set : List WChar}
    (accepted : characterSetValue L linenum message value = .ok set) :
    ∃ given, value = some given ∧ given ≠ [] ∧ configResolveCharacterSet L given = some set := by
  obtain ⟨given, read, resolved⟩ := bind_eq_ok accepted
  have there := of_givenValue read
  cases found : configResolveCharacterSet L given with
  | none => simp [found] at resolved
  | some other =>
    simp only [found, Except.ok.injEq] at resolved
    exact ⟨given, there.1, there.2, by rw [found, resolved]⟩

/-- What `set_profile_variable` can do. -/
theorem of_setProfileVariable {L : CLocale} {name : Bytes} {value : Option Bytes} {linenum : Nat}
    {profile next : Profile}
    (accepted : setProfileVariable L name value linenum profile = .ok next) :
    ∃ given, value = some given ∧ given ≠ [] ∧
      ((name = ascii "character_count" ∧
          next = { profile with characterCount := unsignedOf given }) ∨
        (name = ascii "character_set" ∧ ∃ set, configResolveCharacterSet L given = some set ∧
          next = { profile with characterSet := some set }) ∨
        (name = ascii "password_count" ∧
          next = { profile with passwordCount := unsignedOf given })) := by
  unfold setProfileVariable at accepted
  split at accepted
  · rename_i named
    obtain ⟨given, read, same⟩ := bind_eq_ok accepted
    have there := of_givenValue read
    cases same
    exact ⟨given, there.1, there.2, .inl ⟨named, rfl⟩⟩
  · split at accepted
    · rename_i named
      obtain ⟨set, read, same⟩ := bind_eq_ok accepted
      obtain ⟨given, there, full, resolved⟩ := of_characterSetValue read
      cases same
      exact ⟨given, there, full, .inr (.inl ⟨named, set, resolved, rfl⟩)⟩
    · split at accepted
      · rename_i named
        obtain ⟨given, read, same⟩ := bind_eq_ok accepted
        have there := of_givenValue read
        cases same
        exact ⟨given, there.1, there.2, .inr (.inr ⟨named, rfl⟩)⟩
      · cases accepted

/-- What `set_variable` can do, one case for each variable. -/
inductive VariableSet (L : CLocale) (name : Bytes) (value : Option Bytes) (cfg : Settings) :
    Settings → Prop where
  | backup (named : name = ascii "backup") :
    VariableSet L name value cfg { cfg with backup := parseBoolean value }
  | characterCount (named : name = ascii "character_count") {given : Bytes}
    (there : value = some given) (full : given ≠ []) :
    VariableSet L name value cfg { cfg with characterCount := unsignedOf given }
  | characterSet (named : name = ascii "character_set") {given : Bytes} {set : List WChar}
    (there : value = some given) (full : given ≠ [])
    (resolved : configResolveCharacterSet L given = some set) :
    VariableSet L name value cfg { cfg with characterSet := some set }
  | editor (named : name = ascii "editor") {given : Bytes} (there : value = some given)
    (full : given ≠ []) : VariableSet L name value cfg { cfg with editor := some given }
  | gpgKeyId (named : name = ascii "gpg_key_id") {given : Bytes} (there : value = some given)
    (full : given ≠ []) (first : cfg.gpgKeyId = none) :
    VariableSet L name value cfg { cfg with gpgKeyId := some given }
  | gpgPath (named : name = ascii "gpg_path") {given : Bytes} (there : value = some given)
    (full : given ≠ []) (first : cfg.gpgPath = none) :
    VariableSet L name value cfg { cfg with gpgPath := some given }
  | gpgTimeout (named : name = ascii "gpg_timeout") {given : Bytes} (there : value = some given)
    (full : given ≠ []) : VariableSet L name value cfg { cfg with gpgTimeout := unsignedOf given }
  | passwordCount (named : name = ascii "password_count") {given : Bytes}
    (there : value = some given) (full : given ≠ []) :
    VariableSet L name value cfg { cfg with passwordCount := unsignedOf given }
  | passwordFile (named : name = ascii "password_file") {given : Bytes} (there : value = some given)
    (full : given ≠ []) (first : cfg.passwordFile = none) :
    VariableSet L name value cfg { cfg with passwordFile := some given }
  | timeout (named : name = ascii "timeout") {given : Bytes} (there : value = some given)
    (full : given ≠ []) : VariableSet L name value cfg { cfg with timeout := unsignedOf given }

/-- A value that may be set once was not set before. -/
theorem of_onceValue {linenum : Nat} {again message : String} {held value : Option Bytes}
    {given : Bytes} (accepted : onceValue linenum again message held value = .ok given) :
    held = none ∧ value = some given ∧ given ≠ [] := by
  unfold onceValue at accepted
  split at accepted
  · cases accepted
  · rename_i free
    exact ⟨Option.not_isSome_iff_eq_none.mp free, of_givenValue accepted⟩

/-- What a line that was accepted has set. -/
theorem of_setVariable {L : CLocale} {name : Bytes} {value : Option Bytes} {linenum : Nat}
    {cfg next : Settings} (accepted : setVariable L name value linenum cfg = .ok next) :
    VariableSet L name value cfg next := by
  unfold setVariable at accepted
  by_cases named : name = ascii "backup"
  · rw [if_pos named] at accepted
    cases accepted
    exact .backup named
  rw [if_neg named] at accepted
  by_cases named : name = ascii "character_count"
  · rw [if_pos named] at accepted
    obtain ⟨given, read, same⟩ := bind_eq_ok accepted
    cases same
    exact .characterCount named (of_givenValue read).1 (of_givenValue read).2
  rw [if_neg named] at accepted
  by_cases named : name = ascii "character_set"
  · rw [if_pos named] at accepted
    obtain ⟨set, read, same⟩ := bind_eq_ok accepted
    obtain ⟨given, there, full, resolved⟩ := of_characterSetValue read
    cases same
    exact .characterSet named there full resolved
  rw [if_neg named] at accepted
  by_cases named : name = ascii "editor"
  · rw [if_pos named] at accepted
    obtain ⟨given, read, same⟩ := bind_eq_ok accepted
    cases same
    exact .editor named (of_givenValue read).1 (of_givenValue read).2
  rw [if_neg named] at accepted
  by_cases named : name = ascii "gpg_key_id"
  · rw [if_pos named] at accepted
    obtain ⟨given, read, same⟩ := bind_eq_ok accepted
    obtain ⟨first, there, full⟩ := of_onceValue read
    cases same
    exact .gpgKeyId named there full first
  rw [if_neg named] at accepted
  by_cases named : name = ascii "gpg_path"
  · rw [if_pos named] at accepted
    obtain ⟨given, read, same⟩ := bind_eq_ok accepted
    obtain ⟨first, there, full⟩ := of_onceValue read
    cases same
    exact .gpgPath named there full first
  rw [if_neg named] at accepted
  by_cases named : name = ascii "gpg_timeout"
  · rw [if_pos named] at accepted
    obtain ⟨given, read, same⟩ := bind_eq_ok accepted
    cases same
    exact .gpgTimeout named (of_givenValue read).1 (of_givenValue read).2
  rw [if_neg named] at accepted
  by_cases named : name = ascii "password_count"
  · rw [if_pos named] at accepted
    obtain ⟨given, read, same⟩ := bind_eq_ok accepted
    cases same
    exact .passwordCount named (of_givenValue read).1 (of_givenValue read).2
  rw [if_neg named] at accepted
  by_cases named : name = ascii "password_file"
  · rw [if_pos named] at accepted
    obtain ⟨given, read, same⟩ := bind_eq_ok accepted
    obtain ⟨first, there, full⟩ := of_onceValue read
    cases same
    exact .passwordFile named there full first
  rw [if_neg named] at accepted
  by_cases named : name = ascii "timeout"
  · rw [if_pos named] at accepted
    obtain ⟨given, read, same⟩ := bind_eq_ok accepted
    cases same
    exact .timeout named (of_givenValue read).1 (of_givenValue read).2
  rw [if_neg named] at accepted
  cases accepted

/-- What a line that is accepted can do, one case for each kind of it. -/
inductive LineRun (L : CLocale) (linenum : Nat) (state : ConfigState) :
    Directive → ConfigState → Prop where
  | nothing : LineRun L linenum state .nothing state
  | setTop {name : Bytes} {value : Option Bytes} {settings : Settings}
    (top : state.currentProfile = none)
    (set : setVariable L name value linenum state.settings = .ok settings) :
    LineRun L linenum state (.set name value) { state with settings }
  | setInside {name : Bytes} {value : Option Bytes} {profile changed : Profile}
    (inside : state.currentProfile = some profile)
    (set : setProfileVariable L name value linenum profile = .ok changed) :
    LineRun L linenum state (.set name value) { state with currentProfile := some changed }
  | profile {name : Bytes} : LineRun L linenum state (.profile name)
      { state with
        older := state.profiles
        currentProfile := some (newProfile state.settings name) }

/-- What a line that was accepted has done. -/
theorem of_run {L : CLocale} {linenum : Nat} {state next : ConfigState} {first : Directive}
    (accepted : first.run L linenum state = .ok next) : LineRun L linenum state first next := by
  cases first with
  | nothing =>
    cases accepted
    exact .nothing
  | set name value =>
    simp only [Directive.run, configSet] at accepted
    cases held : state.currentProfile with
    | none =>
      simp only [held] at accepted
      obtain ⟨settings, set, same⟩ := bind_eq_ok accepted
      cases same
      rw [← held]
      exact .setTop held set
    | some profile =>
      simp only [held] at accepted
      obtain ⟨changed, set, same⟩ := bind_eq_ok accepted
      cases same
      exact .setInside held set
  | profile name =>
    simp only [Directive.run, configProfile] at accepted
    split at accepted
    · cases accepted
    · cases accepted
      exact .profile
  | setNothing => cases accepted
  | profileNothing => cases accepted
  | unknown => cases accepted

/-- Lines that are accepted: what the first one does, and the others from there. -/
theorem of_runAll_cons {L : CLocale} {state final : ConfigState} {first : Directive}
    {rest : List Directive} (accepted : runAll L state (first :: rest) = some final) :
    ∃ next, LineRun L 0 state first next ∧ runAll L next rest = some final := by
  unfold runAll at accepted
  cases ran : first.run L 0 state with
  | error error => simp [ran] at accepted
  | ok next =>
    simp only [ran] at accepted
    exact ⟨next, of_run ran, accepted⟩

end Mdp
