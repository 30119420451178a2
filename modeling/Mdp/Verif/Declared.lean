import Mdp.Verif.Sections

/-!
# What a profile declares

The meaning of a configuration file for `mdp generate -p`, without a current profile, copies or a
registry: a file is a top part and sections, each begun by a `profile` line, and the last `set` of a
setting in the first section of the name counts, then the last one at the top, then the default. The
interpreter of `config.c` leaves a registry that is the image of the sections.
-/

namespace Mdp.Declared

open Mdp Interaction CStrings Sections

/-- The sections, with their names. -/
def sections : List Directive → List (Bytes × List Directive)
  | [] => []
  | .profile name :: rest => (name, leading rest) :: sections rest
  | _ :: rest => sections rest

/-- The first section of a name: what follows the first `profile` line with it, up to the next
`profile` line. -/
def sectionOf (name : Bytes) (asked : List Directive) : List Directive :=
  leading (asked.dropWhile (· ≠ .profile name)).tail

/-- The value that counts for a profile: of its section, or else of the top part. -/
def declaredValue {α : Type} (read : Bytes → Option α) (name setting : Bytes)
    (asked : List Directive) : Option α :=
  (lastValue read setting (sectionOf name asked)).or (lastValue read setting (leading asked))

/-- A number is read like this. -/
def readNumber (value : Bytes) : Option UInt32 := some (unsignedOf value)

/-- The number of the command line, if it is not zero, or the declared one, or a default. -/
def declaredNumber (cmd : UInt32) (name setting : Bytes) (builtIn : UInt32)
    (asked : List Directive) : UInt32 :=
  if cmd = 0 then (declaredValue readNumber name setting asked).getD builtIn else cmd

/-- The declared character set, or the default. -/
def declaredSet (L : CLocale) (name : Bytes) (asked : List Directive) : List WChar :=
  (declaredValue (configResolveCharacterSet L) name (ascii "character_set") asked).getD
    charsetAlphanumeric

/-- What some lines make of a profile: its fields are what was set last. -/
def assigned (L : CLocale) (asked : List Directive) (profile : Profile) : Profile where
  name := profile.name
  passwordCount := (lastValue readNumber (ascii "password_count") asked).getD profile.passwordCount
  characterCount :=
    (lastValue readNumber (ascii "character_count") asked).getD profile.characterCount
  characterSet :=
    (lastValue (configResolveCharacterSet L) (ascii "character_set") asked).or profile.characterSet

/-- No line assigns nothing. -/
@[simp] theorem assigned_nil (L : CLocale) (profile : Profile) : assigned L [] profile = profile :=
  rfl

/-- A line that sets none of the three variables changes nothing. -/
theorem assigned_cons_of_none (L : CLocale) (first : Directive) (rest : List Directive)
    (profile : Profile) (counted : given (ascii "password_count") first = none)
    (length : given (ascii "character_count") first = none)
    (set : given (ascii "character_set") first = none) :
    assigned L (first :: rest) profile = assigned L rest profile := by
  simp only [assigned, lastValue_cons, counted, length, set, Option.bind_none, Option.or_none]

/-- A `set` of another variable is such a line. -/
theorem assigned_cons_of_ne (L : CLocale) {name : Bytes} (value : Option Bytes)
    (rest : List Directive) (profile : Profile)
    (other : name ∉ [ascii "password_count", ascii "character_count", ascii "character_set"]) :
    assigned L (.set name value :: rest) profile = assigned L rest profile := by
  simp only [List.mem_cons, List.not_mem_nil, or_false, not_or] at other
  exact assigned_cons_of_none L _ rest profile (given_of_ne other.1 value)
    (given_of_ne other.2.1 value)
    (given_of_ne other.2.2 value)

/-- What is set is the default for what is set later. -/
theorem assigned_passwordCount (L : CLocale) (value : Bytes) (rest : List Directive)
    (profile : Profile) :
    assigned L (.set (ascii "password_count") (some value) :: rest) profile =
      assigned L rest { profile with passwordCount := unsignedOf value } := by
  simp +decide only [assigned, lastValue_cons, given, if_true, if_false, Option.bind_none,
    Option.or_none]
  cases lastValue readNumber (ascii "password_count") rest <;> rfl

/-- A line that sets the number of characters. -/
theorem assigned_characterCount (L : CLocale) (value : Bytes) (rest : List Directive)
    (profile : Profile) :
    assigned L (.set (ascii "character_count") (some value) :: rest) profile =
      assigned L rest { profile with characterCount := unsignedOf value } := by
  simp +decide only [assigned, lastValue_cons, given, if_true, if_false, Option.bind_none,
    Option.or_none]
  cases lastValue readNumber (ascii "character_count") rest <;> rfl

/-- A line that sets the characters. -/
theorem assigned_characterSet {L : CLocale} {value : Bytes} {set : List WChar}
    (resolved : configResolveCharacterSet L value = some set) (rest : List Directive)
    (profile : Profile) :
    assigned L (.set (ascii "character_set") (some value) :: rest) profile =
      assigned L rest { profile with characterSet := some set } := by
  simp +decide only [assigned, lastValue_cons, given, if_true, if_false, Option.bind_none,
    Option.or_none, Option.bind_some, resolved]
  cases lastValue (configResolveCharacterSet L) (ascii "character_set") rest <;> rfl

/-- One assignment of `set_profile_variable`, before the others. -/
theorem assigned_setProfileVariable {L : CLocale} {name : Bytes} {value : Option Bytes}
    {profile next : Profile} (accepted : setProfileVariable L name value 0 profile = .ok next)
    (rest : List Directive) :
    assigned L (.set name value :: rest) profile = assigned L rest next := by
  obtain ⟨given, rfl, _, ⟨rfl, rfl⟩ | ⟨rfl, set, resolved, rfl⟩ | ⟨rfl, rfl⟩⟩ :=
    of_setProfileVariable accepted
  · exact assigned_characterCount L given rest profile
  · exact assigned_characterSet resolved rest profile
  · exact assigned_passwordCount L given rest profile

/-- One assignment of `set_variable`, before the others, for a profile that copies the globals. -/
theorem assigned_setVariable {L : CLocale} {name : Bytes} {value : Option Bytes}
    {cfg next : Settings} (accepted : VariableSet L name value cfg next)
    (rest : List Directive) (profile : Bytes) :
    assigned L (.set name value :: rest) (newProfile cfg profile) =
      assigned L rest (newProfile next profile) := by
  cases accepted with
  | characterCount named there full =>
    subst named there
    exact assigned_characterCount L _ rest _
  | characterSet named there full resolved =>
    subst named there
    exact assigned_characterSet resolved rest _
  | passwordCount named there full =>
    subst named there
    exact assigned_passwordCount L _ rest _
  | _ named =>
    subst named
    exact assigned_cons_of_ne L value rest _ (by decide)

/-- From a `profile` line on, the current profile becomes what its section makes of it, and the
later sections are registered after it. -/
theorem runAll_section {L : CLocale} {cfg : Settings} {older : List Profile} {profile : Profile}
    {asked : List Directive} {final : ConfigState}
    (accepted : runAll L ⟨cfg, older, some profile⟩ asked = some final) :
    final.profiles = older ++ assigned L (leading asked) profile ::
      (sections asked).map fun part => assigned L part.2 (newProfile cfg part.1) := by
  induction asked generalizing older profile with
  | nil =>
    cases accepted
    rfl
  | cons first rest ih =>
    obtain ⟨next, taken, after⟩ := of_runAll_cons accepted
    cases taken with
    | nothing =>
      have later := ih after
      rw [← assigned_cons_of_none L .nothing _ _ rfl rfl rfl] at later
      exact later
    | setTop top => cases top
    | setInside inside ran =>
      cases inside
      have later := ih after
      rw [← assigned_setProfileVariable ran] at later
      exact later
    | profile =>
      have later := ih after
      simp only [ConfigState.profiles, Option.toList_some, List.append_assoc] at later
      exact later

/-- What a profile copies from the globals that the top part leaves. -/
theorem newProfile_top {L : CLocale} {cfg : Settings} {asked : List Directive}
    {final : ConfigState} (accepted : runAll L ⟨cfg, [], none⟩ asked = some final) (name : Bytes) :
    newProfile final.settings name = assigned L (leading asked) (newProfile cfg name) := by
  refine top_induction (motive := fun cfg lines left =>
    newProfile left name = assigned L lines (newProfile cfg name)) ?_ ?_ ?_ accepted
  · intro cfg
    rfl
  · intro cfg rest left same
    rw [assigned_cons_of_none L .nothing _ _ rfl rfl rfl]
    exact same
  · intro setting value cfg next rest left changed same
    rw [assigned_setVariable changed]
    exact same

/-- The registry that a file leaves is the image of its sections. -/
theorem runAll_sections {L : CLocale} {cfg : Settings} {asked : List Directive}
    {final : ConfigState} (accepted : runAll L ⟨cfg, [], none⟩ asked = some final) :
    final.profiles = (sections asked).map fun part =>
      assigned L part.2 (newProfile final.settings part.1) := by
  induction asked generalizing cfg with
  | nil =>
    cases accepted
    rfl
  | cons first rest ih =>
    obtain ⟨next, taken, later⟩ := of_runAll_cons accepted
    cases taken with
    | nothing => exact ih later
    | setTop => exact ih later
    | setInside inside => cases inside
    | profile =>
      rw [runAll_settings later]
      exact runAll_section later

/-- The first section of a name is the first one that is registered. -/
theorem find?_sections {name : Bytes} {asked : List Directive} (there : .profile name ∈ asked) :
    (sections asked).find? (fun part => part.1 = name) = some (name, sectionOf name asked) := by
  induction asked with
  | nil => cases there
  | cons first rest ih =>
    by_cases here : first = .profile name
    · subst here
      simp [sections, sectionOf]
    · have later := ih ((List.mem_cons.mp there).resolve_left (Ne.symm here))
      have same : sectionOf name (first :: rest) = sectionOf name rest := by
        simp [sectionOf, here]
      rw [same, ← later]
      cases first with
      | profile other =>
        have apart : other ≠ name := fun equal => here (by rw [equal])
        simp [sections, apart]
      | _ => rfl

/-- `profile_get_from_name` finds what the first section of the name declares. -/
theorem find?_profiles {L : CLocale} {cfg : Settings} {asked : List Directive} {name : Bytes}
    {final : ConfigState} (accepted : runAll L ⟨cfg, [], none⟩ asked = some final)
    (there : .profile name ∈ asked) :
    final.profiles.find? (fun profile => profile.name = name) =
      some (assigned L (sectionOf name asked)
          (assigned L (leading asked) (newProfile cfg name))) := by
  have found := find?_sections there
  rw [runAll_sections accepted, List.find?_map, ← newProfile_top accepted name]
  have same : (fun profile : Profile => decide (profile.name = name)) ∘
      (fun part : Bytes × List Directive =>
        assigned L part.2 (newProfile final.settings part.1)) = fun part =>
            decide (part.1 = name) :=
    rfl
  rw [same, found, Option.map_some]

/-- One password of some characters of a set. -/
def onePassword (length : UInt32) (set : List WChar) : Prog (List WChar) := do
  require (length + 1 != 0) "zero size"
  require (← ask .allocate) "xcalloc failed"
  match ← generatePasswordFromSet (asInt length) (some set) with
  | none => errx exitFailure "failed to generate password"
  | some password => pure password

/-- Some passwords, one after the other. -/
def somePasswords (length : UInt32) (set : List WChar) : Nat → Prog (List (List WChar))
  | 0 => .done []
  | left + 1 => do
    let password ← onePassword length set
    let others ← somePasswords length set left
    pure (password :: others)

/-- `mdp generate` where the count, the length and the characters are known. -/
def generation (cfg : Config) (count length : UInt32) (set : List WChar) :
    Prog (List (List WChar)) := do
  debug cfg "mdp_generate()"
  somePasswords length set count.toNat

/-- The length that `profile_generate_password` takes. -/
theorem printLoop_eq (opts : AddOptions) {profile : Profile} {set : List WChar}
    (there : profile.characterSet = some set) (left : Nat) :
    printLoop opts profile left = somePasswords
      (if opts.characterCount > 0 then opts.characterCount else profile.characterCount) set
          left := by
  induction left with
  | zero => rfl
  | succ left ih =>
    rw [printLoop, somePasswords, ih, profileGeneratePassword, there]
    rfl

/-- What the lines of a file declare, however long they are. -/
def lineDirectives (content : Bytes) : List Directive := directives (lines content)

/-- The profile that a file with the defaults declares for a name. -/
def declaredProfile (L : CLocale) (editor : Option Bytes) (name : Bytes) (asked : List Directive) :
    Profile :=
  assigned L (sectionOf name asked) (assigned L (leading asked) (newProfile (.initial editor) name))

/-- A number of the command line goes before the declared one. -/
theorem declaredNumber_eq (cmd : UInt32) (name setting : Bytes) (builtIn : UInt32)
    (asked : List Directive) :
    (if cmd > 0 then cmd else (lastValue readNumber setting (sectionOf name asked)).getD
      ((lastValue readNumber setting (leading asked)).getD builtIn)) =
      declaredNumber cmd name setting builtIn asked := by
  unfold declaredNumber declaredValue
  rw [Option.getD_or]
  by_cases zero : cmd = 0
  · rw [if_pos zero, if_neg (by simp [zero])]
  · have positive : cmd > 0 := UInt32.pos_iff_ne_zero.mpr zero
    rw [if_neg zero, if_pos positive]

/-- What is generated for a declared profile. -/
theorem mdpGenerate_declared (L : CLocale) (cfg : Config) (opts : AddOptions)
    (editor : Option Bytes) {name : Bytes} {asked : List Directive}
    (wanted : opts.profileName = some name)
    (found : profileGetFromName opts name = some (declaredProfile L editor name asked)) :
    mdpGenerate cfg opts = generation cfg
      (declaredNumber opts.passwordCount name (ascii "password_count") 4 asked)
      (declaredNumber opts.characterCount name (ascii "character_count") 16 asked)
      (declaredSet L name asked) := by
  have profile : addProfile opts = .done (declaredProfile L editor name asked) := by
    simp only [addProfile, wanted, found]
  have count : profileGetPasswordCount opts (declaredProfile L editor name asked) =
      declaredNumber opts.passwordCount name (ascii "password_count") 4 asked :=
    declaredNumber_eq opts.passwordCount name _ 4 asked
  have length : (if opts.characterCount > 0 then opts.characterCount
      else (declaredProfile L editor name asked).characterCount) =
      declaredNumber opts.characterCount name (ascii "character_count") 16 asked :=
    declaredNumber_eq opts.characterCount name _ 16 asked
  have set : (declaredProfile L editor name asked).characterSet =
      some (declaredSet L name asked) := by
    rw [declaredSet, ← Option.or_some, declaredValue, Option.or_assoc]
    rfl
  unfold mdpGenerate generation
  rw [profile]
  congr 1
  funext _
  show profileFprintPasswords opts (declaredProfile L editor name asked) = _
  rw [profileFprintPasswords, count, printLoop_eq opts set, length]

/-- `mdp generate` with a declared profile draws passwords of the declared number, length and
characters. -/
theorem generates_declared {L : CLocale} {around : Surroundings} {argv : List Bytes} {cfg : Config}
    {opts : AddOptions} {content name : Bytes}
    (launched : launch L around argv = .ok (cfg, .generate opts))
    (file : around.config = some content) (fits : ∀ line ∈ lines content, line.length < maxLineSize)
    (wanted : opts.profileName = some name) (there : .profile name ∈ lineDirectives content) :
    mdpGenerate cfg opts = generation cfg
      (declaredNumber opts.passwordCount name (ascii "password_count") 4 (lineDirectives content))
      (declaredNumber opts.characterCount name (ascii "character_count") 16
        (lineDirectives content))
      (declaredSet L name (lineDirectives content)) := by
  obtain ⟨cmd, command, words, state, _, read, dispatched, _⟩ := of_launch launched
  obtain ⟨before, accepted, rfl⟩ := of_readConfig read
  have short : ∀ line ∈ lines content, line.length ≤ 16382 + 1 := fun line member =>
    Nat.le_of_lt_succ (fits line member)
  have ran := configRead_toOption L (.initial around.editor) content
  rw [← file, accepted, maxLineSize_eq, chunks_eq_lines 16382 short] at ran
  have found := find?_profiles ran.symm there
  apply mdpGenerate_declared L cfg opts around.editor wanted
  cases of_dispatch dispatched with
  | generate parsed => exact found

/-- A file whose section says nothing about the count, after a top part that says it twice. -/
def declaringFile : Bytes :=
  ascii "set password_count 2\nset password_count 3\nprofile a\nset character_count 8\n"

/-- What `mdp gen -p a -l 0` finds with this file. -/
def declaring : Surroundings := ⟨false, none, ascii "/h/.mdp", some declaringFile⟩

/-- The options that it comes to. -/
def declaringOptions : AddOptions where
  profileName := some (ascii "a")
  prefixText := none
  passwordCount := 0
  characterCount := 0
  defaultPasswordCount := 3
  defaultCharacterCount := 16
  defaultCharacterSet := none
  profiles := [⟨ascii "a", 3, 8, some charsetAlphanumeric⟩]

/-- The configuration that it comes to. -/
def declaringConfig : Config :=
  ⟨false, true, some (ascii "/usr/bin/vi"), ascii "/usr/bin/gpg", none, 20⟩

/-- `mdp gen -p a -l0` reads the profile. -/
theorem launch_declaring :
    launch .ascii declaring [ascii "gen", ascii "-p", ascii "a", ascii "-l0"] =
    .ok (declaringConfig, .generate declaringOptions) := by rfl

/-- Three passwords of eight characters. -/
theorem generates_declared_three : mdpGenerate declaringConfig declaringOptions =
    generation declaringConfig 3 8 charsetAlphanumeric :=
  generates_declared launch_declaring rfl (by decide +kernel) rfl (by decide +kernel)

end Mdp.Declared
