import Mdp.Verif.Declared
import Mdp.Verif.Making
import Mdp.Verif.Numerals

/-!
# Numbers of characters and of passwords

A numeral given for the length or the number of passwords goes through `strtoull` and 32 bits, and
zero on the command line leaves the number of the configuration. So a number from 2^32 on is used as
another one, unless the command comes to no password.
-/

namespace Mdp.Counts

open Mdp Interaction CStrings Sections Declared Numerals Undisturbed Finding Making

/-- What a number is for. -/
inductive Counted where
  | characters
  | passwords

/-- Where a number is given. -/
inductive Origin where
  | option
  | setting

namespace Counted

/-- The option `-l` or `-n`. -/
def letter : Counted → UInt8
  | characters => 0x6c
  | passwords => 0x6e

/-- The variable of the configuration. -/
def variableName : Counted → Bytes
  | characters => ascii "character_count"
  | passwords => ascii "password_count"

/-- `cmd_character_count` or `cmd_password_count`. -/
def option : Counted → CommandVariables → UInt32
  | characters, cmd => cmd.characterCount
  | passwords, cmd => cmd.passwordCount

/-- The same in a command's options. -/
def command : Counted → AddOptions → UInt32
  | characters, opts => opts.characterCount
  | passwords, opts => opts.passwordCount

/-- The number of a profile. -/
def ofProfile : Counted → Profile → UInt32
  | characters, profile => profile.characterCount
  | passwords, profile => profile.passwordCount

/-- The number that is used. -/
def inForce (counted : Counted) (opts : AddOptions) (profile : Profile) : UInt32 :=
  if counted.command opts > 0 then counted.command opts else counted.ofProfile profile

end Counted

/-- The argument of the last such option. -/
def lastOption (letter : UInt8) (found : List OptionEvent) : Option Bytes :=
  (found.filterMap fun event => match event with
    | .given name optarg => if name = letter then some optarg else none
    | _ => none).getLast?

/-- What one option does to a number. -/
def Counted.after (counted : Counted) (before : UInt32) : OptionEvent → UInt32
  | .given name optarg => if name = counted.letter then unsignedOf optarg else before
  | _ => before

/-- The last option counts, so the first one only where no other follows. -/
theorem lastOption_cons (counted : Counted) (before : UInt32) (event : OptionEvent)
    (rest : List OptionEvent) :
    ((lastOption counted.letter (event :: rest)).map unsignedOf).getD before =
      ((lastOption counted.letter rest).map unsignedOf).getD (counted.after before event) := by
  unfold lastOption
  cases event with
  | given name optarg =>
    by_cases named : name = counted.letter
    · simp only [List.filterMap_cons, named, if_true, List.getLast?_cons, Counted.after]
      cases (List.filterMap _ rest).getLast? <;> rfl
    · simp only [List.filterMap_cons, named, if_false, Counted.after]
  | _ => rfl

/-- A loop whose options treat the number like this leaves the one of the last option. -/
theorem optionLoop_number {option : CommandVariables → OptionEvent → Except Ending CommandVariables}
    {counted : Counted} (steps : ∀ cmd next event, option cmd event = .ok next →
      counted.option next = counted.after (counted.option cmd) event)
    {cmd final : CommandVariables} {found : List OptionEvent}
    (accepted : optionLoop option cmd found = .ok final) :
    counted.option final =
      ((lastOption counted.letter found).map unsignedOf).getD (counted.option cmd) := by
  induction found generalizing cmd with
  | nil =>
    cases accepted
    rfl
  | cons event rest ih =>
    simp only [optionLoop] at accepted
    cases next : option cmd event with
    | error ending => simp [next] at accepted
    | ok cmd' =>
      rw [lastOption_cons, ← steps cmd cmd' event next]
      exact ih (by simpa [next] using accepted)

/-- Each option of `mdp generate` sets the number it is about. -/
theorem passwordOption_number (counted : Counted) (cmd next : CommandVariables)
    (event : OptionEvent)
    (accepted : passwordOption cmd event = .ok next) :
    counted.option next = counted.after (counted.option cmd) event := by
  unfold passwordOption at accepted
  split at accepted <;> cases accepted <;> cases counted <;> rfl

/-- Each option of `mdp add` sets the number it is about. -/
theorem addOption_number (counted : Counted) (cmd next : CommandVariables) (event : OptionEvent)
    (accepted : addOption cmd event = .ok next) :
    counted.option next = counted.after (counted.option cmd) event := by
  unfold addOption at accepted
  split at accepted
  · cases accepted
    cases counted <;> rfl
  · exact passwordOption_number counted cmd next _ accepted

/-- The options that a command makes passwords with. -/
def makingOptions : Started → Option AddOptions
  | .generate opts => some opts
  | .edits (.add opts) => some opts
  | _ => none

/-- The `optstring` of such a command. -/
def optstring : Started → Bytes
  | .generate _ => ascii "hp:l:n:"
  | _ => ascii "hp:l:n:k:"

/-- The argument of the last such option on a command line. -/
def optionText (letter : UInt8) (around : Surroundings) (argv : List Bytes) (started : Started) :
    Option Bytes :=
  match cmdParseCore argv with
  | .ok (_, _ :: words) =>
      lastOption letter (getopt around.permute (optstring started) none words).1
  | _ => none

/-- The value that is declared for a profile, or at the top for the default one. -/
def settingText (name : Bytes) (around : Surroundings) (opts : AddOptions) : Option Bytes :=
  match opts.profileName with
  | none => lastValue some name (leading (fileDirectives around.config))
  | some profile => declaredValue some profile name (fileDirectives around.config)

/-- The last number of a setting is the number of its last value. -/
theorem lastValue_readNumber (setting : Bytes) (asked : List Directive) :
    lastValue readNumber setting asked = (lastValue some setting asked).map unsignedOf := by
  induction asked with
  | nil => rfl
  | cons first rest ih =>
    rw [lastValue_cons, lastValue_cons, ih]
    cases lastValue some setting rest with
    | some value => rfl
    | none => cases given setting first <;> rfl

/-- What some lines make of the number of a profile. -/
theorem ofProfile_assigned (counted : Counted) (L : CLocale) (asked : List Directive)
    (profile : Profile) : counted.ofProfile (assigned L asked profile) =
      ((lastValue some counted.variableName asked).map unsignedOf).getD
          (counted.ofProfile profile) := by
  cases counted with
  | characters =>
    show (lastValue readNumber _ asked).getD _ = _
    rw [lastValue_readNumber]
    rfl
  | passwords =>
    show (lastValue readNumber _ asked).getD _ = _
    rw [lastValue_readNumber]
    rfl

/-- A profile that is registered has a section. -/
theorem mem_of_mem_sections {part : Bytes × List Directive} {asked : List Directive}
    (member : part ∈ sections asked) : .profile part.1 ∈ asked := by
  induction asked with
  | nil => cases member
  | cons first rest ih =>
    cases first with
    | profile name =>
      rcases List.mem_cons.mp member with rfl | later
      · exact List.mem_cons_self ..
      · exact List.mem_cons_of_mem _ (ih later)
    | _ => exact List.mem_cons_of_mem _ (ih member)

/-- The number of the profile that a command uses is the declared one, or a default. -/
theorem profile_number (counted : Counted) {L : CLocale} {around : Surroundings}
    {cmd : CommandVariables} {before : ConfigState} {profile : Profile}
    (accepted : configRead L (.initial around.editor) around.config = .ok before)
    (named : profileOf (addOptions cmd { before with
      settings := configSetDefaults around.configDir cmd before.settings }) = some profile)
    {text : Bytes} (declared : settingText counted.variableName around (addOptions cmd before) =
      some text) : counted.ofProfile profile = unsignedOf text := by
  have ran : runAll L ⟨.initial around.editor, [], none⟩ (fileDirectives around.config) =
      some before :=
    runAll_of_configRead accepted
  unfold profileOf at named
  unfold settingText at declared
  cases chosen : cmd.profileName with
  | none =>
    simp only [addOptions, chosen] at named declared
    have made : profile = newProfile before.settings (ascii "default") :=
      (Option.some.inj named).symm
    rw [made, newProfile_top ran, ofProfile_assigned, declared]
    rfl
  | some name =>
    simp only [addOptions, chosen] at named declared
    have found : before.profiles.find? (fun profile => profile.name = name) = some profile := named
    have there : .profile name ∈ fileDirectives around.config := by
      have member := List.mem_of_find?_eq_some found
      have same : profile.name = name := by simpa using List.find?_some found
      rw [runAll_sections ran] at member
      obtain ⟨part, inside, rfl⟩ := List.mem_map.mp member
      rw [← same]
      exact mem_of_mem_sections inside
    rw [find?_profiles ran there, Option.some.injEq] at found
    rw [← found, ofProfile_assigned, ofProfile_assigned]
    unfold declaredValue at declared
    cases inSection :
      lastValue some counted.variableName (sectionOf name (fileDirectives around.config)) with
    | some value =>
      rw [inSection, Option.some_or, Option.some.injEq] at declared
      rw [declared]
      rfl
    | none =>
      rw [inSection, Option.none_or] at declared
      rw [declared]
      rfl

/-- A text that gives a number: the last option for it, or the declared value where the command line
leaves the number alone. -/
inductive Given (counted : Counted) (around : Surroundings) (argv : List Bytes) (started : Started)
    (opts : AddOptions) (text : Bytes) : Origin → Prop where
  | option (last : optionText counted.letter around argv started = some text) :
    Given counted around argv started opts text .option
  | setting (free : counted.command opts = 0)
    (declared : settingText counted.variableName around opts = some text) :
    Given counted around argv started opts text .setting

/-- What a number is used as, where the configuration gives another one. -/
def usedNumber (origin : Origin) (n configured : Nat) : Nat :=
  match origin with
  | .option => if converted n = 0 then configured else converted n
  | .setting => converted n

/-- A number below 2^32 is used as it is, and every other one as a smaller one. -/
theorem usedNumber_eq_iff {origin : Origin} {n configured : Nat} (positive : 1 ≤ n)
    (bound : configured < 4294967296) : usedNumber origin n configured = n ↔ n < 4294967296 := by
  have small := converted_lt n
  constructor
  · intro same
    cases origin with
    | option =>
      have chosen : (if converted n = 0 then configured else converted n) = n := same
      split at chosen <;> omega
    | setting =>
      have chosen : converted n = n := same
      omega
  · intro fits
    have same := converted_of_lt fits
    cases origin with
    | option =>
      show (if converted n = 0 then configured else converted n) = n
      rw [if_neg (by omega), same]
    | setting => exact same

variable {L : CLocale} {around : Surroundings} {argv : List Bytes} {cfg : Config}
  {started : Started}
  {opts : AddOptions} {profile : Profile} {counted : Counted} {text : Bytes} {origin : Origin}
    {n : Nat}

/-- What the options of a command leave of a number. -/
theorem options_number (counted : Counted) {cmd : CommandVariables} {state : ConfigState}
    {command : Bytes}
    {words : List Bytes} (parsed : cmdParseCore argv = .ok (cmd, command :: words))
    (dispatched : dispatch L around.permute cmd state command words = .ok started)
    (making : makingOptions started = some opts) :
    ∃ cmd', opts = addOptions cmd' state ∧
      ∀ text, optionText counted.letter around argv started = some text →
        counted.option cmd' = unsignedOf text := by
  cases of_dispatch dispatched with
  | @generate cmd' ran =>
    cases making
    refine ⟨cmd', rfl, fun text last => ?_⟩
    simp only [optionText, parsed] at last
    simp only [cmdParseGenerate] at ran
    split at ran
    · cases ran
    · rename_i final looped
      split at ran
      · cases ran
        have found :
          lastOption counted.letter (getopt around.permute (ascii "hp:l:n:") none words).1 =
            some text := last
        rw [optionLoop_number (passwordOption_number counted) looped, found]
        rfl
      · cases ran
  | @add cmd' ran =>
    cases making
    refine ⟨cmd', rfl, fun text last => ?_⟩
    simp only [optionText, parsed] at last
    simp only [cmdParseAdd] at ran
    split at ran
    · cases ran
    · rename_i final looped
      have looped' : counted.option final = unsignedOf text := by
        have found : lastOption counted.letter
            (getopt around.permute (ascii "hp:l:n:k:") none words).1 = some text := last
        rw [optionLoop_number (addOption_number counted) looped, found]
        rfl
      split at ran
      · cases ran
        exact looped'
      · split at ran
        · cases ran
        · cases ran
          rw [← looped']
          cases counted <;> rfl
  | _ => cases making

/-- The number in force is the one that is used for the numeral. -/
theorem inForce_eq (launched : launch L around argv = .ok (cfg, started))
    (making : makingOptions started = some opts)
    (given : Given counted around argv started opts text origin)
    (numeral : Numeral n text) (named : profileOf opts = some profile) :
    (counted.inForce opts profile).toNat =
      usedNumber origin n (counted.ofProfile profile).toNat := by
  obtain ⟨cmd, command, words, state, parsed, read, dispatched, _⟩ := of_launch launched
  obtain ⟨before, accepted, rfl⟩ := of_readConfig read
  have value := unsignedOf_numeral numeral
  obtain ⟨cmd', same, number⟩ := options_number counted parsed dispatched making
  have field : counted.command opts = counted.option cmd' := by
    rw [same]
    cases counted <;> rfl
  have zero : (counted.command opts > 0) ↔ (counted.command opts).toNat ≠ 0 := by
    rw [gt_iff_lt, UInt32.lt_iff_toNat_lt]
    exact Nat.pos_iff_ne_zero
  unfold Counted.inForce usedNumber
  cases given with
  | option last =>
    have given : counted.command opts = unsignedOf text := field.trans (number text last)
    rw [given] at zero ⊢
    rw [value] at zero
    by_cases gone : converted n = 0
    · rw [if_neg (fun more => zero.mp more gone), if_pos gone]
    · rw [if_pos (zero.mpr gone), if_neg gone, value]
  | setting free declared =>
    have declared' : settingText counted.variableName around (addOptions cmd' before) =
        some text := by
      rw [same] at declared
      exact declared
    rw [same] at named
    rw [if_neg (by rw [free]; decide), profile_number counted accepted named declared', value]

/-- The passwords are as many as a number says, or each of that length. -/
def Respects (counted : Counted) (n : Nat) (passwords : List (List WChar)) : Prop :=
  match counted with
  | .characters => ∀ password ∈ passwords, password.length = n
  | .passwords => passwords.length = n

/-- Where `mdp generate` may stop: before any random number is drawn, or with such passwords. -/
def KeepsPrinting (counted : Counted) (n : Nat) (result : Except Ending (List (List WChar)))
    (drawn : Nat) : Prop :=
  match result with
  | .error _ => drawn = 0
  | .ok passwords => Respects counted n passwords

/-- Where `mdp add` may stop before it stores anything: anyhow, or with the entries of such
passwords behind what was loaded. -/
def KeepsAdding (opts : AddOptions) (counted : Counted) (n : Nat)
    (result : Except Ending (Memory × Memory)) : Prop :=
  match result with
  | .error _ => True
  | .ok (loaded, added) => ∃ passwords, Respects counted n passwords ∧
      added.results.map Result.wcsValue =
        loaded.results.map Result.wcsValue ++ passwords.map (entryOf opts)

/-- Where memory is available, a command ends with an error before it prints or stores a password,
or uses the number that it was given. -/
def Keeps (L : CLocale) (cfg : Config) (counted : Counted) (n : Nat) : Started → Prop
  | .generate opts => Stops (KeepsPrinting counted n) (mdpGenerate cfg opts) 0
  | .edits (.add opts) =>
    Stops (fun result _ => KeepsAdding opts counted n result) (addedResults cfg L opts) 0
  | _ => True

/-- The length of passwords where one of the numbers is used as another one. -/
def lengthFor (counted : Counted) (opts : AddOptions) (profile : Profile) (used : Nat) : Nat :=
  match counted with
  | .characters => used
  | .passwords => (characterCountOf opts profile).toNat

/-- The number of passwords. -/
def numberFor (counted : Counted) (opts : AddOptions) (profile : Profile) (used : Nat) : Nat :=
  match counted with
  | .characters => (profileGetPasswordCount opts profile).toNat
  | .passwords => used

/-- What else `mdp add` needs to come to its edit. -/
def Unstorable (L : CLocale) (cfg : Config) (opts : AddOptions) (profile : Profile) (number : Nat) :
    Started → Prop
  | .edits _ => cfg.gpgKeyId = none ∨ (number ≠ 0 ∧ ¬ Writable L opts profile.letters)
  | _ => False

/-- No password of a wrong length is made, or none at all. -/
inductive Excused (L : CLocale) (cfg : Config) (counted : Counted) (started : Started)
    (opts : AddOptions) (profile : Profile) (used : Nat) : Prop where
  /-- The length of no passwords. -/
  | idle (length : counted = .characters) (none : numberFor counted opts profile used = 0)
  /-- The length is refused or the set is empty. -/
  | notDrawable (some : numberFor counted opts profile used ≠ 0)
    (stops : NotDrawable (lengthFor counted opts profile used) profile.letters)
  | unstorable (stops : Unstorable L cfg opts profile (numberFor counted opts profile used) started)

/-- Passwords that are made respect the number in force. -/
theorem respects_made_iff {passwords : List (List WChar)}
    (made : Made opts profile (profileGetPasswordCount opts profile).toNat passwords) :
    Respects counted n passwords ↔ (counted.inForce opts profile).toNat = n ∨
      (counted = .characters ∧ (profileGetPasswordCount opts profile).toNat = 0) := by
  cases counted with
  | passwords =>
    show passwords.length = n ↔ _
    rw [made.count]
    simp [Counted.inForce, Counted.command, Counted.ofProfile, profileGetPasswordCount]
  | characters =>
    have same : Counted.characters.inForce opts profile = characterCountOf opts profile := rfl
    rw [same, ← made.count, List.length_eq_zero_iff]
    cases passwords with
    | nil => simp [Respects]
    | cons password others =>
      have lengths : ∀ other ∈ password :: others,
          other.length = (characterCountOf opts profile).toNat := fun other member =>
        (made.drawn other member).1
      constructor
      · intro respects
        left
        rw [← lengths password (List.mem_cons_self ..)]
        exact respects password (List.mem_cons_self ..)
      · rintro (equal | ⟨_, none⟩)
        · intro other member
          rw [lengths other member, equal]
        · cases none

/-- The two numbers in force, where the one that is given is used as another one. -/
theorem numbers_eq {used : Nat} (same : (counted.inForce opts profile).toNat = used) :
    numberFor counted opts profile used = (profileGetPasswordCount opts profile).toNat ∧
      lengthFor counted opts profile used = (characterCountOf opts profile).toNat := by
  subst same
  cases counted <;> exact ⟨rfl, rfl⟩

/-- The entry of a password that is made is a string. -/
theorem entries_whole (strings : HoldStrings opts) (named : profileOf opts = some profile)
    {number : Nat} {passwords : List (List WChar)} (made : Made opts profile number passwords) :
    (passwords.map fun password => upToNul (entryOf opts password)) = passwords.map
    (entryOf opts) := by
  apply List.map_congr_left
  intro password member
  apply upToNul_of_forall
  rintro wide inside rfl
  rcases mem_entryOf inside with ⟨text, given, held⟩ | tab | drawn
  · exact strings.prefixText text given held
  · exact absurd tab (by decide)
  · exact strings.characterSet profile named ((made.drawn password member).2 0 drawn)

/-- If entries can be written, the one of some character can. -/
theorem writable_of_made (strings : HoldStrings opts) (named : profileOf opts = some profile)
    {number : Nat} {passwords : List (List WChar)} (made : Made opts profile number passwords)
    (some : number ≠ 0)
    (written : ∀ password ∈ passwords, (L.encode (upToNul (entryOf opts password))).isSome) :
    Writable L opts profile.letters := by
  have whole := entries_whole strings named made
  have count := made.count
  cases passwords with
  | nil => exact absurd count.symm some
  | cons password others =>
    have first : upToNul (entryOf opts password) = entryOf opts password := (List.cons.inj whole).1
    have able := made.able some
    obtain ⟨length, inSet⟩ := made.drawn password (List.mem_cons_self ..)
    have entry := written password (List.mem_cons_self ..)
    rw [first, CLocale.encode_isSome] at entry
    cases password with
    | nil =>
      have allowed : 1 ≤ (characterCountOf opts profile).toNat := by
        by_contra zero
        exact able (.inl fun within => zero within.1)
      rw [← length] at allowed
      exact absurd allowed (by decide)
    | cons wide rest =>
      refine ⟨wide, inSet wide (List.mem_cons_self ..), ?_⟩
      rw [CLocale.encode_isSome]
      intro other member
      apply entry
      unfold entryOf at member ⊢
      cases given : opts.prefixText with
      | none =>
        rw [given] at member
        rw [List.mem_singleton.mp member]
        exact List.mem_cons_self ..
      | some text =>
        rw [given] at member
        simp only [List.mem_append, List.mem_cons, List.not_mem_nil, or_false] at member ⊢
        rcases member with held | tab | same
        · exact .inl held
        · exact .inr (.inl tab)
        · exact .inr (.inr (.inl same))

/-- A number that is used as it is, or for which no passwords are made, is respected. -/
theorem keeps_of {used : Nat → Nat} (launchedAs : makingOptions started = some opts)
    (strings : HoldStrings opts)
    (inForce : ∀ profile, profileOf opts = some profile →
      (counted.inForce opts profile).toNat = used (counted.ofProfile profile).toNat)
    (fine : ∀ profile, profileOf opts = some profile →
      used (counted.ofProfile profile).toNat = n ∨
        Excused L cfg counted started opts profile (used (counted.ofProfile profile).toNat)) :
    Keeps L cfg counted n started := by
  have kept : ∀ (profile : Profile) (passwords : List (List WChar)), profileOf opts = some profile →
      Made opts profile (profileGetPasswordCount opts profile).toNat passwords →
      ¬ Unstorable L cfg opts profile (profileGetPasswordCount opts profile).toNat started →
      Respects counted n passwords := by
    intro profile passwords named made storable
    have numbers := numbers_eq (inForce profile named)
    rw [respects_made_iff made]
    rcases fine profile named with same | excused
    · left
      rw [inForce profile named, same]
    · cases excused with
      | idle length none =>
        right
        rw [numbers.1] at none
        exact ⟨length, none⟩
      | notDrawable some stops =>
        rw [numbers.1] at some
        rw [numbers.2] at stops
        exact absurd stops (made.able some)
      | unstorable stops =>
        rw [numbers.1] at stops
        exact absurd stops storable
  cases started with
  | generate opts' =>
    cases launchedAs
    apply Program.Safe.mono (mdpGenerate_stops cfg opts) (fun _ _ => id)
    intro result drawn stopped
    cases result with
    | error ending => exact stopped
    | ok passwords =>
      obtain ⟨profile, named, made⟩ := stopped
      exact kept profile passwords named made fun none => none
  | edits command =>
    cases command with
    | edit => cases launchedAs
    | add opts' =>
      cases launchedAs
      by_cases missing : cfg.gpgKeyId = none
      · apply Program.Safe.mono (addedResults_keyless missing L opts) (fun _ _ => id)
        intro result drawn never
        cases result with
        | error ending => trivial
        | ok memory => exact absurd rfl (never memory)
      · apply Program.Safe.mono (addedResults_stops cfg L opts) (fun _ _ => id)
        intro result drawn stopped
        cases result with
        | error ending => trivial
        | ok memory =>
          obtain ⟨profile, passwords, named, made, behind, written⟩ := stopped memory.1 memory.2 rfl
          have whole := entries_whole strings named made
          refine ⟨passwords, kept profile passwords named made ?_, ?_⟩
          · rintro (none | ⟨some, stuck⟩)
            · exact missing none
            · exact stuck (writable_of_made strings named made some written)
          · rw [Making.Added, whole] at behind
            exact behind
  | get raw regex keywords => trivial
  | prompt regex => trivial

/-- Different passwords are different entries. -/
theorem entryOf_injective (opts : AddOptions) : Function.Injective (entryOf opts) := by
  intro left right same
  unfold entryOf at same
  cases given : opts.prefixText with
  | none =>
    rw [given] at same
    exact same
  | some text =>
    rw [given] at same
    exact (List.cons.inj (List.append_cancel_left same)).2

/-- Only such a number is respected in every run. -/
theorem of_keeps {used : Nat} (making : makingOptions started = some opts)
    (strings : HoldStrings opts)
    (named : profileOf opts = some profile)
    (inForce : (counted.inForce opts profile).toNat = used)
    (keeps : Keeps L cfg counted n started) :
    used = n ∨ Excused L cfg counted started opts profile used := by
  by_contra neither
  have numbers := numbers_eq inForce
  have other : used ≠ n := fun same => neither (.inl same)
  have able : (profileGetPasswordCount opts profile).toNat ≠ 0 →
      ¬ NotDrawable (characterCountOf opts profile).toNat profile.letters := by
    intro some stops
    rw [← numbers.1] at some
    rw [← numbers.2] at stops
    exact neither (.inr (.notDrawable some stops))
  have storable :
      ¬ Unstorable L cfg opts profile (profileGetPasswordCount opts profile).toNat started := by
    intro stops
    rw [← numbers.1] at stops
    exact neither (.inr (.unstorable stops))
  have wrong : ∀ passwords : List (List WChar),
      Made opts profile (profileGetPasswordCount opts profile).toNat passwords →
      ¬ Respects counted n passwords := by
    intro passwords made respects
    rcases (respects_made_iff made).mp respects with same | ⟨length, none⟩
    · exact other (inForce.symm.trans same)
    · rw [← numbers.1] at none
      exact neither (.inr (.idle length none))
  cases started with
  | generate opts' =>
    cases making
    obtain ⟨passwords, ran, made⟩ := exists_generated cfg named able
    have kept := Stops.feed keeps succeedingCalls fun _ => 0
    rw [ran] at kept
    exact wrong passwords made kept
  | edits command =>
    cases command with
    | edit => cases making
    | add opts' =>
      cases making
      have key : cfg.gpgKeyId.isSome := Option.isSome_iff_ne_none.mpr fun none =>
        storable (.inl none)
      obtain ⟨draws, loaded, added, ran⟩ := exists_added (L := L) cfg named key fun some =>
        ⟨able some, by
          by_contra stuck
          exact storable (.inr ⟨some, stuck⟩)⟩
      have kept := Stops.feed keeps succeedingCalls draws
      have stopped := (addedResults_stops cfg L opts).feed succeedingCalls draws
      rw [ran] at kept stopped
      obtain ⟨passwords, respects, behind⟩ := kept
      obtain ⟨profile', passwords', named', made, behind', _⟩ := stopped loaded added rfl
      cases named.symm.trans named'
      rw [Making.Added, entries_whole strings named made] at behind'
      have same := List.append_cancel_left (behind'.symm.trans behind)
      rw [(entryOf_injective opts).list_map same] at made
      exact wrong passwords made respects
  | get raw regex keywords => cases making
  | prompt regex => cases making

/-- What `mdp gen` finds without a configuration file. -/
def bareAround : Surroundings := ⟨false, none, ascii "/h/.mdp", none⟩

/-- The options that it comes to with a length. -/
def lengthOptions (length : UInt32) : AddOptions := ⟨none, none, 0, length, 4, 16, none, []⟩

/-- The sets of this configuration are strings. -/
theorem holdStrings_length (length : UInt32) : HoldStrings (lengthOptions length) := by
  refine ⟨?_, ?_⟩
  · intro profile named
    cases named
    show (0 : WChar) ∉ charsetAlphanumeric
    decide +kernel
  · intro text given
    cases given

/-- `mdp gen -l12` asks for twelve characters. -/
theorem launch_twelve : launch .ascii bareAround [ascii "gen", ascii "-l12"] =
    .ok (declaringConfig, .generate (lengthOptions 12)) := by rfl

/-- `mdp gen -l4294967304` asks for eight characters. -/
theorem launch_wrapped : launch .ascii bareAround [ascii "gen", ascii "-l4294967304"] =
    .ok (declaringConfig, .generate (lengthOptions 8)) := by rfl

end Mdp.Counts
