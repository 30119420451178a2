import Mdp.Verif.Drawing
import Mdp.Verif.Finding

/-!
# How many passwords a command makes, and how long they are

Where memory is available, `mdp generate` and `mdp add` stop before the first password if its length
is refused, and otherwise make the number of passwords in force, each of the length in force. There
is a run that makes them, for `mdp add` if a key is configured and the locale can write some entry.
-/

namespace Mdp.Making

open Mdp Interaction CStrings FirstMaximum Undisturbed Finding Drawing

/-- Any answers with which memory is available. The random numbers that were drawn are counted. -/
def memoryAvailable : Effect posix Nat := fun request answer drawn =>
  match request, answer with
  | .allocate, false => none
  | .readString present, read => if read = present then some drawn else none
  | .arc4randomUniform _, _ => some (drawn + 1)
  | _, _ => some drawn

variable {α β : Type}

/-- Every run that begins after some random numbers satisfies a condition where it stops. -/
abbrev Stops (post : Except Ending α → Nat → Prop) (p : Prog α) (drawn : Nat) : Prop :=
  p.Safe memoryAvailable (fun _ _ => True) post drawn

/-- The answers from a stream are such answers. -/
theorem memoryAvailable_supplied (others : (request : Call) → Call.Answer request)
    (draws : Nat → Fin 20000) (request : Call) (drawn : Nat) :
    memoryAvailable request (supplied others draws request drawn).1 drawn =
      some (supplied others draws request drawn).2 := by
  cases request with
  | readString present => exact if_pos rfl
  | _ => rfl

/-- What a program comes to with them satisfies the condition. -/
theorem Stops.feed {post : Except Ending α → Nat → Prop} {p : Prog α} {drawn : Nat}
    (stops : Stops post p drawn) (others : (request : Call) → Call.Answer request)
    (draws : Nat → Fin 20000) :
    post (p.feed (supplied others draws) drawn).1 (p.feed (supplied others draws) drawn).2 := by
  induction p generalizing drawn with
  | done value => exact stops.2
  | halt ending => exact stops.2
  | call request next ih =>
    exact ih _ (stops.2 _ _ (memoryAvailable_supplied others draws request drawn))

/-- A program, and then another one where it ends with a value. -/
theorem Stops.bind {first : Except Ending α → Nat → Prop} {post : Except Ending β → Nat → Prop}
    {p : Prog α} {rest : α → Prog β} {drawn : Nat} (stops : Stops first p drawn)
    (halted : ∀ ending drawn, first (.error ending) drawn → post (.error ending) drawn)
    (later : ∀ value drawn, first (.ok value) drawn → Stops post (rest value) drawn) :
    Stops post (p.bind rest) drawn := by
  apply Program.Safe.bind
  apply Program.Safe.mono stops (fun _ _ => id)
  intro result drawn holds
  cases result with
  | ok value => exact later value drawn holds
  | error ending => exact halted ending drawn holds

/-- A program of which nothing is asked. -/
theorem stops_anyhow (p : Prog α) (drawn : Nat) : Stops (fun _ _ => True) p drawn := by
  induction p generalizing drawn with
  | done value => exact ⟨trivial, trivial⟩
  | halt ending => exact ⟨trivial, trivial⟩
  | call request next ih => exact ⟨trivial, fun answer drawn' _ => ih answer drawn'⟩

/-- The calls that draw no random number. -/
def DrawsNothing : Call → Prop
  | .arc4randomUniform _ => False
  | _ => True

/-- A call that draws nothing keeps the count of what was drawn. -/
theorem memoryAvailable_drawsNothing {request : Call} {answer : Call.Answer request}
    {drawn after : Nat}
    (drawsNothing : DrawsNothing request)
    (taken : memoryAvailable request answer drawn = some after) :
    after = drawn := by
  cases request with
  | arc4randomUniform bound => exact drawsNothing.elim
  | allocate =>
    cases answer with
    | false => cases taken
    | true => exact (Option.some.inj taken).symm
  | readString present =>
    simp only [memoryAvailable, Option.ite_none_right_eq_some, Option.some.injEq] at taken
    exact taken.2.symm
  | _ => exact (Option.some.inj taken).symm

/-- A program that draws no random number, before another one. -/
theorem stops_drawsNothing {post : Except Ending β → Nat → Prop} {p : Prog α} {rest : α → Prog β}
    {drawn : Nat} (uses : p.Uses DrawsNothing) (halted : ∀ ending, post (.error ending) drawn)
    (later : ∀ value, Stops post (rest value) drawn) : Stops post (p.bind rest) drawn := by
  have same : p.Always memoryAvailable (fun now => now = drawn) (fun _ now => now = drawn) drawn :=
    uses.always (fun _ _ _ _ drawsNothing taken before =>
      (memoryAvailable_drawsNothing drawsNothing taken).trans before) rfl
  have drawsNothing : Stops (fun _ now => now = drawn) p drawn :=
    Program.Safe.mono same (fun _ _ _ => trivial) fun _ _ => id
  apply Stops.bind drawsNothing
  · rintro ending now rfl
    exact halted ending
  · rintro value now rfl
    exact later value

/-- A request for memory, before another program. -/
theorem stops_allocate {post : Except Ending β → Nat → Prop} {rest : Bool → Prog β} {drawn : Nat}
    (later : Stops post (rest true) drawn) : Stops post ((ask .allocate).bind rest) drawn := by
  refine ⟨trivial, fun given now taken => ?_⟩
  cases given with
  | false => cases taken
  | true =>
    cases taken
    exact later

/-- A string that is read, before another program. -/
theorem stops_readString {pointer : Option (List α)} {post : Except Ending β → Nat → Prop}
    {rest : List α → Prog β} {drawn : Nat} (missing : pointer = none → post (.error .crash) drawn)
    (later : ∀ text, pointer = some text → Stops post (rest text) drawn) :
    Stops post ((readString pointer).bind rest) drawn := by
  refine ⟨trivial, fun present now taken => ?_⟩
  simp only [memoryAvailable, Option.ite_none_right_eq_some, Option.some.injEq] at taken
  obtain ⟨rfl, rfl⟩ := taken
  cases pointer with
  | none => exact ⟨trivial, missing rfl⟩
  | some text => exact later text rfl

/-- No password can be drawn. -/
def NotDrawable (length : Nat) (set : List WChar) : Prop := ¬ (1 ≤ length ∧ length ≤ 256) ∨ set = []

/-- A password of a length from a set. -/
def DrawnOf (length : Nat) (set : List WChar) (password : List WChar) : Prop :=
  password.length = length ∧ ∀ wide ∈ password, wide ∈ set

variable {opts : AddOptions} {profile : Profile}

/-- As many weights are drawn as are asked for, and drawing them does not stop. -/
theorem drawWeights_stops (left drawn : Nat) :
    Stops (fun result _ => ∃ weights : List Nat, result = .ok weights ∧ weights.length = left)
      (drawWeights left) drawn := by
  induction left generalizing drawn with
  | zero => exact ⟨trivial, [], rfl, rfl⟩
  | succ left ih =>
    refine ⟨trivial, fun number now taken => (ih now).bind ?_ ?_⟩
    · rintro ending _ ⟨_, equal, _⟩
      cases equal
    · rintro others _ ⟨_, equal, length⟩
      cases equal
      exact ⟨trivial, _, rfl, by rw [List.length_cons, length]⟩

/-- The characters that are drawn are as many as asked for and from the set. -/
theorem drawCharacters_stops {set : List WChar} (full : set ≠ []) (left drawn : Nat) :
    Stops (fun result _ => ∃ password, result = .ok password ∧ DrawnOf left set password)
      (drawCharacters set left) drawn := by
  induction left generalizing drawn with
  | zero => exact ⟨trivial, [], rfl, rfl, by simp⟩
  | succ left ih =>
    refine (drawWeights_stops set.length drawn).bind ?_ ?_
    · rintro ending _ ⟨_, equal, _⟩
      cases equal
    · rintro weights now ⟨_, equal, length⟩
      cases equal
      refine (ih now).bind ?_ ?_
      · rintro ending _ ⟨_, equal, _⟩
        cases equal
      · rintro others _ ⟨_, equal, count, inSet⟩
        cases equal
        have bound : heaviest 0 0 0 weights < set.length :=
          heaviest_lt (List.length_pos_of_ne_nil full) (by omega)
        refine ⟨trivial, _, rfl, by rw [List.length_cons, count], ?_⟩
        rw [List.forall_mem_cons]
        refine ⟨?_, inSet⟩
        rw [List.getD_eq_getElem?_getD, List.getElem?_eq_getElem bound, Option.getD_some]
        exact List.getElem_mem bound

/-- Where a call of `profile_generate_password` can stop: at once if no password can be drawn, and
otherwise with a password. -/
def Drawn (opts : AddOptions) (profile : Profile) (before : Nat)
    (result : Except Ending (List WChar))
    (after : Nat) : Prop :=
  match result with
  | .error _ => NotDrawable (characterCountOf opts profile).toNat profile.letters ∧ after = before
  | .ok password => ¬ NotDrawable (characterCountOf opts profile).toNat profile.letters ∧
      DrawnOf (characterCountOf opts profile).toNat profile.letters password

/-- `profile_generate_password` draws a password, or exits where none can be drawn. -/
theorem profileGeneratePassword_stops (opts : AddOptions) (profile : Profile) (drawn : Nat) :
    Stops (Drawn opts profile drawn) (profileGeneratePassword opts profile) drawn := by
  have within := asInt_within (characterCountOf opts profile)
  unfold profileGeneratePassword
  show Stops _ ((require (characterCountOf opts profile + 1 != 0) _).bind _) drawn
  cases room : characterCountOf opts profile + 1 != 0 with
  | false =>
    have wrapped : characterCountOf opts profile + 1 = 0 := by simpa using room
    have last := toNat_of_wrapped wrapped
    exact ⟨trivial, .inl (by omega), rfl⟩
  | true =>
    refine ⟨trivial, fun given now taken => ?_⟩
    cases given with
    | false => cases taken
    | true =>
      cases taken
      show Stops _ (((readString profile.characterSet).bind _).bind _) drawn
      rw [Program.bind_assoc]
      refine stops_readString (fun missing => ?_) fun set given => ?_
      · exact ⟨.inr (by rw [Profile.letters, missing]; rfl), rfl⟩
      obtain rfl : profile.letters = set := by rw [Profile.letters, given, Option.getD_some]
      show Stops _ (Program.bind (if asInt (characterCountOf opts profile) > maxPasswordLength ∨
        asInt (characterCountOf opts profile) < 1 then _ else _) _) drawn
      split
      · rename_i outside
        have refused := mt within.mpr (not_not.mpr outside)
        exact ⟨trivial, .inl refused, rfl⟩
      · rename_i inside
        have allowed := within.mp inside
        have same : (asInt (characterCountOf opts profile)).toNat =
            (characterCountOf opts profile).toNat :=
              (asInt_toNat fun small => inside (.inr small)).1
        show Stops _ (Program.bind ((require (profile.letters.length != 0) _).bind _) _) drawn
        cases nonempty : profile.letters.length != 0 with
        | false =>
          have empty : profile.letters = [] := by simpa using nonempty
          exact ⟨trivial, .inr empty, rfl⟩
        | true =>
          have full : profile.letters ≠ [] := by
            intro empty
            simp [empty] at nonempty
          refine ⟨trivial, fun given now taken => ?_⟩
          cases given with
          | false => cases taken
          | true =>
            cases taken
            show Stops _ (Program.bind ((drawCharacters profile.letters
              (asInt (characterCountOf opts profile)).toNat).bind fun password =>
                .done (some password)) _) drawn
            rw [same, Program.bind_assoc]
            refine (drawCharacters_stops full _ drawn).bind ?_ ?_
            · rintro ending _ ⟨_, equal, _⟩
              cases equal
            · rintro password now ⟨_, equal, drawn⟩
              cases equal
              refine ⟨trivial, ?_, drawn⟩
              rintro (refused | empty)
              · exact refused allowed
              · exact full empty

/-- The passwords that are made where they are asked for: as many, and each of the length in
force. -/
structure Made (opts : AddOptions) (profile : Profile) (number : Nat)
    (passwords : List (List WChar)) : Prop where
  count : passwords.length = number
  drawn : ∀ password ∈ passwords,
    DrawnOf (characterCountOf opts profile).toNat profile.letters password
  able : number ≠ 0 → ¬ NotDrawable (characterCountOf opts profile).toNat profile.letters

/-- No passwords are made of no draws. -/
theorem Made.zero : Made opts profile 0 [] := ⟨rfl, by simp, by simp⟩

/-- One more password. -/
theorem Made.cons {count : Nat} {password : List WChar} {others : List (List WChar)}
    (able : ¬ NotDrawable (characterCountOf opts profile).toNat profile.letters)
    (first : DrawnOf (characterCountOf opts profile).toNat profile.letters password)
    (made : Made opts profile count others) :
    Made opts profile (count + 1) (password :: others) := by
  refine ⟨by rw [List.length_cons, made.count], ?_, fun _ => able⟩
  rw [List.forall_mem_cons]
  exact ⟨first, made.drawn⟩

/-- Where the loop of `profile_fprint_passwords` can stop. -/
def Printed (opts : AddOptions) (profile : Profile) (count before : Nat)
    (result : Except Ending (List (List WChar))) (after : Nat) : Prop :=
  match result with
  | .error _ => (count ≠ 0 ∧ NotDrawable (characterCountOf opts profile).toNat profile.letters) ∧
      after = before
  | .ok passwords => Made opts profile count passwords

/-- The loop of `profile_fprint_passwords` prints passwords that were drawn. -/
theorem printLoop_stops (opts : AddOptions) (profile : Profile) (count drawn : Nat) :
    Stops (Printed opts profile count drawn) (printLoop opts profile count) drawn := by
  induction count generalizing drawn with
  | zero => exact ⟨trivial, Made.zero⟩
  | succ count ih =>
    refine (profileGeneratePassword_stops opts profile drawn).bind ?_ ?_
    · rintro ending now ⟨notDrawable, same⟩
      exact ⟨⟨Nat.succ_ne_zero count, notDrawable⟩, same⟩
    · rintro password now ⟨able, first⟩
      refine (ih now).bind ?_ ?_
      · rintro ending later ⟨⟨_, notDrawable⟩, _⟩
        exact absurd notDrawable able
      · intro others later made
        exact ⟨trivial, made.cons able first⟩

/-- A quiet call draws nothing. -/
theorem quiet_drawsNothing (request : Call) (quiet : request.Quiet) : DrawsNothing request := by
  cases request with
  | arc4randomUniform bound => exact quiet.elim
  | _ => trivial

/-- The profile is found before any random number is drawn. -/
theorem addProfile_stops {post : Except Ending β → Nat → Prop} {rest : Profile → Prog β}
    {drawn : Nat} (halted : ∀ ending, post (.error ending) drawn)
    (later : ∀ profile, profileOf opts = some profile → Stops post (rest profile) drawn) :
    Stops post ((addProfile opts).bind rest) drawn := by
  unfold addProfile
  unfold profileOf at later
  cases named : opts.profileName with
  | none =>
    rw [named] at later
    show Stops post ((profileNew opts _).bind rest) drawn
    rw [profileNew, Program.bind_eq, Program.bind_assoc]
    refine stops_drawsNothing (uses_xmalloc quiet_drawsNothing) halted fun _ => ?_
    exact stops_allocate (stops_allocate (later _ rfl))
  | some name =>
    rw [named] at later
    simp only
    cases found : profileGetFromName opts name with
    | none => exact ⟨trivial, halted _⟩
    | some profile => exact later profile found

/-- Where `mdp generate` can stop: before any random number, or with the passwords that are asked
for. -/
def Generated (opts : AddOptions) (result : Except Ending (List (List WChar))) (after : Nat) :
    Prop :=
  match result with
  | .error _ => after = 0
  | .ok passwords => ∃ profile, profileOf opts = some profile ∧
      Made opts profile (profileGetPasswordCount opts profile).toNat passwords

/-- `mdp generate` prints passwords that were drawn, or exits without any. -/
theorem mdpGenerate_stops (cfg : Config) (opts : AddOptions) :
    Stops (Generated opts) (mdpGenerate cfg opts) 0 := by
  refine stops_drawsNothing (uses_debug quiet_drawsNothing) (fun _ => rfl) fun _ => ?_
  refine addProfile_stops (fun _ => rfl) fun profile named => ?_
  apply Program.Safe.mono (printLoop_stops opts profile _ 0) (fun _ _ => id)
  intro result after printed
  cases result with
  | error ending => exact printed.2
  | ok passwords => exact ⟨profile, named, printed⟩

/-- `mdp add` up to `edit_results`: the memory it has loaded, and the one with the new results. -/
def addedResults (cfg : Config) (L : CLocale) (opts : AddOptions) : Prog (Memory × Memory) := do
  debug cfg "mdp_add()"
  let profile ← addProfile opts
  gpgCheck cfg
  lockSet
  setupSignalsAndAtexit
  let loaded ← loadResultsGpg cfg L .initial
  let added ← profilePasswordsToResults L opts profile loaded
  pure (loaded, added)

/-- `mdp add` stores nothing before it has all the new results. -/
theorem mdpAdd_eq (cfg : Config) (L : CLocale) (opts : AddOptions) :
    mdpAdd cfg L opts = (addedResults cfg L opts).bind fun memory =>
        editResults cfg L memory.2 := by
  simp only [mdpAdd, addedResults, Program.bind_eq, Program.bind_assoc, Program.pure_eq,
    Program.done_bind]

/-- The results that some passwords are added as. -/
def Added (opts : AddOptions) (before after : Memory) (passwords : List (List WChar)) : Prop :=
  after.results.map Result.wcsValue = before.results.map Result.wcsValue ++
    passwords.map fun password => upToNul (entryOf opts password)

/-- The line of a password is its entry. -/
theorem passwordLine_stops (opts : AddOptions) (password : List WChar) (drawn : Nat) :
    Stops (fun result _ => ∀ line, result = .ok line → line = entryOf opts password)
      (passwordLine opts password) drawn := by
  unfold passwordLine entryOf
  cases opts.prefixText with
  | none => exact ⟨trivial, fun line same => (Except.ok.inj same).symm⟩
  | some text =>
    refine ⟨trivial, fun given now _ => ?_⟩
    cases given with
    | false => exact ⟨trivial, fun line same => by cases same⟩
    | true =>
      refine ⟨trivial, fun fine later _ => ?_⟩
      cases fine with
      | false => exact ⟨trivial, fun line same => by cases same⟩
      | true => exact ⟨trivial, fun line same => (Except.ok.inj same).symm⟩

/-- The loop of `profile_passwords_to_results` adds the entries of passwords, and these can be
written. -/
theorem passwordsLoop_stops {L : CLocale} (opts : AddOptions) (profile : Profile) (count : Nat)
    (memory : Memory) (drawn : Nat) :
    Stops (fun result _ => ∀ after, result = .ok after → ∃ passwords,
        Made opts profile count passwords ∧ Added opts memory after passwords ∧
        ∀ password ∈ passwords, (L.encode (upToNul (entryOf opts password))).isSome)
      (passwordsLoop L opts profile count memory) drawn := by
  induction count generalizing memory drawn with
  | zero =>
    refine ⟨trivial, fun after same => ⟨[], Made.zero, ?_, by simp⟩⟩
    cases same
    simp [Added]
  | succ count ih =>
    have error : ∀ {ending : Ending} {Q : Memory → Prop}, ∀ after,
        (.error ending : Except Ending Memory) = .ok after → Q after := fun _ same => by cases same
    refine (profileGeneratePassword_stops opts profile drawn).bind (fun _ _ _ => error) ?_
    rintro password now ⟨able, first⟩
    refine (passwordLine_stops opts password now).bind (fun _ _ _ => error) fun line later entry =>
      ?_
    refine stops_drawsNothing (uses_xmalloc quiet_drawsNothing) (fun _ => error) fun _ => ?_
    cases made : resultNew L (upToNul line) with
    | none => exact ⟨trivial, error⟩
    | some result =>
      refine stops_drawsNothing (uses_xmalloc quiet_drawsNothing) (fun _ => error) fun _ => ?_
      refine stops_drawsNothing (uses_arrayAdd quiet_drawsNothing) (fun _ => error) fun _ => ?_
      apply Program.Safe.mono (ih _ later) (fun _ _ => id)
      intro outcome last holds after same
      obtain ⟨others, all, added, written⟩ := holds after same
      unfold resultNew at made
      obtain ⟨mbs, encoded, rfl⟩ := Option.map_eq_some_iff.mp made
      refine ⟨password :: others, all.cons able first, ?_, ?_⟩
      · rw [Added, added, List.map_append, List.map_cons, List.map_nil, List.append_assoc,
          entry line rfl, List.map_cons, List.singleton_append]
      · rw [List.forall_mem_cons, ← entry line rfl]
        exact ⟨Option.isSome_of_eq_some encoded, written⟩

/-- Where `mdp add` can stop before it edits: anyhow, or with the passwords that are asked for
behind what was loaded. -/
theorem addedResults_stops (cfg : Config) (L : CLocale) (opts : AddOptions) :
    Stops (fun result _ => ∀ loaded added, result = .ok (loaded, added) → ∃ profile passwords,
        profileOf opts = some profile ∧
        Made opts profile (profileGetPasswordCount opts profile).toNat passwords ∧
        Added opts loaded added passwords ∧
        ∀ password ∈ passwords, (L.encode (upToNul (entryOf opts password))).isSome)
      (addedResults cfg L opts) 0 := by
  have error : ∀ {ending : Ending} {Q : Memory → Memory → Prop}, ∀ loaded added,
      (.error ending : Except Ending (Memory × Memory)) = .ok (loaded, added) → Q loaded added :=
    fun _ _ same => by cases same
  refine stops_drawsNothing (uses_debug quiet_drawsNothing) (fun _ => error) fun _ => ?_
  refine addProfile_stops (fun _ => error) fun profile named => ?_
  refine (stops_anyhow _ _).bind (fun _ _ _ => error) fun _ _ _ => ?_
  refine (stops_anyhow _ _).bind (fun _ _ _ => error) fun _ _ _ => ?_
  refine (stops_anyhow _ _).bind (fun _ _ _ => error) fun _ _ _ => ?_
  refine (stops_anyhow _ _).bind (fun _ _ _ => error) fun loaded now _ => ?_
  refine (passwordsLoop_stops opts profile _ loaded now).bind (fun _ _ _ => error) ?_
  intro added last holds
  refine ⟨trivial, fun loaded' added' same => ?_⟩
  cases same
  obtain ⟨passwords, made, behind, written⟩ := holds added rfl
  exact ⟨profile, passwords, named, made, behind, written⟩

/-- Without a key `mdp add` does not come to its edit. -/
theorem addedResults_keyless {cfg : Config} (missing : cfg.gpgKeyId = none) (L : CLocale)
    (opts : AddOptions) :
    Stops (fun result _ => ∀ memory, result ≠ .ok memory) (addedResults cfg L opts) 0 := by
  have error : ∀ {ending : Ending}, ∀ memory : Memory × Memory, Except.error ending ≠ .ok memory :=
    fun _ same => by cases same
  refine stops_drawsNothing (uses_debug quiet_drawsNothing) (fun _ => error) fun _ => ?_
  refine addProfile_stops (fun _ => error) fun profile _ => ?_
  have checked : ∀ drawn, Stops (fun result _ => ∀ value, result ≠ .ok value)
      (gpgCheck cfg) drawn := by
    intro drawn
    unfold gpgCheck
    rw [missing]
    refine stops_drawsNothing (uses_xasprintf quiet_drawsNothing) (fun _ => by simp) fun _ => ?_
    refine ⟨trivial, fun version now _ => ?_⟩
    show Stops _ ((require (version == 0) _).bind _) now
    refine stops_drawsNothing uses_require (fun _ => by simp) fun _ => ?_
    refine stops_drawsNothing (uses_xasprintf quiet_drawsNothing) (fun _ => by simp) fun _ => ?_
    refine ⟨trivial, fun keys later _ => ?_⟩
    show Stops _ ((require (keys == 0) _).bind _) later
    refine stops_drawsNothing uses_require (fun _ => by simp) fun _ => ?_
    exact ⟨trivial, by simp⟩
  refine (checked 0).bind (fun _ _ _ => error) fun value now none => absurd rfl (none value)

/-- Answers with success where there are no files. -/
def succeedingCalls (request : Call) : Call.Answer request := succeeding request (sampleState false)

variable {draws : Nat → Fin 20000} {cfg : Config} {L : CLocale}

/-- A message takes none of the random numbers. -/
theorem debug_feed (fmt : String) (position : Nat) :
    (debug cfg fmt).feed (supplied succeedingCalls draws) position = (.ok (), position) := by
  unfold debug
  cases cfg.debugEnabled <;> rfl

/-- Looking up a profile takes none of the random numbers. -/
theorem addProfile_feed (named : profileOf opts = some profile) (position : Nat) :
    (addProfile opts).feed (supplied succeedingCalls draws) position = (.ok profile, position) := by
  unfold profileOf at named
  unfold addProfile
  cases chosen : opts.profileName with
  | none =>
    rw [chosen] at named
    cases named
    rfl
  | some name =>
    rw [chosen] at named
    simp only at named
    simp only [named]
    rfl

/-- A run of `mdp generate` makes the passwords that can be drawn. -/
theorem exists_generated (cfg : Config) (named : profileOf opts = some profile)
    (able : (profileGetPasswordCount opts profile).toNat ≠ 0 →
      ¬ NotDrawable (characterCountOf opts profile).toNat profile.letters) :
    ∃ passwords, ((mdpGenerate cfg opts).feed (supplied succeedingCalls fun _ => 0) 0).1 =
      .ok passwords ∧
      Made opts profile (profileGetPasswordCount opts profile).toNat passwords := by
  have printed := (printLoop_stops opts profile (profileGetPasswordCount opts profile).toNat 0).feed
    succeedingCalls fun _ => 0
  have ran : (mdpGenerate cfg opts).feed (supplied succeedingCalls fun _ => 0) 0 =
      (printLoop opts profile (profileGetPasswordCount opts profile).toNat).feed
        (supplied succeedingCalls fun _ => 0) 0 := by
    unfold mdpGenerate
    rw [Program.bind_eq, Program.feed_bind (debug_feed _ 0), Program.bind_eq,
      Program.feed_bind (addProfile_feed named 0)]
    rfl
  rw [ran]
  cases outcome : ((printLoop opts profile (profileGetPasswordCount opts profile).toNat).feed
      (supplied succeedingCalls fun _ => 0) 0).1 with
  | error ending =>
    rw [outcome] at printed
    exact absurd printed.1.2 (able printed.1.1)
  | ok passwords =>
    rw [outcome] at printed
    exact ⟨passwords, rfl, printed⟩

/-- Whether the locale can write an entry with some character of the set. -/
def Writable (L : CLocale) (opts : AddOptions) (set : List WChar) : Prop :=
  ∃ wide ∈ set, (L.encode (entryOf opts [wide])).isSome

/-- A stream whose rounds all choose the same position. -/
def choosing (k index : Nat) (position : Nat) : Fin 20000 :=
  if position % k = index then ⟨1, by decide⟩ else ⟨0, by decide⟩

/-- A stream that always chooses one position draws the character there. -/
theorem roundCharacter_choosing {set : List WChar} {index : Nat} (inside : index < set.length)
    {position : Nat} (aligned : set.length ∣ position) :
    roundCharacter (choosing set.length index) set position = set[index] := by
  have full : set ≠ [] := by
    rintro rfl
    exact absurd inside (Nat.not_lt_zero index)
  have weight : ∀ j : Fin set.length,
    roundWeights (choosing set.length index) set.length position j =
      if j.val = index then 2 else 1 := by
    intro j
    obtain ⟨rounds, rfl⟩ := aligned
    unfold roundWeights choosing
    rw [Nat.mul_add_mod, Nat.mod_eq_of_lt j.isLt]
    split <;> rfl
  obtain ⟨j, selected, chosen⟩ := roundCharacter_eq full (choosing set.length index) position
  have here : IsFirstMax (roundWeights (choosing set.length index) set.length position)
      ⟨index, inside⟩ := by
    refine ⟨fun i => ?_, fun i before => ?_⟩
    · rw [weight, weight, if_pos rfl]
      split <;> omega
    · have other : i.val ≠ index := Nat.ne_of_lt before
      rw [weight, weight, if_pos rfl, if_neg other]
      exact Nat.lt_succ_self 1
  have same := selected.unique here
  subst same
  exact chosen

/-- Such a stream draws a password of one character, and its next round is aligned again. -/
theorem profileGeneratePassword_choosing {index position : Nat} (opts : AddOptions)
    (profile : Profile)
    (inside : index < profile.letters.length) (aligned : profile.letters.length ∣ position)
    (able : ¬ NotDrawable (characterCountOf opts profile).toNat profile.letters) :
    ∃ position', profile.letters.length ∣ position' ∧
      (profileGeneratePassword opts profile).feed
        (supplied succeedingCalls (choosing profile.letters.length index)) position =
      (.ok (List.replicate (characterCountOf opts profile).toNat profile.letters[index]),
        position') := by
  have full : profile.letters ≠ [] := fun empty => able (.inr empty)
  have fine : ¬ Refused (characterCountOf opts profile) := by
    rw [refused_iff, not_not]
    by_contra refused
    exact able (.inl refused)
  have same : roundCharacters (choosing profile.letters.length index) profile.letters position
      (characterCountOf opts profile).toNat =
      List.replicate (characterCountOf opts profile).toNat profile.letters[index] := by
    rw [List.eq_replicate_iff]
    refine ⟨List.length_ofFn, fun wide member => ?_⟩
    obtain ⟨i, round⟩ := List.mem_ofFn.mp member
    rw [← round]
    exact roundCharacter_choosing inside (Nat.dvd_add aligned (Nat.dvd_mul_left _ _))
  refine ⟨position + (characterCountOf opts profile).toNat * profile.letters.length,
    Nat.dvd_add aligned (Nat.dvd_mul_left _ _), ?_⟩
  rw [← same]
  exact (profileGeneratePassword_feed opts profile full position).2 fine

/-- The entry of such a password can be written if the one of its character can. -/
theorem encode_replicate {wide : WChar} (length : Nat)
    (writable : (L.encode (entryOf opts [wide])).isSome) :
    ∃ result, resultNew L (upToNul (entryOf opts (List.replicate length wide))) = some result := by
  rw [CLocale.encode_isSome] at writable
  have all : ∀ other ∈ upToNul (entryOf opts (List.replicate length wide)),
      (L.encodeChar other).isSome := by
    intro other member
    apply writable
    have inside := mem_of_mem_upToNul member
    unfold entryOf at inside ⊢
    cases given : opts.prefixText with
    | none =>
      rw [given] at inside
      exact List.mem_singleton.mpr (List.eq_of_mem_replicate inside)
    | some text =>
      rw [given] at inside
      simp only [List.mem_append, List.mem_cons, List.mem_replicate, List.not_mem_nil, or_false]
        at inside ⊢
      rcases inside with held | tab | ⟨_, same⟩
      · exact .inl held
      · exact .inr (.inl tab)
      · exact .inr (.inr same)
  obtain ⟨mbs, written⟩ := Option.isSome_iff_exists.mp (L.encode_isSome.mpr all)
  exact ⟨_, by rw [resultNew, wcsDuplicateAsMbs, written, Option.map_some]⟩

/-- The loop of `profile_passwords_to_results` comes to its end with such a stream. -/
theorem exists_looped {index : Nat} (inside : index < profile.letters.length)
    (able : ¬ NotDrawable (characterCountOf opts profile).toNat profile.letters)
    (writable : (L.encode (entryOf opts [profile.letters[index]])).isSome) (count : Nat)
    (memory : Memory) (room : memory.results.length + count ≤ uintMax) {position : Nat}
    (aligned : profile.letters.length ∣ position) :
    ∃ after position', (passwordsLoop L opts profile count memory).feed
      (supplied succeedingCalls (choosing profile.letters.length index)) position =
          (.ok after, position') := by
  induction count generalizing memory position with
  | zero => exact ⟨memory, position, rfl⟩
  | succ count ih =>
    obtain ⟨now, again, drawn⟩ := profileGeneratePassword_choosing opts profile inside aligned able
    obtain ⟨result, made⟩ := encode_replicate (characterCountOf opts profile).toNat writable
    have line : ∀ password position, (passwordLine opts password).feed
        (supplied succeedingCalls (choosing profile.letters.length index)) position =
          (.ok (entryOf opts password), position) := by
      intro password position
      unfold passwordLine entryOf
      cases opts.prefixText <;> rfl
    have grows : (decide (memory.results.length < uintMax)) = true := by
      rw [decide_eq_true_eq]
      omega
    rw [passwordsLoop, Program.bind_eq, Program.feed_bind drawn, Program.bind_eq,
      Program.feed_bind (line _ now)]
    simp only [made]
    show ∃ after position', Program.feed _ ((arrayAdd memory.results.length).bind fun _ => _) now =
      _
    rw [arrayAdd, grows]
    exact ih { memory with results := memory.results ++ [result] } (by
      simp only [List.length_append, List.length_singleton]
      omega) again

/-- A run of `mdp add` comes to its edit with the passwords that can be drawn and written. -/
theorem exists_added (cfg : Config) (named : profileOf opts = some profile)
    (key : cfg.gpgKeyId.isSome) (able : (profileGetPasswordCount opts profile).toNat ≠ 0 →
      ¬ NotDrawable (characterCountOf opts profile).toNat profile.letters ∧
        Writable L opts profile.letters) :
    ∃ draws loaded added, ((addedResults cfg L opts).feed (supplied succeedingCalls draws) 0).1 =
      .ok (loaded, added) := by
  have started : ∀ draws, (addedResults cfg L opts).feed (supplied succeedingCalls draws) 0 =
      ((profilePasswordsToResults L opts profile .initial).bind fun added =>
        .done (Memory.initial, added)).feed (supplied succeedingCalls draws) 0 := by
    intro draws
    have checked : (gpgCheck cfg).feed (supplied succeedingCalls draws) 0 = (.ok (), 0) := by
      have there : (require cfg.gpgKeyId.isSome "no gpg_key_id (use -k or ~/.mdp/config).").feed
          (supplied succeedingCalls draws) 0 = (.ok (), 0) := by
        rw [key]
        rfl
      exact there
    have loaded : (loadResultsGpg cfg L .initial).feed (supplied succeedingCalls draws) 0 =
        (.ok .initial, 0) := by
      have opened : (gpgOpen cfg).feed (supplied succeedingCalls draws) 0 = (.ok none, 0) := by
        show ((debug cfg _).bind fun _ => .done none).feed _ 0 = _
        rw [Program.feed_bind (debug_feed _ 0)]
        rfl
      unfold loadResultsGpg
      rw [Program.bind_eq, Program.feed_bind opened]
      rfl
    unfold addedResults
    rw [Program.bind_eq, Program.feed_bind (debug_feed _ 0), Program.bind_eq,
      Program.feed_bind (addProfile_feed named 0), Program.bind_eq, Program.feed_bind checked]
    show Program.feed _ ((loadResultsGpg cfg L .initial).bind _) 0 = _
    rw [Program.feed_bind loaded]
    rfl
  by_cases zero : (profileGetPasswordCount opts profile).toNat = 0
  · refine ⟨fun _ => 0, .initial, .initial, ?_⟩
    rw [started, profilePasswordsToResults, zero]
    rfl
  · obtain ⟨fertile, wide, member, writable⟩ := able zero
    obtain ⟨index, inside, same⟩ := List.mem_iff_getElem.mp member
    have bound := (profileGetPasswordCount opts profile).toNat_lt
    rw [← same] at writable
    obtain ⟨added, position, looped⟩ := exists_looped inside fertile writable
      (profileGetPasswordCount opts profile).toNat .initial
      (by show 0 + (profileGetPasswordCount opts
        profile).toNat ≤ 4294967295; omega) (Nat.dvd_zero _)
    refine ⟨choosing profile.letters.length index, .initial, added, ?_⟩
    rw [started, profilePasswordsToResults, Program.feed_bind looped]
    rfl

end Mdp.Making
