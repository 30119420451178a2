import Mdp.Calls
import Mdp.Conformance
import Mdp.Scenario
import Mdp.Verif.Sections

/-!
# The recipient

Which key `gpg_encrypt` names. `config_set_defaults` lets the key of the command line go before the
one of the configuration, but `main` parses the options of the command after it has called it. So
the key is always the one of the configuration, and `-k` is respected only where it names the same
key.
-/

namespace Mdp.Recipient

open Mdp Interaction CStrings Sections

/-- The argument of the last `-k`. -/
def lastKey (found : List OptionEvent) : Option Bytes :=
  (found.filterMap fun event => match event with
    | .given 0x6b optarg => some optarg
    | _ => none).getLast?

/-- The `optstring` of a command. -/
def optionsOf : Command.Edits → Bytes
  | .edit => ascii "hk:"
  | .add _ => ascii "hp:l:n:k:"

/-- The key of the command line. -/
def wantedKey (around : Surroundings) (argv : List Bytes) (command : Command.Edits) :
    Option Bytes :=
  match cmdParseCore argv with
  | .ok (_, _ :: words) => lastKey (getopt around.permute (optionsOf command) none words).1
  | _ => none

/-- The key of the configuration. -/
def configuredKey (around : Surroundings) : Option Bytes :=
  lastValue some (ascii "gpg_key_id") (leading (fileDirectives around.config))

/-- The top part sets the key to the value of its `set gpg_key_id` line. -/
theorem gpgKeyId_top {L : CLocale} {cfg : Settings} {asked : List Directive} {final : ConfigState}
    (accepted : runAll L ⟨cfg, [], none⟩ asked = some final) :
    final.settings.gpgKeyId = (lastValue some (ascii "gpg_key_id") (leading asked)).or
        cfg.gpgKeyId := by
  refine top_induction (motive := fun cfg lines left =>
    left.gpgKeyId = (lastValue some (ascii "gpg_key_id") lines).or cfg.gpgKeyId) ?_ ?_ ?_ accepted
  · intro cfg
    simp [lastValue]
  · intro cfg rest left same
    rw [lastValue_cons_of_none some rfl]
    exact same
  · intro name value cfg next rest left changed same
    by_cases named : name = ascii "gpg_key_id"
    · subst named
      have assigned : next.gpgKeyId = value := by
        cases changed with
        | gpgKeyId _ there => exact there.symm
        | _ named => exact absurd named (by decide)
      rw [same, assigned, lastValue_cons, given, if_pos rfl]
      cases changed with
      | gpgKeyId _ there _ first =>
        rw [there, first]
        simp
      | _ named => exact absurd named (by decide)
    · have kept : next.gpgKeyId = cfg.gpgKeyId := by
        cases changed with
        | gpgKeyId here => exact absurd here named
        | _ => rfl
      rw [same, kept, lastValue_cons_of_none some (given_of_ne named value)]

/-- The options of `cmd_parse_core` name no key. -/
theorem coreOption_gpgKeyId {cmd next : CommandVariables} {event : OptionEvent}
    (accepted : coreOption cmd event = .ok next) : next.gpgKeyId = cmd.gpgKeyId := by
  unfold coreOption at accepted
  split at accepted <;> cases accepted <;> rfl

/-- The options in front of the command name no key. -/
theorem optionLoop_gpgKeyId {cmd final : CommandVariables} {found : List OptionEvent}
    (accepted : optionLoop coreOption cmd found = .ok final) : final.gpgKeyId = cmd.gpgKeyId := by
  induction found generalizing cmd with
  | nil =>
    cases accepted
    rfl
  | cons event rest ih =>
    simp only [optionLoop] at accepted
    cases next : coreOption cmd event with
    | error ending => simp [next] at accepted
    | ok cmd' =>
      rw [ih (by simpa [next] using accepted)]
      exact coreOption_gpgKeyId next

/-- The words in front of the command name no key. -/
theorem cmdParseCore_gpgKeyId {argv words : List Bytes} {cmd : CommandVariables}
    (parsed : cmdParseCore argv = .ok (cmd, words)) : cmd.gpgKeyId = none := by
  simp only [cmdParseCore] at parsed
  split at parsed
  · cases parsed
  · rename_i cmd' ran
    split at parsed
    · cases parsed
    · cases parsed
      exact optionLoop_gpgKeyId ran

/-- A command that edits uses the key of the configuration. -/
theorem launch_gpgKeyId {L : CLocale} {around : Surroundings} {argv : List Bytes} {cfg : Config}
    {started : Started} (launched : launch L around argv = .ok (cfg, started)) :
    cfg.gpgKeyId = configuredKey around := by
  obtain ⟨cmd, _, _, state, parsed, read, _, rfl⟩ := of_launch launched
  obtain ⟨before, accepted, rfl⟩ := of_readConfig read
  show cmd.gpgKeyId.or before.settings.gpgKeyId = _
  have ran : runAll L (.initial around.editor) (fileDirectives around.config) = some before :=
    runAll_of_configRead accepted
  rw [cmdParseCore_gpgKeyId parsed, Option.none_or, gpgKeyId_top ran]
  exact Option.or_none

/-- A call that encrypts names this key. -/
def Names (key : Option Bytes) (request : Call) : Prop :=
  ∀ gpgPath keyId file, request = .system (.encrypt gpgPath keyId file) → keyId = key

variable {cfg : Config} {L : CLocale} {command : Command.Edits} {key : Option Bytes}

/-- A run of `gpg_encrypt` comes to the gpg command. -/
theorem exists_encrypt (cfg : Config) : ∃ s t gpgPath file next,
    Reaches effect (gpgEncrypt cfg (.tmp 0)) s
      (.call (.system (.encrypt gpgPath cfg.gpgKeyId file)) next) t := by
  obtain ⟨debugEnabled, backup, editor, gpgPath, gpgKeyId, gpgTimeout⟩ := cfg
  cases debugEnabled with
  | false =>
    have played : play effect succeeding 1
        (gpgEncrypt ⟨false, backup, editor, gpgPath, gpgKeyId, gpgTimeout⟩ (.tmp 0))
        (sampleState true) =
        some (.call (.system (.encrypt gpgPath gpgKeyId (.tmp 0))) _, sampleState true) := rfl
    exact ⟨_, _, _, _, _, play_reaches played⟩
  | true =>
    have played : play effect succeeding 5
        (gpgEncrypt ⟨true, backup, editor, gpgPath, gpgKeyId, gpgTimeout⟩ (.tmp 0))
        (sampleState true) =
        some (.call (.system (.encrypt gpgPath gpgKeyId (.tmp 0))) _, sampleState true) := rfl
    exact ⟨_, _, _, _, _, play_reaches played⟩

/-- The exit of `gpg_check` without a key. -/
def missingKey : Ending := .exit exitFailure "no gpg_key_id (use -k or ~/.mdp/config)."

section Quiet

variable {G α β : Type} {P : Protocol posix G} {stage : G}

/-- Neutral calls are allowed at a stage and stay there. -/
def Quiet (P : Protocol posix G) (stage : G) : Prop :=
  ∀ request : Call, request.Neutral → P.allowed stage request ∧
    ∀ answer, P.advance stage request answer = stage

/-- A neutral call, and then what follows it. -/
theorem follows_call {Q : Except Ending β → G → Prop} (quiet : Quiet P stage) (request : Call)
    (neutral : request.Neutral) {rest : Call.Answer request → Prog β}
    (next : ∀ answer, (rest answer).Follows P Q stage) :
    ((ask request).bind rest).Follows P Q stage := by
  refine ⟨(quiet request neutral).1, fun answer => ?_⟩
  rw [(quiet request neutral).2 answer]
  exact next answer

/-- A test, and then what follows it. -/
theorem follows_require {Q : Except Ending β → G → Prop} {passed : Bool} {message : String}
    {rest : Unit → Prog β} (fails : Q (.error (.exit exitFailure message)) stage)
    (next : passed = true → (rest ()).Follows P Q stage) :
    ((require passed message).bind rest).Follows P Q stage := by
  cases passed with
  | true => exact next rfl
  | false => exact fails

/-- `xasprintf` in a quiet protocol. -/
theorem follows_xasprintf {Q : Except Ending β → G → Prop} (quiet : Quiet P stage)
    {rest : Unit → Prog β} (fails : Q (.error (.exit exitFailure "xvasprintf failed")) stage)
    (next : (rest ()).Follows P Q stage) : (xasprintf.bind rest).Follows P Q stage :=
  follows_call quiet .allocate trivial fun _ => follows_require fails fun _ => next

/-- `debug`, and then what follows it. -/
theorem follows_debug {Q : Except Ending β → G → Prop} (quiet : Quiet P stage) {fmt : String}
    {rest : Unit → Prog β} (fails : ∀ message, Q (.error (.exit exitFailure message)) stage)
    (next : (rest ()).Follows P Q stage) : ((debug cfg fmt).bind rest).Follows P Q stage := by
  unfold debug
  cases cfg.debugEnabled with
  | false => exact next
  | true =>
    refine follows_call quiet .getpid trivial fun pid => ?_
    refine follows_call quiet .strftime trivial fun tbuf => ?_
    cases tbuf with
    | none => exact fails _
    | some tbuf =>
      have other : "[" ++ tbuf ++ "] [pid:" ++ toString pid ++ "] " ++ fmt ≠ noChanges := by
        simp only [String.append_assoc]
        exact Conforms.debug_text_ne _
      refine follows_call quiet .allocate trivial fun room => ?_
      cases room with
      | false => exact fails _
      | true => exact follows_call quiet (.print _) other fun _ => next

/-- `gpg_check` ends with the exit for a missing key exactly if there is none. -/
theorem gpgCheck_follows {Q : Except Ending Unit → G → Prop} (quiet : Quiet P stage)
    (fails : ∀ message, .exit exitFailure message ≠ missingKey →
      Q (.error (.exit exitFailure message)) stage)
    (found : cfg.gpgKeyId.isSome = true → Q (.ok ()) stage)
    (missing : cfg.gpgKeyId = none → Q (.error missingKey) stage) :
    (gpgCheck cfg).Follows P Q stage := by
  refine follows_xasprintf quiet (fails _ (by decide)) ?_
  refine follows_call quiet (.system (.version cfg.gpgPath)) trivial fun _ => ?_
  refine follows_require
    (fails _ (by decide)) fun _ => follows_xasprintf quiet (fails _ (by decide)) ?_
  refine follows_call quiet (.system (.listSecretKeys cfg.gpgPath)) trivial fun _ => ?_
  refine follows_require (fails _ (by decide)) fun _ => ?_
  cases there : cfg.gpgKeyId with
  | none => exact missing there
  | some key => exact found (by rw [there]; rfl)

end Quiet

/-- The protocol of programs of which nothing is asked. -/
def anything : Protocol posix Unit := ⟨fun _ _ => True, fun _ _ _ => ()⟩

/-- With a key the check does not end like that. -/
theorem gpgCheck_passes (there : cfg.gpgKeyId.isSome) {q : Prog Unit} {s t : State}
    (run : Reaches effect (gpgCheck cfg) s q t) : q ≠ .halt missingKey := by
  have quiet : Quiet anything () := fun _ _ => ⟨trivial, fun _ => rfl⟩
  have follows : (gpgCheck cfg).Follows anything (fun result _ => result ≠ .error missingKey)
      () := by
    apply gpgCheck_follows quiet
    · intro message other same
      exact other (Except.error.inj same)
    · simp
    · intro none
      rw [none] at there
      contradiction
  obtain ⟨_, left, _⟩ := Program.Follows.reaches (J := fun _ _ => True)
    (fun _ _ _ _ _ _ _ _ => trivial) run follows trivial
  rintro rfl
  exact left rfl

/-- Without one there is a run in which it does. -/
theorem exists_missingKey (missing : cfg.gpgKeyId = none) : ∃ s t,
    Reaches effect (gpgCheck cfg) s (.halt missingKey) t := by
  obtain ⟨debugEnabled, backup, editor, gpgPath, gpgKeyId, gpgTimeout⟩ := cfg
  cases missing
  have played : play effect succeeding 5
      (gpgCheck ⟨debugEnabled, backup, editor, gpgPath, none, gpgTimeout⟩) (sampleState true) =
      some (.halt missingKey, sampleState true) := rfl
  exact ⟨_, _, play_reaches played⟩

/-- The protocol of a process that does nothing but exit: neutral calls, and the end. What a
registered handler would do is left open. -/
def refusing : Protocol posix Bool where
  allowed stage request := stage = true ∨ request.Neutral ∨ request = .nextHandler
  advance
    | stage, .nextHandler, registered => stage || registered
    | stage, _, _ => stage

/-- This protocol is quiet. -/
theorem refusing_quiet : Quiet refusing false := by
  intro request neutral
  refine ⟨.inr (.inl neutral), fun answer => ?_⟩
  cases request <;> first | rfl | exact neutral.elim

/-- The results of such a process, unless a handler was registered. -/
def Refused {α : Type} (result : Except Ending α) (stage : Bool) : Prop :=
  stage = true ∨ ∃ message, result = .error (.exit exitFailure message)

/-- Nothing is asked of a program once a handler runs. -/
theorem follows_true {α : Type} (p : Prog α) : p.Follows refusing Refused true := by
  induction p with
  | done value => exact .inl rfl
  | halt ending => exact .inl rfl
  | call request next ih =>
    refine ⟨.inl rfl, fun answer => ?_⟩
    have stays : refusing.advance true request answer = true := by
      cases request <;> rfl
    rw [stays]
    exact ih answer

/-- Without a key `gpg_check` does not return. -/
theorem gpgCheck_refuses (missing : cfg.gpgKeyId = none) {α : Type} (rest : Unit → Prog α) :
    ((gpgCheck cfg).bind rest).Follows refusing Refused false := by
  have follows : (gpgCheck cfg).Follows refusing
      (fun result stage => stage = false ∧ ∃ message, result = .error (.exit exitFailure message))
      false := by
    apply gpgCheck_follows refusing_quiet
    · intro message _
      exact ⟨rfl, message, rfl⟩
    · intro there
      rw [missing] at there
      contradiction
    · intro _
      exact ⟨rfl, _, rfl⟩
  refine follows.bind ?_ ?_
  · rintro value stage ⟨_, message, same⟩
    cases same
  · rintro ending stage ⟨_, message, same⟩
    cases same
    exact .inr ⟨message, rfl⟩

/-- Without a key the commands end with the error for it. -/
theorem runCommand_refuses (missing : cfg.gpgKeyId = none) {α : Type} (rest : Unit → Prog α) :
    ((runCommand cfg L command).bind rest).Follows refusing Refused false := by
  have fails : ∀ message, Refused (.error (.exit exitFailure message) : Except Ending α) false :=
    fun message => .inr ⟨message, rfl⟩
  cases command with
  | edit =>
    unfold runCommand mdpEdit
    simp only [Program.bind_eq, Program.bind_assoc]
    exact follows_debug refusing_quiet fails (gpgCheck_refuses missing _)
  | add opts =>
    unfold runCommand mdpAdd
    simp only [Program.bind_eq, Program.bind_assoc]
    refine follows_debug refusing_quiet fails ?_
    unfold addProfile
    split
    · refine follows_call refusing_quiet .allocate trivial fun room => ?_
      cases room with
      | false => exact fails _
      | true =>
        refine follows_call refusing_quiet .allocate trivial fun _ => ?_
        refine follows_call refusing_quiet .allocate trivial fun _ => ?_
        exact gpgCheck_refuses missing _
    · split
      · exact fails _
      · exact gpgCheck_refuses missing _

/-- Without a key a process only exits. -/
theorem process_refuses (missing : cfg.gpgKeyId = none) :
    (process cfg L command).Follows refusing Refused false := by
  have follows : (mainFrom cfg L command).Follows refusing Refused false :=
    runCommand_refuses missing _
  refine follows.onHalt ?_ ?_
  · intro ending stage refused
    cases stage with
    | true => exact follows_true _
    | false =>
      rcases refused with registered | ⟨message, same⟩
      · cases registered
      · cases same
        refine ⟨.inr (.inr rfl), fun registered => ?_⟩
        cases registered with
        | true => exact follows_true _
        | false => exact .inr ⟨message, rfl⟩
  · intro value stage refused
    rcases refused with registered | ⟨message, same⟩
    · exact .inl registered
    · cases same

/-- So it leaves all files as they are, and its only ends are exits with an error. -/
theorem process_without_key (missing : cfg.gpgKeyId = none) {q : Prog Unit} {s t : State}
    (fresh : s.globals = .initial) (run : Reaches effect (process cfg L command) s q t) :
    t.files = s.files ∧ (∀ value, q ≠ .done value) ∧
      ∀ ending, q = .halt ending → ∃ message, ending = .exit exitFailure message := by
  have keeps : ∀ stage request (answer : Call.Answer request) u u',
      refusing.allowed stage request → effect request answer u = some u' →
      stage = false ∧ u.files = s.files ∧ u.globals.atexit = false →
      refusing.advance stage request answer = false ∧ u'.files = s.files ∧
        u'.globals.atexit = false := by
    rintro stage request answer u u' allowed taken ⟨rfl, files, free⟩
    rcases allowed with registered | neutral | rfl
    · cases registered
    · rw [(refusing_quiet request neutral).2 answer, effect_neutral neutral taken]
      exact ⟨rfl, files, free⟩
    · obtain ⟨same, rfl⟩ := effect_nextHandler taken
      refine ⟨?_, files, rfl⟩
      show (false || answer) = false
      rw [same, free]
      rfl
  obtain ⟨stage, left, rfl, files, _⟩ := Program.Follows.reaches keeps run (process_refuses missing)
    ⟨rfl, rfl, by rw [fresh]; rfl⟩
  refine ⟨files, ?_, ?_⟩
  · rintro value rfl
    rcases left with registered | ⟨message, same⟩
    · cases registered
    · cases same
  · rintro ending rfl
    rcases left with registered | ⟨message, same⟩
    · cases registered
    · exact ⟨message, Except.error.inj same⟩

/-- A key is respected if the check for it never fails and every gpg command of `gpg_encrypt` names
it; that there is none is respected if the process exits with an error and touches no file, so no
lock either. -/
def Respects (cfg : Config) (L : CLocale) (command : Command.Edits) : Option Bytes → Prop
  | some key =>
    (∀ s q t, Reaches effect (gpgCheck cfg) s q t → q ≠ .halt missingKey) ∧
      ∀ path s t request next, Reaches effect (gpgEncrypt cfg path) s (.call request next) t →
        Names (some key) request
  | none =>
    ∀ s q t, s.globals = .initial → Reaches effect (process cfg L command) s q t →
      t.files = s.files ∧ (∀ value, q ≠ .done value) ∧
        ∀ ending, q = .halt ending → ∃ message, ending = .exit exitFailure message

/-- The key of the configuration is respected. -/
theorem respects_gpgKeyId (cfg : Config) (L : CLocale) (command : Command.Edits) :
    Respects cfg L command cfg.gpgKeyId := by
  cases there : cfg.gpgKeyId with
  | none => exact fun s q t fresh run => process_without_key there fresh run
  | some key =>
    refine ⟨fun s q t run => gpgCheck_passes (by rw [there]; rfl) run, ?_⟩
    intro path s t request next run
    have own := (uses_gpgEncrypt.reaches run).1
    rintro gpgPath keyId file rfl
    rw [← there]
    exact own

/-- No other key is. -/
theorem eq_of_respects {key : Bytes} (respected : Respects cfg L command (some key)) :
    cfg.gpgKeyId = some key := by
  obtain ⟨passes, names⟩ := respected
  cases there : cfg.gpgKeyId with
  | none =>
    obtain ⟨s, t, run⟩ := exists_missingKey there
    exact absurd rfl (passes s _ t run)
  | some used =>
    obtain ⟨s, t, gpgPath, file, next, run⟩ := exists_encrypt cfg
    rw [← there]
    exact names _ s t _ next run gpgPath _ file rfl

/-- A configuration with a key. -/
def keyed : Surroundings := ⟨false, none, ascii "/h/.mdp", some (ascii "set gpg_key_id K\n")⟩

/-- The words of `mdp edit -k K`. -/
def editWithKey : List Bytes := [ascii "edit", ascii "-k", ascii "K"]

/-- The configuration that a command comes to. -/
def configWith (key : Option Bytes) : Config :=
  ⟨false, true, ascii "/usr/bin/vi", ascii "/usr/bin/gpg", key, 20⟩

/-- No configuration. -/
def bare : Surroundings := ⟨false, none, ascii "/h/.mdp", none⟩

end Mdp.Recipient
