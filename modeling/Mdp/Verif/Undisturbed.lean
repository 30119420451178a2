import Mdp.Calls
import Mdp.Verif.Replacement

/-!
# Runs of `mdp add` that nothing disturbs

Every call does what it is there for: gpg prints what the password file decrypts to and encrypts
what it is given, writes are complete, and the editor leaves its file as it is. The random numbers
that are drawn are noted beside the state, and the passwords are a function of them. Such a run of
`mdp add` that saves leaves a password file that decrypts to the old results and the new ones.
-/

namespace Mdp.Undisturbed

open Interaction CStrings HardLinks Replacement

/-- The character that the weights of one position choose. -/
def chosen (set : List WChar) (weights : List UInt32) : WChar :=
  set.getD (heaviest 0 0 0 (weights.map fun drawn => 1 + drawn.toNat)) 0

/-- The password that the first weights of a stream choose. -/
def passwordOf (set : List WChar) : Nat → List UInt32 → List WChar
  | 0, _ => []
  | left + 1, weights =>
    chosen set (weights.take set.length) :: passwordOf set left (weights.drop set.length)

/-- Some passwords, one after the other. -/
def passwordsOf (set : List WChar) (length : Nat) : Nat → List UInt32 → List (List WChar)
  | 0, _ => []
  | left + 1, weights =>
    passwordOf set length weights ::
      passwordsOf set length left (weights.drop (length * set.length))

/-- The profile that the options name, or the default one. -/
def profileOf (opts : AddOptions) : Option Profile :=
  match opts.profileName with
  | none => some
      { name := [0x64, 0x65, 0x66, 0x61, 0x75, 0x6c, 0x74]
        passwordCount := opts.defaultPasswordCount
        characterCount := opts.defaultCharacterCount
        characterSet := some (opts.defaultCharacterSet.getD charsetAlphanumeric) }
  | some name => profileGetFromName opts name

/-- A profile, or what is left of it where `wcsdup` has found no memory for its characters. -/
def CopyOf (profile copy : Profile) : Prop :=
  copy = profile ∨ copy = { profile with characterSet := none }

/-- The length of its passwords. -/
def passwordLength (opts : AddOptions) (profile : Profile) : Nat :=
  (if opts.characterCount > 0 then opts.characterCount else profile.characterCount).toNat

/-- A password behind the prefix and a tab, if there is a prefix. -/
def entryOf (opts : AddOptions) (password : List WChar) : List WChar :=
  match opts.prefixText with
  | none => password
  | some text => text ++ 0x09 :: password

/-- The entries that the options and the random numbers give for a profile. -/
def entriesFor (opts : AddOptions) (profile : Profile) (count : Nat) (weights : List UInt32) :
    List (List WChar) :=
  (passwordsOf profile.letters (passwordLength opts profile) count weights).map (entryOf opts)

/-- The entries that `mdp add` is to append. -/
def generated (opts : AddOptions) (weights : List UInt32) : List (List WChar) :=
  match profileOf opts with
  | none => []
  | some profile =>
    entriesFor opts profile (profileGetPasswordCount opts profile).toNat weights

/-- What is noted of a run. -/
structure Notes where
  /-- The random numbers, in the order in which they were drawn. -/
  weights : List UInt32
  /-- Whether `gpg -e` was called. -/
  saved : Bool

/-- What an answered call adds to the notes. -/
def Notes.note (entry : Entry posix State) (notes : Notes) : Notes :=
  match entry with
  | ⟨.arc4randomUniform _, drawn, _⟩ => { notes with weights := notes.weights ++ [drawn] }
  | ⟨.system (.encrypt _ _ _), _, _⟩ => { notes with saved := true }
  | _ => notes

/-- What gpg decrypts the password file to, if there is one. -/
def plaintext (decrypt : Bytes → Bytes) (s : State) : Option Bytes :=
  (bytesAt s .passwordFile).map decrypt

/-- The answers of an environment in which every call does what it is there for. -/
def undisturbed (decrypt : Bytes → Bytes) : Entry posix State → Bool
  | ⟨.fdopen _, ok, _⟩ => ok
  | ⟨.fgets .pipe, bytes, after⟩ => some bytes == plaintext decrypt after
  | ⟨.write _ bytes, count, _⟩ => count == none || count == some bytes.length
  | ⟨.system (.edit _ _), exit, _⟩ => exit.left == .untouched
  | ⟨.system (.encrypt _ _ path), exit, after⟩ =>
    exit.status != 0 || exit.wrote.map (fun node => decrypt node.bytes) == bytesAt after path
  | _ => true

/-- Runs in such an environment, with notes. -/
abbrev undisturbedCalls (decrypt : Bytes → Bytes) : Effect posix (Notes × State) :=
  (effect.restrict (undisturbed decrypt)).record Notes.note

variable {decrypt : Bytes → Bytes} {cfg : Config} {L : CLocale} {x y : Notes × State}

/-- What an answer in such an environment says. -/
theorem of_undisturbedCalls {request : Call} {answer : Call.Answer request}
    (taken : undisturbedCalls decrypt request answer x = some y) :
    effect request answer x.2 = some y.2 ∧ undisturbed decrypt ⟨request, answer, y.2⟩ = true ∧
      y.1 = Notes.note ⟨request, answer, y.2⟩ x.1 := by
  obtain ⟨restricted, noted⟩ := Effect.record_eq_some.mp taken
  obtain ⟨done, good⟩ := Effect.restrict_eq_some.mp restricted
  exact ⟨done, good, noted⟩

/-- The calls that change neither the state nor the notes. -/
def ChangesNothing : Call → Prop
  | .stat _ => True
  | .fork => True
  | .fdopen _ => True
  | .fopenRead _ => True
  | .fgets _ => True
  | .waitpid _ => True
  | .kill _ _ => True
  | .calloc => True
  | .readString _ => True
  | .print _ => True
  | .arc4randomUniform _ => False
  | request => request.Neutral

/-- Such a call leaves the state and the notes as they are. -/
theorem changesNothing_step {request : Call} {answer : Call.Answer request}
    (changesNothing : ChangesNothing request)
    (taken : undisturbedCalls decrypt request answer x = some y) : y = x := by
  obtain ⟨done, _, noted⟩ := of_undisturbedCalls taken
  have same : y.2 = x.2 := by
    cases request with
    | stat path => exact (effect_stat done).1
    | fork => exact (effect_fork done).1
    | fdopen fd => exact effect_fdopen done
    | fopenRead path => exact (effect_fopenRead done).1
    | fgets stream => exact (effect_fgets done).1
    | waitpid pid => exact effect_waitpid done
    | kill pid signal => exact effect_kill done
    | calloc => exact effect_calloc done
    | readString present => exact (effect_readString done).2
    | print text => exact effect_print done
    | arc4randomUniform bound => exact changesNothing.elim
    | _ => exact effect_neutral (by exact changesNothing) done
  have kept : y.1 = x.1 := by
    rw [noted]
    cases request with
    | arc4randomUniform bound => exact changesNothing.elim
    | system command => cases command <;> first | rfl | exact changesNothing.elim
    | _ => rfl
  exact Prod.ext kept same

/-- Such a call leaves the state and the notes as they are, and its answer says what it says of
them. -/
theorem look {α : Type} {request : Call} {next : Call.Answer request → Prog α}
    {Q : α → Notes × State → Prop} (changesNothing : ChangesNothing request)
    (each : ∀ answer, effect request answer x.2 = some x.2 →
      undisturbed decrypt ⟨request, answer, x.2⟩ = true →
        (next answer).Ends (undisturbedCalls decrypt) Q x) :
    (Program.call request next).Ends (undisturbedCalls decrypt) Q x := by
  apply Program.Ends.call
  intro answer y taken
  obtain ⟨done, good, _⟩ := of_undisturbedCalls taken
  have same := changesNothing_step changesNothing taken
  subst same
  exact each answer done good

/-- Where the answer does not matter. -/
theorem pass {α : Type} {request : Call} {next : Call.Answer request → Prog α}
    {Q : α → Notes × State → Prop} (changesNothing : ChangesNothing request)
    (each : ∀ answer, (next answer).Ends (undisturbedCalls decrypt) Q x) :
    (Program.call request next).Ends (undisturbedCalls decrypt) Q x :=
  look changesNothing fun answer _ _ => each answer

/-- A program of such calls. -/
theorem ends_changesNothing {α : Type} {p : Prog α} (uses : p.Uses ChangesNothing) :
    p.Ends (undisturbedCalls decrypt) (fun _ y => y = x) x :=
  uses.ends fun _ _ _ _ changesNothing taken => changesNothing_step changesNothing taken

/-- A quiet call is one of them. -/
theorem changesNothing_of_quiet (request : Call) (quiet : request.Quiet) :
    ChangesNothing request := by
  cases request with
  | system command => cases command <;> first | exact trivial | exact quiet.elim
  | _ => first | exact trivial | exact quiet.elim

/-- A silent program before another one. -/
theorem ends_after {α β : Type} {p : Prog α} {rest : α → Prog β} {Q : β → Notes × State → Prop}
    (uses : p.Uses ChangesNothing)
    (later : ∀ value, (rest value).Ends (undisturbedCalls decrypt) Q x) :
    (p.bind rest).Ends (undisturbedCalls decrypt) Q x := by
  apply (ends_changesNothing uses).bind
  intro value y same
  rw [same]
  exact later value

/-- A message before another program. -/
theorem ends_debug {α : Type} {fmt : String} {rest : Unit → Prog α} {Q : α → Notes × State → Prop}
    (later : (rest ()).Ends (undisturbedCalls decrypt) Q x) :
    ((debug cfg fmt).bind rest).Ends (undisturbedCalls decrypt) Q x :=
  ends_after (uses_debug changesNothing_of_quiet) fun _ => later

/-- A check before another program. -/
theorem ends_require {α : Type} {passed : Bool} {message : String} {rest : Unit → Prog α}
    {Q : α → Notes × State → Prop}
    (later : passed = true → (rest ()).Ends (undisturbedCalls decrypt) Q x) :
    ((require passed message).bind rest).Ends (undisturbedCalls decrypt) Q x := by
  cases passed with
  | false => exact ⟨trivial, trivial⟩
  | true => exact later rfl

/-- A string that is read, before another program. -/
theorem ends_readString {α β : Type} {pointer : Option (List α)} {rest : List α → Prog β}
    {Q : β → Notes × State → Prop}
    (later : ∀ text, pointer = some text → (rest text).Ends (undisturbedCalls decrypt) Q x) :
    ((readString pointer).bind rest).Ends (undisturbedCalls decrypt) Q x := by
  refine look trivial fun present done _ => ?_
  obtain ⟨rfl, _⟩ := effect_readString done
  cases pointer with
  | none => exact ⟨trivial, trivial⟩
  | some text => exact later text rfl

/-- `addProfile` finds the profile that the options name, or a copy of the default one. -/
theorem addProfile_ends {opts : AddOptions} :
    (addProfile opts).Ends (undisturbedCalls decrypt)
      (fun found y => (∃ profile, profileOf opts = some profile ∧ CopyOf profile found) ∧
          y = x) x := by
  unfold addProfile profileOf
  cases opts.profileName with
  | none =>
    refine ends_after (uses_xmalloc changesNothing_of_quiet) fun _ => pass trivial fun _ => ?_
    refine pass trivial fun copied => ⟨trivial, ⟨_, rfl, ?_⟩, rfl⟩
    cases copied with
    | true => exact .inl rfl
    | false => exact .inr rfl
  | some name =>
    simp only
    cases profileGetFromName opts name with
    | none => exact ⟨trivial, trivial⟩
    | some profile => exact ⟨trivial, ⟨profile, rfl, .inl rfl⟩, rfl⟩

/-- `lock_set` keeps the notes and the password file. -/
theorem lockSet_ends :
    lockSet.Ends (undisturbedCalls decrypt)
      (fun _ y => y.1 = x.1 ∧ stored y.2.files = stored x.2.files) x := by
  refine look trivial fun answer done _ => ?_
  cases answer with
  | found => exact ⟨trivial, trivial⟩
  | failed => exact ⟨trivial, trivial⟩
  | enoent =>
    have missing := (effect_stat done).2.2 rfl
    apply Program.Ends.call
    intro answer y taken
    obtain ⟨done, _, noted⟩ := of_undisturbedCalls taken
    rcases effect_fopenWrite done with ⟨rfl, _⟩ | ⟨inode, _, bound, _⟩ | ⟨rfl, _, created⟩
    · exact pass trivial fun _ => ⟨trivial, trivial⟩
    · rw [missing] at bound
      cases bound
    · have kept : stored y.2.files = stored x.2.files := by
        rw [created]
        exact stored_create rfl
      have apart : Apart y.2.files x.2.files.fresh := by
        rw [created]
        refine apart_fresh.of_entry fun path names => ?_
        exact Directory.create_entry_other _ _ (ne_of_holdsPasswords names rfl)
      refine pass trivial fun _ => Program.Ends.call fun answer z taken => ?_
      obtain ⟨done, _, again⟩ := of_undisturbedCalls taken
      have same : stored z.2.files = stored x.2.files := by
        rcases effect_fprintf done with ⟨_, written⟩ | ⟨_, written⟩
        · rw [written, ← kept]
          exact stored_modify apart
        · rw [written, kept]
      refine pass trivial fun _ => ?_
      exact ⟨trivial, by rw [again, noted]; rfl, same⟩

/-- `setup_signals_and_atexit` changes globals only. -/
theorem setupSignalsAndAtexit_ends :
    setupSignalsAndAtexit.Ends (undisturbedCalls decrypt)
      (fun _ y => y.1 = x.1 ∧ y.2.files = x.2.files) x := by
  apply Program.Ends.call
  intro answer y taken
  obtain ⟨done, _, noted⟩ := of_undisturbedCalls taken
  have files : y.2.files = x.2.files := by
    rcases effect_atexit done with ⟨_, same⟩ | ⟨_, same⟩ <;> rw [same]
    rfl
  cases answer with
  | false => exact ⟨trivial, trivial⟩
  | true =>
    apply Program.Ends.call
    intro answer z taken
    obtain ⟨done, _, again⟩ := of_undisturbedCalls taken
    have same : z.2.files = y.2.files := by
      rw [effect_signal_int done]
      rfl
    refine pass trivial fun _ => ?_
    exact ⟨trivial, by rw [again, noted]; rfl, same.trans files⟩

/-- The loop of `load_results_fp` loads its lines. -/
theorem loadResultsLoop_ends {memory : Memory} {ctx : CksumCtx} {pieces : List Bytes} :
    (loadResultsLoop L memory ctx pieces).Ends (undisturbedCalls decrypt) (fun loaded y =>
      y = x ∧ ∀ lineCount, loadLines L lineCount memory ctx pieces = .ok loaded) x := by
  induction pieces generalizing memory ctx with
  | nil => exact ⟨trivial, rfl, fun _ => rfl⟩
  | cons line rest ih =>
    refine ends_after (uses_warnUnlessNewline changesNothing_of_quiet) fun _ => ?_
    refine ends_after (uses_xmalloc changesNothing_of_quiet) fun _ => ?_
    cases taken : loadLine L memory line with
    | none => exact ⟨trivial, trivial⟩
    | some next =>
      refine ends_after (uses_xmalloc changesNothing_of_quiet) fun _ => ?_
      refine ends_after (uses_arrayAdd changesNothing_of_quiet) fun _ => ?_
      apply ih.mono
      rintro loaded y ⟨same, loads⟩
      refine ⟨same, fun lineCount => ?_⟩
      simp only [loadLines, taken]
      exact loads (lineCount + 1)

/-- The watcher is started. -/
theorem setPidTimeout_ends {pid : Nat} {timeout : UInt32} :
    (setPidTimeout cfg pid timeout).Ends (undisturbedCalls decrypt) (fun _ y => y = x) x := by
  refine look trivial fun answer done _ => ?_
  cases answer with
  | failed => exact ⟨trivial, trivial⟩
  | child => simp at done
  | parent watcherPid =>
    refine pass trivial fun _ => ends_debug ?_
    exact ⟨trivial, rfl⟩

/-- `gpg_open` gives a stream, or there is no password file. -/
theorem gpgOpen_ends :
    (gpgOpen cfg).Ends (undisturbedCalls decrypt) (fun result y => y = x ∧ match result with
      | none => plaintext decrypt x.2 = none
      | some opened => opened.fp = true) x := by
  refine look trivial fun answer done _ => ?_
  cases answer with
  | failed => exact ⟨trivial, trivial⟩
  | enoent =>
    have missing := (effect_stat done).2.2 rfl
    refine ends_debug ⟨trivial, rfl, ?_⟩
    simp [plaintext, bytesAt, Directory.read, missing]
  | found =>
    refine ends_debug (pass trivial fun pout => ?_)
    cases pout with
    | none => exact ⟨trivial, trivial⟩
    | some pout =>
      refine look trivial fun answer done _ => ?_
      cases answer with
      | failed => exact ⟨trivial, trivial⟩
      | child => simp at done
      | parent gpgPid =>
        refine pass trivial fun closed => ends_require fun _ => look trivial fun fp _ opened => ?_
        apply setPidTimeout_ends.bind
        intro watcherPid y same
        exact ⟨trivial, same, opened⟩

/-- `load_results_gpg` loads what the password file decrypts to. -/
theorem loadResultsGpg_ends :
    (loadResultsGpg cfg L .initial).Ends (undisturbedCalls decrypt) (fun memory y =>
      y = x ∧ match plaintext decrypt x.2 with
        | none => memory = .initial
        | some content => loadContent L .initial content = .ok memory) x := by
  apply gpgOpen_ends.bind
  rintro (_ | opened) y ⟨same, found⟩
  · subst same
    simp only at found
    exact ⟨trivial, rfl, by rw [found]⟩
  · subst same
    have stream : opened.fp = true := found
    simp only [stream, if_true]
    refine look trivial fun bytes _ printed => ?_
    have decrypted : some bytes = plaintext decrypt y.2 := beq_iff_eq.mp printed
    apply loadResultsLoop_ends.bind
    rintro loaded z ⟨kept, loads⟩
    rw [kept]
    refine ends_after (uses_gpgClose changesNothing_of_quiet) fun retcode => ?_
    refine ends_require fun _ => ⟨trivial, rfl, ?_⟩
    rw [← decrypted]
    exact loads 0

/-- The notes after more random numbers were drawn. -/
def Notes.drew (notes : Notes) (drawn : List UInt32) : Notes :=
  { notes with weights := notes.weights ++ drawn }

/-- Drawing nothing adds nothing to the notes. -/
@[simp] theorem Notes.drew_nil (notes : Notes) : notes.drew [] = notes := by simp [Notes.drew]

/-- Draws upon draws are noted in their order. -/
@[simp] theorem Notes.drew_drew (notes : Notes) (drawn later : List UInt32) :
    (notes.drew drawn).drew later = notes.drew (drawn ++ later) := by simp [Notes.drew]

/-- The weights of one position. -/
theorem drawWeights_ends (left : Nat) :
    (drawWeights left).Ends (undisturbedCalls decrypt)
      (fun weights y => ∃ drawn, drawn.length = left ∧
          weights = drawn.map (fun number => 1 + number.toNat) ∧ y = (x.1.drew drawn, x.2)) x := by
  induction left generalizing x with
  | zero => exact ⟨trivial, [], rfl, rfl, by simp⟩
  | succ left ih =>
    refine Program.Ends.call fun number y taken => ?_
    obtain ⟨done, _, noted⟩ := of_undisturbedCalls taken
    have same : y = (x.1.drew [number], x.2) :=
      Prod.ext noted (effect_neutral (by exact trivial) done)
    apply ih.bind
    rintro weights z ⟨drawn, length, values, later⟩
    refine ⟨trivial, number :: drawn, by simp [length], by simp [values], ?_⟩
    rw [later, same]
    simp

/-- The characters of a password are those that the random numbers choose. -/
theorem drawCharacters_ends (set : List WChar) (left : Nat) :
    (drawCharacters set left).Ends (undisturbedCalls decrypt) (fun password y => ∃ drawn,
      drawn.length = left * set.length ∧ (∀ more, passwordOf set left (drawn ++ more) = password) ∧
        y = (x.1.drew drawn, x.2)) x := by
  induction left generalizing x with
  | zero => exact ⟨trivial, [], by simp, fun _ => rfl, by simp⟩
  | succ left ih =>
    apply (drawWeights_ends set.length).bind
    rintro weights y ⟨first, length, values, same⟩
    apply ih.bind
    rintro others z ⟨drawn, rest, chosen, later⟩
    refine ⟨trivial, first ++ drawn, ?_, fun more => ?_, ?_⟩
    · rw [List.length_append, length, rest, Nat.succ_mul, Nat.add_comm]
    · rw [passwordOf, List.append_assoc, List.take_left' length, List.drop_left' length, chosen,
        Undisturbed.chosen, values]
    · rw [later, same]
      simp

/-- An `unsigned int` that is at least one as an `int` is that `int`. -/
theorem asInt_toNat {count : UInt32} (positive : ¬ asInt count < 1) :
    (asInt count).toNat = count.toNat ∧ 1 ≤ count.toNat := by
  have bound := count.toNat_lt
  unfold asInt at positive ⊢
  split at positive
  · rename_i small
    rw [if_pos small]
    omega
  · omega

/-- A password that is generated is the one that the random numbers choose, and is not empty. -/
theorem generatePasswordFromSet_ends (count : UInt32) (pointer : Option (List WChar)) :
    (generatePasswordFromSet (asInt count) pointer).Ends (undisturbedCalls decrypt)
      (fun generated y => ∀ password, generated = some password → ∃ drawn,
        drawn.length = count.toNat * (pointer.getD []).length ∧
        (∀ more, passwordOf (pointer.getD []) count.toNat (drawn ++ more) = password) ∧
        (pointer.getD [] ≠ [] ∧ 1 ≤ count.toNat) ∧ y = (x.1.drew drawn, x.2)) x := by
  refine ends_readString fun set given => ?_
  rw [given, Option.getD_some]
  split
  · refine ⟨trivial, ?_⟩
    intro password none
    cases none
  · rename_i within
    have positive := asInt_toNat fun small => within (.inr small)
    refine ends_require fun nonempty => pass trivial fun _ => ends_require fun _ => ?_
    have some : set ≠ [] := by
      intro empty
      simp [empty] at nonempty
    apply (drawCharacters_ends set _).bind
    rintro password y ⟨drawn, length, chosen, same⟩
    refine ⟨trivial, ?_⟩
    intro found equal
    cases equal
    rw [positive.1] at length chosen
    exact ⟨drawn, length, chosen, ⟨some, positive.2⟩, same⟩

/-- `profile_generate_password` returns the password of its draws. -/
theorem profileGeneratePassword_ends (opts : AddOptions) (profile : Profile) :
    (profileGeneratePassword opts profile).Ends (undisturbedCalls decrypt)
      (fun password y => ∃ drawn, drawn.length =
        passwordLength opts profile * profile.letters.length ∧
          (∀ more, passwordOf profile.letters (passwordLength opts profile) (drawn ++ more) =
            password) ∧ (profile.letters ≠ [] ∧ 1 ≤ passwordLength opts profile) ∧
        y = (x.1.drew drawn, x.2)) x := by
  refine ends_require fun _ => pass trivial fun _ => ends_require fun _ => ?_
  apply (generatePasswordFromSet_ends _ _).bind
  intro generated y holds
  cases generated with
  | none => exact ⟨trivial, trivial⟩
  | some password => exact ⟨trivial, holds password rfl⟩

/-- The line of a password is its entry. -/
theorem passwordLine_ends (opts : AddOptions) (password : List WChar) :
    (passwordLine opts password).Ends (undisturbedCalls decrypt)
      (fun line y => line = entryOf opts password ∧ y = x) x := by
  unfold passwordLine entryOf
  cases opts.prefixText with
  | none => exact ⟨trivial, rfl, rfl⟩
  | some text =>
    refine pass trivial fun given => ?_
    cases given with
    | false => exact ⟨trivial, trivial⟩
    | true => exact pass trivial fun _ => ends_require fun _ => ⟨trivial, rfl, rfl⟩

/-- The loop of `profile_passwords_to_results` adds a result for each entry. -/
theorem passwordsLoop_ends (opts : AddOptions) (profile : Profile) (count : Nat) (memory : Memory) :
    (passwordsLoop L opts profile count memory).Ends (undisturbedCalls decrypt) (fun memory' y =>
      ∃ drawn new, memory'.results = memory.results ++ new ∧
        (count ≠ 0 → profile.letters ≠ [] ∧ 1 ≤ passwordLength opts profile) ∧
        (∀ more, ((entriesFor opts profile count (drawn ++ more)).map upToNul).map (resultNew L) =
          new.map some) ∧ y = (x.1.drew drawn, x.2)) x := by
  induction count generalizing x memory with
  | zero => exact ⟨trivial, [], [], by simp, by simp, fun _ => rfl, by simp⟩
  | succ count ih =>
    apply (profileGeneratePassword_ends opts profile).bind
    rintro password y ⟨drawn, length, chosen, full, same⟩
    apply (passwordLine_ends opts password).bind
    rintro line z ⟨entry, kept⟩
    refine ends_after (uses_xmalloc changesNothing_of_quiet) fun _ => ?_
    cases made : resultNew L (upToNul line) with
    | none => exact ⟨trivial, trivial⟩
    | some result =>
      refine ends_after (uses_xmalloc changesNothing_of_quiet) fun _ => ?_
      refine ends_after (uses_arrayAdd changesNothing_of_quiet) fun _ => ?_
      apply (ih { memory with results := memory.results ++ [result] }).mono
      rintro memory' w ⟨later, new, results, _, entries, last⟩
      refine ⟨drawn ++ later, result :: new, ?_, fun _ => full, fun more => ?_, ?_⟩
      · rw [results, List.append_assoc, List.singleton_append]
      · have first := chosen (later ++ more)
        have others := entries more
        rw [entriesFor] at others
        rw [entriesFor, passwordsOf, List.append_assoc, first, List.drop_left' length,
          List.map_cons, List.map_cons, List.map_cons, List.map_cons, others, ← entry, made]
      · rw [last, kept, same]
        simp

/-- What the loop of `edit_results` writes is appended to the file it writes to. -/
theorem dumpResults_ends (fd : Nat) (results : List Result) :
    (dumpResults fd results).Ends (undisturbedCalls decrypt) (fun _ y => y.1 = x.1 ∧
      y.2.files.entry = x.2.files.entry ∧
      (y.2.files.node fd).bytes = (x.2.files.node fd).bytes ++ dump results) x := by
  -- One write that does not fail is complete.
  have written : ∀ {bytes : Bytes} {answer : Option Nat} {x y : Notes × State},
      undisturbedCalls decrypt (.write fd bytes) answer x = some y → answer.isSome = true →
      y.1 = x.1 ∧ y.2.files.entry = x.2.files.entry ∧
        (y.2.files.node fd).bytes = (x.2.files.node fd).bytes ++ bytes := by
    intro bytes answer x y taken given
    obtain ⟨done, good, noted⟩ := of_undisturbedCalls taken
    rcases effect_write done with ⟨rfl, _⟩ | ⟨count, rfl, _, same⟩
    · cases given
    · have whole : count = bytes.length := by simpa [undisturbed] using good
      refine ⟨noted, by rw [same]; rfl, ?_⟩
      rw [same, whole]
      simp [Directory.modify, Node.mapBytes]
  induction results generalizing x with
  | nil => exact ⟨trivial, rfl, rfl, by simp [dump]⟩
  | cons result rest ih =>
    refine Program.Ends.call fun text y taken => ends_require fun given => ?_
    obtain ⟨notes, names, bytes⟩ := written taken given
    refine Program.Ends.call fun ended z again => ends_require fun given => ?_
    obtain ⟨notes', names', bytes'⟩ := written again given
    apply ih.mono
    rintro _ w ⟨notes'', names'', bytes''⟩
    refine ⟨notes''.trans (notes'.trans notes), names''.trans (names'.trans names), ?_⟩
    rw [bytes'', bytes', bytes, dump_cons, Result.dump]
    simp

/-- The editor leaves every file as it is. -/
theorem spawnEditor_ends (path : Path) :
    (spawnEditor cfg path).Ends (undisturbedCalls decrypt)
      (fun _ y => y.1 = x.1 ∧ y.2.files = x.2.files) x := by
  have command : ∀ editor, (editorCommand editor).Uses ChangesNothing := fun _ =>
    messages_editorCommand fun _ message => changesNothing_of_quiet _ message.quiet
  refine ends_readString fun editor _ => ends_after (command editor) fun editor => ?_
  refine ends_after (uses_xasprintf changesNothing_of_quiet) fun _ => ends_debug ?_
  refine Program.Ends.call fun exit y taken => ?_
  obtain ⟨done, good, noted⟩ := of_undisturbedCalls taken
  obtain ⟨_, files, applied, same⟩ := effect_edit done
  have untouched : exit.left = .untouched := beq_iff_eq.mp good
  rw [untouched] at applied
  cases applied
  refine ends_require fun _ => ends_require fun _ => ?_
  apply (ends_changesNothing uses_require).mono
  intro _ z last
  rw [last]
  exact ⟨noted, by rw [same]; rfl⟩

/-- `has_changed` looks only. -/
theorem hasChanged_ends (memory : Memory) (path : Path) :
    (hasChanged L memory path).Ends (undisturbedCalls decrypt) (fun _ y => y = x) x := by
  refine pass trivial fun fp => ?_
  cases fp with
  | none => exact ⟨trivial, trivial⟩
  | some stream =>
    refine pass trivial fun bytes => ?_
    apply loadResultsLoop_ends.bind
    rintro loaded y ⟨same, _⟩
    exact pass trivial fun _ => ⟨trivial, same⟩

/-- A call that changes names keeps what another name reads as. -/
theorem unlink_taken {path other : Path} {answer : Removal} (different : other ≠ path)
    (taken : undisturbedCalls decrypt (.unlink path) answer x = some y) :
    y.1 = x.1 ∧ bytesAt y.2 other = bytesAt x.2 other := by
  obtain ⟨done, _, noted⟩ := of_undisturbedCalls taken
  refine ⟨noted, ?_⟩
  rcases effect_unlink done with ⟨_, same⟩ | ⟨_, _, same⟩ | ⟨_, same⟩
  · rw [same, bytesAt_erase_other different]
  · rw [same]
  · rw [same]

/-- The backup leaves gpg's output. -/
theorem backupPrevious_ends (path : Path) :
    (backupPrevious cfg).Ends (undisturbedCalls decrypt)
      (fun _ y => y.1 = x.1 ∧ bytesAt y.2 (.gpg path) = bytesAt x.2 (.gpg path)) x := by
  refine ends_debug (Program.Ends.call fun answer y taken => ?_)
  obtain ⟨notes, kept⟩ := unlink_taken (by simp : Path.gpg path ≠ .bak .passwordFile) taken
  refine ends_require fun _ => Program.Ends.call fun linked z taken => ?_
  obtain ⟨done, _, noted⟩ := of_undisturbedCalls taken
  have names : bytesAt z.2 (.gpg path) = bytesAt y.2 (.gpg path) := by
    rcases effect_link done with ⟨_, _, _, same⟩ | ⟨_, same⟩
    · rw [same, bytesAt_hardLink_other (by simp)]
    · rw [same]
  apply (ends_changesNothing uses_require).mono
  intro _ w same
  rw [same]
  exact ⟨Eq.trans noted notes, names.trans kept⟩

/-- The previous files make room without gpg's output. -/
theorem unlinkPrevious_ends (path : Path) :
    (unlinkPrevious cfg).Ends (undisturbedCalls decrypt)
      (fun _ y => y.1 = x.1 ∧ bytesAt y.2 (.gpg path) = bytesAt x.2 (.gpg path)) x := by
  have removal : ∀ {z : Notes × State}, z.1 = x.1 →
      bytesAt z.2 (.gpg path) = bytesAt x.2 (.gpg path) →
      ((ask (.unlink .passwordFile)).bind fun previous =>
        require (previous == .removed) "gpg_encrypt unlink(cfg_password_file)").Ends
          (undisturbedCalls decrypt)
        (fun _ y => y.1 = x.1 ∧ bytesAt y.2 (.gpg path) = bytesAt x.2 (.gpg path)) z := by
    intro z notes kept
    refine Program.Ends.call fun answer y taken => ?_
    obtain ⟨notes', kept'⟩ := unlink_taken (by simp : Path.gpg path ≠ .passwordFile) taken
    apply (ends_changesNothing uses_require).mono
    intro _ w same
    rw [same]
    exact ⟨notes'.trans notes, kept'.trans kept⟩
  unfold unlinkPrevious
  cases cfg.backup with
  | false => exact removal rfl rfl
  | true => exact (backupPrevious_ends path).bind fun _ _ holds => removal holds.1 holds.2

/-- The encrypted file becomes the password file. -/
theorem moveEncrypted_ends (path : Path) :
    (moveEncrypted path).Ends (undisturbedCalls decrypt)
      (fun _ y => y.1 = x.1 ∧ bytesAt y.2 .passwordFile = bytesAt x.2 (.gpg path)) x := by
  refine ends_after (uses_xasprintf changesNothing_of_quiet) fun _ => ?_
  refine Program.Ends.call fun linked y taken => ?_
  obtain ⟨done, _, noted⟩ := of_undisturbedCalls taken
  refine ends_require fun passed => ?_
  have installed : bytesAt y.2 .passwordFile = bytesAt x.2 (.gpg path) := by
    rcases effect_link done with ⟨_, _, _, same⟩ | ⟨failed, _⟩
    · rw [same, bytesAt_hardLink_new]
    · rw [failed] at passed
      cases passed
  refine Program.Ends.call fun changed z taken => ends_require fun _ => ?_
  obtain ⟨done', _, noted'⟩ := of_undisturbedCalls taken
  have kept : bytesAt z.2 .passwordFile = bytesAt y.2 .passwordFile := by
    rcases effect_chmod done' with ⟨_, _, _, same⟩ | ⟨_, same⟩
    · rw [same, bytesAt_setMode]
    · rw [same]
  refine Program.Ends.call fun answer w taken => ?_
  obtain ⟨notes, kept'⟩ := unlink_taken (by simp : Path.passwordFile ≠ .gpg path) taken
  apply (ends_changesNothing uses_require).mono
  intro _ v same
  rw [same]
  exact ⟨notes.trans (Eq.trans noted' noted), kept'.trans (kept.trans installed)⟩

/-- `gpg_encrypt` leaves a password file that decrypts to what it was given. -/
theorem gpgEncrypt_ends (suffix : Nat) {bytes : Bytes}
    (given : bytesAt x.2 (.tmp suffix) = some bytes) :
    (gpgEncrypt cfg (.tmp suffix)).Ends (undisturbedCalls decrypt)
      (fun _ y => y.1.weights = x.1.weights ∧ plaintext decrypt y.2 = some bytes) x := by
  refine ends_after (uses_xasprintf changesNothing_of_quiet) fun _ => ends_debug ?_
  refine Program.Ends.call fun exit y taken => ?_
  obtain ⟨done, good, noted⟩ := of_undisturbedCalls taken
  refine ends_require fun zero => ?_
  have encrypted : (bytesAt y.2 (.gpg (.tmp suffix))).map decrypt = some bytes := by
    have wrote : exit.wrote.map (fun node => decrypt node.bytes) = bytesAt y.2 (.tmp suffix) := by
      have status : exit.status = 0 := beq_iff_eq.mp zero
      simpa [undisturbed, status] using good
    rcases effect_encrypt done with ⟨nothing, same⟩ | ⟨node, created, _, same⟩
    · rw [nothing, same, given] at wrote
      cases wrote
    · rw [created, same, bytesAt_create_other (by simp), given] at wrote
      rw [same, bytesAt, State.setFiles_files, Directory.create_read_self]
      exact wrote
  have weights : y.1.weights = x.1.weights := by
    rw [noted]
    rfl
  have moved : ∀ {z : Notes × State}, z.1 = y.1 →
      bytesAt z.2 (.gpg (.tmp suffix)) = bytesAt y.2 (.gpg (.tmp suffix)) →
      (moveEncrypted (.tmp suffix)).Ends (undisturbedCalls decrypt)
        (fun _ y => y.1.weights = x.1.weights ∧ plaintext decrypt y.2 = some bytes) z := by
    intro z notes kept
    apply (moveEncrypted_ends _).mono
    rintro _ w ⟨notes', installed⟩
    refine ⟨by rw [notes', notes, weights], ?_⟩
    rw [plaintext, installed, kept, encrypted]
  refine ends_after (uses_xasprintf changesNothing_of_quiet) fun _ => look trivial fun answer _ _ =>
    ?_
  cases answer with
  | failed => exact ⟨trivial, trivial⟩
  | enoent => exact moved rfl rfl
  | found =>
    apply (unlinkPrevious_ends (.tmp suffix)).bind
    rintro _ z ⟨notes, kept⟩
    exact moved notes kept

/-- `edit_results`, when it saves, leaves a password file that decrypts to the results. -/
theorem editResults_ends (memory : Memory) (unsaved : x.1.saved = false) :
    (editResults cfg L memory).Ends (undisturbedCalls decrypt)
      (fun _ y => y.1.weights = x.1.weights ∧
          (y.1.saved = true → plaintext decrypt y.2 = some (dump memory.results))) x := by
  refine Program.Ends.call fun answer y taken => ?_
  obtain ⟨done, _, noted⟩ := of_undisturbedCalls taken
  rcases effect_mkstemp done with ⟨rfl, _⟩ | ⟨created, rfl, _, _, fd, same⟩
  · exact ⟨trivial, trivial⟩
  · have bound : y.2.files.entry (.tmp created.suffix) = some created.fd := by
      rw [same, fd]
      exact Directory.create_entry_self _ _ _
    have empty : (y.2.files.node created.fd).bytes = [] := by
      rw [same, fd]
      simp [Directory.create]
    apply (dumpResults_ends created.fd memory.results).bind
    rintro _ z ⟨notes, names, bytes⟩
    refine pass trivial fun closed => ends_require fun _ => ?_
    apply (spawnEditor_ends (.tmp created.suffix)).bind
    rintro _ w ⟨notes', files⟩
    apply (hasChanged_ends memory (.tmp created.suffix)).bind
    rintro changed v equal
    rw [equal]
    have before : w.1 = x.1 := notes'.trans (notes.trans noted)
    cases changed with
    | false =>
      refine pass trivial fun _ => ⟨trivial, by rw [before], ?_⟩
      intro saved
      rw [before, unsaved] at saved
      cases saved
    | true =>
      have written : bytesAt w.2 (.tmp created.suffix) = some (dump memory.results) := by
        rw [bytesAt, Directory.read, files, names, bound, Option.map_some, Option.map_some, bytes,
          empty, List.nil_append]
      apply (gpgEncrypt_ends created.suffix written).mono
      rintro _ u ⟨weights, plain⟩
      exact ⟨by rw [weights, before], fun _ => plain⟩

/-- What a run of `mdp add` that saves leaves: the results that were loaded and, behind them, one
for each entry. -/
structure Added (decrypt : Bytes → Bytes) (L : CLocale) (opts : AddOptions) (weights : List UInt32)
    (s t : State) (old new : List Result) : Prop where
  loaded : match plaintext decrypt s with
    | none => old = []
    | some content => ∃ memory, loadContent L .initial content = .ok memory ∧ memory.results = old
  made : ((generated opts weights).map upToNul).map (resultNew L) = new.map some
  full : generated opts weights ≠ [] → ∃ profile, profileOf opts = some profile ∧
    profile.letters ≠ [] ∧ 1 ≤ passwordLength opts profile
  left : plaintext decrypt t = some (dump (old ++ new))

/-- A copy with characters is whole. -/
theorem CopyOf.eq_of_letters {profile found : Profile} (copy : CopyOf profile found)
    (full : found.letters ≠ []) : found = profile := by
  rcases copy with same | rfl
  · exact same
  · exact absurd rfl full

/-- A copy asks for as many passwords. -/
theorem CopyOf.profileGetPasswordCount_eq {opts : AddOptions} {profile found : Profile}
    (copy : CopyOf profile found) :
    profileGetPasswordCount opts found = profileGetPasswordCount opts profile := by
  rcases copy with rfl | rfl <;> rfl

/-- It makes the same entries, if it has characters for them. -/
theorem CopyOf.entriesFor_eq {opts : AddOptions} {profile found : Profile} {weights : List UInt32}
    (copy : CopyOf profile found)
    (full : (profileGetPasswordCount opts found).toNat ≠ 0 → found.letters ≠ []) :
    entriesFor opts found (profileGetPasswordCount opts found).toNat weights =
      entriesFor opts profile (profileGetPasswordCount opts profile).toNat weights := by
  by_cases zero : (profileGetPasswordCount opts found).toNat = 0
  · rw [← copy.profileGetPasswordCount_eq, zero]
    rfl
  · rw [copy.eq_of_letters (full zero)]

/-- `mdp_add` leaves this when it saves. -/
theorem mdpAdd_ends (opts : AddOptions) (fresh : x.1 = ⟨[], false⟩) :
    (mdpAdd cfg L opts).Ends (undisturbedCalls decrypt) (fun _ y => y.1.saved = true →
      ∃ old new, Added decrypt L opts y.1.weights x.2 y.2 old new) x := by
  refine ends_debug ?_
  apply addProfile_ends.bind
  rintro found y ⟨⟨profile, named, copy⟩, same⟩
  subst same
  refine ends_after (uses_gpgCheck changesNothing_of_quiet) fun _ => ?_
  apply lockSet_ends.bind
  rintro _ z ⟨notes, kept⟩
  apply setupSignalsAndAtexit_ends.bind
  rintro _ w ⟨notes', files⟩
  have unchanged : plaintext decrypt w.2 = plaintext decrypt y.2 := by
    have password := congrArg Prod.fst kept
    simp only [stored] at password
    rw [plaintext, plaintext, bytesAt, bytesAt, files, password]
  apply loadResultsGpg_ends.bind
  rintro memory v ⟨same, loaded⟩
  subst same
  apply (passwordsLoop_ends opts found _ memory).bind
  rintro memory' u ⟨drawn, new, results, full, entries, same⟩
  have start : v.1 = ⟨[], false⟩ := notes'.trans (notes.trans fresh)
  have unsaved : u.1.saved = false := by
    rw [same, start]
    rfl
  apply (editResults_ends memory' unsaved).mono
  rintro _ t ⟨weights, plain⟩ saved
  have numbers : t.1.weights = drawn := by
    rw [weights, same, start]
    rfl
  refine ⟨memory.results, new, ?_, ?_, ?_, by rw [plain saved, results]⟩
  · rw [unchanged] at loaded
    cases content : plaintext decrypt y.2 with
    | none =>
      rw [content] at loaded
      simp only at loaded ⊢
      rw [loaded]
      rfl
    | some content =>
      rw [‹plaintext decrypt y.2 = _›] at loaded
      exact ⟨memory, loaded, rfl⟩
  · have made := entries []
    rw [List.append_nil] at made
    rw [numbers, generated, named]
    rw [copy.entriesFor_eq fun some => (full some).1] at made
    exact made
  · intro some
    have drawn : (profileGetPasswordCount opts profile).toNat ≠ 0 := by
      intro zero
      rw [generated, named] at some
      simp [entriesFor, zero, passwordsOf] at some
    rw [copy.profileGetPasswordCount_eq] at full
    obtain rfl := copy.eq_of_letters (full drawn).1
    exact ⟨found, named, full drawn⟩

end Mdp.Undisturbed
