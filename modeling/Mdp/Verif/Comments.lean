import Mdp.ConfigFile

/-!
# Comments in the configuration

A line that is blank, or whose first character other than a space or a tab is `#`, asks for nothing.
But `config_read` takes what `fgets` returns for a line, so a comment that its buffer does not hold
is a comment in its first part only. Where one of the other parts asks for something, there are
files that the comment changes, and they are found from what it asks for last.
-/

namespace Mdp.Comments

open Mdp CStrings

/-- A comment asks for nothing. -/
theorem configKeyword_comment {line : Bytes} (comment : Comment (stripTrailingWhitespaces line)) :
    (configKeyword line).1 = none ∨
      ∃ keyword, (configKeyword line).1 = some keyword ∧ ignoredKeyword keyword = true := by
  have hashed : ∀ text, (strdelim (some (0x23 :: text))).1 = none ∨ ∃ keyword,
      (strdelim (some (0x23 :: text))).1 = some keyword ∧ ignoredKeyword keyword = true := by
    intro text
    rcases strdelim_hash text with none | ⟨token, some⟩
    · exact .inl none
    · exact .inr ⟨0x23 :: token, some, by simp [ignoredKeyword]⟩
  unfold configKeyword
  generalize stripTrailingWhitespaces line = stripped at comment
  cases comment with
  | nil => exact .inl rfl
  | hash text =>
    have full : (strdelim (some (0x23 :: text))).1 ≠ some [] := by
      rcases strdelim_hash text with none | ⟨token, some⟩
      · simp [none]
      · simp [some]
    rw [if_neg full]
    exact hashed text
  | blank inside rest =>
    rcases strdelim_blank inside rest with none | ⟨text, some⟩
    · rw [none, if_pos rfl]
      exact .inr ⟨[], rfl, rfl⟩
    · rw [some, if_pos rfl]
      exact hashed text

/-- A comment is no directive. -/
theorem directive_comment {line : Bytes} (comment : Comment (stripTrailingWhitespaces line)) :
    directive line = .nothing := by
  have ignored := configKeyword_comment comment
  unfold directive
  generalize configKeyword line = read at ignored
  rcases read with ⟨_ | keyword, rest⟩
  · rfl
  · have skipped : ignoredKeyword keyword = true := by simpa using ignored
    simp only [skipped, if_true]

/-- The front of a comment line is a comment once it is stripped. -/
theorem stripped_front {body front : Bytes} (comment : Comment body)
    (part : front <+: body ++ [newline]) : Comment (stripTrailingWhitespaces front) := by
  rcases List.prefix_concat_iff.mp part with whole | inner
  · rw [whole, stripTrailingWhitespaces, List.rdropWhile_concat_pos _ _ _ (by decide)]
    exact comment.of_front (List.rdropWhile_prefix _ body)
  · exact (comment.of_front inner).of_front (List.rdropWhile_prefix _ front)

/-- The first buffer of a comment line asks for nothing. -/
theorem directives_comment {body : Bytes} (comment : Comment body) :
    directives (chunks maxLineSize (body ++ [newline])) =
      .nothing :: directives (chunks maxLineSize (body ++ [newline])).tail := by
  have nonempty : body ++ [newline] ≠ [] := by simp
  rw [maxLineSize_eq, chunks_of_ne_nil 16382 nonempty, List.tail_cons, directives, List.map_cons]
  congr 1
  apply directive_comment
  apply stripped_front comment
  have read : (readLine 16383 (body ++ [newline])).1 <+: body ++ [newline] :=
    ⟨_, readLine_append 16383 (body ++ [newline])⟩
  exact (List.takeWhile_prefix _).trans read

/-- The directives that are not ignored. -/
def effective (asked : List Directive) : List Directive := asked.filter (· ≠ .nothing)

/-- Lines that say nothing can be left out. -/
theorem runAll_effective (L : CLocale) (state : ConfigState) (asked : List Directive) :
    runAll L state (effective asked) = runAll L state asked := by
  induction asked generalizing state with
  | nil => rfl
  | cons first rest ih =>
    by_cases ignored : first = .nothing
    · rw [effective, List.filter_cons_of_neg (by simpa using ignored), ignored]
      exact ih state
    · rw [effective, List.filter_cons_of_pos (by simpa using ignored)]
      simp only [runAll]
      cases first.run L 0 state with
      | error error => rfl
      | ok next => exact ih next

/-- A directive that is accepted keeps the profiles there are, and a current one. -/
theorem run_profiles {L : CLocale} {state next : ConfigState} {asked : Directive}
    (taken : LineRun L 0 state asked next) :
    (state.currentProfile.isSome → next.currentProfile.isSome) ∧
      state.profiles.length ≤ next.profiles.length := by
  cases taken with
  | nothing => simp
  | setTop top => simp [ConfigState.profiles, top]
  | setInside inside => simp [ConfigState.profiles, inside]
  | profile => simp [ConfigState.profiles]

/-- No line takes a profile away. -/
theorem runAll_profiles {L : CLocale} {state final : ConfigState} {asked : List Directive}
    (accepted : runAll L state asked = some final) :
    (state.currentProfile.isSome → final.currentProfile.isSome) ∧
      state.profiles.length ≤ final.profiles.length := by
  induction asked generalizing state with
  | nil =>
    cases accepted
    simp
  | cons first rest ih =>
    obtain ⟨next, taken, later⟩ := of_runAll_cons accepted
    have before := run_profiles taken
    have after := ih later
    constructor
    · intro held
      exact after.1 (before.1 held)
    · omega

/-- The current profile is the last one. -/
theorem getLast?_profiles {state : ConfigState} (held : state.currentProfile.isSome) :
    state.profiles.getLast? = state.currentProfile := by
  obtain ⟨profile, current⟩ := Option.isSome_iff_exists.mp held
  simp [ConfigState.profiles, current]

/-- What a variable of a profile is set to does not depend on the profile. -/
theorem setProfileVariable_agree {L : CLocale} {name : Bytes} {value : Option Bytes}
    {first second left right : Profile} (one : setProfileVariable L name value 0 first = .ok left)
    (other : setProfileVariable L name value 0 second = .ok right) :
    left.characterCount = right.characterCount ∨ left.characterSet = right.characterSet ∨
      left.passwordCount = right.passwordCount := by
  obtain ⟨given, there, _, left⟩ := of_setProfileVariable one
  obtain ⟨given', there', _, right⟩ := of_setProfileVariable other
  rw [there, Option.some.injEq] at there'
  subst there'
  rcases left with ⟨named, rfl⟩ | ⟨named, set, resolved, rfl⟩ | ⟨named, rfl⟩ <;>
    rcases right with ⟨named', rfl⟩ | ⟨named', set', resolved', rfl⟩ | ⟨named', rfl⟩ <;>
    rw [named] at named'
  -- the names agree only where the same variable is set
  all_goals try exact absurd named' (by decide)
  · exact .inl rfl
  · rw [resolved] at resolved'
    exact .inr (.inl resolved')
  · exact .inr (.inr rfl)

/-- What `config_read` leaves of a file that it accepts: the globals and the list of profiles. -/
def readBack (L : CLocale) (editor : Option Bytes) (content : Bytes) :
    Option (Settings × List Profile) :=
  (configRead L (.initial editor) (some content)).toOption.map fun state =>
    (state.settings, state.profiles)

/-- What is read back is the configuration after the directives of the lines. -/
theorem readBack_eq (L : CLocale) (editor : Option Bytes) (content : Bytes) :
    readBack L editor content =
      (runAll L (.initial editor) (directives (chunks maxLineSize content))).map fun state =>
        (state.settings, state.profiles) := by
  rw [readBack, configRead_toOption]

/-- Directives that leave the profiles as they were end with an assignment to the current profile,
if there is one and they say anything. -/
theorem ends_with_set {L : CLocale} {state final : ConfigState} {asked : List Directive}
    (accepted : runAll L state asked = some final) (held : state.currentProfile.isSome)
    (same : final.profiles = state.profiles) {last : Directive} {front : List Directive}
    (ends : effective asked = front ++ [last]) :
    ∃ name value profile current, last = .set name value ∧ state.currentProfile = some current ∧
      setProfileVariable L name value 0 profile = .ok current := by
  rw [← runAll_effective, ends, runAll_append] at accepted
  obtain ⟨middle, before, after⟩ := Option.bind_eq_some_iff.mp accepted
  have kept := runAll_profiles before
  have holds : middle.currentProfile.isSome := kept.1 held
  have kept' := runAll_profiles after
  have current : final.currentProfile = state.currentProfile := by
    rw [← getLast?_profiles held, ← getLast?_profiles (kept'.1 holds), same]
  obtain ⟨next, taken, finished⟩ := of_runAll_cons after
  cases finished
  cases taken with
  | nothing =>
    have member : Directive.nothing ∈ effective asked := by simp [ends]
    simp [effective] at member
  | setTop top => simp [top] at holds
  | @setInside name value profile changed _ assigned =>
    exact ⟨name, value, profile, changed, rfl, current.symm, assigned⟩
  | profile =>
    have longer := congrArg List.length same
    simp [ConfigState.profiles] at longer kept
    omega

/-- A file with a profile that has the defaults. -/
def defaultsFile : Bytes := ascii "profile a\n"

/-- A file with a profile that has none of them. -/
def othersFile : Bytes :=
  ascii "profile a\nset character_count 1\nset character_set $DIGITS\nset password_count 1\n"

/-- The profile of the first file. -/
def defaultsProfile : Profile := ⟨ascii "a", 4, 16, some charsetAlphanumeric⟩

/-- The profile of the second file. -/
def othersProfile : Profile := ⟨ascii "a", 1, 1, some charsetDigits⟩

/-- What the first file asks for. -/
theorem directives_defaultsFile :
    directives (chunks maxLineSize defaultsFile) = [.profile (ascii "a")] := by decide +kernel

/-- What the second file asks for. -/
theorem directives_othersFile : directives (chunks maxLineSize othersFile) =
    [.profile (ascii "a"), .set (ascii "character_count") (some (ascii "1")),
      .set (ascii "character_set") (some (ascii "$DIGITS")),
      .set (ascii "password_count") (some (ascii "1"))] := by decide +kernel

/-- What the first file makes of its profile. -/
theorem runAll_defaultsFile (L : CLocale) (editor : Option Bytes) :
    runAll L (.initial editor) (directives (chunks maxLineSize defaultsFile)) =
      some ⟨.initial editor, [], some defaultsProfile⟩ := by
  rw [directives_defaultsFile]
  rfl

/-- What the second file makes of its profile. -/
theorem runAll_othersFile (L : CLocale) (editor : Option Bytes) :
    runAll L (.initial editor) (directives (chunks maxLineSize othersFile)) =
      some ⟨.initial editor, [], some othersProfile⟩ := by
  rw [directives_othersFile]
  rfl

/-- A line put between the lines of a file is read between what was read before. -/
theorem runAll_insert (L : CLocale) (state : ConfigState) {before line : Bytes}
    (whole : Terminated before) (ended : Terminated line) (after : Bytes) :
    runAll L state (directives (chunks maxLineSize (before ++ line ++ after))) =
      (runAll L state (directives (chunks maxLineSize before))).bind fun state =>
        (runAll L state (directives (chunks maxLineSize line))).bind fun state =>
          runAll L state (directives (chunks maxLineSize after)) := by
  rw [maxLineSize_eq, List.append_assoc, chunks_append_of_terminated 16382 whole,
    chunks_append_of_terminated 16382 ended, directives, List.map_append, List.map_append,
    runAll_append]
  congr 1
  funext next
  exact runAll_append L next _ _

/-- Directives that leave what is read of both files as it was say nothing. -/
theorem effective_eq_nil {L : CLocale} {editor : Option Bytes} {line : Bytes}
    (ended : Terminated line)
    (same : ∀ before, Terminated before → readBack L editor (before ++ line) =
      readBack L editor before) :
    effective (directives (chunks maxLineSize line)) = [] := by
  have final : ∀ before profile, Terminated before →
      runAll L (.initial editor) (directives (chunks maxLineSize before)) =
        some ⟨.initial editor, [], some profile⟩ →
      ∃ final, runAll L ⟨.initial editor, [], some profile⟩ (directives (chunks maxLineSize line)) =
        some final ∧ final.profiles = [profile] := by
    intro before profile whole read
    have kept := same before whole
    have inserted := runAll_insert L (.initial editor) whole ended []
    rw [List.append_nil] at inserted
    rw [readBack_eq, readBack_eq, inserted, read, Option.bind_some, Option.map_some] at kept
    obtain ⟨final, accepted, equal⟩ := Option.map_eq_some_iff.mp kept
    obtain ⟨final', accepted', rest⟩ := Option.bind_eq_some_iff.mp accepted
    cases rest
    exact ⟨_, accepted', congrArg Prod.snd equal⟩
  obtain ⟨one, accepted, profiles⟩ :=
    final defaultsFile defaultsProfile (by decide) (runAll_defaultsFile L editor)
  obtain ⟨other, accepted', profiles'⟩ :=
    final othersFile othersProfile (by decide) (runAll_othersFile L editor)
  rcases List.eq_nil_or_concat (effective (directives (chunks maxLineSize line))) with
    none | ⟨front, last, ends⟩
  · exact none
  · rw [List.concat_eq_append] at ends
    obtain ⟨name, value, _, left, asked, current, assigned⟩ :=
      ends_with_set accepted rfl profiles ends
    obtain ⟨name', value', _, right, asked', current', assigned'⟩ :=
      ends_with_set accepted' rfl profiles' ends
    cases current
    cases current'
    rw [asked] at asked'
    cases asked'
    have agree := setProfileVariable_agree assigned assigned'
    exact absurd agree (by decide +kernel)

/-- A comment changes no file exactly when every buffer of it after the first one asks for
nothing. -/
theorem comment_changes_nothing_iff (L : CLocale) (editor : Option Bytes) {body : Bytes}
    (comment : Comment body) :
    (∀ before after, Terminated before → Terminated after →
        readBack L editor (before ++ (body ++ [newline]) ++ after) =
          readBack L editor (before ++ after)) ↔
      ∀ piece ∈ (chunks maxLineSize (body ++ [newline])).tail,
        directive (upToNul piece) = .nothing := by
  have ended : Terminated (body ++ [newline]) := terminated_append_newline body
  constructor
  · intro same piece member
    have alike : ∀ before, Terminated before →
        readBack L editor (before ++ (body ++ [newline])) = readBack L editor before := by
      intro before whole
      simpa using same before [] whole terminated_nil
    have silent := effective_eq_nil ended alike
    have asked : directive (upToNul piece) ∈ directives (chunks maxLineSize (body ++ [newline])) :=
      List.mem_map_of_mem (List.mem_of_mem_tail member)
    simpa using List.filter_eq_nil_iff.mp silent _ asked
  · intro silent before after whole _
    have nothing : effective (directives (chunks maxLineSize (body ++ [newline]))) = [] := by
      rw [directives_comment comment, effective, List.filter_eq_nil_iff]
      intro asked member
      rcases List.mem_cons.mp member with rfl | later
      · simp
      · obtain ⟨piece, inside, rfl⟩ := List.mem_map.mp later
        simp [silent piece inside]
    have skipped : ∀ state,
        runAll L state (directives (chunks maxLineSize (body ++ [newline]))) = some state := by
      intro state
      rw [← runAll_effective, nothing]
      rfl
    have apart : runAll L (.initial editor) (directives (chunks maxLineSize (before ++ after))) =
        (runAll L (.initial editor) (directives (chunks maxLineSize before))).bind fun state =>
          runAll L state (directives (chunks maxLineSize after)) := by
      rw [maxLineSize_eq, chunks_append_of_terminated 16382 whole, directives, List.map_append]
      exact runAll_append L _ _ _
    rw [readBack_eq, readBack_eq, runAll_insert L _ whole ended, apart]
    simp only [skipped, Option.bind_some]

/-- A comment that fits the buffer, with a tab in front. -/
theorem comment_changes_nothing_iff_short :
    (∀ before after, Terminated before → Terminated after →
        readBack CLocale.ascii none (before ++ (ascii "\t#set \"" ++ [newline]) ++ after) =
          readBack CLocale.ascii none (before ++ after)) ↔
      ∀ piece ∈ (chunks maxLineSize (ascii "\t#set \"" ++ [newline])).tail,
        directive (upToNul piece) = .nothing :=
  comment_changes_nothing_iff CLocale.ascii none (.blank (.inr rfl) (.hash (ascii "set \"")))

/-- A comment whose first part fills the buffer. -/
def longComment : Bytes := 0x23 :: (List.replicate 16382 0x2d ++ ascii "set backup no")

/-- A comment longer than the buffer is read in two pieces. -/
theorem chunks_longComment : chunks maxLineSize (longComment ++ [newline]) =
    [0x23 :: List.replicate 16382 0x2d, ascii "set backup no" ++ [newline]] := by
  have first : newline ∉ (0x23 :: List.replicate 16382 0x2d : Bytes) := by
    simp only [List.mem_cons, List.mem_replicate, not_or]
    decide
  have full := readLine_length_append first (ascii "set backup no" ++ [newline])
  rw [List.length_cons, List.length_replicate] at full
  have split : longComment ++ [newline] =
      0x23 :: List.replicate 16382 0x2d ++ (ascii "set backup no" ++ [newline]) := by
    rw [longComment, List.cons_append, List.cons_append, List.append_assoc]
  have more : 0x23 :: List.replicate 16382 0x2d ++ (ascii "set backup no" ++ [newline]) ≠ [] :=
    List.append_ne_nil_of_left_ne_nil (List.cons_ne_nil _ _) _
  rw [split, maxLineSize_eq, chunks_of_ne_nil 16382 more, full]
  have last : chunks 16384 (ascii "set backup no" ++ [newline]) =
      [ascii "set backup no" ++ [newline]] := by decide +kernel
  rw [last]

/-- The end of a long comment turns the backups off. -/
theorem comment_changes_file :
    ¬ ∀ (L : CLocale) (editor : Option Bytes) (body : Bytes), Comment body → newline ∉ body →
      ∀ before after, Terminated before → Terminated after →
        readBack L editor (before ++ (body ++ [newline]) ++ after) =
          readBack L editor (before ++ after) := by
  intro claim
  have comment : Comment longComment := .hash _
  have free : newline ∉ longComment := by
    simp only [longComment, List.mem_cons, List.mem_append, List.mem_replicate, not_or]
    decide
  have same := claim CLocale.ascii none longComment comment free [] [] terminated_nil terminated_nil
  have asked : directives (chunks maxLineSize (longComment ++ [newline])) =
      [.nothing, .set (ascii "backup") (some (ascii "no"))] := by
    rw [directives_comment comment, chunks_longComment]
    decide +kernel
  rw [List.nil_append, List.append_nil, List.nil_append, readBack_eq, readBack_eq, asked] at same
  exact absurd (congrArg (fun read => read.map fun left => left.1.backup) same) (by decide)

end Mdp.Comments
