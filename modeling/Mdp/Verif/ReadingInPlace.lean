import Mdp.ConfigMemory
import Mdp.Verif.Decoding

/-!
# The configuration is read in place

Every line is cut up inside the array it was read into. Nothing outside the array is read or
written, the words found stay whole while they are in use, and what the lines do is what
`Mdp.ConfigFile` computes from them as lists.
-/

namespace Mdp.ReadingInPlace

open CStrings OnCells

variable {cells : Bytes} {p : Nat} {s : Bytes}

/-- The loop writes NULs over the white space at the end. -/
theorem stripBelow_run (holds : Holds cells p s) :
    ∃ after, stripBelow p s.length cells = some ((), after) ∧ after.length = cells.length ∧
      Holds after p (stripTrailingWhitespaces s) := by
  induction s using List.reverseRecOn generalizing cells with
  | nil => exact ⟨cells, rfl, rfl, holds⟩
  | append_singleton front byte ih =>
    have nonNull : byte ≠ 0 := holds.string byte (by simp)
    rw [List.length_append, List.length_singleton, stripBelow, bind_run holds.later.fetch_first]
    by_cases white : byte ∈ whitespace
    · have member : ¬ byte ∉ whitespace ++ [0] := by simp [white]
      obtain ⟨between, written, keeps, first, -⟩ := holds.cut
      obtain ⟨after, stripped, length, stands⟩ := ih first
      rw [if_neg member, bind_run written, stripTrailingWhitespaces,
        List.rdropWhile_concat_pos _ _ _ (by simpa using white)]
      exact ⟨after, stripped, length.trans keeps.length, stands⟩
    · have other : byte ∉ whitespace ++ [0] := by simp [white, nonNull]
      rw [if_pos other, stripTrailingWhitespaces,
        List.rdropWhile_concat_neg _ _ _ (by simpa using white)]
      exact ⟨cells, rfl, rfl, holds⟩

/-- `strip_trailing_whitespaces` leaves the stripped string. -/
theorem stripTrailingWhitespacesIn_run (holds : Holds cells p s) (int : s.length ≤ 2147483648) :
    ∃ after, stripTrailingWhitespacesIn p cells = some ((), after) ∧
      after.length = cells.length ∧ Holds after p (stripTrailingWhitespaces s) := by
  have index : (Int.bmod ((s.length : Int) - 1) 4294967296 + 1).toNat = s.length := by
    have small : Int.bmod ((s.length : Int) - 1) 4294967296 = (s.length : Int) - 1 :=
      Int.bmod_eq_of_le (by omega) (by omega)
    omega
  rw [stripTrailingWhitespacesIn, bind_run holds.strlen_run, index]
  exact stripBelow_run holds

/-- What the pointers that `strdelim` gives are for: the token stands where the string began, and
what is left of the string stands behind its terminator, or is the terminator itself. -/
inductive Cut (cells : Bytes) (p : Nat) :
    Option Nat × Option Nat → Option Bytes × Option Bytes → Prop where
  | refused : Cut cells p (none, none) (none, none)
  | last {token : Bytes} (there : Holds cells p token) :
      Cut cells p (some p, none) (some token, none)
  | quoted {token : Bytes} (there : Holds cells p token) :
    Cut cells p (some p, some (p + token.length)) (some token, some [])
  | token {token rest : Bytes} {q : Nat} (there : Holds cells p token)
    (apart : p + token.length < q) (later : Holds cells q rest) :
    Cut cells p (some p, some q) (some token, some rest)

/-- A token ends before white space, a quote or an equals sign. -/
theorem inToken_iff (byte : UInt8) :
    inToken byte = true ↔ byte ∉ whitespace ++ [quote, equals] := by
  simp [inToken]

/-- A string up to a delimiter. -/
theorem dropWhile_inToken {delimiter : UInt8} {rest : Bytes}
    (found : s.dropWhile inToken = delimiter :: rest) :
    s = s.takeWhile inToken ++ delimiter :: rest ∧
      (∀ byte ∈ s.takeWhile inToken, byte ∉ whitespace ++ [quote, equals]) ∧
      delimiter ∈ whitespace ++ [quote, equals] := by
  have split := List.takeWhile_append_dropWhile (p := inToken) (l := s)
  have stops := List.head?_dropWhile_not inToken s
  rw [found] at split stops
  refine ⟨split.symm, fun byte member => (inToken_iff byte).mp (List.mem_takeWhile_imp member), ?_⟩
  by_contra inside
  have passed : inToken delimiter = true := (inToken_iff delimiter).mpr inside
  simp [passed] at stops

/-- A quoted part of a token: the opening quote goes, and a NUL stands for the closing one. -/
theorem strdelimIn_quote {word rest : Bytes} (holds : Holds cells p (word ++ quote :: rest))
    (free : ∀ byte ∈ word, byte ∉ whitespace ++ [quote, equals]) :
    ∃ found after, strdelimIn (some p) cells = some (found, after) ∧ Keeps p cells after ∧
      Cut after p found (if quote ∈ rest then
        (some (word ++ rest.takeWhile (· ≠ quote)), some []) else (none, none)) := by
  have here := holds.later
  obtain ⟨between, moved, keeps, stands⟩ := holds.close_up
  have front : Keeps p cells between := keeps.mono (Nat.le_add_right p word.length)
  rw [strdelimIn, bind_run (holds.strpbrk_some free (by simp))]
  simp only [bind_run here.fetch_first, if_pos, bind_run here.strlen_run]
  rw [List.length_cons, bind_run moved]
  by_cases closed : quote ∈ rest
  · obtain ⟨body, tail, split, free⟩ := List.eq_append_cons_of_mem closed
    subst split
    have body_free : ∀ byte ∈ body, byte ∉ [quote] := by
      intro byte member same
      rw [List.mem_singleton] at same
      exact free (same ▸ member)
    have searched := stands.later.strpbrk_some body_free (List.mem_singleton.mpr rfl)
    rw [← List.append_assoc] at stands
    obtain ⟨after, written, kept, token, -⟩ := stands.cut
    rw [List.length_append, ← Nat.add_assoc] at written kept
    have text : (body ++ quote :: tail).takeWhile (· ≠ quote) = body := by
      rw [List.takeWhile_append_of_pos (by
        intro byte member
        simpa using body_free byte member)]
      simp
    rw [bind_run searched, if_pos closed, text]
    simp only [bind_run written]
    refine ⟨_, after, rfl, front.trans (kept.mono (by omega)), ?_⟩
    rw [Nat.add_assoc, ← List.length_append]
    exact .quoted token
  · have missing : ∀ byte ∈ rest, byte ∉ [quote] := by
      intro byte member same
      rw [List.mem_singleton] at same
      exact closed (same ▸ member)
    rw [bind_run (stands.later.strpbrk_none missing), if_neg closed]
    exact ⟨_, between, rfl, front, .refused⟩

/-- A token up to a delimiter, which a NUL replaces. -/
theorem strdelimIn_delimiter {word rest : Bytes} {delimiter : UInt8}
    (holds : Holds cells p (word ++ delimiter :: rest))
    (free : ∀ byte ∈ word, byte ∉ whitespace ++ [quote, equals])
    (stops : delimiter ∈ whitespace ++ [quote, equals]) (other : delimiter ≠ quote) :
    ∃ found after, strdelimIn (some p) cells = some (found, after) ∧ Keeps p cells after ∧
      Cut after p found (some word, some (afterDelimiter delimiter rest)) := by
  have proper : (0 : UInt8) ∉ whitespace := by decide
  have here := holds.later
  obtain ⟨after, written, keeps, token, behind⟩ := holds.cut
  have front : Keeps p cells after := keeps.mono (Nat.le_add_right p word.length)
  obtain ⟨n, spanned, later⟩ := behind.strspn_run whitespace proper
  have place : p + word.length + 1 + n = p + word.length + (n + 1) := by omega
  rw [place] at later
  change Holds after _ (skipWhitespace rest) at later
  rw [strdelimIn, bind_run (holds.strpbrk_some free stops)]
  simp only [bind_run here.fetch_first, if_neg other, bind_run written, bind_run spanned]
  cases skipped : skipWhitespace rest with
  | nil =>
    rw [skipped] at later
    have nothing : ¬ ((0 : UInt8) = equals ∧ ¬ delimiter = equals) := fun both =>
      absurd both.1 (by decide)
    rw [bind_run later.fetch_end, if_neg nothing, afterDelimiter, skipped]
    exact ⟨_, after, rfl, front, .token token (by omega) later⟩
  | cons byte tail =>
    rw [skipped] at later
    rw [bind_run later.fetch_first, afterDelimiter, skipped]
    by_cases second : byte = equals ∧ ¬ delimiter = equals
    · have whole : Holds after (p + word.length + (n + 1)) ([byte] ++ tail) := later
      have behind : Holds after (p + word.length + (n + 1) + 1) tail := whole.later
      obtain ⟨m, spanned, later⟩ := behind.strspn_run whitespace proper
      have place : p + word.length + (n + 1) + 1 + m = p + word.length + (n + 1) +
        (m + 1) := by omega
      rw [place] at later
      simp only [if_pos second, bind_run spanned]
      exact ⟨_, after, rfl, front, .token token (by omega) later⟩
    · simp only [if_neg second]
      exact ⟨_, after, rfl, front, .token token (by omega) later⟩

/-- `strdelim` cuts a string in its array as it cuts a list. -/
theorem strdelimIn_run (holds : Holds cells p s) :
    ∃ found after, strdelimIn (some p) cells = some (found, after) ∧ Keeps p cells after ∧
      Cut after p found (strdelim (some s)) := by
  cases found : s.dropWhile inToken with
  | nil =>
    have free : ∀ byte ∈ s, byte ∉ whitespace ++ [quote, equals] := fun byte member =>
      (inToken_iff byte).mp (List.dropWhile_eq_nil_iff.mp found byte member)
    have cut : strdelim (some s) = (some s, none) := by simp only [strdelim, found]
    rw [strdelimIn, bind_run (holds.strpbrk_none free), cut]
    exact ⟨_, cells, rfl, .refl p cells, .last holds⟩
  | cons delimiter rest =>
    obtain ⟨split, free, stops⟩ := dropWhile_inToken found
    simp only [strdelim, found]
    rw [split] at holds
    by_cases opens : delimiter = quote
    · rw [if_pos opens]
      rw [opens] at holds
      exact strdelimIn_quote holds free
    · rw [if_neg opens]
      exact strdelimIn_delimiter holds free stops opens

/-- The next token is cut off without touching the one before it. -/
theorem Cut.next {token line : Option Nat} {word rest : Option Bytes}
    (cut : Cut cells p (token, line) (word, rest)) :
    ∃ q found after, strdelimIn line cells = some (found, after) ∧ after.length = cells.length ∧
      Cut after q found (strdelim rest) ∧
      ∀ at_ text, token = some at_ → word = some text → Holds after at_ text := by
  cases cut with
  | refused => exact ⟨0, _, cells, rfl, rfl, .refused, fun _ _ null => nomatch null⟩
  | last there =>
    refine ⟨0, _, cells, rfl, rfl, .refused, ?_⟩
    rintro _ _ ⟨⟩ ⟨⟩
    exact there
  | @quoted word there =>
    have last := there.last
    rw [strdelimIn, bind_run (last.strpbrk_none (by simp))]
    refine ⟨_, _, cells, rfl, rfl, .last last, ?_⟩
    rintro _ _ ⟨⟩ ⟨⟩
    exact there
  | token there apart later =>
    obtain ⟨found, after, ran, keeps, cut⟩ := strdelimIn_run later
    refine ⟨_, found, after, ran, keeps.length, cut, ?_⟩
    rintro _ _ ⟨⟩ ⟨⟩
    exact there.kept keeps apart

/-- What a line with a keyword asks for. -/
def keywordDirective (keyword : Bytes) (rest : Option Bytes) : Directive :=
  if keyword = ascii "set" then
    match strdelim rest with
    | (none, _) => .setNothing
    | (some name, rest) => .set name (strdelim rest).1
  else if keyword = ascii "profile" then
    match strdelim rest with
    | (none, _) => .profileNothing
    | (some name, _) => .profile name
  else .unknown

/-- The pointer that a cut gives stands for its token. -/
theorem Cut.stringAt?_run {token line : Option Nat} {word rest : Option Bytes}
    (cut : Cut cells p (token, line) (word, rest)) :
    stringAt? token cells = some (word, cells) := by
  cases cut with
  | refused => rfl
  | last there | quoted there | token there =>
    rw [stringAt?, bind_run there.stringAt_run]
    rfl

/-- A cut that gives a token gives a pointer to it. -/
theorem Cut.some_iff {token line : Option Nat} {word rest : Option Bytes}
    (cut : Cut cells p (token, line) (word, rest)) :
    (token = none ∧ word = none) ∨ ∃ at_ text, token = some at_ ∧ word = some text ∧
      Holds cells at_ text := by
  cases cut with
  | refused => exact .inl ⟨rfl, rfl⟩
  | last there | quoted there | token there => exact .inr ⟨_, _, rfl, rfl, there⟩

variable {L : CLocale} {linenum : Nat} {state : ConfigState}

/-- The words after `set`: the name is still whole when the value has been cut off. -/
theorem processKeyword_run {keyword : Nat} {line : Option Nat} {word : Bytes} {rest : Option Bytes}
    (cut : Cut cells p (some keyword, line) (some word, rest)) :
    ∃ after, processKeyword L keyword line linenum state cells =
        some ((keywordDirective word rest).run L linenum state, after) ∧
      after.length = cells.length := by
  have word_there : Holds cells keyword word := by
    rcases cut.some_iff with ⟨null, -⟩ | ⟨_, _, pointer, text, there⟩
    · cases null
    · cases pointer
      cases text
      exact there
  obtain ⟨q, ⟨name, line'⟩, between, named, length, second, -⟩ := cut.next
  rw [processKeyword, bind_run word_there.stringAt_run, keywordDirective]
  cases tokens : strdelim rest with
  | mk name_text rest' =>
    rw [tokens] at second
    by_cases sets : word = ascii "set"
    · rw [if_pos sets, if_pos sets, bind_run named]
      rcases second.some_iff with ⟨null, missing⟩ | ⟨at_, text, pointer, given, -⟩
      · subst null missing
        exact ⟨between, rfl, length⟩
      · subst pointer given
        obtain ⟨_, ⟨value, _⟩, after, valued, same, third, stands⟩ := second.next
        have name_there := stands at_ text rfl rfl
        simp only [bind_run valued, bind_run name_there.stringAt_run]
        cases tokens : strdelim rest' with
        | mk value_text _ =>
          rw [tokens] at third
          rw [bind_run third.stringAt?_run]
          exact ⟨after, rfl, same.trans length⟩
    · rw [if_neg sets, if_neg sets]
      by_cases profiles : word = ascii "profile"
      · rw [if_pos profiles, if_pos profiles, bind_run named]
        rcases second.some_iff with ⟨null, missing⟩ | ⟨at_, text, pointer, given, there⟩
        · subst null missing
          exact ⟨between, rfl, length⟩
        · subst pointer given
          simp only [bind_run there.stringAt_run]
          exact ⟨between, rfl, length⟩
      · rw [if_neg profiles, if_neg profiles]
        exact ⟨cells, rfl, rfl⟩

/-- The first cell of a string says whether its line is ignored. -/
theorem ignoredKeyword_iff {keyword : Bytes} {first : UInt8}
    (there : Holds cells p keyword) (read : fetch p cells = some (first, cells)) :
    ignoredKeyword keyword = true ↔ first = 0 ∨ first = newline ∨ first = 0x23 := by
  cases keyword with
  | nil =>
    rw [there.fetch_end] at read
    cases read
    simp [ignoredKeyword]
  | cons byte rest =>
    have nonNull := there.string byte (List.mem_cons_self ..)
    rw [there.fetch_first] at read
    cases read
    simp [ignoredKeyword, nonNull]

/-- The words of a line, once its keyword has been found. -/
theorem keyword_run (L : CLocale) (linenum : Nat) (state : ConfigState) {keyword line : Option Nat}
    {word rest : Option Bytes}
    (cut : Cut cells p (keyword, line) (word, rest)) :
    ∃ after, (match (keyword, line) with
        | (none, _) => (pure (.ok state) : OnCells UInt8 (Except ConfigError ConfigState))
        | (some keyword, line) => do
          let first ← fetch keyword
          if first = 0 ∨ first = newline ∨ first = 0x23 then pure (.ok state)
          else processKeyword L keyword line linenum state) cells =
        some ((match (word, rest) with
          | (none, _) => Directive.nothing
          | (some keyword, rest) =>
            if ignoredKeyword keyword then .nothing else keywordDirective keyword rest).run L
              linenum
              state, after) ∧
      after.length = cells.length := by
  rcases cut.some_iff with ⟨null, missing⟩ | ⟨at_, text, pointer, given, there⟩
  · subst null missing
    exact ⟨cells, rfl, rfl⟩
  · subst pointer given
    have first : ∃ byte, fetch at_ cells = some (byte, cells) := by
      cases text with
      | nil => exact ⟨0, there.fetch_end⟩
      | cons byte text => exact ⟨byte, there.fetch_first⟩
    obtain ⟨byte, read⟩ := first
    simp only [bind_run read]
    by_cases ignored : byte = 0 ∨ byte = newline ∨ byte = 0x23
    · rw [if_pos ignored, if_pos ((ignoredKeyword_iff there read).mpr ignored)]
      exact ⟨cells, rfl, rfl⟩
    · rw [if_neg ignored, if_neg (fun also => ignored ((ignoredKeyword_iff there read).mp also))]
      exact processKeyword_run cut

/-- A line does in its array what it does as a list. -/
theorem processConfigLineIn_run (L : CLocale) (linenum : Nat) (state : ConfigState)
    (holds : Holds cells p s) (int : s.length ≤ 2147483648) :
    ∃ after, processConfigLineIn L p linenum state cells =
        some (processConfigLine L s linenum state, after) ∧ after.length = cells.length := by
  obtain ⟨stripped, ran, length, stands⟩ := stripTrailingWhitespacesIn_run holds int
  obtain ⟨⟨keyword, line⟩, between, cut_off, keeps, cut⟩ := strdelimIn_run stands
  have sized : between.length = cells.length := keeps.length.trans length
  rw [processConfigLineIn, bind_run ran, bind_run cut_off, processConfigLine, directive,
    configKeyword]
  cases tokens : strdelim (some (stripTrailingWhitespaces s)) with
  | mk word rest =>
    rw [tokens] at cut
    rcases cut.some_iff with ⟨null, missing⟩ | ⟨at_, text, pointer, given, there⟩
    · subst null missing
      exact ⟨between, rfl, sized⟩
    · subst pointer given
      cases text with
      | nil =>
        obtain ⟨q, ⟨keyword, line'⟩, later, again, same, cut, -⟩ := cut.next
        simp only [bind_run there.fetch_end, if_pos, bind_run again]
        cases tokens : strdelim rest with
        | mk word rest' =>
          rw [tokens] at cut
          obtain ⟨after, done, kept⟩ := keyword_run L linenum state cut
          exact ⟨after, done, kept.trans (same.trans sized)⟩
      | cons byte text =>
        have nonNull := there.string byte (List.mem_cons_self ..)
        have full : ¬ some (byte :: text) = some [] := by simp
        simp only [bind_run there.fetch_first, if_neg nonNull, if_neg full]
        obtain ⟨after, done, kept⟩ := keyword_run L linenum state cut
        exact ⟨after, done, kept.trans sized⟩

/-- What `fgets` has read stands at the front of the array, up to its first NUL. -/
theorem fgetsIn_run {chunk : Bytes} (room : chunk.length < cells.length) :
    ∃ after, fgetsIn chunk cells = some ((), after) ∧ after.length = cells.length ∧
      Holds after 0 (upToNul chunk) := by
  refine ⟨chunk ++ 0 :: cells.drop (chunk.length + 1), ?_, ?_, ?_⟩
  · rw [fgetsIn, if_pos room]
  · rw [List.length_append, List.length_cons, List.length_drop]
    omega
  · exact holds_written chunk (cells.drop (chunk.length + 1))

/-- The lines are read in place as they are read as lists. -/
theorem configLinesIn_run (L : CLocale) (linenum : Nat) (state : ConfigState) {lines : List Bytes}
    (room : ∀ chunk ∈ lines, chunk.length < cells.length)
    (int : cells.length ≤ 2147483648) :
    ∃ after, configLinesIn L linenum state lines cells =
        some (configLines L linenum state lines, after) ∧ after.length = cells.length := by
  induction lines generalizing cells linenum state with
  | nil => exact ⟨cells, rfl, rfl⟩
  | cons chunk rest ih =>
    rw [List.forall_mem_cons] at room
    obtain ⟨filled, written, length, stands⟩ := fgetsIn_run room.1
    have short : (upToNul chunk).length ≤ 2147483648 := by
      have inside := stands.inside
      omega
    obtain ⟨between, ran, same⟩ := processConfigLineIn_run L linenum state stands short
    rw [configLinesIn, bind_run written, bind_run ran, configLines]
    have sized : between.length = cells.length := same.trans length
    cases processConfigLine L (upToNul chunk) linenum state with
    | error error => exact ⟨between, rfl, sized⟩
    | ok next =>
      obtain ⟨after, done, kept⟩ := ih (linenum + 1) next (by rw [sized]; exact room.2)
        (by rw [sized]; exact int)
      exact ⟨after, done, kept.trans sized⟩

/-- For every file and whatever the array holds, `config_read` keeps to the array and accepts,
refuses and sets what it does on lists. -/
theorem config_read_in_place (L : CLocale) (state : ConfigState) (content : Option Bytes)
    (line : Bytes) (size : line.length = maxLineSize) :
    ∃ after, configReadIn L state content line = some (configRead L state content, after) ∧
      after.length = maxLineSize := by
  cases content with
  | none => exact ⟨line, rfl, size⟩
  | some content =>
    have room : ∀ chunk ∈ chunks maxLineSize content, chunk.length < line.length := by
      intro chunk member
      rw [size]
      exact Decoding.chunk_length member
    obtain ⟨after, ran, kept⟩ := configLinesIn_run L 1 state room
      (by rw [size]; decide)
    exact ⟨after, ran, kept.trans size⟩

/-- A line with a quoted value, read into an array of NULs. -/
theorem config_read_in_place_quoted : ∃ state after,
    configReadIn .ascii (.initial none) (some (ascii "set editor \"vim -u x\"\n"))
      (List.replicate maxLineSize 0) = some (.ok state, after) ∧
      state.settings.editor = some (ascii "vim -u x") := by
  obtain ⟨after, ran, -⟩ := config_read_in_place .ascii (.initial none)
    (some (ascii "set editor \"vim -u x\"\n")) (List.replicate maxLineSize 0) List.length_replicate
  have accepted : (configRead .ascii (.initial none)
      (some (ascii "set editor \"vim -u x\"\n"))).toOption.bind (·.settings.editor) =
        some (ascii "vim -u x") := by decide +kernel
  cases read : configRead .ascii (.initial none) (some (ascii "set editor \"vim -u x\"\n")) with
  | error error =>
    rw [read] at accepted
    cases accepted
  | ok state =>
    rw [read] at ran accepted
    exact ⟨state, after, ran, accepted⟩

end Mdp.ReadingInPlace
