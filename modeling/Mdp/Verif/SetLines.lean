import Mdp.ConfigFile

/-!
# `set` lines

What `process_config_line` reads off a line that consists of blanks, `set`, a name, a separator and
a value: the tokens, and what is left of the buffer between them.
-/

namespace Mdp.SetLines

open Mdp CStrings

/-- Spaces and tabs. -/
def Blanks (s : Bytes) : Prop := ∀ byte ∈ s, byte = 0x20 ∨ byte = 0x09

/-- A text without delimiters. -/
def Word (s : Bytes) : Prop := ∀ byte ∈ s, inToken byte = true

/-- Whether a text is blank can be decided. -/
instance (s : Bytes) : Decidable (Blanks s) :=
  decidable_of_iff (s.all (fun byte => byte == 0x20 || byte == 0x09) = true) (by
    simp only [Blanks, List.all_eq_true, Bool.or_eq_true, beq_iff_eq])

/-- Whether a text is a word can be decided. -/
instance (s : Bytes) : Decidable (Word s) :=
  decidable_of_iff (s.all inToken = true) List.all_eq_true

/-- Blanks are white space. -/
theorem Blanks.white {blanks : Bytes} (only : Blanks blanks) :
    ∀ byte ∈ blanks, byte ∈ whitespace := by
  intro byte member
  rcases only byte member with rfl | rfl <;> decide

/-- There is no NUL among blanks. -/
theorem Blanks.nonNull {blanks : Bytes} (only : Blanks blanks) : (0 : UInt8) ∉ blanks := by
  intro member
  rcases only 0 member with same | same <;> exact absurd same (by decide)

/-- A byte of a word is no whitespace, no quote and no `=`. -/
theorem of_inToken {byte : UInt8} (inside : inToken byte = true) :
    byte ∉ whitespace ∧ byte ≠ quote ∧ byte ≠ equals := by
  unfold inToken at inside
  rw [decide_eq_true_eq, List.mem_append, not_or] at inside
  simp only [List.mem_cons, List.not_mem_nil, or_false, not_or] at inside
  exact inside

/-- Whitespace in front of another byte is skipped. -/
theorem skipWhitespace_white {white rest : Bytes} {byte : UInt8}
    (only : ∀ other ∈ white, other ∈ whitespace) (ink : byte ∉ whitespace) :
    skipWhitespace (white ++ byte :: rest) = byte :: rest := by
  unfold skipWhitespace
  rw [List.dropWhile_append_of_pos
    (by simpa using only), List.dropWhile_cons_of_neg (by simpa using ink)]

/-- What follows blanks, where this is no `=`. -/
theorem afterDelimiter_white {white rest : Bytes} {delimiter byte : UInt8}
    (only : ∀ other ∈ white, other ∈ whitespace) (ink : byte ∉ whitespace) (other : byte ≠ equals) :
    afterDelimiter delimiter (white ++ byte :: rest) = byte :: rest := by
  unfold afterDelimiter
  rw [skipWhitespace_white only ink]
  exact if_neg fun both => other both.1

/-- A word up to a delimiter. -/
theorem strdelim_word {word rest : Bytes} {delimiter : UInt8} (whole : Word word)
    (ends : inToken delimiter = false) (unquoted : delimiter ≠ quote) :
    strdelim (some (word ++ delimiter :: rest)) =
      (some word, some (afterDelimiter delimiter rest)) := by
  have left : (word ++ delimiter :: rest).dropWhile inToken = delimiter :: rest := by
    rw [List.dropWhile_append_of_pos whole, List.dropWhile_cons_of_neg (by simp [ends])]
  have token : (word ++ delimiter :: rest).takeWhile inToken = word := by
    rw [List.takeWhile_append_of_pos whole, List.takeWhile_cons_of_neg (by simp [ends]),
      List.append_nil]
  unfold strdelim
  simp only [left, token, if_neg unquoted]

/-- A word at the end of the buffer. -/
theorem strdelim_last {word : Bytes} (whole : Word word) :
    strdelim (some word) = (some word, none) := by
  have left : word.dropWhile inToken = [] := List.dropWhile_eq_nil_iff.mpr whole
  unfold strdelim
  simp only [left]

/-- A value between quotes. -/
theorem strdelim_quoted {value : Bytes} (unquoted : quote ∉ value) (rest : Bytes) :
    strdelim (some (quote :: (value ++ quote :: rest))) = (some value, some []) := by
  have delimits : ¬ inToken quote = true := by decide
  have closed : quote ∈ value ++ quote :: rest := by simp
  have inside : ∀ byte ∈ value, decide (byte ≠ quote) = true := by
    intro byte member
    rw [decide_eq_true_eq]
    rintro rfl
    exact unquoted member
  have left : (quote :: (value ++ quote :: rest)).dropWhile inToken =
      quote :: (value ++ quote :: rest) :=
    List.dropWhile_cons_of_neg delimits
  have front : (quote :: (value ++ quote :: rest)).takeWhile inToken = [] :=
    List.takeWhile_cons_of_neg delimits
  have token : (value ++ quote :: rest).takeWhile (fun byte => decide (byte ≠ quote)) = value := by
    rw [List.takeWhile_append_of_pos inside,
      List.takeWhile_cons_of_neg (by decide), List.append_nil]
  simp only [strdelim, left, front, token, if_true, if_pos closed, List.nil_append]

/-- The first token of a text without quotes. -/
theorem takeWhile_of_strdelim {s token : Bytes} (unquoted : quote ∉ s)
    (first : (strdelim (some s)).1 = some token) : token = s.takeWhile inToken := by
  cases left : s.dropWhile inToken with
  | nil =>
    simp only [strdelim, left] at first
    have all := List.dropWhile_eq_nil_iff.mp left
    rw [List.takeWhile_eq_self_iff.mpr all]
    exact (Option.some.inj first).symm
  | cons delimiter rest =>
    have other : delimiter ≠ quote := by
      rintro rfl
      have suffix := List.dropWhile_suffix inToken (l := s)
      rw [left] at suffix
      exact unquoted (suffix.subset (List.mem_cons_self ..))
    simp only [strdelim, left, if_neg other] at first
    exact (Option.some.inj first).symm

/-- Whitespace at the end is stripped. -/
theorem stripTrailingWhitespaces_white {front trail : Bytes} {last : UInt8}
    (ink : last ∉ whitespace) (only : ∀ byte ∈ trail, byte ∈ whitespace) :
    stripTrailingWhitespaces (front ++ last :: trail) = front ++ [last] := by
  unfold stripTrailingWhitespaces List.rdropWhile
  rw [List.reverse_append, List.reverse_cons, List.append_assoc,
    List.dropWhile_append_of_pos (by simpa using only)]
  rw [List.singleton_append, List.dropWhile_cons_of_neg (by simpa using ink)]
  simp

/-- The keyword of a line, and what follows it. -/
theorem configKeyword_word {lead gap keyword rest trail : Bytes} {byte last : UInt8}
    (before : Blanks lead) (between : Blanks gap) (spaced : gap ≠ []) (word : Word keyword)
    (nonempty : keyword ≠ []) (ink : byte ∉ whitespace) (other : byte ≠ equals)
    (end' : last ∉ whitespace) (after : ∀ byte ∈ trail, byte ∈ whitespace) :
    configKeyword (lead ++ (keyword ++ (gap ++ byte :: (rest ++ last :: trail)))) =
      (some keyword, some (byte :: (rest ++ [last]))) := by
  have stripped : stripTrailingWhitespaces
      (lead ++ (keyword ++ (gap ++ byte :: (rest ++ last :: trail)))) =
      lead ++ (keyword ++ (gap ++ byte :: (rest ++ [last]))) := by
    have parts :
      stripTrailingWhitespaces (lead ++ keyword ++ gap ++ byte :: rest ++ last :: trail) =
        lead ++ keyword ++ gap ++ byte :: rest ++ [last] :=
          stripTrailingWhitespaces_white end' after
    simpa using parts
  have delimiter : ∀ {blank : UInt8}, blank = 0x20 ∨ blank = 0x09 →
      inToken blank = false ∧ blank ≠ quote := by
    rintro blank (rfl | rfl) <;> decide
  have first : ∀ rest', strdelim (some (keyword ++ (gap ++ byte :: rest'))) =
      (some keyword, some (byte :: rest')) := by
    intro rest'
    cases gap with
    | nil => exact absurd rfl spaced
    | cons blank blanks =>
      have ends := delimiter (between blank (List.mem_cons_self ..))
      have white : ∀ other ∈ blanks, other ∈ whitespace := fun other member =>
        between.white other (List.mem_cons_of_mem _ member)
      rw [List.cons_append, strdelim_word word ends.1 ends.2, afterDelimiter_white white ink other]
  unfold configKeyword
  rw [stripped]
  cases lead with
  | nil =>
    rw [List.nil_append]
    simp only [first]
    rw [if_neg (by simpa using nonempty)]
  | cons blank blanks =>
    have ends := delimiter (before blank (List.mem_cons_self ..))
    have white : ∀ other ∈ blanks, other ∈ whitespace := fun other member =>
      before.white other (List.mem_cons_of_mem _ member)
    cases keyword with
    | nil => exact absurd rfl nonempty
    | cons letter letters =>
      have letter' := of_inToken (word letter (List.mem_cons_self ..))
      have empty : Word [] := by
        intro _ member
        cases member
      have skipped : strdelim (some (blank :: (blanks ++ (letter :: letters ++
            (gap ++ byte :: (rest ++ [last])))))) =
          (some [], some (afterDelimiter blank (blanks ++ (letter :: letters ++
            (gap ++ byte :: (rest ++ [last])))))) := strdelim_word empty ends.1 ends.2
      rw [List.cons_append]
      simp only [skipped]
      rw [List.cons_append, afterDelimiter_white white letter'.1 letter'.2.2, ← List.cons_append]
      simp only [if_true, first]

/-- A `set` line, with a byte that ends its name. -/
theorem directive_set {lead gap name tail trail : Bytes} {delimiter last : UInt8}
    (before : Blanks lead) (between : Blanks gap) (spaced : gap ≠ []) (word : Word name)
    (nonempty : name ≠ []) (ends : inToken delimiter = false) (unquoted : delimiter ≠ quote)
    (end' : last ∉ whitespace) (after : ∀ byte ∈ trail, byte ∈ whitespace) :
    directive (lead ++ (ascii "set" ++ (gap ++ (name ++ delimiter :: (tail ++ last :: trail))))) =
      .set name (strdelim (some (afterDelimiter delimiter (tail ++ [last])))).1 := by
  cases name with
  | nil => exact absurd rfl nonempty
  | cons letter letters =>
    have letter' := of_inToken (word letter (List.mem_cons_self ..))
    have keyword : configKeyword (lead ++ (ascii "set" ++ (gap ++
          letter :: (letters ++ delimiter :: tail ++ last :: trail)))) =
        (some (ascii "set"), some (letter :: (letters ++ delimiter :: tail ++ [last]))) :=
      configKeyword_word before between spaced
        (by decide) (by decide) letter'.1 letter'.2.2 end' after
    have named : strdelim (some (letter :: letters ++ delimiter :: (tail ++ [last]))) =
        (some (letter :: letters), some (afterDelimiter delimiter (tail ++ [last]))) :=
      strdelim_word word ends unquoted
    have shape : letter :: letters ++ delimiter :: (tail ++ last :: trail) =
        letter :: (letters ++ delimiter :: tail ++ last :: trail) := by simp
    have shape' : letter :: (letters ++ delimiter :: tail ++ [last]) =
        letter :: letters ++ delimiter :: (tail ++ [last]) := by simp
    unfold directive
    rw [shape, keyword, shape']
    simp only [named]
    rfl

/-- Blanks at the end of a line are stripped with its newline. -/
theorem Blanks.white_newline {trail : Bytes} (after : Blanks trail) :
    ∀ byte ∈ trail ++ [newline], byte ∈ whitespace := by
  intro byte member
  rcases List.mem_append.mp member with blank | last
  · exact after.white byte blank
  · rw [List.mem_singleton.mp last]
    decide

/-- A `set` line without NUL is read whole. -/
theorem upToNul_set {lead gap name rest : Bytes} (before : Blanks lead) (between : Blanks gap)
    (name' : (0 : UInt8) ∉ name) (rest' : (0 : UInt8) ∉ rest) :
    upToNul (lead ++ (ascii "set" ++ (gap ++ (name ++ rest)))) =
      lead ++ (ascii "set" ++ (gap ++ (name ++ rest))) := by
  have lead' := before.nonNull
  have gap' := between.nonNull
  have keyword : (0 : UInt8) ∉ ascii "set" := by decide
  apply upToNul_of_forall
  rintro byte member rfl
  simp only [List.mem_append] at member
  tauto

end Mdp.SetLines
