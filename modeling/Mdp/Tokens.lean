import Mdp.Library.Lines

/-!
# Tokens of a line

`strdelim.c`, and what `str.c` and the standard library do to the strings of a configuration line or
of a command line. A string is its bytes before the NUL; a pointer that may be null is an option.
-/

namespace Mdp

open CStrings

/-- A string literal as bytes. -/
def ascii (text : String) : Bytes := text.toList.map fun c => UInt8.ofNat c.toNat

/-- `WHITESPACE`. -/
def whitespace : Bytes := [0x20, 0x09, 0x0d, 0x0a]

/-- `strip_trailing_whitespaces`. -/
def stripTrailingWhitespaces (s : Bytes) : Bytes :=
  s.rdropWhile fun byte => decide (byte ∈ whitespace)

/-- `'"'`. -/
def quote : UInt8 := 0x22

/-- `'='`. -/
def equals : UInt8 := 0x3d

/-- Whether `strpbrk(s, WHITESPACE QUOTE "=")` passes over a byte. -/
def inToken (byte : UInt8) : Bool := decide (byte ∉ whitespace ++ [quote, equals])

/-- The whitespace that `strspn(s, WHITESPACE)` counts is skipped. -/
def skipWhitespace (s : Bytes) : Bytes := s.dropWhile fun byte => decide (byte ∈ whitespace)

/-- What follows a token: its delimiter, more whitespace, and one `=` with the whitespace after it
unless the delimiter was one. -/
def afterDelimiter (delimiter : UInt8) (s : Bytes) : Bytes :=
  match skipWhitespace s with
  | [] => []
  | byte :: rest =>
    if byte = equals ∧ delimiter ≠ equals then skipWhitespace rest else byte :: rest

/-- `strdelim`: the token it returns, and what `*s` points to afterwards. After a quoted token that
is the NUL written over the closing quote. -/
def strdelim : Option Bytes → Option Bytes × Option Bytes
  | none => (none, none)
  | some s =>
    match s.dropWhile inToken with
    | [] => (some s, none)
    | delimiter :: rest =>
      if delimiter = quote then
        if quote ∈ rest then
          (some (s.takeWhile inToken ++ rest.takeWhile (· ≠ quote)), some [])
        else (none, none)
      else (some (s.takeWhile inToken), some (afterDelimiter delimiter rest))

/-- `isspace`. -/
def isSpace (byte : UInt8) : Bool := byte == 0x20 || (0x09 ≤ byte && byte ≤ 0x0d)

/-- Whether a byte is a decimal digit. -/
def isDigit (byte : UInt8) : Bool := 0x30 ≤ byte && byte ≤ 0x39

/-- The number that digits write. -/
def digitsValue (digits : Bytes) : Nat :=
  digits.foldl (fun value digit => 10 * value + (digit.toNat - 0x30)) 0

/-- The sign in front of a number: whether it is a minus, and what follows. -/
def signed : Bytes → Bool × Bytes
  | 0x2d :: rest => (true, rest)
  | 0x2b :: rest => (false, rest)
  | text => (false, text)

/-- `strtoull(s, NULL, 10)`, which is also `strtoumax`: a number out of range is `ULLONG_MAX`, and a
minus sign negates in 64 bits. -/
def strtoull (s : Bytes) : UInt64 :=
  let text := signed (s.dropWhile isSpace)
  let value := digitsValue (text.2.takeWhile isDigit)
  if 18446744073709551615 < value then 18446744073709551615
  else if text.1 then -UInt64.ofNat value
  else UInt64.ofNat value

/-- A `strtoull` assigned to an `unsigned int`. -/
def unsignedOf (s : Bytes) : UInt32 := (strtoull s).toUInt32

/-- Digits, a sign, a number out of range and no number. -/
example : [ascii "12", ascii " -1x", ascii "18446744073709551616", ascii "x"].map unsignedOf =
    [12, 4294967295, 4294967295, 0] := by decide +kernel

/-- Nothing, or blanks, or blanks and then a `#`. -/
inductive Comment : Bytes → Prop where
  | nil : Comment []
  | hash (text : Bytes) : Comment (0x23 :: text)
  | blank {byte : UInt8} {rest : Bytes} (inside : byte = 0x20 ∨ byte = 0x09)
      (comment : Comment rest) : Comment (byte :: rest)

namespace Comment

/-- The front of a comment is a comment. -/
theorem of_front {line front : Bytes} (comment : Comment line) (part : front <+: line) :
    Comment front := by
  induction comment generalizing front with
  | nil =>
    rw [List.prefix_nil.mp part]
    exact .nil
  | hash text =>
    cases front with
    | nil => exact .nil
    | cons byte front =>
      rw [(List.cons_prefix_cons.mp part).1]
      exact .hash front
  | blank inside _ ih =>
    cases front with
    | nil => exact .nil
    | cons byte front =>
      obtain ⟨same, later⟩ := List.cons_prefix_cons.mp part
      rw [same]
      exact .blank inside (ih later)

/-- What is left when the blanks are skipped. -/
theorem skipWhitespace {line : Bytes} (comment : Comment line) :
    Mdp.skipWhitespace line = [] ∨ ∃ text, Mdp.skipWhitespace line = 0x23 :: text := by
  induction comment with
  | nil => exact .inl rfl
  | hash text =>
    right
    exact ⟨text, List.dropWhile_cons_of_neg (by decide)⟩
  | @blank byte rest inside _ ih =>
    have white : byte ∈ whitespace := by
      rcases inside with rfl | rfl <;> decide
    rw [Mdp.skipWhitespace, List.dropWhile_cons_of_pos (by simpa using white)]
    exact ih

end Comment

/-- The first token of a text that begins with `#` begins with it, if there is one. -/
theorem strdelim_hash (text : Bytes) :
    (strdelim (some (0x23 :: text))).1 = none ∨
      ∃ token, (strdelim (some (0x23 :: text))).1 = some (0x23 :: token) := by
  have first : inToken 0x23 = true := by decide
  rw [strdelim, List.dropWhile_cons_of_pos first, List.takeWhile_cons_of_pos first]
  split
  · exact .inr ⟨text, rfl⟩
  · split
    · split
      · exact .inr ⟨_, rfl⟩
      · exact .inl rfl
    · exact .inr ⟨_, rfl⟩

/-- The first token of a text that begins with a blank is empty, and what follows it is a comment if
the text is one. -/
theorem strdelim_blank {byte : UInt8} {rest : Bytes} (inside : byte = 0x20 ∨ byte = 0x09)
    (comment : Comment rest) :
    strdelim (some (byte :: rest)) = (some [], some []) ∨
      ∃ text, strdelim (some (byte :: rest)) = (some [], some (0x23 :: text)) := by
  have delimiter : ¬ inToken byte = true := by
    rcases inside with rfl | rfl <;> decide
  have other : byte ≠ quote := by
    rcases inside with rfl | rfl <;> decide
  rw [strdelim, List.dropWhile_cons_of_neg delimiter, List.takeWhile_cons_of_neg delimiter]
  simp only [if_neg other]
  rcases comment.skipWhitespace with none | ⟨text, hash⟩
  · rw [afterDelimiter, none]
    exact .inl rfl
  · rw [afterDelimiter, hash]
    have apart : ¬ ((0x23 : UInt8) = equals ∧ byte ≠ equals) := fun same =>
      absurd same.1 (by decide)
    right
    exact ⟨text, by simp only [if_neg apart]⟩

end Mdp
