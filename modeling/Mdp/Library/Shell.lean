import Mathlib.Data.List.Infix

/-!
# Words of a shell command

How `sh` splits a command into words. Unquoted blanks separate words and unquoted operators separate
commands; quotes and backslashes take their meaning from the bytes behind them, except that inside
double quotes a backslash does so only in front of `$`, a backquote, `"` and itself. A word is the
bytes that stand for themselves and the places where something is expanded: parameters and
substitutions, patterns, and a `~` in front. What is inside a substitution is only read to find its
end.

A lexer reads one byte at a time: what the byte does to the words depends on the mode that the bytes
in front of it have led to, and on whether a word was begun. A `$` with no name behind it and a
pattern that matches no file count as expanded. Here-documents, reserved words and assignments are
left out.
-/

namespace ShellWords

/-- A space. -/
abbrev space : UInt8 := 0x20
/-- A newline. -/
abbrev newline : UInt8 := 0x0a
/-- A single quote. -/
abbrev singleQuote : UInt8 := 0x27
/-- A double quote. -/
abbrev doubleQuote : UInt8 := 0x22
/-- A backslash. -/
abbrev backslash : UInt8 := 0x5c
/-- A dollar sign. -/
abbrev dollar : UInt8 := 0x24
/-- A backquote. -/
abbrev backquote : UInt8 := 0x60
/-- A tilde. -/
abbrev tilde : UInt8 := 0x7e
/-- A number sign, which begins a comment. -/
abbrev numberSign : UInt8 := 0x23

/-- A space and a tab. -/
def blanks : List UInt8 := [space, 0x09]

/-- `|`, `&`, `;`, `<`, `>`, the parentheses and a newline. -/
def operators : List UInt8 := [0x7c, 0x26, 0x3b, 0x3c, 0x3e, 0x28, 0x29, newline]

/-- `*`, `?` and `[`. -/
def patterns : List UInt8 := [0x2a, 0x3f, 0x5b]

/-- The bytes that do not stand for themselves wherever they are outside quotes. -/
def special : List UInt8 :=
  blanks ++ operators ++ [singleQuote, doubleQuote, backslash, dollar, backquote] ++ patterns

/-- A part of a word. -/
inductive Piece where
  /-- A byte that stands for itself. -/
  | literal (byte : UInt8)
  /-- Something that is expanded. -/
  | active
  deriving DecidableEq, Repr

/-- A part of a command. -/
inductive Token where
  | word (pieces : List Piece)
  | operator
  deriving DecidableEq, Repr

/-- What can be open inside a substitution. -/
inductive Frame where
  | parenthesis
  | brace
  | backquote
  | single
  | double
  deriving DecidableEq, Repr

/-- What the bytes so far have led to. -/
inductive Mode where
  /-- Outside quotes. -/
  | bare
  /-- Behind a backslash outside quotes. -/
  | escaped
  /-- Inside single quotes. -/
  | single
  /-- Inside double quotes. -/
  | double
  /-- Behind a backslash inside double quotes. -/
  | doubleEscaped
  | comment
  /-- Behind a `$`. -/
  | dollar (quoted : Bool)
  /-- Inside a substitution, with the frames that are open and a `\` or `$` just read. -/
  | substitution (quoted : Bool) (top : Frame) (outer : List Frame) (pending : Option UInt8)
  deriving DecidableEq, Repr

/-- What a byte does to the words. -/
inductive Effect where
  | keep
  /-- Begin a word unless there is one, and go on with it. -/
  | extend (pieces : List Piece)
  | finish
  | operator
  deriving DecidableEq, Repr

/-- A byte outside quotes. -/
def readBare (inWord : Bool) (c : UInt8) : Effect × Mode :=
  if c ∈ blanks then (.finish, .bare)
  else if c ∈ operators then (.operator, .bare)
  else if c = singleQuote then (.extend [], .single)
  else if c = doubleQuote then (.extend [], .double)
  else if c = backslash then (.keep, .escaped)
  else if c = dollar then (.extend [.active], .dollar false)
  else if c = backquote then (.extend [.active], .substitution false .backquote [] none)
  else if c ∈ patterns then (.extend [.active], .bare)
  else if inWord = false ∧ c = tilde then (.extend [.active], .bare)
  else if inWord = false ∧ c = numberSign then (.keep, .comment)
  else (.extend [.literal c], .bare)

/-- A byte inside double quotes. -/
def readDouble (c : UInt8) : Effect × Mode :=
  if c = doubleQuote then (.keep, .bare)
  else if c = backslash then (.keep, .doubleEscaped)
  else if c = dollar then (.extend [.active], .dollar true)
  else if c = backquote then (.extend [.active], .substitution true .backquote [] none)
  else (.extend [.literal c], .double)

/-- A byte behind a backslash inside double quotes. -/
def readDoubleEscaped (c : UInt8) : Effect :=
  if c = newline then .keep
  else if c ∈ [dollar, backquote, doubleQuote, backslash] then .extend [.literal c]
  else .extend [.literal backslash, .literal c]

/-- A byte inside a substitution: the frames that are open behind it, and whether it is pending. -/
def readSubstitution (top : Frame) (outer : List Frame) (pending : Option UInt8) (c : UInt8) :
    List Frame × Option UInt8 :=
  if pending = some backslash then (top :: outer, none)
  else if pending = some dollar ∧ c = 0x28 then (.parenthesis :: top :: outer, none)
  else if pending = some dollar ∧ c = 0x7b then (.brace :: top :: outer, none)
  else if top = .single then if c = singleQuote then (outer, none) else (top :: outer, none)
  else if c = backslash ∨ c = dollar then (top :: outer, some c)
  else if c = backquote then
    if top = .backquote then (outer, none) else (.backquote :: top :: outer, none)
  else if c = doubleQuote then
    if top = .double then (outer, none) else (.double :: top :: outer, none)
  else if top = .double then (top :: outer, none)
  else if c = singleQuote then (.single :: top :: outer, none)
  else if top = .parenthesis ∧ c = 0x28 then (.parenthesis :: top :: outer, none)
  else if top = .parenthesis ∧ c = 0x29 ∨ top = .brace ∧ c = 0x7d then (outer, none)
  else (top :: outer, none)

/-- The mode with some frames open, or outside the substitution. -/
def Mode.nested (quoted : Bool) : List Frame × Option UInt8 → Mode
  | ([], _) => if quoted then .double else .bare
  | (top :: outer, pending) => .substitution quoted top outer pending

/-- A byte. -/
def read (mode : Mode) (inWord : Bool) (c : UInt8) : Effect × Mode :=
  match mode with
  | .bare => readBare inWord c
  | .escaped => if c = newline then (.keep, .bare) else (.extend [.literal c], .bare)
  | .single => if c = singleQuote then (.keep, .bare) else (.extend [.literal c], .single)
  | .double => readDouble c
  | .doubleEscaped => (readDoubleEscaped c, .double)
  | .comment => if c = newline then (.operator, .bare) else (.keep, .comment)
  | .dollar quoted =>
    if c = 0x28 then (.keep, .substitution quoted .parenthesis [] none)
    else if c = 0x7b then (.keep, .substitution quoted .brace [] none)
    else if quoted then readDouble c else readBare inWord c
  | .substitution quoted top outer pending =>
    (.keep, .nested quoted (readSubstitution top outer pending c))

/-- The words so far, the last one first, and the one that was begun. -/
structure Lexer where
  tokens : List Token
  word : Option (List Piece)
  mode : Mode
  deriving DecidableEq, Repr

namespace Lexer

/-- In front of a command. -/
def start : Lexer := ⟨[], none, .bare⟩

/-- The tokens with the word that was begun. -/
def finished (s : Lexer) : List Token := (s.word.map Token.word).toList ++ s.tokens

/-- Change the words, and the mode. -/
def apply (s : Lexer) (mode : Mode) : Effect → Lexer
  | .keep => ⟨s.tokens, s.word, mode⟩
  | .extend pieces => ⟨s.tokens, some (s.word.getD [] ++ pieces), mode⟩
  | .finish => ⟨s.finished, none, mode⟩
  | .operator => ⟨.operator :: s.finished, none, mode⟩

/-- Read a byte. -/
def step (s : Lexer) (c : UInt8) : Lexer :=
  s.apply (read s.mode s.word.isSome c).2 (read s.mode s.word.isSome c).1

/-- Read some bytes. -/
def run (s : Lexer) (text : List UInt8) : Lexer := text.foldl step s

/-- The tokens of a whole command, the last one first; `none` where a quotation or a substitution is
not closed. -/
def complete (s : Lexer) : Option (List Token) :=
  match s.mode with
  | .bare => some s.finished
  | .comment => some s.finished
  | .dollar false => some s.finished
  | _ => none

/-- Between two words, behind a word of the same simple command. -/
def Ready (s : Lexer) : Prop :=
  s.mode = .bare ∧ s.word = none ∧ ∃ pieces rest, s.tokens = .word pieces :: rest

end Lexer

/-- The word that ends a command, if it is not the first one of its simple command. -/
def lastArgument (text : List UInt8) : Option (List Piece) :=
  match (Lexer.start.run text).complete with
  | some (.word last :: .word _ :: _) => some last
  | _ => none

/-- The word that is a string, unaltered. -/
def literals (text : List UInt8) : List Piece := text.map Piece.literal

/-- An escaped blank, both kinds of quotes, a pattern, and a substitution with a command in it. -/
example : (Lexer.start.run [0x61, 0x5c, 0x20, 0x22, 0x5c, 0x22, 0x27, 0x22, 0x20, 0x2a, 0x20, 0x24,
    0x28, 0x62, 0x20, 0x29, 0x63]).complete =
      some [.word [.active, .literal 0x63], .word [.active],
          .word (literals [0x61, 0x20, 0x22, 0x27])] := by
  decide

/-- Bytes that a backslash in front of the next byte still stands for. -/
def Mode.held : Mode → Nat
  | .doubleEscaped => 1
  | _ => 0

/-- The parts that a byte adds to a word. -/
def Effect.pieces : Effect → List Piece
  | .extend pieces => pieces
  | _ => []

/-- The effect adds something active, or at most so many parts, with those that are held. -/
def Adds (n : Nat) (effect : Effect × Mode) : Prop :=
  .active ∈ effect.1.pieces ∨ effect.1.pieces.length + effect.2.held ≤ n

/-- Whether an effect adds so much can be decided. -/
instance (n : Nat) (effect : Effect × Mode) : Decidable (Adds n effect) :=
  inferInstanceAs (Decidable (_ ∨ _))

/-- A byte that stands for itself outside quotes. -/
def Ordinary (c : UInt8) : Prop := c ∉ special

/-- Whether a byte is ordinary can be decided. -/
instance (c : UInt8) : Decidable (Ordinary c) := inferInstanceAs (Decidable (c ∉ special))

/-- An ordinary byte separates nothing, quotes nothing and is in no pattern. -/
theorem ordinary_iff {c : UInt8} : Ordinary c ↔ (c ∉ blanks ∧ c ∉ operators) ∧
    (c ≠ singleQuote ∧ c ≠ doubleQuote ∧ c ≠ backslash ∧ c ≠ dollar ∧ c ≠ backquote) ∧
      c ∉ patterns := by
  unfold Ordinary special
  simp only [List.mem_append, List.mem_cons, List.not_mem_nil, or_false, not_or, and_assoc]

/-- An ordinary byte does not separate words. -/
theorem Ordinary.notMem_separators {c : UInt8} (ordinary : Ordinary c) : c ∉ blanks ++ operators :=
  fun member => ordinary (List.mem_append_left _ (List.mem_append_left _ member))

/-- The byte ends a word or a simple command. -/
def Effect.ends : Effect → Bool
  | .finish => true
  | .operator => true
  | _ => false

/-- What is read stands for itself or is quoted. -/
def Mode.plain : Mode → Bool
  | .comment => false
  | .dollar _ => false
  | .substitution _ _ _ _ => false
  | _ => true

/-- Something is being expanded. -/
def Mode.expands : Mode → Bool
  | .dollar _ => true
  | .substitution _ _ _ _ => true
  | _ => false

/-- In a word, the effect ends it, or something active is added, or a space is added if it was
read. -/
def Spaces (c : UInt8) (effect : Effect × Mode) : Prop :=
  effect.1.ends = true ∨ .active ∈ effect.1.pieces ∨
    effect.2.plain = true ∧ [c].count space ≤ effect.1.pieces.count (.literal space)

/-- A byte that is no space has none to add. -/
theorem Spaces.visible {c : UInt8} (visible : c ≠ space) {effect : Effect × Mode}
    (plain : effect.2.plain = true) : Spaces c effect := by
  refine .inr (.inr ⟨plain, ?_⟩)
  rw [List.count_singleton, if_neg (by simpa using visible)]
  exact Nat.zero_le _

/-- A space that stands for itself is added. -/
theorem Spaces.literal {c : UInt8} {mode : Mode} (plain : mode.plain = true) (front : List Piece) :
    Spaces c (.extend (front ++ [.literal c]), mode) := by
  refine .inr (.inr ⟨plain, ?_⟩)
  show _ ≤ (front ++ [Piece.literal c]).count (.literal space)
  rw [List.count_append, List.count_singleton, List.count_singleton]
  simp

/-- Something active is added in place of a space. -/
theorem Spaces.active {c : UInt8} {mode : Mode} : Spaces c (.extend [.active], mode) :=
  .inr (.inl (List.mem_singleton.mpr rfl))

/-- What a byte can do outside quotes, one case for each kind of it. -/
inductive ReadsBare (inWord : Bool) (c : UInt8) : Effect × Mode → Prop where
  | blank (separates : c ∈ blanks) : ReadsBare inWord c (.finish, .bare)
  | operator (separates : c ∈ operators) : ReadsBare inWord c (.operator, .bare)
  | single (opens : c = singleQuote) : ReadsBare inWord c (.extend [], .single)
  | double (opens : c = doubleQuote) : ReadsBare inWord c (.extend [], .double)
  | backslash (escapes : c = backslash) : ReadsBare inWord c (.keep, .escaped)
  | active {mode : Mode} (plain : mode ≠ .comment) (unheld : mode.held = 0) :
    ReadsBare inWord c (.extend [.active], mode)
  | comment (first : inWord = false) (sign : c = numberSign) : ReadsBare inWord c (.keep, .comment)
  | literal (ordinary : Ordinary c) (inside : inWord = false → c ≠ tilde ∧ c ≠ numberSign) :
    ReadsBare inWord c (.extend [.literal c], .bare)

/-- What is read outside quotes is one of these cases. -/
theorem of_readBare (inWord : Bool) (c : UInt8) : ReadsBare inWord c (readBare inWord c) := by
  unfold readBare
  by_cases blank : c ∈ blanks
  · rw [if_pos blank]
    exact .blank blank
  rw [if_neg blank]
  by_cases operator : c ∈ operators
  · rw [if_pos operator]
    exact .operator operator
  rw [if_neg operator]
  by_cases single : c = singleQuote
  · rw [if_pos single]
    exact .single single
  rw [if_neg single]
  by_cases double : c = doubleQuote
  · rw [if_pos double]
    exact .double double
  rw [if_neg double]
  by_cases escape : c = backslash
  · rw [if_pos escape]
    exact .backslash escape
  rw [if_neg escape]
  by_cases parameter : c = dollar
  · rw [if_pos parameter]
    exact .active (by simp) rfl
  rw [if_neg parameter]
  by_cases substitution : c = backquote
  · rw [if_pos substitution]
    exact .active (by simp) rfl
  rw [if_neg substitution]
  by_cases pattern : c ∈ patterns
  · rw [if_pos pattern]
    exact .active (by simp) rfl
  rw [if_neg pattern]
  by_cases home : inWord = false ∧ c = tilde
  · rw [if_pos home]
    exact .active (by simp) rfl
  rw [if_neg home]
  by_cases comment : inWord = false ∧ c = numberSign
  · rw [if_pos comment]
    exact .comment comment.1 comment.2
  rw [if_neg comment]
  have ordinary : Ordinary c := ordinary_iff.mpr
    ⟨⟨blank, operator⟩, ⟨single, double, escape, parameter, substitution⟩, pattern⟩
  exact .literal ordinary fun first =>
    ⟨fun same => home ⟨first, same⟩, fun same => comment ⟨first, same⟩⟩

namespace ReadsBare

variable {inWord : Bool} {c : UInt8} {effect : Effect × Mode}

/-- A byte outside quotes adds one part at most. -/
theorem adds (reads : ReadsBare inWord c effect) : Adds 1 effect := by
  cases reads with
  | active plain unheld => exact .inl (List.mem_singleton.mpr rfl)
  | literal ordinary inside => exact .inr (Nat.le_refl 1)
  | _ => exact .inr (Nat.zero_le 1)

/-- A byte that does not stand for itself adds nothing, or something active. -/
theorem special (reads : ReadsBare inWord c effect)
    (altered : ¬ Ordinary c ∨ inWord = false ∧ (c = tilde ∨ c = numberSign)) : Adds 0 effect := by
  cases reads with
  | active plain unheld => exact .inl (List.mem_singleton.mpr rfl)
  | literal ordinary inside =>
    rcases altered with special | ⟨first, same | same⟩
    · exact absurd ordinary special
    · exact absurd same (inside first).1
    · exact absurd same (inside first).2
  | _ => exact .inr (Nat.le_refl 0)

/-- Only a blank or an operator ends a word. -/
theorem ends (reads : ReadsBare inWord c effect) (ended : effect.1.ends = true) :
    c ∈ blanks ++ operators ∧ effect.2 = .bare := by
  cases reads with
  | blank separates => exact ⟨List.mem_append_left _ separates, rfl⟩
  | operator separates => exact ⟨List.mem_append_right _ separates, rfl⟩
  | _ => cases ended

/-- An expansion marks its word. -/
theorem expands (reads : ReadsBare inWord c effect) (expanded : effect.2.expands = true) :
    .active ∈ effect.1.pieces := by
  cases reads with
  | active plain unheld => exact List.mem_singleton.mpr rfl
  | _ => cases expanded

/-- Only a number sign begins a comment. -/
theorem sign_of_comment (reads : ReadsBare inWord c effect) (comment : effect.2 = .comment) :
    c = numberSign := by
  cases reads with
  | comment first sign => exact sign
  | active plain unheld => exact absurd comment plain
  | _ => cases comment

/-- In a word, the byte ends it, adds something active, or adds a space if it is one. -/
theorem spaces (reads : ReadsBare true c effect) : Spaces c effect := by
  cases reads with
  | blank separates => exact .inl rfl
  | operator separates => exact .inl rfl
  | single opens => exact .visible (by rw [opens]; decide) rfl
  | double opens => exact .visible (by rw [opens]; decide) rfl
  | backslash escapes => exact .visible (by rw [escapes]; decide) rfl
  | active plain unheld => exact .active
  | comment first sign => cases first
  | literal ordinary inside => exact .literal rfl []

end ReadsBare

/-- A byte in double quotes adds one part at most. -/
theorem readDouble_adds (c : UInt8) : Adds 1 (readDouble c) := by
  unfold readDouble
  split_ifs <;> simp [Adds, Effect.pieces, Mode.held]

/-- A byte behind a backslash in double quotes adds two parts at most. -/
theorem readDoubleEscaped_adds (c : UInt8) : Adds 2 (readDoubleEscaped c, .double) := by
  unfold readDoubleEscaped
  split_ifs <;> simp [Adds, Effect.pieces, Mode.held]

/-- No backslash is held behind a nested substitution. -/
theorem Mode.held_nested (quoted : Bool) (frames : List Frame × Option UInt8) :
    (Mode.nested quoted frames).held = 0 := by
  obtain ⟨frames, pending⟩ := frames
  cases frames with
  | nil => cases quoted <;> rfl
  | cons top outer => rfl

/-- What follows a nested substitution is no comment. -/
theorem Mode.nested_ne_comment (quoted : Bool) (frames : List Frame × Option UInt8) :
    Mode.nested quoted frames ≠ .comment := by
  obtain ⟨frames, pending⟩ := frames
  cases frames with
  | nil => cases quoted <;> simp [Mode.nested]
  | cons top outer => simp [Mode.nested]

/-- A byte adds at most one part, with those that were held. -/
theorem read_adds (mode : Mode) (inWord : Bool) (c : UInt8) :
    Adds (mode.held + 1) (read mode inWord c) := by
  cases mode with
  | bare => exact (of_readBare inWord c).adds
  | double => exact readDouble_adds c
  | doubleEscaped => exact readDoubleEscaped_adds c
  | dollar quoted =>
    simp only [read]
    split_ifs
    · simp [Adds, Effect.pieces, Mode.held]
    · simp [Adds, Effect.pieces, Mode.held]
    · exact readDouble_adds c
    · exact (of_readBare inWord c).adds
  | substitution quoted top outer pending => simp [read, Adds, Effect.pieces, Mode.held_nested]
  | _ =>
    simp only [read]
    split_ifs <;> simp [Adds, Effect.pieces, Mode.held]

/-- A byte that stands for itself. -/
theorem readBare_ordinary {inWord : Bool} {c : UInt8} (ordinary : Ordinary c)
    (first : inWord = false → c ≠ tilde ∧ c ≠ numberSign) :
    readBare inWord c = (.extend [.literal c], .bare) := by
  obtain ⟨⟨blank, operator⟩, ⟨single, double, backslash, dollar, backquote⟩, pattern⟩ :=
    ordinary_iff.mp ordinary
  unfold readBare
  rw [if_neg blank, if_neg operator, if_neg single, if_neg double, if_neg backslash, if_neg dollar,
    if_neg backquote, if_neg pattern, if_neg fun home => (first home.1).1 home.2,
    if_neg fun comment => (first comment.1).2 comment.2]

/-- An ordinary byte in double quotes stands for itself. -/
theorem readDouble_ordinary {c : UInt8} (ordinary : Ordinary c) :
    readDouble c = (.extend [.literal c], .double) := by
  obtain ⟨-, ⟨-, double, backslash, dollar, backquote⟩, -⟩ := ordinary_iff.mp ordinary
  unfold readDouble
  rw [if_neg double, if_neg backslash, if_neg dollar, if_neg backquote]

/-- Only outside quotes does a byte end anything, and only one that separates. -/
theorem read_ends {mode : Mode} {inWord : Bool} {c : UInt8}
    (ends : (read mode inWord c).1.ends = true) :
    c ∈ blanks ++ operators ∧ (read mode inWord c).2 = .bare := by
  have double : (readDouble c).1.ends = false := by
    unfold readDouble
    split_ifs <;> rfl
  cases mode with
  | bare => exact (of_readBare inWord c).ends ends
  | double => exact absurd ends (by simp [read, double])
  | doubleEscaped =>
    simp only [read, readDoubleEscaped] at ends
    split_ifs at ends <;> cases ends
  | dollar quoted =>
    simp only [read] at ends ⊢
    split_ifs at ends ⊢ with parenthesis brace quotes
    · cases ends
    · cases ends
    · exact absurd ends (by simp [double])
    · exact (of_readBare inWord c).ends ends
  | comment =>
    simp only [read] at ends ⊢
    split_ifs at ends ⊢ with line
    · rw [line]
      decide
    · cases ends
  | substitution quoted top outer pending => cases ends
  | _ =>
    simp only [read] at ends
    split_ifs at ends <;> cases ends

/-- A space in double quotes stays in its word. -/
theorem readDouble_spaces (c : UInt8) : Spaces c (readDouble c) := by
  unfold readDouble
  split_ifs with double backslash dollar backquote
  · exact .visible (by rw [double]; decide) rfl
  · exact .visible (by rw [backslash]; decide) rfl
  · exact .active
  · exact .active
  · exact .literal rfl []

/-- Behind a plain mode a space of a word ends it or is kept, unless something active is added. -/
theorem read_spaces {mode : Mode} (plain : mode.plain = true) (c : UInt8) :
    Spaces c (read mode true c) := by
  cases mode with
  | bare => exact (of_readBare true c).spaces
  | double => exact readDouble_spaces c
  | escaped =>
    simp only [read]
    split_ifs with line
    · exact .visible (by rw [line]; decide) rfl
    · exact .literal rfl []
  | single =>
    simp only [read]
    split_ifs with single
    · exact .visible (by rw [single]; decide) rfl
    · exact .literal rfl []
  | doubleEscaped =>
    simp only [read, readDoubleEscaped]
    split_ifs with line
    · exact .visible (by rw [line]; decide) rfl
    · exact .literal rfl []
    · exact .literal rfl [_]
  | _ => cases plain

/-- An expansion begins with something active. -/
theorem read_expands {mode : Mode} {inWord : Bool} {c : UInt8}
    (expands : (read mode inWord c).2.expands = true) :
    .active ∈ (read mode inWord c).1.pieces ∨
      mode.expands = true ∧ (read mode inWord c).1 = .keep := by
  have double : (readDouble c).2.expands = true → .active ∈ (readDouble c).1.pieces := by
    unfold readDouble
    split_ifs <;> simp [Mode.expands, Effect.pieces]
  cases mode with
  | bare => exact .inl ((of_readBare inWord c).expands expands)
  | double => exact .inl (double expands)
  | doubleEscaped => cases expands
  | dollar quoted =>
    simp only [read] at expands ⊢
    split_ifs at expands ⊢
    · exact .inr ⟨rfl, rfl⟩
    · exact .inr ⟨rfl, rfl⟩
    · exact .inl (double expands)
    · exact .inl ((of_readBare inWord c).expands expands)
  | substitution quoted top outer pending => exact .inr ⟨rfl, rfl⟩
  | _ =>
    simp only [read] at expands
    split_ifs at expands <;> cases expands

/-- A comment begins with its sign. -/
theorem read_comment {mode : Mode} {inWord : Bool} {c : UInt8}
    (comment : (read mode inWord c).2 = .comment) : mode = .comment ∨ c = numberSign := by
  have double : (readDouble c).2 ≠ .comment := by
    unfold readDouble
    split_ifs <;> simp
  cases mode with
  | bare => exact .inr ((of_readBare inWord c).sign_of_comment comment)
  | double => exact absurd comment double
  | comment => exact .inl rfl
  | dollar quoted =>
    simp only [read] at comment
    split_ifs at comment
    · exact absurd comment double
    · exact .inr ((of_readBare inWord c).sign_of_comment comment)
  | substitution quoted top outer pending => exact absurd comment (Mode.nested_ne_comment _ _)
  | doubleEscaped => cases comment
  | _ =>
    simp only [read] at comment
    split_ifs at comment

end ShellWords
