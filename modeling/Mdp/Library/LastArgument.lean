import Mathlib.Data.List.Count
import Mathlib.Data.Set.Subsingleton
import Mdp.Library.Shell

/-!
# When a string is the last argument

A command that ends with a string, bare or between double quotes, has it unaltered as its last
argument if and only if what is in front of it leaves the shell between two words, and, where it is
bare, all its bytes stand for themselves.

A byte adds at most one part to a word, so a word in which a byte of the string got lost is too
short; and a word that was begun before the space in front of the string has one space too many.
-/

namespace ShellWords

/-- The bytes of a portable file name: letters, digits, `.`, `_` and `-`. -/
def Portable (c : UInt8) : Prop :=
  (0x30 ≤ c ∧ c ≤ 0x39) ∨ (0x41 ≤ c ∧ c ≤ 0x5a) ∨ (0x61 ≤ c ∧ c ≤ 0x7a) ∨ c ∈ [0x2d, 0x2e, 0x5f]

/-- Whether a byte is portable can be decided. -/
instance (c : UInt8) : Decidable (Portable c) := inferInstanceAs (Decidable (_ ∨ _))

/-- A portable byte means nothing to the shell. -/
theorem Portable.notMem {c : UInt8} (portable : Portable c) :
    c ∉ special ++ [tilde, numberSign, 0x7b, 0x7d] := by
  have none : ∀ byte ∈ special ++ [tilde, numberSign, 0x7b, 0x7d], ¬ Portable byte :=
    List.forall_iff_forall_mem.mp (by decide)
  exact fun member => none c member portable

/-- A portable byte is ordinary. -/
theorem Portable.ordinary {c : UInt8} (portable : Portable c) : Ordinary c :=
  fun member => portable.notMem (List.mem_append_left _ member)

/-- A portable byte is none of those that mean something. -/
theorem Portable.ne {c byte : UInt8} (portable : Portable c)
    (member : byte ∈ special ++ [tilde, numberSign, 0x7b, 0x7d]) : c ≠ byte := by
  rintro rfl
  exact portable.notMem member

/-- Outside quotes the shell leaves these bytes alone. -/
structure Plain (text : List UInt8) : Prop where
  ordinary : ∀ c ∈ text, Ordinary c
  first : ∀ c, text.head? = some c → c ≠ tilde ∧ c ≠ numberSign

/-- Whether a text is plain can be read off its bytes. -/
theorem plain_iff_all {text : List UInt8} :
    Plain text ↔ text.all (fun c => decide (Ordinary c)) = true ∧
    text.head?.all (fun c => decide (c ≠ tilde ∧ c ≠ numberSign)) = true := by
  simp only [List.all_eq_true, Option.all_eq_true, decide_eq_true_iff]
  exact ⟨fun plain => ⟨plain.ordinary, plain.first⟩, fun ⟨ordinary, first⟩ => ⟨ordinary, first⟩⟩

/-- Whether a text is plain can be decided. -/
instance (text : List UInt8) : Decidable (Plain text) := decidable_of_iff' _ plain_iff_all

namespace Lexer

variable {s : Lexer} {c : UInt8} {n k : Nat}

/-- One byte has the effect that was read. -/
theorem step_eq {effect : Effect × Mode} (reads : read s.mode s.word.isSome c = effect) :
    s.step c = s.apply effect.2 effect.1 := by
  rw [step, reads]

/-- A byte that extends the word adds its parts to it. -/
theorem step_extend {pieces : List Piece} {mode : Mode}
    (reads : read s.mode s.word.isSome c = (.extend pieces, mode)) :
    s.step c = ⟨s.tokens, some (s.word.getD [] ++ pieces), mode⟩ := step_eq reads

/-- Reading nothing changes nothing. -/
@[simp] theorem run_nil (s : Lexer) : s.run [] = s := rfl

/-- A text is read byte by byte. -/
@[simp] theorem run_cons (s : Lexer) (c : UInt8) (text : List UInt8) :
    s.run (c :: text) = (s.step c).run text := rfl

/-- A text in two parts is read one part after the other. -/
theorem run_append (s : Lexer) (front text : List UInt8) :
    s.run (front ++ text) = (s.run front).run text :=
  List.foldl_append

/-- The mode is the one that an effect is applied with. -/
theorem apply_mode (s : Lexer) (mode : Mode) (effect : Effect) :
    (s.apply mode effect).mode = mode := by
  cases effect <;> rfl

/-- The mode after a byte is the one that was read. -/
theorem step_mode (s : Lexer) (c : UInt8) : (s.step c).mode = (read s.mode s.word.isSome c).2 :=
  s.apply_mode _ _

/-- Where nothing ends, the word goes on. -/
theorem apply_word {effect : Effect} (goes : effect.ends = false) (mode : Mode) :
    (s.apply mode effect).tokens = s.tokens ∧
      (s.apply mode effect).word.getD [] = s.word.getD [] ++ effect.pieces := by
  cases effect with
  | keep => exact ⟨rfl, (List.append_nil _).symm⟩
  | extend pieces => exact ⟨rfl, rfl⟩
  | finish => cases goes
  | operator => cases goes

/-- An effect that does not end a word adds its parts to it. -/
theorem apply_word_of_some {pieces : List Piece} (word : s.word = some pieces) {effect : Effect}
    (goes : effect.ends = false) (mode : Mode) :
    (s.apply mode effect).word = some (pieces ++ effect.pieces) := by
  cases effect with
  | keep =>
    show s.word = some (pieces ++ [])
    rw [List.append_nil]
    exact word
  | extend added =>
    show some (s.word.getD [] ++ added) = _
    rw [word]
    rfl
  | finish => cases goes
  | operator => cases goes

/-- An effect that ends a word leaves none. -/
theorem apply_word_of_ends {effect : Effect} (ends : effect.ends = true) (mode : Mode) :
    (s.apply mode effect).word = none := by
  cases effect with
  | keep => cases ends
  | extend pieces => cases ends
  | finish => rfl
  | operator => rfl

/-- The word that was begun has something active in it, or at most so many parts. -/
def Short (n : Nat) (s : Lexer) : Prop :=
  .active ∈ s.word.getD [] ∨ (s.word.getD []).length + s.mode.held ≤ n

/-- An effect lengthens a word by no more than the parts it adds. -/
theorem Short.apply {effect : Effect × Mode} (short : s.Short n)
    (adds : Adds (s.mode.held + k) effect)
    (leaves : effect.1.ends = true → effect.2 = .bare) :
    (s.apply effect.2 effect.1).Short (n + k) := by
  unfold Short
  rw [apply_mode]
  cases ends : effect.1.ends with
  | true =>
    right
    rw [apply_word_of_ends ends, leaves ends]
    exact Nat.zero_le _
  | false =>
    rw [(apply_word ends effect.2).2, List.mem_append, List.length_append]
    rcases short with active | short
    · exact .inl (.inl active)
    · rcases adds with active | adds
      · exact .inl (.inr active)
      · right
        omega

/-- A byte adds one part at most, or something active. -/
theorem Short.step (short : s.Short n) (c : UInt8) : (s.step c).Short (n + 1) :=
  short.apply (read_adds s.mode s.word.isSome c) fun ends => (read_ends ends).2

/-- A text adds as many parts as it has bytes at most, or something active. -/
theorem Short.run (short : s.Short n) (text : List UInt8) :
    (s.run text).Short (n + text.length) := by
  induction text generalizing s n with
  | nil => exact short
  | cons c text ih =>
    have later := ih (short.step c)
    rw [Nat.add_assoc, Nat.add_comm 1] at later
    exact later

/-- A byte that does not stand for itself makes no word longer. -/
theorem Short.special (short : s.Short n) (bare : s.mode = .bare)
    (altered : ¬ Ordinary c ∨ s.word = none ∧ (c = tilde ∨ c = numberSign)) :
    (s.step c).Short n := by
  have reads := of_readBare s.word.isSome c
  have lost : ¬ Ordinary c ∨ s.word.isSome = false ∧ (c = tilde ∨ c = numberSign) := by
    rcases altered with altered | ⟨none, first⟩
    · exact .inl altered
    · exact .inr ⟨by rw [none]; rfl, first⟩
  have adds : Adds (s.mode.held + 0) (readBare s.word.isSome c) := by
    rw [bare]
    exact reads.special lost
  have stepped := short.apply adds fun ends => (reads.ends ends).2
  have same : s.step c = s.apply (readBare s.word.isSome c).2 (readBare s.word.isSome c).1 :=
    step_eq (by rw [bare]; rfl)
  rw [same]
  exact stepped

/-- A word with fewer parts is not the string. -/
theorem Short.word_ne {text : List UInt8} (short : s.Short n) (fewer : n < text.length) :
    s.word ≠ some (literals text) := by
  intro same
  unfold Short at short
  rw [same, Option.getD_some] at short
  rcases short with active | short
  · simp [literals] at active
  · rw [literals, List.length_map] at short
    omega

/-- A word was begun that has something active in it, or more than so many spaces. -/
def Spans (k : Nat) (s : Lexer) : Prop :=
  ∃ pieces, s.word = some pieces ∧
    (.active ∈ pieces ∨ s.mode.plain = true ∧ k < pieces.count (.literal space))

/-- Until it ends, such a word keeps a space ahead. -/
theorem Spans.step (spans : s.Spans k) (c : UInt8) :
    (s.step c).Spans (k + [c].count space) ∨
      c ∈ blanks ++ operators ∧ (s.step c).Short 0 := by
  obtain ⟨pieces, word, ahead⟩ := spans
  cases ends : (read s.mode s.word.isSome c).1.ends with
  | true =>
    right
    have separates := read_ends ends
    refine ⟨separates.1, .inr ?_⟩
    rw [step_mode, separates.2, Lexer.step, apply_word_of_ends ends]
    exact Nat.le_refl 0
  | false =>
    left
    refine ⟨_, apply_word_of_some word ends _, ?_⟩
    rw [List.mem_append, List.count_append, step_mode]
    rcases ahead with active | ⟨plain, more⟩
    · exact .inl (.inl active)
    · have spaces := read_spaces plain c
      rw [word] at ends ⊢
      rcases spaces with ended | active | ⟨plain', spaces⟩
      · rw [Option.isSome_some, ended] at ends
        cases ends
      · exact .inl (.inr active)
      · exact .inr ⟨plain', Nat.add_lt_add_of_lt_of_le more spaces⟩

/-- Some bytes of which none ends the word. -/
theorem Spans.run_within (spans : s.Spans k) {text : List UInt8}
    (within : ∀ c ∈ text, c ∉ blanks ++ operators) : (s.run text).Spans (k + text.count space) := by
  induction text generalizing s k with
  | nil => exact spans
  | cons c text ih =>
    rw [List.forall_mem_cons] at within
    rcases spans.step c with kept | ⟨separates, -⟩
    · have later := ih kept within.2
      rw [Nat.add_assoc, ← List.count_append] at later
      exact later
    · exact absurd separates within.1

/-- Some bytes: the word goes on, or one that was begun later is too short. -/
theorem Spans.run (spans : s.Spans k) (text : List UInt8) :
    (s.run text).Spans (k + text.count space) ∨ ∃ n < text.length, (s.run text).Short n := by
  induction text generalizing s k with
  | nil => exact .inl spans
  | cons c text ih =>
    rcases spans.step c with kept | ⟨-, short⟩
    · rcases ih kept with later | ⟨n, fewer, short⟩
      · left
        rw [Nat.add_assoc, ← List.count_append] at later
        exact later
      · exact .inr ⟨n, Nat.lt_succ_of_lt fewer, short⟩
    · have later := short.run text
      rw [Nat.zero_add] at later
      exact .inr ⟨text.length, Nat.lt_succ_self _, later⟩

/-- A word with a space too many is not the string. -/
theorem Spans.word_ne {text : List UInt8} (spans : s.Spans k) (enough : text.count space ≤ k) :
    s.word ≠ some (literals text) := by
  intro same
  obtain ⟨pieces, word, ahead⟩ := spans
  rw [word, Option.some.injEq] at same
  rw [same] at ahead
  rcases ahead with active | ⟨-, more⟩
  · simp [literals] at active
  · have counted : (literals text).count (.literal space) = text.count space :=
      List.count_map_of_injective text Piece.literal (fun _ _ => Piece.literal.inj) space
    omega

/-- What is being expanded has left its mark in the word. -/
def Marked (s : Lexer) : Prop := s.mode.expands = true → .active ∈ s.word.getD []

/-- What is being expanded stays marked from one byte to the next. -/
theorem Marked.step (marked : s.Marked) (c : UInt8) : (s.step c).Marked := by
  intro expands
  rw [step_mode] at expands
  rcases read_expands expands with active | ⟨before, keeps⟩
  · cases ends : (read s.mode s.word.isSome c).1.ends with
    | true =>
      rw [(read_ends ends).2] at expands
      cases expands
    | false =>
      rw [Lexer.step, (apply_word ends _).2, List.mem_append]
      exact .inr active
  · rw [Lexer.step, keeps]
    exact marked before

/-- What is being expanded stays marked along a text. -/
theorem Marked.run (marked : s.Marked) (text : List UInt8) : (s.run text).Marked := by
  induction text generalizing s with
  | nil => exact marked
  | cons c text ih => exact ih (marked.step c)

/-- Nothing is being expanded at the start. -/
theorem marked_start : start.Marked := fun expands => nomatch expands

/-- Behind a space: in a comment, between two words, or in a word with a space. -/
theorem Marked.space (marked : s.Marked) :
    (s.step space).mode = .comment ∨ ((s.step space).mode = .bare ∧ (s.step space).word = none) ∨
      (s.step space).Spans 0 := by
  have added (mode : Mode) (plain : mode.plain = true) (front : List Piece) :
      (s.apply mode (.extend (front ++ [.literal ShellWords.space]))).Spans 0 := by
    refine ⟨_, rfl, .inr ⟨?_, ?_⟩⟩
    · rw [apply_mode]
      exact plain
    · rw [List.count_append, List.count_append, List.count_singleton_self]
      omega
  unfold Lexer.step
  cases mode : s.mode with
  | bare => exact .inr (.inl ⟨rfl, rfl⟩)
  | comment => exact .inl rfl
  | escaped => exact .inr (.inr (added .bare rfl []))
  | single => exact .inr (.inr (added .single rfl []))
  | double => exact .inr (.inr (added .double rfl []))
  | doubleEscaped => exact .inr (.inr (added .double rfl [.literal backslash]))
  | dollar quoted =>
    cases quoted with
    | true => exact .inr (.inr (added .double rfl []))
    | false => exact .inr (.inl ⟨rfl, rfl⟩)
  | substitution quoted top outer pending =>
    right
    right
    have active : .active ∈ s.word.getD [] := marked (by rw [mode]; rfl)
    cases word : s.word with
    | none =>
      rw [word] at active
      cases active
    | some pieces =>
      rw [word] at active
      exact ⟨pieces, word, .inl active⟩

/-- A word goes on with bytes that stand for themselves in its mode. -/
theorem run_literals {text : List UInt8} {mode : Mode}
    (reads : ∀ c ∈ text, read mode true c = (.extend [.literal c], mode)) (tokens : List Token)
    (pieces : List Piece) :
    (Lexer.mk tokens (some pieces) mode).run text =
      ⟨tokens, some (pieces ++ literals text), mode⟩ := by
  induction text generalizing pieces with
  | nil => simp [literals]
  | cons c text ih =>
    rw [List.forall_mem_cons] at reads
    have stepped : (Lexer.mk tokens (some pieces) mode).step c =
        ⟨tokens, some (pieces ++ [.literal c]), mode⟩ := step_extend reads.1
    rw [run_cons, stepped, ih reads.2, List.append_assoc]
    rfl

/-- A word is begun by bytes that stand for themselves. -/
theorem run_plain {text : List UInt8} (plain : Plain text) (nonempty : text ≠ [])
    (tokens : List Token) :
    (Lexer.mk tokens none .bare).run text = ⟨tokens, some (literals text), .bare⟩ := by
  cases text with
  | nil => exact absurd rfl nonempty
  | cons c text =>
    have ordinary := List.forall_mem_cons.mp plain.ordinary
    have reads : read .bare false c = (.extend [.literal c], .bare) :=
      readBare_ordinary ordinary.1 fun _ => plain.first c rfl
    have stepped : (Lexer.mk tokens none .bare).step c = ⟨tokens, some [.literal c], .bare⟩ :=
      step_extend reads
    have others : ∀ c ∈ text, read .bare true c = (.extend [.literal c], .bare) := fun c member =>
      readBare_ordinary (ordinary.2 c member) fun none => nomatch none
    rw [run_cons, stepped, run_literals others]
    rfl

/-- Double quotes around them add nothing to it. -/
theorem run_quoted {text : List UInt8} (ordinary : ∀ c ∈ text, Ordinary c) (tokens : List Token) :
    (Lexer.mk tokens none .bare).run (doubleQuote :: (text ++ [doubleQuote])) =
      ⟨tokens, some (literals text), .bare⟩ := by
  have opened : (Lexer.mk tokens none .bare).step doubleQuote = ⟨tokens, some [], .double⟩ := rfl
  have others : ∀ c ∈ text, read .double true c = (.extend [.literal c], .double) := fun c member =>
    readDouble_ordinary (ordinary c member)
  rw [run_cons, opened, run_append, run_literals others]
  rfl

/-- A byte of the string that does not stand for itself makes its word too short. -/
theorem Short.of_not_ordinary {text : List UInt8} (altered : ¬ ∀ c ∈ text, Ordinary c)
    (tokens : List Token) (pieces : List Piece) :
    ∃ n < pieces.length + text.length,
        ((Lexer.mk tokens (some pieces) .bare).run text).Short n := by
  induction text generalizing pieces with
  | nil => simp at altered
  | cons c text ih =>
    by_cases ordinary : Ordinary c
    · have reads : read .bare true c = (.extend [.literal c], .bare) :=
        readBare_ordinary ordinary fun none => nomatch none
      have stepped : (Lexer.mk tokens (some pieces) .bare).step c =
          ⟨tokens, some (pieces ++ [.literal c]), .bare⟩ := step_extend reads
      have later : ¬ ∀ c ∈ text, Ordinary c := fun all =>
        altered (List.forall_mem_cons.mpr ⟨ordinary, all⟩)
      obtain ⟨n, fewer, short⟩ := ih later (pieces ++ [.literal c])
      rw [List.length_append, List.length_singleton] at fewer
      rw [run_cons, stepped]
      exact ⟨n, by rw [List.length_cons]; omega, short⟩
    · have full : (Lexer.mk tokens (some pieces) .bare).Short pieces.length := .inr (Nat.le_refl _)
      have short := (full.special rfl (.inl ordinary)).run text
      exact ⟨pieces.length + text.length, by rw [List.length_cons]; omega, short⟩

/-- A text that is not plain makes a word of fewer parts than it has bytes, or an active one. -/
theorem Short.of_not_plain {text : List UInt8} (altered : ¬ Plain text) (tokens : List Token) :
    ∃ n < text.length, ((Lexer.mk tokens none .bare).run text).Short n := by
  cases text with
  | nil => exact absurd ⟨by simp, by simp⟩ altered
  | cons c text =>
    by_cases begins : Ordinary c ∧ c ≠ tilde ∧ c ≠ numberSign
    · have reads : read .bare false c = (.extend [.literal c], .bare) :=
        readBare_ordinary begins.1 fun _ => begins.2
      have stepped : (Lexer.mk tokens none .bare).step c = ⟨tokens, some [.literal c], .bare⟩ :=
        step_extend reads
      have later : ¬ ∀ c ∈ text, Ordinary c := fun all =>
        altered ⟨List.forall_mem_cons.mpr ⟨begins.1, all⟩, by simpa using begins.2⟩
      obtain ⟨n, fewer, short⟩ := Short.of_not_ordinary later tokens [.literal c]
      rw [run_cons, stepped]
      exact ⟨n, by rwa [List.length_cons, Nat.add_comm], short⟩
    · have first : ¬ Ordinary c ∨ (Lexer.mk tokens none .bare).word = none ∧
          (c = tilde ∨ c = numberSign) := by
        by_contra others
        rw [not_or, not_not, not_and, not_or] at others
        exact begins ⟨others.1, others.2 rfl⟩
      have fresh : (Lexer.mk tokens none .bare).Short 0 := .inr (Nat.le_refl 0)
      have short := (fresh.special rfl first).run text
      rw [Nat.zero_add] at short
      exact ⟨text.length, Nat.lt_succ_self _, short⟩

/-- A comment goes on to the end of its line. -/
theorem run_comment {text : List UInt8} (comment : s.mode = .comment) (line : newline ∉ text) :
    s.run text = s := by
  induction text with
  | nil => rfl
  | cons c text ih =>
    rw [List.mem_cons, not_or] at line
    have reads : read s.mode s.word.isSome c = (.keep, .comment) := by
      rw [comment, read, if_neg (Ne.symm line.1)]
    have stepped : s.step c = s := by
      rw [step_eq reads]
      show Lexer.mk s.tokens s.word .comment = s
      rw [← comment]
    rw [run_cons, stepped, ih line.2]

/-- A byte of a file name closes no substitution. -/
theorem readSubstitution_portable (portable : Portable c) (top : Frame) (outer : List Frame)
    (pending : Option UInt8) : readSubstitution top outer pending c = (top :: outer, none) := by
  have single : c ≠ singleQuote := portable.ne (by decide)
  have double : c ≠ doubleQuote := portable.ne (by decide)
  have escape : c ≠ backslash := portable.ne (by decide)
  have parameter : c ≠ dollar := portable.ne (by decide)
  have command : c ≠ backquote := portable.ne (by decide)
  have opening : c ≠ 0x28 := portable.ne (by decide)
  have closing : c ≠ 0x29 := portable.ne (by decide)
  have brace : c ≠ 0x7b := portable.ne (by decide)
  have unbrace : c ≠ 0x7d := portable.ne (by decide)
  unfold readSubstitution
  simp only [single, double, escape, parameter, command, opening, closing, brace, unbrace,
    and_false, or_false, if_false, ite_self]

/-- Behind a byte of a file name, where a command can end, is a comment or a word. -/
theorem word_of_portable (portable : Portable c) :
    s.mode = .comment ∨ (s.step c).complete = none ∨ (s.step c).word.isSome = true := by
  have extended {pieces : List Piece} {mode : Mode}
      (reads : read s.mode s.word.isSome c = (.extend pieces, mode)) :
          (s.step c).word.isSome = true := by
    rw [step_extend reads]
    rfl
  have bare : readBare s.word.isSome c = (.extend [.literal c], .bare) :=
    readBare_ordinary portable.ordinary fun _ => ⟨portable.ne (by decide), portable.ne (by decide)⟩
  have double := readDouble_ordinary portable.ordinary
  have line : c ≠ newline := portable.ne (by decide)
  have single : c ≠ singleQuote := portable.ne (by decide)
  cases mode : s.mode with
  | comment => exact .inl rfl
  | bare => exact .inr (.inr (extended (by rw [mode]; exact bare)))
  | double => exact .inr (.inr (extended (by rw [mode]; exact double)))
  | escaped => exact .inr (.inr (extended (by rw [mode, read, if_neg line])))
  | single => exact .inr (.inr (extended (by rw [mode, read, if_neg single])))
  | doubleEscaped =>
    by_cases known : c ∈ [dollar, backquote, doubleQuote, backslash]
    · exact .inr
        (.inr (extended (by rw [mode, read, readDoubleEscaped, if_neg line, if_pos known])))
    · exact .inr
        (.inr (extended (by rw [mode, read, readDoubleEscaped, if_neg line, if_neg known])))
  | dollar quoted =>
    have opening : c ≠ 0x28 := portable.ne (by decide)
    have brace : c ≠ 0x7b := portable.ne (by decide)
    cases quoted with
    | true => exact .inr (.inr
        (extended (by rw [mode, read, if_neg opening, if_neg brace]; exact double)))
    | false => exact .inr (.inr
        (extended (by rw [mode, read, if_neg opening, if_neg brace]; exact bare)))
  | substitution quoted top outer pending =>
    right
    left
    have reads : read s.mode s.word.isSome c = (.keep, .substitution quoted top outer none) := by
      rw [mode, read, readSubstitution_portable portable]
      rfl
    rw [step_eq reads]
    rfl

end Lexer

open Lexer

/-- The last argument is the last word of two or more. -/
theorem lastArgument_eq_some {text : List UInt8} {last : List Piece} :
    lastArgument text = some last ↔
      ∃ pieces rest, (start.run text).complete = some (.word last :: .word pieces :: rest) := by
  unfold lastArgument
  constructor
  · intro found
    split at found
    · rename_i ended
      cases found
      exact ⟨_, _, ended⟩
    · cases found
  · rintro ⟨pieces, rest, ended⟩
    rw [ended]

/-- Where a word was begun, the last argument is this word. -/
theorem of_lastArgument {text : List UInt8} {last : List Piece}
    (found : lastArgument text = some last)
    (inWord : (start.run text).word.isSome = true) :
    (start.run text).word = some last ∧ ∃ pieces rest, (start.run text).tokens =
      .word pieces :: rest := by
  obtain ⟨pieces, rest, ended⟩ := lastArgument_eq_some.mp found
  obtain ⟨word, begun⟩ := Option.isSome_iff_exists.mp inWord
  have finished : (start.run text).finished = .word last :: .word pieces :: rest := by
    unfold complete at ended
    split at ended
    all_goals first | exact Option.some.inj ended | cases ended
  rw [Lexer.finished, begun] at finished
  obtain ⟨same, others⟩ := List.cons.inj finished
  rw [begun, Token.word.inj same]
  exact ⟨rfl, pieces, rest, others⟩

/-- The shell between two words. -/
theorem Lexer.eq_of_between {s : Lexer} (bare : s.mode = .bare) (none : s.word = none) :
    s = ⟨s.tokens, .none, .bare⟩ := by
  rw [← bare, ← none]

/-- A space behind a text is one step more. -/
theorem run_space (front : List UInt8) :
    start.run (front ++ [space]) = (start.run front).step space := by
  rw [run_append, run_cons, run_nil]

/-- Behind a word and a space the shell is between two words again. -/
theorem ready_word {s : Lexer} {text : List UInt8} (bare : s.mode = .bare) (none : s.word = none)
    (plain : Plain text) (nonempty : text ≠ []) : (s.run (text ++ [space])).Ready := by
  rw [run_append, eq_of_between bare none, run_plain plain nonempty, run_cons, run_nil]
  exact ⟨rfl, rfl, _, _, rfl⟩

/-- And behind several ones. -/
theorem ready_words {s : Lexer} {words : List (List UInt8)} (bare : s.mode = .bare)
    (none : s.word = none)
    (some : words ≠ []) (each : ∀ word ∈ words, Plain word ∧ word ≠ []) :
    (s.run (words.flatMap (· ++ [space]))).Ready := by
  induction words generalizing s with
  | nil => exact absurd rfl some
  | cons word words ih =>
    rw [List.forall_mem_cons] at each
    have first := ready_word bare none each.1.1 each.1.2
    rw [List.flatMap_cons, run_append]
    cases words with
    | nil => exact first
    | cons other words => exact ih first.1 first.2.1 (List.cons_ne_nil _ _) each.2

/-- A bare string is the last argument between two words, if all its bytes stand for themselves. -/
theorem lastArgument_bare {front text : List UInt8} (ready : (start.run (front ++ [space])).Ready)
    (plain : Plain text) (nonempty : text ≠ []) :
    lastArgument (front ++ [space] ++ text) = some (literals text) := by
  obtain ⟨bare, none, pieces, rest, tokens⟩ := ready
  rw [lastArgument_eq_some, run_append, eq_of_between bare none, run_plain plain nonempty, tokens]
  exact ⟨pieces, rest, rfl⟩

/-- A string between double quotes is the last argument between two words. -/
theorem lastArgument_quoted {front text : List UInt8} (ready : (start.run (front ++ [space])).Ready)
    (ordinary : ∀ c ∈ text, Ordinary c) :
    lastArgument (front ++ [space] ++ doubleQuote :: (text ++ [doubleQuote])) =
      some (literals text) := by
  obtain ⟨bare, none, pieces, rest, tokens⟩ := ready
  rw [lastArgument_eq_some, run_append, eq_of_between bare none, run_quoted ordinary, tokens]
  exact ⟨pieces, rest, rfl⟩

/-- A bare string that is the last argument is in a comment, or between two words and unaltered. -/
theorem of_lastArgument_bare {front text : List UInt8} {c : UInt8} (line : newline ∉ text)
    (portable : Portable c)
    (found : lastArgument (front ++ [space] ++ (text ++ [c])) = some (literals (text ++ [c]))) :
    (start.run (front ++ [space] ++ text)).mode = .comment ∨
      (start.run (front ++ [space])).Ready ∧ Plain (text ++ [c]) := by
  have whole : start.run (front ++ [space] ++ (text ++ [c])) =
      (start.run (front ++ [space] ++ text)).step c := by
    rw [← List.append_assoc, run_append, run_cons, run_nil]
  rcases word_of_portable (s := start.run (front ++ [space] ++ text)) portable with
    comment | unfinished | inWord
  · exact .inl comment
  · obtain ⟨_, _, ended⟩ := lastArgument_eq_some.mp found
    rw [whole, unfinished] at ended
    cases ended
  · obtain ⟨word, pieces, rest, tokens⟩ := of_lastArgument found (by rw [whole]; exact inWord)
    rw [run_append] at word tokens
    have behind := (marked_start.run front).space
    rw [← run_space] at behind
    rcases behind with comment | ⟨bare, none⟩ | spans
    · left
      rw [run_append, run_comment comment line]
      exact comment
    · right
      have between := eq_of_between bare none
      by_cases plain : Plain (text ++ [c])
      · rw [between, run_plain plain (by simp)] at tokens
        exact ⟨⟨bare, none, pieces, rest, tokens⟩, plain⟩
      · obtain ⟨n, fewer, short⟩ := Short.of_not_plain plain (start.run (front ++ [space])).tokens
        rw [← between] at short
        exact absurd word (short.word_ne fewer)
    · rcases spans.run (text ++ [c]) with later | ⟨n, fewer, short⟩
      · exact absurd word (later.word_ne (by omega))
      · exact absurd word (short.word_ne fewer)

/-- What is in front of a string between double quotes that is the last argument ends in a comment,
or between two words. -/
theorem of_lastArgument_quoted {front text : List UInt8} (ordinary : ∀ c ∈ text, Ordinary c)
    (found : lastArgument (front ++ [space] ++ doubleQuote :: (text ++ [doubleQuote])) =
      some (literals text)) :
    (start.run (front ++ [space])).mode = .comment ∨ (start.run (front ++ [space])).Ready := by
  have behind := (marked_start.run front).space
  rw [← run_space] at behind
  rcases behind with comment | ⟨bare, none⟩ | spans
  · exact .inl comment
  · right
    have quoted := run_quoted ordinary (start.run (front ++ [space])).tokens
    rw [← eq_of_between bare none, ← run_append] at quoted
    obtain ⟨-, pieces, rest, tokens⟩ := of_lastArgument found (by rw [quoted]; rfl)
    rw [quoted] at tokens
    exact ⟨bare, none, pieces, rest, tokens⟩
  · have within : ∀ c ∈ doubleQuote :: (text ++ [doubleQuote]), c ∉ blanks ++ operators := by
      have quotes : doubleQuote ∉ blanks ++ operators := by decide
      have inside : ∀ c ∈ text, c ∉ blanks ++ operators := fun c member =>
        (ordinary c member).notMem_separators
      exact List.forall_mem_cons.mpr ⟨quotes,
        List.forall_mem_append.mpr ⟨inside, by simpa using quotes⟩⟩
    have later := spans.run_within within
    rw [← run_append] at later
    have spaceless : text.count space = 0 := by
      rw [List.count_eq_zero]
      exact fun member => ordinary space member (by decide)
    have different := later.word_ne (spaceless.trans_le (Nat.zero_le _))
    obtain ⟨begun, inWord, -⟩ := later
    obtain ⟨word, -⟩ := of_lastArgument found (by rw [inWord]; rfl)
    exact absurd word different

section Names

variable {front text : List UInt8} {names : Set (List UInt8)}

/-- A comment begins with no byte of a file name. -/
theorem comment_of_run {s : Lexer} {name : List UInt8} (portable : ∀ c ∈ name, Portable c)
    (comment : (s.run name).mode = .comment) : s.mode = .comment := by
  induction name generalizing s with
  | nil => exact comment
  | cons c name ih =>
    rw [List.forall_mem_cons] at portable
    have before := ih portable.2 comment
    rw [step_mode] at before
    rcases read_comment before with here | sign
    · exact here
    · exact absurd sign (portable.1.ne (by decide))

/-- A comment is the same whatever is in it. -/
theorem lastArgument_comment (comment : (start.run front).mode = .comment) (line : newline ∉ text) :
    lastArgument (front ++ text) = lastArgument front := by
  unfold lastArgument
  rw [run_append, run_comment comment line]

/-- Different texts are different literals. -/
theorem literals_injective : Function.Injective literals :=
  List.map_injective_iff.mpr fun _ _ => Piece.literal.inj

/-- A name of portable bytes has no newline. -/
theorem newline_notMem {name : List UInt8} (portable : ∀ c ∈ name, Portable c) : newline ∉ name :=
  fun member => (portable newline member).notMem (by decide)

/-- Ordinary bytes behind a text do not change whether it is plain. -/
theorem plain_append_iff {rest : List UInt8}
    (others : ∀ c ∈ rest, Ordinary c ∧ c ≠ tilde ∧ c ≠ numberSign) : Plain (text ++ rest) ↔
      Plain text := by
  constructor
  · rintro ⟨ordinary, first⟩
    refine ⟨fun c member => ordinary c (List.mem_append_left _ member), fun c head => first c ?_⟩
    rw [List.head?_append, head]
    rfl
  · rintro ⟨ordinary, first⟩
    refine ⟨List.forall_mem_append.mpr ⟨ordinary, fun c member => (others c member).1⟩,
      fun c head => ?_⟩
    cases text with
    | nil => exact (others c (List.mem_of_mem_head? head)).2
    | cons byte text => exact first c head

/-- A portable byte may stand anywhere in a plain text. -/
theorem Portable.within {c : UInt8} (portable : Portable c) :
    Ordinary c ∧ c ≠ tilde ∧ c ≠ numberSign :=
  ⟨portable.ordinary, portable.ne (by decide), portable.ne (by decide)⟩

/-- In a comment no string says which name it ends with. -/
theorem no_comment (two : names.Nontrivial) (comment : (start.run front).mode = .comment)
    {rest : List UInt8 → List UInt8} (line : ∀ name ∈ names, newline ∉ rest name)
    (found : ∀ name ∈ names, lastArgument (front ++ rest name) = some (literals (text ++ name))) :
    False := by
  obtain ⟨name, here, other, there, different⟩ := two
  have one := found name here
  have two := found other there
  rw [lastArgument_comment comment (line name here)] at one
  rw [lastArgument_comment comment (line other there), one, Option.some.injEq] at two
  exact different (List.append_cancel_left (literals_injective two))

variable (portable : ∀ name ∈ names, name ≠ [] ∧ ∀ c ∈ name, Portable c) (two : names.Nontrivial)
include portable two

/-- Strings that end with a file name are the last argument, bare, if and only if what is in front
leaves the shell between two words and the bytes in front of the name stand for themselves. -/
theorem lastArgument_bare_iff (line : newline ∉ text) :
    (∀ name ∈ names, lastArgument (front ++ [space] ++ (text ++ name)) =
      some (literals (text ++ name))) ↔
      (start.run (front ++ [space])).Ready ∧ Plain text := by
  constructor
  · intro found
    obtain ⟨name, here⟩ := two.nonempty
    obtain ⟨nonempty, letters⟩ := portable name here
    obtain ⟨init, c, rfl⟩ := (List.eq_nil_or_concat' name).resolve_left nonempty
    have split := List.forall_mem_append.mp letters
    have last := found _ here
    rw [← List.append_assoc text] at last
    have newlineFree : newline ∉ text ++ init := by
      rw [List.mem_append, not_or]
      exact ⟨line, newline_notMem split.1⟩
    rcases of_lastArgument_bare newlineFree (split.2 c (List.mem_singleton.mpr rfl)) last with
      comment | ⟨ready, plain⟩
    · rw [← List.append_assoc, run_append] at comment
      have appended : ∀ name ∈ names, lastArgument (front ++ [space] ++ text ++ name) =
          some (literals (text ++ name)) := by
        simpa only [List.append_assoc] using found
      exact (no_comment two (comment_of_run split.1 comment)
        (fun name member => newline_notMem (portable name member).2) appended).elim
    · rw [List.append_assoc, plain_append_iff fun c member => (letters c member).within] at plain
      exact ⟨ready, plain⟩
  · rintro ⟨ready, plain⟩ name member
    obtain ⟨nonempty, letters⟩ := portable name member
    have whole := (plain_append_iff fun c member => (letters c member).within).mpr plain
    exact lastArgument_bare ready whole (by simp [nonempty])

/-- Between double quotes they are if and only if what is in front leaves the shell between two
words. -/
theorem lastArgument_quoted_iff (ordinary : ∀ c ∈ text, Ordinary c) :
    (∀ name ∈ names,
      lastArgument (front ++ [space] ++ doubleQuote :: (text ++ name ++ [doubleQuote])) =
          some (literals (text ++ name))) ↔ (start.run (front ++ [space])).Ready := by
  have whole : ∀ name ∈ names, ∀ c ∈ text ++ name, Ordinary c := fun name member =>
    List.forall_mem_append.mpr ⟨ordinary, fun c letter =>
      ((portable name member).2 c letter).ordinary⟩
  constructor
  · intro found
    obtain ⟨name, here⟩ := two.nonempty
    rcases of_lastArgument_quoted (whole name here) (found _ here) with comment | ready
    · have newlineFree : ∀ name ∈ names,
          newline ∉ doubleQuote :: (text ++ name ++ [doubleQuote]) := by
        intro name member
        rw [List.mem_cons, List.mem_append, not_or, not_or]
        exact ⟨by decide, fun inside => whole name member newline inside (by decide), by decide⟩
      exact (no_comment two comment newlineFree found).elim
    · exact ready
  · exact fun ready name member => lastArgument_quoted ready (whole name member)

end Names

end ShellWords
