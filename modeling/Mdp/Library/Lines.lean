import Mathlib.Data.List.DropRight

/-!
# C strings and lines of a stream

A buffer holds a C string up to its first NUL. `fgets` takes a line off the front of a stream, or
as much of it as its buffer has room for; `chunks` is what a loop over `fgets` sees of a whole
stream, and `lines` are the lines themselves. They agree exactly on streams whose lines all fit
the buffer.
-/

namespace CStrings

/-- Bytes of a `char` array or a stream. -/
abbrev Bytes := List UInt8

/-- `'\n'`. -/
abbrev newline : UInt8 := 10

/-- The string a buffer holds: its cells before the first NUL. -/
def upToNul {α : Type} [OfNat α 0] [DecidableEq α] (cells : List α) : List α :=
  cells.takeWhile (· ≠ 0)

/-- Dropping what a list ends with, up to something that is kept. -/
theorem rdropWhile_append {α : Type} {p : α → Bool} {last : α} (front after : List α)
    (stops : ¬ p last) (all : ∀ item ∈ after, p item = true) :
    (front ++ [last] ++ after).rdropWhile p = front ++ [last] := by
  induction after using List.reverseRecOn with
  | nil => rw [List.append_nil, List.rdropWhile_concat_neg _ _ _ stops]
  | append_singleton after item ih =>
    have here : p item = true := all item (by simp)
    have before : ∀ item ∈ after, p item = true := fun item inside => all item (by simp [inside])
    rw [← List.append_assoc, List.rdropWhile_concat_pos _ _ _ here, ih before]

/-- Cells without NUL are one string. -/
theorem upToNul_of_forall {α : Type} [OfNat α 0] [DecidableEq α] {cells : List α}
    (nonNull : ∀ cell ∈ cells, cell ≠ 0) : upToNul cells = cells := by
  simpa [upToNul, List.takeWhile_eq_self_iff] using nonNull

/-- A terminated string is what is before the terminator. -/
theorem upToNul_append_zero {α : Type} [OfNat α 0] [DecidableEq α] {cells after : List α}
    (nonNull : ∀ cell ∈ cells, cell ≠ 0) : upToNul (cells ++ 0 :: after) = cells := by
  rw [upToNul, List.takeWhile_append_of_pos (by simpa using nonNull)]
  simp

/-- A string has no NUL. -/
theorem ne_zero_of_mem_upToNul {α : Type} [OfNat α 0] [DecidableEq α] {cells : List α} {cell : α}
    (member : cell ∈ upToNul cells) : cell ≠ 0 := by
  simpa using List.mem_takeWhile_imp member

/-- The cells of a string are cells of its buffer. -/
theorem mem_of_mem_upToNul {α : Type} [OfNat α 0] [DecidableEq α] {cells : List α} {cell : α}
    (member : cell ∈ upToNul cells) : cell ∈ cells :=
  (List.takeWhile_prefix _).mem member

/-- A buffer is its string, and then a NUL unless the string fills it. -/
theorem upToNul_append_rest {α : Type} [OfNat α 0] [DecidableEq α] (cells : List α) :
    ∃ after, cells = upToNul cells ++ after ∧ (after = [] ∨ ∃ tail, after = 0 :: tail) := by
  induction cells with
  | nil => exact ⟨[], rfl, .inl rfl⟩
  | cons cell cells ih =>
    by_cases null : cell = 0
    · exact ⟨cell :: cells, by simp [upToNul, null], .inr ⟨cells, by rw [null]⟩⟩
    · obtain ⟨after, split, ended⟩ := ih
      refine ⟨after, ?_, ended⟩
      have grown : upToNul (cell :: cells) = cell :: upToNul cells := by simp [upToNul, null]
      rw [grown, List.cons_append, ← split]

/-- Take bytes off a stream up to and with the first newline, but at most `room` of them. -/
def readLine : Nat → Bytes → Bytes × Bytes
  | 0, stream => ([], stream)
  | _ + 1, [] => ([], [])
  | room + 1, byte :: stream =>
    if byte = newline then ([byte], stream)
    else (byte :: (readLine room stream).1, (readLine room stream).2)

/-- `fgets` on a buffer of `size` bytes: the bytes put in front of the terminating NUL and the
rest of the stream, or `none` at its end. -/
def fgets (size : Nat) (stream : Bytes) : Option (Bytes × Bytes) :=
  if stream = [] then none else some (readLine (size - 1) stream)

/-- The buffer is full before the line ends. -/
theorem readLine_length_append {front : Bytes} (free : newline ∉ front) (stream : Bytes) :
    readLine front.length (front ++ stream) = (front, stream) := by
  induction front with
  | nil => rfl
  | cons byte front ih =>
    simp only [List.mem_cons, not_or] at free
    simp only [List.length_cons, List.cons_append, readLine, if_neg (Ne.symm free.1), ih free.2]

/-- Reading splits the stream. -/
theorem readLine_append (room : Nat) (stream : Bytes) :
    (readLine room stream).1 ++ (readLine room stream).2 = stream := by
  induction room generalizing stream with
  | zero => rfl
  | succ room ih =>
    cases stream with
    | nil => rfl
    | cons byte stream =>
      unfold readLine
      split
      · rfl
      · simp [ih stream]

/-- A read into a buffer with room takes at least one byte of a stream that has one. -/
theorem readLine_shorter (room : Nat) {stream : Bytes} (nonempty : stream ≠ []) :
    (readLine (room + 1) stream).2.length < stream.length := by
  cases stream with
  | nil => contradiction
  | cons byte stream =>
    unfold readLine
    split
    · simp
    · have split := congrArg List.length (readLine_append room stream)
      simp only [List.length_append] at split
      simp only [List.length_cons]
      omega

/-- What is read fits the room. -/
theorem readLine_length (room : Nat) (stream : Bytes) :
    (readLine room stream).1.length ≤ room := by
  induction room generalizing stream with
  | zero => simp [readLine]
  | succ room ih =>
    cases stream with
    | nil => simp [readLine]
    | cons byte stream =>
      unfold readLine
      split
      · simp
      · simpa using ih stream

/-- What is read has a newline only as its last byte. -/
theorem readLine_body (room : Nat) (stream : Bytes) :
    ∃ body, newline ∉ body ∧
      ((readLine room stream).1 = body ∨ (readLine room stream).1 = body ++ [newline]) := by
  induction room generalizing stream with
  | zero => exact ⟨[], by simp, .inl rfl⟩
  | succ room ih =>
    cases stream with
    | nil => exact ⟨[], by simp, .inl rfl⟩
    | cons byte stream =>
      unfold readLine
      by_cases last : byte = newline
      · exact ⟨[], by simp, .inr (by simp [last])⟩
      · obtain ⟨body, free, read⟩ := ih stream
        refine ⟨byte :: body, ?_, ?_⟩
        · simpa [free] using fun same => last same.symm
        · simpa [last] using read

/-- The results of `fgets` on a stream, one after the other, for at most `budget` calls. -/
def chunksWithin (size : Nat) : Nat → Bytes → List Bytes
  | 0, _ => []
  | budget + 1, stream =>
    match fgets size stream with
    | none => []
    | some (line, rest) => line :: chunksWithin size budget rest

/-- What a loop over `fgets` sees of a stream. Each call takes at least a byte, so the length of
the stream bounds their number. -/
def chunks (size : Nat) (stream : Bytes) : List Bytes := chunksWithin size stream.length stream

/-- An exhausted stream gives nothing. -/
@[simp] theorem chunks_nil (size : Nat) : chunks size [] = [] := rfl

/-- The budget does not matter once it covers the stream. -/
theorem chunksWithin_enough (room : Nat) {budget : Nat} {stream : Bytes}
    (enough : stream.length ≤ budget) :
    chunksWithin (room + 2) budget stream = chunks (room + 2) stream := by
  induction budget using Nat.strongRecOn generalizing stream with
  | ind budget ih =>
    cases stream with
    | nil => cases budget <;> rfl
    | cons byte stream =>
      cases budget with
      | zero => simp at enough
      | succ budget =>
        have shorter := readLine_shorter room (List.cons_ne_nil byte stream)
        simp only [List.length_cons] at enough shorter
        simp only [chunks, List.length_cons, chunksWithin, fgets, List.cons_ne_nil, ↓reduceIte,
          Nat.add_one_sub_one]
        congr 1
        rw [ih budget (Nat.lt_succ_self _) (by omega)]
        by_cases same : stream.length = budget
        · rw [same, ih budget (Nat.lt_succ_self _) (by omega)]
        · rw [ih stream.length (by omega) (by omega)]

/-- The loop on a stream that is not exhausted: one `fgets`, then the loop on the rest. -/
theorem chunks_of_ne_nil (room : Nat) {stream : Bytes} (nonempty : stream ≠ []) :
    chunks (room + 2) stream =
      (readLine (room + 1) stream).1 :: chunks (room + 2) (readLine (room + 1) stream).2 := by
  cases stream with
  | nil => contradiction
  | cons byte stream =>
    have shorter := readLine_shorter room (List.cons_ne_nil byte stream)
    simp only [List.length_cons] at shorter
    rw [chunks]
    simp only [List.length_cons, chunksWithin, fgets, List.cons_ne_nil, ↓reduceIte,
      Nat.add_one_sub_one]
    rw [chunksWithin_enough room (by omega)]

/-- Induction along the calls of `fgets`. -/
theorem chunks_induction (room : Nat) {motive : Bytes → Prop} (nil : motive [])
    (read : ∀ stream, stream ≠ [] → motive (readLine (room + 1) stream).2 → motive stream)
    (stream : Bytes) : motive stream := by
  induction hlen : stream.length using Nat.strongRecOn generalizing stream with
  | ind length ih =>
    by_cases empty : stream = []
    · rw [empty]
      exact nil
    · have shorter := readLine_shorter room empty
      exact read stream empty (ih _ (by omega) _ rfl)

/-- The chunks are the stream, cut into pieces. -/
theorem chunks_flatten (room : Nat) (stream : Bytes) :
    (chunks (room + 2) stream).flatten = stream := by
  induction stream using chunks_induction room with
  | nil => rfl
  | read stream nonempty ih =>
    rw [chunks_of_ne_nil room nonempty, List.flatten_cons, ih, readLine_append]

/-- Every chunk is one read. -/
theorem exists_of_mem_chunks (room : Nat) {stream chunk : Bytes}
    (member : chunk ∈ chunks (room + 2) stream) :
    ∃ rest, rest ≠ [] ∧ chunk = (readLine (room + 1) rest).1 := by
  induction stream using chunks_induction room with
  | nil => simp at member
  | read stream nonempty ih =>
    rw [chunks_of_ne_nil room nonempty, List.mem_cons] at member
    rcases member with first | later
    · exact ⟨stream, nonempty, first⟩
    · exact ih later

/-- The lines of a stream, each with its newline; what follows the last newline is a line too. -/
def lines : Bytes → List Bytes
  | [] => []
  | byte :: stream =>
    if byte = newline then [byte] :: lines stream
    else
      match lines stream with
      | [] => [[byte]]
      | line :: rest => (byte :: line) :: rest

/-- A line without its newline. -/
def lineBody (line : Bytes) : Bytes := line.takeWhile (· ≠ newline)

/-- Only the empty stream has no line. -/
theorem lines_eq_nil {stream : Bytes} : lines stream = [] ↔ stream = [] := by
  cases stream with
  | nil => simp [lines]
  | cons byte stream =>
    unfold lines
    split
    · simp
    · split <;> simp

/-- A body before the first newline is the front of the first line. -/
theorem lines_append_newline {body : Bytes} (free : newline ∉ body) (stream : Bytes) :
    lines (body ++ newline :: stream) = (body ++ [newline]) :: lines stream := by
  induction body with
  | nil => simp [lines]
  | cons byte body ih =>
    simp only [List.mem_cons, not_or] at free
    simp only [List.cons_append, lines, Ne.symm free.1, ↓reduceIte, ih free.2]

/-- A stream without newline is one line. -/
theorem lines_of_notMem {body : Bytes} (free : newline ∉ body) (nonempty : body ≠ []) :
    lines body = [body] := by
  induction body with
  | nil => contradiction
  | cons byte body ih =>
    simp only [List.mem_cons, not_or] at free
    by_cases last : body = []
    · simp [lines, last, Ne.symm free.1]
    · simp [lines, Ne.symm free.1, ih free.2 last]

/-- The body of a terminated line. -/
@[simp] theorem lineBody_append_newline {body : Bytes} (free : newline ∉ body) :
    lineBody (body ++ [newline]) = body := by
  rw [lineBody, List.takeWhile_append_of_pos]
  · simp
  · intro byte member
    simpa using fun same : byte = newline => free (same ▸ member)

/-- The body of an unterminated line. -/
@[simp] theorem lineBody_of_notMem {body : Bytes} (free : newline ∉ body) :
    lineBody body = body := by
  rw [lineBody, List.takeWhile_eq_self_iff]
  intro byte member
  simpa using fun same : byte = newline => free (same ▸ member)

/-- The lines of terminated bodies written one after the other are these bodies. -/
theorem lines_flatMap_newline {bodies : List Bytes} (free : ∀ body ∈ bodies, newline ∉ body) :
    lines (bodies.flatMap fun body => body ++ [newline]) =
      bodies.map fun body => body ++ [newline] := by
  induction bodies with
  | nil => rfl
  | cons body bodies ih =>
    simp only [List.mem_cons, forall_eq_or_imp] at free
    rw [List.flatMap_cons, List.append_assoc, List.singleton_append,
      lines_append_newline free.1, ih free.2, List.map_cons]

/-- A piece of a line: its only newline is its last byte. -/
def Piece (piece : Bytes) : Prop :=
  ∃ body, newline ∉ body ∧ (piece = body ∨ piece = body ++ [newline])

/-- What a buffer holds of a piece is a piece. -/
theorem Piece.upToNul {piece : Bytes} (one : Piece piece) : Piece (upToNul piece) := by
  obtain ⟨body, free, rfl | rfl⟩ := one
  · exact ⟨_, fun member => free (mem_of_mem_upToNul member), .inl rfl⟩
  · by_cases null : (0 : UInt8) ∈ body
    · obtain ⟨before, after, rfl, clean⟩ := List.eq_append_cons_of_mem null
      have cut : CStrings.upToNul (before ++ 0 :: (after ++ [newline])) = before :=
        upToNul_append_zero fun cell member zero => clean (zero ▸ member)
      rw [List.append_assoc, List.cons_append, cut]
      exact ⟨before, fun member => free (List.mem_append_left _ member), .inl rfl⟩
    · refine ⟨body, free, .inr (upToNul_of_forall ?_)⟩
      intro cell member zero
      rw [List.mem_append, List.mem_singleton] at member
      rcases member with inside | last
      · exact null (zero ▸ inside)
      · rw [last] at zero
        exact absurd zero (by decide)

/-- The chunks of a stream are pieces of lines. -/
theorem piece_of_mem_chunks (room : Nat) {stream chunk : Bytes}
    (member : chunk ∈ chunks (room + 2) stream) : Piece chunk := by
  obtain ⟨rest, _, rfl⟩ := exists_of_mem_chunks room member
  exact readLine_body (room + 1) rest

/-- The lines of a stream are pieces of lines. -/
theorem piece_of_mem_lines {stream line : Bytes} (member : line ∈ lines stream) : Piece line := by
  induction stream generalizing line with
  | nil => simp [lines] at member
  | cons byte stream ih =>
    unfold lines at member
    split at member
    · rcases List.mem_cons.mp member with rfl | later
      · exact ⟨[], by simp, .inr (by simp [*])⟩
      · exact ih later
    · rename_i other
      split at member
      · rw [List.mem_singleton] at member
        exact ⟨[byte], by simpa using Ne.symm other, .inl member⟩
      · rename_i first rest found
        rcases List.mem_cons.mp member with rfl | later
        · obtain ⟨body, free, shape⟩ := ih (by rw [found]; exact List.mem_cons_self)
          exact ⟨byte :: body, by simpa [free] using Ne.symm other, by simpa using shape⟩
        · exact ih (by rw [found]; exact List.mem_cons_of_mem _ later)

/-- Pieces hold at most one newline each. -/
theorem count_newline_pieces {pieces : List Bytes} (each : ∀ piece ∈ pieces, Piece piece) :
    pieces.flatten.count newline ≤ pieces.length ∧
      (pieces.flatten.count newline = pieces.length →
        ∃ bodies : List Bytes, (∀ body ∈ bodies, newline ∉ body) ∧
          pieces = bodies.map fun body => body ++ [newline]) := by
  induction pieces with
  | nil => exact ⟨by simp, fun _ => ⟨[], by simp, rfl⟩⟩
  | cons piece pieces ih =>
    rw [List.forall_mem_cons] at each
    obtain ⟨bound, ends⟩ := ih each.2
    rw [List.flatten_cons, List.count_append, List.length_cons]
    obtain ⟨body, free, rfl | rfl⟩ := each.1
    · rw [List.count_eq_zero_of_not_mem free]
      exact ⟨by omega, fun same => by omega⟩
    · rw [List.count_append, List.count_eq_zero_of_not_mem free]
      simp only [List.count_singleton_self]
      refine ⟨by omega, fun same => ?_⟩
      obtain ⟨bodies, clean, rfl⟩ := ends (by omega)
      exact ⟨body :: bodies, by simpa using ⟨free, clean⟩, rfl⟩

/-- Pieces that make up as many terminated lines as they are many are these lines. -/
theorem pieces_eq_lines {pieces bodies : List Bytes} (each : ∀ piece ∈ pieces, Piece piece)
    (free : ∀ body ∈ bodies, newline ∉ body) (many : pieces.length = bodies.length)
    (same : pieces.flatten = bodies.flatMap fun body => body ++ [newline]) :
    pieces = bodies.map fun body => body ++ [newline] := by
  have count : (bodies.flatMap fun body => body ++ [newline]).count newline = bodies.length := by
    clear many same
    induction bodies with
    | nil => rfl
    | cons body bodies ih =>
      rw [List.forall_mem_cons] at free
      simp only [List.flatMap_cons, List.count_append, List.count_singleton_self,
        List.count_eq_zero_of_not_mem free.1, ih free.2, List.length_cons]
      omega
  obtain ⟨others, clean, rfl⟩ := (count_newline_pieces each).2 (by rw [same, count, many])
  rw [← lines_flatMap_newline clean, ← lines_flatMap_newline free, List.flatMap_def, same]

/-- A first line that fits the room is what is read, and the others are left. -/
theorem lines_eq_readLine {room : Nat} {stream line : Bytes} {rest : List Bytes}
    (split : lines stream = line :: rest) (fits : line.length ≤ room) :
    lines stream = (readLine room stream).1 :: lines (readLine room stream).2 := by
  induction room generalizing stream line rest with
  | zero =>
    have nonempty : line ≠ [] := by
      cases stream with
      | nil => simp [lines] at split
      | cons byte stream =>
        unfold lines at split
        split at split <;> (try split at split) <;> cases split <;> simp
    exact absurd (List.length_eq_zero_iff.mp (Nat.le_zero.mp fits)) nonempty
  | succ room ih =>
    cases stream with
    | nil => simp [lines] at split
    | cons byte stream =>
      by_cases last : byte = newline
      · simp [lines, readLine, last]
      · simp only [lines, readLine, last, ↓reduceIte] at split ⊢
        cases found : lines stream with
        | nil =>
          rw [lines_eq_nil] at found
          subst found
          cases room <;> simp [readLine, lines]
        | cons first others =>
          simp only [found, List.cons.injEq] at split
          obtain ⟨rfl, rfl⟩ := split
          have split := ih found (by simpa using fits)
          rw [found, List.cons.injEq] at split
          simp [split.1, split.2]

/-- A first line that does not fit stays a line, shorter by the room. -/
theorem lines_readLine_of_long {room : Nat} {stream line : Bytes} {rest : List Bytes}
    (split : lines stream = line :: rest) (long : room < line.length) :
    lines (readLine room stream).2 = line.drop room :: rest := by
  induction room generalizing stream line rest with
  | zero => simpa [readLine] using split
  | succ room ih =>
    cases stream with
    | nil => simp [lines] at split
    | cons byte stream =>
      by_cases last : byte = newline
      · simp only [lines, last, ↓reduceIte, List.cons.injEq] at split
        obtain ⟨rfl, rfl⟩ := split
        simp at long
      · simp only [lines, readLine, last, ↓reduceIte] at split ⊢
        cases found : lines stream with
        | nil =>
          simp only [found, List.cons.injEq] at split
          obtain ⟨rfl, rfl⟩ := split
          simp at long
        | cons first others =>
          simp only [found, List.cons.injEq] at split
          obtain ⟨rfl, rfl⟩ := split
          simpa using ih found (by simpa using long)

/-- A stream whose lines all fit the buffer is read line by line. -/
theorem chunks_eq_lines (room : Nat) {stream : Bytes}
    (fits : ∀ line ∈ lines stream, line.length ≤ room + 1) :
    chunks (room + 2) stream = lines stream := by
  induction stream using chunks_induction room with
  | nil => rfl
  | read stream nonempty ih =>
    cases split : lines stream with
    | nil => exact absurd (lines_eq_nil.mp split) nonempty
    | cons line rest =>
      have same := lines_eq_readLine split (fits line (by simp [split]))
      rw [chunks_of_ne_nil room nonempty, ← split, same, ih]
      intro later member
      exact fits later (by rw [same]; exact List.mem_cons_of_mem _ member)

/-- A stream is never read in fewer pieces than it has lines. -/
theorem lines_length_le_chunks (room : Nat) (stream : Bytes) :
    (lines stream).length ≤ (chunks (room + 2) stream).length := by
  induction stream using chunks_induction room with
  | nil => simp [lines]
  | read stream nonempty ih =>
    rw [chunks_of_ne_nil room nonempty, List.length_cons]
    cases split : lines stream with
    | nil => simp
    | cons line rest =>
      by_cases fits : line.length ≤ room + 1
      · rw [← split, lines_eq_readLine split fits, List.length_cons]
        omega
      · rw [lines_readLine_of_long split (by omega), List.length_cons] at ih
        simp only [List.length_cons]
        omega

/-- A stream read in as many pieces as it has lines has only lines that fit. -/
theorem fits_of_length_eq (room : Nat) {stream : Bytes}
    (same : (chunks (room + 2) stream).length = (lines stream).length) :
    ∀ line ∈ lines stream, line.length ≤ room + 1 := by
  induction stream using chunks_induction room with
  | nil => simp [lines]
  | read stream nonempty ih =>
    rw [chunks_of_ne_nil room nonempty, List.length_cons] at same
    cases split : lines stream with
    | nil => simp
    | cons line rest =>
      by_cases fits : line.length ≤ room + 1
      · have taken := lines_eq_readLine split fits
        rw [taken, List.length_cons] at same
        intro later member
        rw [← split, taken, List.mem_cons] at member
        rcases member with first | member
        · rw [first]
          exact readLine_length _ _
        · exact ih (by omega) later member
      · have more := lines_length_le_chunks room (readLine (room + 1) stream).2
        rw [lines_readLine_of_long split (by omega), List.length_cons] at more
        rw [split, List.length_cons] at same
        omega

/-- Nothing, or a text whose last byte is a newline. -/
def Terminated (stream : Bytes) : Prop := ∀ byte ∈ stream.getLast?, byte = newline

/-- Whether a stream ends its last line can be decided. -/
instance (stream : Bytes) : Decidable (Terminated stream) :=
  decidable_of_iff (stream.getLast?.all (· == newline) = true) (by
    unfold Terminated
    cases stream.getLast? <;> simp)

/-- The empty stream is terminated. -/
theorem terminated_nil : Terminated [] := by simp [Terminated]

/-- A newline at the end terminates a stream. -/
theorem terminated_append_newline (body : Bytes) : Terminated (body ++ [newline]) := by
  simp [Terminated]

/-- What follows a byte of such a text is one, and is there unless the byte was the newline. -/
theorem Terminated.tail {byte : UInt8} {stream : Bytes} (whole : Terminated (byte :: stream)) :
    Terminated stream ∧ (stream = [] → byte = newline) := by
  cases stream with
  | nil => exact ⟨terminated_nil, fun _ => whole byte rfl⟩
  | cons next stream =>
    constructor
    · intro last member
      apply whole last
      rwa [List.getLast?_cons_cons]
    · simp

/-- Such texts one after the other are one. -/
theorem Terminated.append {front stream : Bytes} (whole : Terminated front)
    (rest : Terminated stream) : Terminated (front ++ stream) := by
  intro last member
  rw [List.getLast?_append] at member
  cases there : stream.getLast? with
  | none =>
    rw [there, Option.none_or] at member
    exact whole last member
  | some byte =>
    rw [there, Option.some_or] at member
    exact rest last (by rw [there]; exact member)

/-- A line is read off such a text before anything that follows it. -/
theorem readLine_append_of_terminated (room : Nat) {front : Bytes} (whole : Terminated front)
    (nonempty : front ≠ []) (stream : Bytes) :
    (readLine room (front ++ stream)).1 = (readLine room front).1 ∧
      (readLine room (front ++ stream)).2 = (readLine room front).2 ++ stream ∧
      Terminated (readLine room front).2 := by
  induction room generalizing front with
  | zero => exact ⟨rfl, rfl, whole⟩
  | succ room ih =>
    cases front with
    | nil => contradiction
    | cons byte front =>
      obtain ⟨rest, last⟩ := whole.tail
      by_cases ended : byte = newline
      · simp only [readLine, List.cons_append, if_pos ended, true_and]
        exact rest
      · have more : front ≠ [] := fun none => ended (last none)
        obtain ⟨read, left, later⟩ := ih rest more
        simp only [readLine, List.cons_append, if_neg ended, read, left, true_and]
        exact later

/-- The buffers of such a text are read before those of what follows it. -/
theorem chunks_append_of_terminated (room : Nat) {front : Bytes} (whole : Terminated front)
    (stream : Bytes) :
    chunks (room + 2) (front ++ stream) = chunks (room + 2) front ++ chunks (room + 2) stream := by
  induction front using chunks_induction room with
  | nil => rfl
  | read front nonempty ih =>
    obtain ⟨read, left, later⟩ := readLine_append_of_terminated (room + 1) whole nonempty stream
    have more : front ++ stream ≠ [] := by simp [nonempty]
    rw [chunks_of_ne_nil room more, chunks_of_ne_nil room nonempty, read, left, ih later,
      List.cons_append]

end CStrings
