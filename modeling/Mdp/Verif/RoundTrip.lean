import Mdp.Verif.Decoding

/-!
# From the decrypted bytes to the temporary file

What `edit_results` writes for the results of a load, in a locale that loses nothing. Each buffer
that decodes is written as its own bytes without the trailing whitespace and with one newline.
A buffer that does not decode is still written as one line, because no newline is ever left in the
static buffer.
-/

namespace Mdp.RoundTrip

open CStrings Decoding

/-- Trailing whitespace of a line, its newline included. -/
def blanks : List UInt8 := [0x20, 0x09, 0x0d, newline]

/-- A buffer without its trailing whitespace. -/
def stripped (chunk : Bytes) : Bytes := chunk.rdropWhile fun byte => decide (byte ∈ blanks)

/-- A line without its newline and without the spaces, tabs and carriage returns before it. -/
def lineText (line : Bytes) : Bytes :=
  (lineBody line).rdropWhile fun byte => decide (byte ∈ [(0x20 : UInt8), 0x09, 0x0d])

/-- Two streams have the same lines up to trailing whitespace. -/
def SameLines (left right : Bytes) : Prop := (lines left).map lineText = (lines right).map lineText

/-- Whether two contents have the same lines can be decided. -/
instance (left right : Bytes) : Decidable (SameLines left right) :=
  inferInstanceAs (Decidable (_ = _))

/-- Blanks are plain. -/
theorem plain_blanks : ∀ byte ∈ blanks, CLocale.Plain byte := by decide +kernel

/-- The wide whitespace is the blanks. -/
theorem wcsWhitespace_eq : wcsWhitespace = blanks.map UInt8.toUInt32 := by decide

/-- What is dropped off the end of a text without newline does not depend on whether a newline
counts as a blank. -/
theorem stripped_of_free {body : Bytes} (free : newline ∉ body) :
    stripped body = body.rdropWhile fun byte => decide (byte ∈ [(0x20 : UInt8), 0x09, 0x0d]) := by
  induction body using List.reverseRecOn with
  | nil => rfl
  | append_singleton body byte ih =>
    simp only [List.mem_append, List.mem_singleton, not_or] at free
    have other : byte ≠ newline := Ne.symm free.2
    have same : byte ∈ blanks ↔ byte ∈ [(0x20 : UInt8), 0x09, 0x0d] := by simp [blanks, other]
    rw [stripped, List.rdropWhile_concat, List.rdropWhile_concat, ← stripped, ih free.1]
    simp only [same]

/-- Stripping a piece of a line gives its text. -/
theorem stripped_of_piece {piece : Bytes} (one : Piece piece) :
    stripped piece = lineText piece := by
  obtain ⟨body, free, rfl | rfl⟩ := one
  · rw [stripped_of_free free, lineText, lineBody_of_notMem free]
  · rw [stripped, List.rdropWhile_concat_pos _ _ _ (by decide), ← stripped,
      stripped_of_free free, lineText, lineBody_append_newline free]

/-- The text of a line has no newline. -/
theorem newline_notMem_lineText {line : Bytes} : newline ∉ lineText line := by
  intro member
  have inside := (List.rdropWhile_prefix _ _).mem member
  simpa using List.mem_takeWhile_imp inside

/-- A text that was written as a line is its text. -/
theorem lineText_append_newline (line : Bytes) :
    lineText (lineText line ++ [newline]) = lineText line := by
  rw [lineText, lineBody_append_newline newline_notMem_lineText]
  conv_rhs => rw [lineText, ← List.rdropWhile_idempotent]
  rfl

variable {L : CLocale}

/-- The buffer holds no newline between two lines. -/
def NewlineFree (memory : Memory) : Prop := newline.toUInt32 ∉ memory.wline

/-- After a piece of a line was converted and stripped, the buffer holds no newline. -/
theorem newlineFree_convert (exact : L.Exact) {memory : Memory} (clear : NewlineFree memory)
    {line : Bytes} (one : Piece line) (fits : line.length < maxLineSize) :
    newline.toUInt32 ∉ wcsStripTrailingWhitespaces
      (L.mbstowcs maxLineSize (upToNul line) memory.wline).1 := by
  have short : (upToNul line).length < maxLineSize :=
    Nat.lt_of_le_of_lt (List.takeWhile_prefix _).length_le fits
  have nonNull : ∀ byte ∈ upToNul line, byte ≠ 0 := fun _ member => ne_zero_of_mem_upToNul member
  have dropped : ∀ count, newline.toUInt32 ∉ memory.wline.drop count :=
    fun count member => clear (List.mem_of_mem_drop member)
  -- Without a newline among the characters stored, none is in the cells to be stripped.
  have without : ∀ stored, newline.toUInt32 ∉ stored → newline.toUInt32 ∉
      wcsStripTrailingWhitespaces (CLocale.overwrite stored memory.wline) := by
    intro stored free member
    refine forall_wcsStripBelow (P := fun wide => wide ≠ newline.toUInt32)
      (by decide) ?_ _ member rfl
    intro wide inside same
    rw [CLocale.overwrite, List.mem_append] at inside
    rcases inside with new | old
    · exact free (same ▸ new)
    · exact dropped _ (same ▸ old)
  obtain ⟨body, free, shape | shape⟩ := one.upToNul
  · have read := exact.notMem_decodeWithin (by decide : CLocale.Plain newline) maxLineSize free
    rw [shape, CLocale.mbstowcs]
    split
    · exact without _ (by simp only [List.mem_append, not_or]; exact ⟨read, by decide⟩)
    · exact without _ read
  · have within : body.length < maxLineSize := by
      rw [shape, List.length_append] at short
      omega
    rcases exact.decodeWithin_terminated (by decide : CLocale.Plain newline) free within with
      ⟨stopped, read⟩ | ⟨whole, chars, read, none⟩
    · rw [shape, CLocale.mbstowcs, if_neg (by simp [stopped])]
      exact without _ read
    · -- The newline is the last character of the string, so stripping begins by clearing it.
      have count := L.decodeWithin_length maxLineSize (upToNul line)
      have clean := L.decodeWithin_nonNull maxLineSize nonNull
      rw [shape] at count clean short
      rw [shape, CLocale.mbstowcs, if_pos ⟨whole, Nat.lt_of_le_of_lt count short⟩, read,
        wcsStripTrailingWhitespaces, CLocale.overwrite, List.append_assoc,
        List.singleton_append, upToNul_append_zero (by rw [← read]; exact clean),
        List.length_append, List.length_singleton, wcsStripBelow]
      rw [read] at clean
      set after := memory.wline.drop (chars ++ [newline.toUInt32] ++ [0]).length with hafter
      have last : (chars ++ [newline.toUInt32] ++ 0 :: after).getD chars.length 0 =
          newline.toUInt32 := by simp [List.getD_eq_getElem?_getD]
      have cleared : (chars ++ [newline.toUInt32] ++ 0 :: after).set chars.length 0 =
          chars ++ 0 :: 0 :: after := by simp
      rw [last, if_pos (by decide), cleared]
      intro member
      refine forall_wcsStripBelow (P := fun wide => wide ≠ newline.toUInt32)
        (by decide) ?_ _ member rfl
      intro wide inside same
      subst same
      simp only [List.mem_append, List.mem_cons] at inside
      rcases inside with early | null | null | late
      · exact none early
      · exact absurd null (by decide)
      · exact absurd null (by decide)
      · exact dropped _ late

/-- What is written for a buffer: one line, which is the buffer stripped if it decodes. -/
structure Dumped (L : CLocale) (chunk : Bytes) (result : Result) : Prop where
  /-- The text has no newline. -/
  free : newline ∉ result.mbsValue
  /-- The text has no NUL. -/
  nonNull : ∀ byte ∈ result.mbsValue, byte ≠ 0
  /-- The whole text is written. -/
  dump : result.dump = result.mbsValue ++ [newline]
  /-- The text decodes. -/
  valid : L.decode result.mbsValue = some result.wcsValue
  /-- The text of a buffer that decodes is the buffer without its trailing whitespace. -/
  stripped : (L.decode (upToNul chunk)).isSome → result.mbsValue = stripped (upToNul chunk)

/-- The result of one line is written as one line, and the buffer stays without newline. -/
theorem loadLine_dumped (exact : L.Exact) {memory loaded : Memory} {line : Bytes} {result : Result}
    (clear : NewlineFree memory) (one : Piece line) (fits : line.length < maxLineSize)
    (ok : loadLine L memory line = some loaded)
    (added : loaded.results = memory.results ++ [result]) :
    NewlineFree loaded ∧ Dumped L line result := by
  have free := newlineFree_convert exact clear one fits
  have decoded : (L.decode (upToNul line)).isSome → Decodes L line result := by
    intro valid
    obtain ⟨wides, found⟩ := Option.isSome_iff_exists.mp valid
    exact decodes_of_decode found fits ok added
  simp only [loadLine, resultNew, wcsDuplicateAsMbs, Option.map_map, Option.map_eq_some_iff] at ok
  obtain ⟨mbs, encoded, rfl⟩ := ok
  simp only [Function.comp_apply, List.append_cancel_left_eq, List.cons.injEq, and_true] at added
  subst added
  have nonNull := exact.nonNull_of_encode encoded fun _ member => ne_zero_of_mem_upToNul member
  refine ⟨free, ?_, nonNull, ?_, exact.decode_of_encode encoded, ?_⟩
  · exact exact.notMem_of_encode (by decide : CLocale.Plain newline) encoded
      fun member => free (mem_of_mem_upToNul member)
  · simp [Result.dump, upToNul_of_forall nonNull]
  · intro valid
    obtain ⟨wides, found, same⟩ := (decoded valid).wide
    have text := exact.encode_rdropWhile plain_blanks (exact.encode_of_decode found)
    rw [← wcsWhitespace_eq, ← same, encoded, Option.some.injEq] at text
    exact text

/-- Every buffer of a load is written as one line. -/
theorem loadLines_dumped (exact : L.Exact) {memory loaded : Memory} (writable : Writable L memory)
    (clear : NewlineFree memory) {lineCount : Nat} {ctx : CksumCtx} {pieces : List Bytes}
    (each : ∀ piece ∈ pieces, Piece piece ∧ piece.length < maxLineSize)
    (ok : loadLines L lineCount memory ctx pieces = .ok loaded) :
    ∃ added, loaded.results = memory.results ++ added ∧ NewlineFree loaded ∧
      List.Forall₂ (Dumped L) pieces added := by
  induction pieces generalizing memory lineCount ctx with
  | nil =>
    simp only [loadLines, Except.ok.injEq] at ok
    exact ⟨[], by simp [← ok], by rw [← ok]; exact clear, .nil⟩
  | cons line rest ih =>
    rw [List.forall_mem_cons] at each
    obtain ⟨next, result, taken, appended, kept⟩ := loadLine_succeeds writable line
    obtain ⟨stays, dumped⟩ := loadLine_dumped exact clear each.1.1 each.1.2 taken appended
    simp only [loadLines, taken] at ok
    obtain ⟨added, results, after, all⟩ := ih kept stays each.2 ok
    refine ⟨result :: added, ?_, after, .cons dumped all⟩
    rw [results, appended, List.append_assoc, List.singleton_append]

/-- The buffers that `fgets` fills are pieces of lines that leave room for the terminator. -/
theorem chunk_piece {content : Bytes} :
    ∀ chunk ∈ chunks maxLineSize content, Piece chunk ∧ chunk.length < maxLineSize :=
  fun _ member => ⟨piece_of_mem_chunks 16382 member, chunk_length member⟩

/-- No reached memory has a newline in its buffer. -/
theorem newlineFree_of_reached (exact : L.Exact) {memory : Memory} (reached : Reached L memory) :
    NewlineFree memory := by
  induction reached with
  | initial => simp [NewlineFree, Memory.initial]
  | load before ok ih =>
    obtain ⟨_, _, clear, _⟩ := loadLines_dumped exact before.writable ih chunk_piece ok
    exact clear
  | add _ _ ih => exact ih

/-- Every buffer of a stream is written as one line. -/
theorem loadContent_dumped (exact : L.Exact) {memory loaded : Memory} (reached : Reached L memory)
    {content : Bytes} (ok : loadContent L memory content = .ok loaded) :
    ∃ added, loaded.results = memory.results ++ added ∧
      List.Forall₂ (Dumped L) (chunks maxLineSize content) added := by
  obtain ⟨added, results, _, all⟩ := loadLines_dumped exact reached.writable
    (newlineFree_of_reached exact reached) chunk_piece ok
  exact ⟨added, results, all⟩

/-- What is written for results is their texts, each with a newline. -/
theorem dump_eq {pieces : List Bytes} {added : List Result}
    (all : List.Forall₂ (Dumped L) pieces added) :
    dump added = (added.map Result.mbsValue).flatMap fun text => text ++ [newline] := by
  induction all with
  | nil => rfl
  | cons one _ ih =>
    rw [dump, List.flatMap_cons, ← dump, ih, one.dump, List.map_cons, List.flatMap_cons]

/-- The texts of results have no newline. -/
theorem text_free {pieces : List Bytes} {added : List Result}
    (all : List.Forall₂ (Dumped L) pieces added) :
    ∀ text ∈ added.map Result.mbsValue, newline ∉ text := by
  induction all with
  | nil => simp
  | cons one _ ih =>
    rw [List.map_cons, List.forall_mem_cons]
    exact ⟨one.free, ih⟩

/-- The lines of what is written are the texts of the results. -/
theorem lines_dump {pieces : List Bytes} {added : List Result}
    (all : List.Forall₂ (Dumped L) pieces added) :
    lines (dump added) = (added.map Result.mbsValue).map fun text => text ++ [newline] := by
  rw [dump_eq all, lines_flatMap_newline (text_free all)]

/-- The texts of buffers that all decode are the buffers without their trailing whitespace. -/
theorem texts_eq {pieces : List Bytes} {added : List Result}
    (all : List.Forall₂ (Dumped L) pieces added)
    (valid : ∀ piece ∈ pieces, (L.decode (upToNul piece)).isSome) :
    added.map Result.mbsValue = pieces.map fun piece => stripped (upToNul piece) := by
  induction all with
  | nil => rfl
  | cons one _ ih =>
    rw [List.forall_mem_cons] at valid
    rw [List.map_cons, List.map_cons, one.stripped valid.1, ih valid.2]

/-- A content that is written with the same lines has only lines that fit the buffer, since every
buffer becomes a line. -/
theorem fits_of_sameLines (exact : L.Exact) {content : Bytes} {loaded : Memory}
    (ok : loadContent L .initial content = .ok loaded)
    (same : SameLines content (dump loaded.results)) :
    ∀ line ∈ lines content, line.length < maxLineSize := by
  obtain ⟨added, results, all⟩ := loadContent_dumped exact .initial ok
  simp only [Memory.initial, List.nil_append] at results
  rw [results, SameLines, lines_dump all] at same
  intro line member
  have many := congrArg List.length same
  simp only [List.length_map] at many
  have fits := fits_of_length_eq 16382 (all.length_eq.trans many.symm) line member
  rw [maxLineSize_eq]
  omega

/-- A content whose lines fit the buffer is written with the same lines. -/
theorem sameLines_of_fits (exact : L.Exact) {content : Bytes}
    (nonNull : ∀ byte ∈ content, byte ≠ 0) (valid : (L.decode content).isSome)
    {loaded : Memory} (ok : loadContent L .initial content = .ok loaded)
    (fits : ∀ line ∈ lines content, line.length < maxLineSize) :
    SameLines content (dump loaded.results) := by
  obtain ⟨added, results, all⟩ := loadContent_dumped exact .initial ok
  simp only [Memory.initial, List.nil_append] at results
  have pieces : chunks maxLineSize content = lines content := by
    apply chunks_eq_lines 16382
    intro line member
    have short := fits line member
    rw [maxLineSize_eq] at short
    omega
  have whole : ∀ line ∈ lines content, upToNul line = line := by
    intro line member
    apply upToNul_of_forall
    intro byte inside
    have present : byte ∈ (chunks maxLineSize content).flatten :=
      List.mem_flatten_of_mem (by rw [pieces]; exact member) inside
    rw [maxLineSize_eq, chunks_flatten] at present
    exact nonNull byte present
  rw [pieces] at all
  have decodes : ∀ line ∈ lines content, (L.decode (upToNul line)).isSome := by
    intro line member
    rw [whole line member]
    exact exact.decode_lines valid line member
  rw [results, SameLines, lines_dump all, texts_eq all decodes, List.map_map, List.map_map]
  apply List.map_congr_left
  intro line member
  simp only [Function.comp_apply, whole line member]
  rw [stripped_of_piece (piece_of_mem_lines member), lineText_append_newline]

/-- In a locale that loses nothing, a NUL-free content that decodes is written with the same lines,
up to trailing whitespace, exactly when each of its lines fits the buffer with its newline. -/
theorem sameLines_iff_fits (L : CLocale) (exact : L.Exact) (content : Bytes)
    (nonNull : ∀ byte ∈ content, byte ≠ 0) (valid : (L.decode content).isSome)
    (loaded : Memory) (ok : loadContent L .initial content = .ok loaded) :
    SameLines content (dump loaded.results) ↔
      ∀ line ∈ lines content, line.length < maxLineSize :=
  ⟨fits_of_sameLines exact ok, sameLines_of_fits exact nonNull valid ok⟩

/-- Two lines, the first with blanks at its end, the second without a newline. -/
def blankContent : Bytes := [0x61, 0x20, 0x09, 0x0d, newline, 0x62]

/-- The load of these lines, which are written without the blanks and both with a newline. -/
theorem blankContent_load : ∃ loaded, loadContent .ascii .initial blankContent = .ok loaded ∧
    dump loaded.results = [0x61, newline, 0x62, newline] := by
  have written : ((loadContent .ascii .initial blankContent).toOption.map
      fun loaded => dump loaded.results) = some [0x61, newline, 0x62, newline] := by
    decide +kernel
  cases load : loadContent .ascii .initial blankContent with
  | error line => simp [load, Except.toOption] at written
  | ok loaded =>
    simp only [load, Except.toOption, Option.map_some, Option.some.injEq] at written
    exact ⟨loaded, rfl, written⟩

/-- These lines fit, so they come back. -/
theorem sameLines_iff_fits_blank :
    ∃ loaded, loadContent .ascii .initial blankContent = .ok loaded ∧
      dump loaded.results = [0x61, newline, 0x62, newline] ∧
      (SameLines blankContent (dump loaded.results) ↔
        ∀ line ∈ lines blankContent, line.length < maxLineSize) := by
  obtain ⟨loaded, ok, written⟩ := blankContent_load
  exact ⟨loaded, ok, written, sameLines_iff_fits .ascii CLocale.ascii_exact blankContent
    (by decide +kernel) (by decide +kernel) loaded ok⟩

/-- One line of a repeated letter. -/
def longContent (count : Nat) : Bytes := List.replicate count 0x61 ++ [newline]

/-- The long content has one letter in it, and the newline. -/
theorem mem_longContent {count : Nat} {byte : UInt8} (member : byte ∈ longContent count) :
    byte = 0x61 ∨ byte = newline := by
  rcases List.mem_append.mp member with first | last
  · exact .inl (List.eq_of_mem_replicate first)
  · exact .inr (List.mem_singleton.mp last)

/-- It is a single line. -/
theorem longContent_line (count : Nat) : longContent count ∈ lines (longContent count) := by
  have free : newline ∉ List.replicate count (0x61 : UInt8) := by
    intro member
    exact absurd (List.eq_of_mem_replicate member) (by decide)
  rw [longContent, lines_append_newline free]
  exact List.mem_cons_self

/-- It is as long as it says, with its newline. -/
theorem longContent_length (count : Nat) : (longContent count).length = count + 1 := by
  rw [longContent, List.length_append, List.length_replicate, List.length_singleton]

/-- A line that with its newline is as long as the buffer does not come back as one line. -/
theorem long_line_is_split :
    ¬ ∀ (L : CLocale) (content : Bytes) (loaded : Memory), L.Exact →
      (∀ byte ∈ content, byte ≠ 0) → (L.decode content).isSome →
      loadContent L .initial content = .ok loaded →
      SameLines content (dump loaded.results) := by
  intro claim
  obtain ⟨loaded, _, ok, _⟩ := loadContent_succeeds (L := .ascii) .initial (longContent 16383)
  have nonNull : ∀ byte ∈ longContent 16383, byte ≠ 0 := by
    intro byte member
    rcases mem_longContent member with rfl | rfl <;> decide
  have valid : (CLocale.ascii.decode (longContent 16383)).isSome := by
    rw [CLocale.ascii_decode]
    · rfl
    · intro byte member
      rcases mem_longContent member with rfl | rfl <;> decide
  have same := claim .ascii _ loaded CLocale.ascii_exact nonNull valid ok
  have fits := fits_of_sameLines CLocale.ascii_exact ok same _ (longContent_line 16383)
  rw [longContent_length] at fits
  exact Nat.lt_irrefl _ fits

end Mdp.RoundTrip
