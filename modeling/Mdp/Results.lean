import Mdp.Library.Locale
import Mdp.Crc

/-!
# Loading results

What `results.c` and `str.c` do to the lines they are given. The calls a load makes (reading,
asking for memory, warning) are in `Mdp.Load`; here is what it computes. The wide-character buffer
of `load_results_fp` is static, so it is part of the memory a load starts from, and what a failed
conversion leaves in it is still there for the next line.
-/

namespace Mdp

open CStrings

/-- `MAX_LINE_SIZE`. -/
def maxLineSize : Nat := 16 * 1024

/-- The buffer of `fgets` as the library wants it written. -/
theorem maxLineSize_eq : maxLineSize = 16382 + 2 := rfl

/-- `WCS_WHITESPACE`. -/
def wcsWhitespace : List WChar := [0x20, 0x09, 0x0d, 0x0a]

/-- The loop of `wcs_strip_trailing_whitespaces` below its index. -/
def wcsStripBelow : Nat → List WChar → List WChar
  | 0, cells => cells
  | len + 1, cells =>
    if cells.getD len 0 ∈ wcsWhitespace then wcsStripBelow len (cells.set len 0) else cells

/-- `wcs_strip_trailing_whitespaces`. -/
def wcsStripTrailingWhitespaces (cells : List WChar) : List WChar :=
  wcsStripBelow (upToNul cells).length cells

/-- `struct result`. The copy that `wcsdup` makes is taken to be there: only `filter_results` reads
it, so `mdp get` and `mdp prompt` crash where it is not, which is left out. -/
structure Result where
  visible : Bool
  wcsValue : List WChar
  mbsValue : Bytes
  wcsLen : Nat
  mbsLen : Nat
  deriving DecidableEq, Repr

/-- `wcs_duplicate_as_mbs`. -/
def wcsDuplicateAsMbs (L : CLocale) (str : List WChar) : Option Bytes := L.encode str

/-- `result_new`. -/
def resultNew (L : CLocale) (value : List WChar) : Option Result :=
  (wcsDuplicateAsMbs L value).map fun mbs =>
    { visible := true
      wcsValue := value
      mbsValue := mbs
      wcsLen := value.length
      mbsLen := (upToNul mbs).length }

/-- The globals and statics of `results.c`. -/
structure Memory where
  /-- `wline`; the cells after the list are still zero. -/
  wline : List WChar
  /-- `results`. -/
  results : List Result
  /-- `result_crc32`. -/
  resultCrc32 : UInt32

/-- The memory of a process that has loaded nothing. -/
def Memory.initial : Memory := ⟨[], [], 0⟩

/-- The body of the loop of `load_results_fp` for one buffer that `fgets` filled; `none` where
`result_new` returns `NULL`. The result of `mbstowcs` is not looked at. -/
def loadLine (L : CLocale) (memory : Memory) (line : Bytes) : Option Memory :=
  let converted := (L.mbstowcs maxLineSize (upToNul line) memory.wline).1
  let wline := wcsStripTrailingWhitespaces converted
  (resultNew L (upToNul wline)).map fun result =>
    { memory with wline, results := memory.results ++ [result] }

/-- The loop of `load_results_fp` and the end of its checksum, or the number of the line it
exits on. -/
def loadLines (L : CLocale) (lineCount : Nat) (memory : Memory) (ctx : CksumCtx) :
    List Bytes → Except Nat Memory
  | [] => .ok { memory with resultCrc32 := cksumFinal ctx }
  | line :: rest =>
    match loadLine L memory line with
    | none => .error (lineCount + 1)
    | some memory => loadLines L (lineCount + 1) memory (cksumUpdate ctx (upToNul line)) rest

/-- `load_results_fp` on the bytes of a stream. -/
def loadContent (L : CLocale) (memory : Memory) (content : Bytes) : Except Nat Memory :=
  loadLines L 0 memory cksumInit (chunks maxLineSize content)

/-- What the loop of `edit_results` writes for one result. -/
def Result.dump (result : Result) : Bytes := result.mbsValue.take result.mbsLen ++ [newline]

/-- What the loop of `edit_results` writes. -/
def dump (results : List Result) : Bytes := results.flatMap Result.dump

/-- The lines are written one after the other. -/
@[simp] theorem dump_cons (result : Result) (rest : List Result) :
    dump (result :: rest) = result.dump ++ dump rest := rfl

/-- The bytes of a stream that `load_results_fp` sees: each buffer up to its first NUL. -/
def seen (content : Bytes) : Bytes := (chunks maxLineSize content).flatMap upToNul

/-- Its checksum. -/
def checksum (content : Bytes) : UInt32 := cksum (seen content)

/-- The loop of `load_results_fp` leaves the checksum of the lines it was given. -/
theorem loadLines_resultCrc32 {L : CLocale} {lineCount : Nat} {memory loaded : Memory}
    {ctx : CksumCtx} {pieces : List Bytes}
    (ok : loadLines L lineCount memory ctx pieces = .ok loaded) :
    loaded.resultCrc32 = cksumFinal (cksumUpdate ctx (pieces.flatMap upToNul)) := by
  induction pieces generalizing lineCount memory ctx with
  | nil =>
    simp only [loadLines, Except.ok.injEq] at ok
    rw [← ok]
    simp [cksumUpdate]
  | cons line rest ih =>
    simp only [loadLines] at ok
    split at ok
    · contradiction
    · rw [ih ok, cksumUpdate_append, List.flatMap_cons]

/-- A load leaves the checksum of what it saw, whatever the locale and the memory before. -/
theorem loadContent_resultCrc32 {L : CLocale} {memory loaded : Memory} {content : Bytes}
    (ok : loadContent L memory content = .ok loaded) :
    loaded.resultCrc32 = checksum content :=
  loadLines_resultCrc32 ok

/-- A stream without NUL is seen whole. -/
theorem seen_eq_self {content : Bytes} (nonNull : ∀ byte ∈ content, byte ≠ 0) :
    seen content = content := by
  have whole : (chunks maxLineSize content).flatten = content := chunks_flatten 16382 content
  have clean : ∀ chunk ∈ chunks maxLineSize content, upToNul chunk = chunk := by
    intro chunk member
    apply upToNul_of_forall
    intro byte inside
    exact nonNull byte (by rw [← whole]; exact List.mem_flatten_of_mem member inside)
  have same : (chunks maxLineSize content).map upToNul = chunks maxLineSize content := by
    rw [List.map_congr_left clean, List.map_id']
  rw [seen, List.flatMap, same, whole]

/-- Whether a wide character is in `WCS_WHITESPACE`. -/
abbrev isWhitespace (wide : WChar) : Bool := decide (wide ∈ wcsWhitespace)

/-- The loop strips a string that the end of its buffer or a NUL ends. -/
theorem upToNul_wcsStripBelow {string after : List WChar} (nonNull : ∀ wide ∈ string, wide ≠ 0)
    (ended : after = [] ∨ ∃ tail, after = 0 :: tail) :
    upToNul (wcsStripBelow string.length (string ++ after)) = string.rdropWhile isWhitespace := by
  induction string using List.reverseRecOn generalizing after with
  | nil => rcases ended with rfl | ⟨tail, rfl⟩ <;> simp [wcsStripBelow, upToNul]
  | append_singleton string wide ih =>
    have last : (string ++ [wide] ++ after).getD string.length 0 = wide := by
      simp [List.getD_eq_getElem?_getD]
    have cleared : (string ++ [wide] ++ after).set string.length 0 = string ++ (0 :: after) := by
      simp
    rw [List.length_append, List.length_singleton, wcsStripBelow, last, cleared,
      List.rdropWhile_concat]
    by_cases blank : wide ∈ wcsWhitespace
    · rw [if_pos blank, if_pos (by simpa using blank)]
      exact ih (fun wide member => nonNull wide (List.mem_append_left _ member)) (.inr ⟨_, rfl⟩)
    · rw [if_neg blank, if_neg (by simpa using blank)]
      rcases ended with rfl | ⟨tail, rfl⟩
      · rw [List.append_nil]
        exact upToNul_of_forall nonNull
      · exact upToNul_append_zero nonNull

/-- `wcs_strip_trailing_whitespaces` drops the blanks at the end of its string. -/
theorem upToNul_wcsStripTrailingWhitespaces (cells : List WChar) :
    upToNul (wcsStripTrailingWhitespaces cells) = (upToNul cells).rdropWhile isWhitespace := by
  obtain ⟨after, split, ended⟩ := upToNul_append_rest cells
  have nonNull : ∀ wide ∈ upToNul cells, wide ≠ 0 := fun _ member => ne_zero_of_mem_upToNul member
  have stripped := upToNul_wcsStripBelow nonNull ended
  rwa [← split] at stripped

/-- The loop keeps what holds of every cell and of zero. -/
theorem forall_wcsStripBelow {P : WChar → Prop} (zero : P 0) {len : Nat} {cells : List WChar}
    (held : ∀ wide ∈ cells, P wide) : ∀ wide ∈ wcsStripBelow len cells, P wide := by
  induction len generalizing cells with
  | zero => exact held
  | succ len ih =>
    unfold wcsStripBelow
    split
    · apply ih
      intro wide member
      rcases List.mem_or_eq_of_mem_set member with kept | rfl
      · exact held wide kept
      · exact zero
    · exact held

end Mdp
