import Mathlib.Data.List.Forall2
import Mdp.Results

/-!
# What a load makes of each line

`load_results_fp` converts every line into one static buffer and looks at the result of the
conversion back, not of the conversion into it. A line that does not decode therefore leaves the
characters of earlier lines in the buffer. All cells of the buffer came out of the locale's own
decoding, so the conversion back succeeds for them and the exit with "unable to read line" is out
of reach; the loaded results are the lines exactly when every line decodes.
-/

namespace Mdp.Decoding

open CStrings

/-- The memories of a process: loads and generated passwords add to the first. -/
inductive Reached (L : CLocale) : Memory → Prop where
  /-- Nothing is loaded yet. -/
  | initial : Reached L .initial
  /-- A stream was loaded. -/
  | load {memory loaded : Memory} {content : Bytes} (before : Reached L memory)
      (ok : loadContent L memory content = .ok loaded) : Reached L loaded
  /-- A password was added. -/
  | add {memory : Memory} (before : Reached L memory) (result : Result) :
      Reached L { memory with results := memory.results ++ [result] }

/-- Every character in the buffer can be written. -/
def Writable (L : CLocale) (memory : Memory) : Prop :=
  ∀ wide ∈ memory.wline, wide = 0 ∨ (L.encodeChar wide).isSome

/-- A result is the full decoding of a buffer, with trailing whitespace removed. -/
structure Decodes (L : CLocale) (chunk : Bytes) (result : Result) : Prop where
  /-- The whole string in the buffer decodes to the wide string, less its trailing whitespace. -/
  wide : ∃ wides, L.decode (upToNul chunk) = some wides ∧
    result.wcsValue = wides.rdropWhile isWhitespace
  /-- The multibyte string is the wide string, written. -/
  bytes : L.encode result.wcsValue = some result.mbsValue

/-- What a load has to do: exit with the error, or add the decoding of every buffer in order. -/
def LoadsFaithfully (L : CLocale) (memory : Memory) (content : Bytes) : Prop :=
  (∃ line, loadContent L memory content = .error line) ∨
  ∃ loaded added, loadContent L memory content = .ok loaded ∧
    loaded.results = memory.results ++ added ∧
    List.Forall₂ (Decodes L) (chunks maxLineSize content) added

/-- A member of one list is related to a member of the other. -/
theorem exists_left_of_mem {α β : Type} {R : α → β → Prop} {left : List α} {right : List β}
    (all : List.Forall₂ R left right) {b : β} (member : b ∈ right) : ∃ a ∈ left, R a b := by
  induction all with
  | nil => cases member
  | @cons a _ _ _ one _ ih =>
    cases member with
    | head => exact ⟨a, List.mem_cons_self, one⟩
    | tail _ later =>
      obtain ⟨found, inside, related⟩ := ih later
      exact ⟨found, List.mem_cons_of_mem _ inside, related⟩

variable {L : CLocale}

/-- The buffer after a line holds characters that can be written if it did before. -/
theorem writable_convert {memory : Memory} (writable : Writable L memory) (line : Bytes) :
    ∀ wide ∈ wcsStripTrailingWhitespaces
      (L.mbstowcs maxLineSize (upToNul line) memory.wline).1,
      wide = 0 ∨ (L.encodeChar wide).isSome := by
  apply forall_wcsStripBelow (P := fun wide => wide = 0 ∨ (L.encodeChar wide).isSome) (.inl rfl)
  exact L.forall_mbstowcs (.inl rfl)
    (fun wide read => .inr (L.decodeWithin_encodes wide read)) writable

/-- A line never makes `load_results_fp` exit. -/
theorem loadLine_succeeds {memory : Memory} (writable : Writable L memory) (line : Bytes) :
    ∃ loaded result, loadLine L memory line = some loaded ∧
      loaded.results = memory.results ++ [result] ∧ Writable L loaded := by
  have cells := writable_convert writable line
  have encodable : (L.encode (upToNul (wcsStripTrailingWhitespaces
      (L.mbstowcs maxLineSize (upToNul line) memory.wline).1))).isSome := by
    rw [L.encode_isSome]
    intro wide member
    rcases cells wide (mem_of_mem_upToNul member) with null | written
    · exact absurd null (ne_zero_of_mem_upToNul member)
    · exact written
  obtain ⟨mbs, encoded⟩ := Option.isSome_iff_exists.mp encodable
  simp only [loadLine, resultNew, wcsDuplicateAsMbs, encoded, Option.map_some]
  exact ⟨_, _, rfl, rfl, cells⟩

/-- A buffer that decodes becomes its decoding. -/
theorem decodes_of_decode {memory loaded : Memory} {line : Bytes} {wides : List WChar}
    {result : Result} (valid : L.decode (upToNul line) = some wides)
    (fits : line.length < maxLineSize) (ok : loadLine L memory line = some loaded)
    (added : loaded.results = memory.results ++ [result]) : Decodes L line result := by
  have short : (upToNul line).length < maxLineSize :=
    Nat.lt_of_le_of_lt (List.takeWhile_prefix _).length_le fits
  have converted :
      upToNul (L.mbstowcs maxLineSize (upToNul line) memory.wline).1 = wides :=
    L.upToNul_mbstowcs valid (fun _ member => ne_zero_of_mem_upToNul member)
      (Nat.lt_of_le_of_lt (L.decode_length valid) short)
  simp only [loadLine, upToNul_wcsStripTrailingWhitespaces, converted, resultNew,
    wcsDuplicateAsMbs, Option.map_map, Option.map_eq_some_iff] at ok
  obtain ⟨mbs, encoded, rfl⟩ := ok
  simp only [Function.comp_apply, List.append_cancel_left_eq, List.cons.injEq, and_true] at added
  rw [← added]
  exact ⟨⟨wides, valid, rfl⟩, encoded⟩

/-- The loop adds one result for every buffer, and it is the decoding of a buffer that decodes. -/
theorem loadLines_succeeds {memory : Memory} (writable : Writable L memory) (lineCount : Nat)
    (ctx : CksumCtx) {pieces : List Bytes} (fit : ∀ piece ∈ pieces, piece.length < maxLineSize) :
    ∃ loaded added, loadLines L lineCount memory ctx pieces = .ok loaded ∧
      loaded.results = memory.results ++ added ∧ Writable L loaded ∧
      List.Forall₂ (fun piece result =>
        (L.decode (upToNul piece)).isSome → Decodes L piece result) pieces added := by
  induction pieces generalizing memory lineCount ctx with
  | nil => exact ⟨_, [], rfl, by simp, writable, .nil⟩
  | cons line rest ih =>
    simp only [List.mem_cons, forall_eq_or_imp] at fit
    obtain ⟨next, result, ok, appended, kept⟩ := loadLine_succeeds writable line
    obtain ⟨loaded, added, later, results, stays, each⟩ :=
      ih kept (lineCount + 1) (cksumUpdate ctx (upToNul line)) fit.2
    refine ⟨loaded, result :: added, ?_, ?_, stays, .cons ?_ each⟩
    · simp only [loadLines, ok, later]
    · rw [results, appended, List.append_assoc, List.singleton_append]
    · intro valid
      obtain ⟨wides, decoded⟩ := Option.isSome_iff_exists.mp valid
      exact decodes_of_decode decoded fit.1 ok appended

/-- What `fgets` returns leaves room for its terminator. -/
theorem chunk_length {content chunk : Bytes} (member : chunk ∈ chunks maxLineSize content) :
    chunk.length < maxLineSize := by
  obtain ⟨rest, _, rfl⟩ := exists_of_mem_chunks 16382 member
  exact Nat.lt_of_le_of_lt (readLine_length _ rest) (by decide)

/-- The buffers of reached memories hold what the locale can write. -/
theorem Reached.writable {memory : Memory} (reached : Reached L memory) : Writable L memory := by
  induction reached with
  | initial => intro wide member; simp [Memory.initial] at member
  | load _ ok ih =>
    obtain ⟨loaded, _, succeeded, _, kept, _⟩ :=
      loadLines_succeeds ih 0 cksumInit fun _ => chunk_length
    rw [loadContent, succeeded, Except.ok.injEq] at ok
    rw [← ok]
    exact kept
  | add _ _ ih => exact ih

/-- A load of any stream succeeds, and adds the decoding of each buffer that decodes. -/
theorem loadContent_succeeds {memory : Memory} (reached : Reached L memory) (content : Bytes) :
    ∃ loaded added, loadContent L memory content = .ok loaded ∧
      loaded.results = memory.results ++ added ∧
      List.Forall₂ (fun chunk result =>
        (L.decode (upToNul chunk)).isSome → Decodes L chunk result)
        (chunks maxLineSize content) added := by
  obtain ⟨loaded, added, ok, results, _, each⟩ :=
    loadLines_succeeds reached.writable 0 cksumInit fun _ => chunk_length
  exact ⟨loaded, added, ok, results, each⟩

/-- A load that does what it has to do decodes every buffer. -/
theorem decode_of_loadsFaithfully {memory : Memory} (reached : Reached L memory) {content : Bytes}
    (faithful : LoadsFaithfully L memory content) :
    ∀ chunk ∈ chunks maxLineSize content, (L.decode (upToNul chunk)).isSome := by
  obtain ⟨loaded, _, ok, _, _⟩ := loadContent_succeeds reached content
  rcases faithful with ⟨line, failed⟩ | ⟨_, added, _, _, all⟩
  · rw [ok] at failed
    contradiction
  · intro chunk member
    obtain ⟨i, bound, rfl⟩ := List.mem_iff_getElem.mp member
    have same := all.length_eq
    obtain ⟨wides, decoded, _⟩ := (all.get bound (by omega)).wide
    simp only [List.get_eq_getElem] at decoded
    simp [decoded]

/-- `load_results_fp` exits or adds the decoding of every line exactly when every line decodes. -/
theorem loadsFaithfully_iff (L : CLocale) (memory : Memory) (reached : Reached L memory)
    (content : Bytes) :
    LoadsFaithfully L memory content ↔
      ∀ chunk ∈ chunks maxLineSize content, (L.decode (upToNul chunk)).isSome := by
  constructor
  · exact decode_of_loadsFaithfully reached
  · intro valid
    obtain ⟨loaded, added, ok, results, each⟩ := loadContent_succeeds reached content
    have both := (List.forall₂_and_left _ _).mpr ⟨valid, each⟩
    exact .inr ⟨loaded, added, ok, results, both.imp fun _ _ pair => pair.2 pair.1⟩

/-- Two lines in the C locale, the second with a byte that is no character of it. -/
def badSecondLine : Bytes := [0x61, 0x62, newline, 0x63, 0xff, newline]

/-- The first load of a process, in the C locale, of those two lines. -/
theorem loadsFaithfully_iff_two_lines :
    LoadsFaithfully .ascii .initial badSecondLine ↔
      ∀ chunk ∈ chunks maxLineSize badSecondLine,
        (CLocale.ascii.decode (upToNul chunk)).isSome :=
  loadsFaithfully_iff .ascii .initial .initial _

/-- The second line is loaded as its first character and the second character of the first line. -/
theorem stale_character_loaded :
    (∃ loaded, loadContent .ascii .initial badSecondLine = .ok loaded ∧
      loaded.results.map Result.wcsValue = [[0x61, 0x62], [0x63, 0x62]]) ∧
    ¬ ∀ (L : CLocale) (memory : Memory) (content : Bytes), Reached L memory →
      LoadsFaithfully L memory content := by
  constructor
  · have values : ((loadContent .ascii .initial badSecondLine).toOption.map
        fun loaded => loaded.results.map Result.wcsValue) = some [[0x61, 0x62], [0x63, 0x62]] := by
      decide +kernel
    cases load : loadContent .ascii .initial badSecondLine with
    | error line => simp [load, Except.toOption] at values
    | ok loaded =>
      simp only [load, Except.toOption, Option.map_some, Option.some.injEq] at values
      exact ⟨loaded, rfl, values⟩
  · intro all
    have valid := decode_of_loadsFaithfully .initial (all .ascii .initial badSecondLine .initial)
    have second : [0x63, 0xff, newline] ∈ chunks maxLineSize badSecondLine := by decide +kernel
    have invalid : CLocale.ascii.decode (upToNul [0x63, 0xff, newline]) = none := by decide +kernel
    simpa [invalid] using valid _ second

end Mdp.Decoding
