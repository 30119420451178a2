import Mdp.Results

/-!
# Entries come back

`edit_results` writes the entries of the results array one a line, and `load_results_fp` reads them
back through its buffers, its conversions and its stripping. Entries that one line can hold come
back as they were, in order and none lost, from any memory: a conversion that succeeds ends its
string itself, so nothing that an earlier line left in the static buffer is seen.
-/

namespace Mdp.Entries

open CStrings

/-- What one line can hold: no newline and no NUL, no whitespace at the end, and with its newline no
more bytes than a buffer has room for. -/
structure Storable (L : CLocale) (entry : List WChar) : Prop where
  newlineFree : newline.toUInt32 ∉ entry
  nonNull : (0 : WChar) ∉ entry
  tight : ∀ wide, entry.getLast? = some wide → wide ∉ wcsWhitespace
  fits : ∃ text, L.encode entry = some text ∧ text.length ≤ maxLineSize - 2

variable {L : CLocale}

/-- `result_new` for a string that can be written. -/
theorem resultNew_eq {entry : List WChar} {text : Bytes} (written : L.encode entry = some text) :
    resultNew L entry = some ⟨true, entry, text, entry.length, (upToNul text).length⟩ := by
  simp [resultNew, wcsDuplicateAsMbs, written]

/-- A result holds the string it was made of, and what is written for it. -/
theorem of_resultNew {entry : List WChar} {result : Result}
    (made : resultNew L entry = some result) :
    result.wcsValue = entry ∧ L.encode entry = some result.mbsValue := by
  simp only [resultNew, wcsDuplicateAsMbs, Option.map_eq_some_iff] at made
  obtain ⟨text, written, rfl⟩ := made
  exact ⟨rfl, written⟩

/-- A result without NUL is written as its text and a newline. -/
theorem dump_of_resultNew (invertible : L.Invertible) {entry : List WChar} {result : Result}
    (nonNull : (0 : WChar) ∉ entry) (made : resultNew L entry = some result) :
    result.dump = result.mbsValue ++ [newline] := by
  simp only [resultNew, wcsDuplicateAsMbs, Option.map_eq_some_iff] at made
  obtain ⟨text, written, rfl⟩ := made
  have clean := invertible.nonNull_of_encode written
    fun wide member same => nonNull (same ▸ member)
  simp [Result.dump, upToNul_of_forall clean]

/-- An entry that ends in no whitespace is left when its newline is stripped. -/
theorem rdropWhile_line {entry : List WChar}
    (tight : ∀ wide, entry.getLast? = some wide → wide ∉ wcsWhitespace) :
    (entry ++ [newline.toUInt32]).rdropWhile isWhitespace = entry := by
  rw [List.rdropWhile_concat_pos _ _ _ (by decide), List.rdropWhile_eq_self_iff]
  intro nonempty blank
  have last := List.getLast?_eq_some_getLast nonempty
  exact tight _ last (by simpa using blank)

/-- The line of an entry loads as the entry's result. -/
theorem loadLine_entry (invertible : L.Invertible) {entry : List WChar}
    (storable : Storable L entry)
    {result : Result} (made : resultNew L entry = some result) (memory : Memory) :
    ∃ loaded, loadLine L memory result.dump = some loaded ∧
      loaded.results = memory.results ++ [result] := by
  obtain ⟨text, written, short⟩ := storable.fits
  have clean := invertible.nonNull_of_encode written
    fun wide member same => storable.nonNull (same ▸ member)
  have same : result.mbsValue = text :=
    Option.some.inj ((of_resultNew made).2.symm.trans written)
  have line : upToNul (text ++ [newline]) = text ++ [newline] := by
    apply upToNul_of_forall
    simp only [List.mem_append, List.mem_singleton]
    rintro byte (inside | rfl)
    · exact clean byte inside
    · decide
  have valid := invertible.decode_of_encode (invertible.encode_line written)
  have converted :
      upToNul (L.mbstowcs maxLineSize (text ++ [newline]) memory.wline).1 =
        entry ++ [newline.toUInt32] := by
    have length := L.decode_length valid
    apply L.upToNul_mbstowcs valid
    · rw [← line]
      exact fun _ member => ne_zero_of_mem_upToNul member
    · simp only [List.length_append, List.length_singleton, maxLineSize] at short length ⊢
      omega
  rw [dump_of_resultNew invertible storable.nonNull made, same, loadLine, line,
    upToNul_wcsStripTrailingWhitespaces, converted, rdropWhile_line storable.tight, made]
  exact ⟨_, rfl, rfl⟩

/-- Every result was made of one of the entries. -/
theorem exists_entry {entries : List (List WChar)} {results : List Result}
    (made : entries.map (resultNew L) = results.map some) :
    ∀ result ∈ results, ∃ entry ∈ entries, resultNew L entry = some result := by
  intro result member
  have inside : some result ∈ entries.map (resultNew L) := by
    rw [made]
    exact List.mem_map_of_mem member
  obtain ⟨entry, here, same⟩ := List.mem_map.mp inside
  exact ⟨entry, here, same⟩

/-- Entries without newline and NUL are written one a line. -/
theorem lines_of_entries (invertible : L.Invertible) {entries : List (List WChar)}
    {results : List Result} (newlineFree : ∀ entry ∈ entries, newline.toUInt32 ∉ entry)
    (nonNull : ∀ entry ∈ entries, (0 : WChar) ∉ entry)
    (made : entries.map (resultNew L) = results.map some) :
    lines (dump results) = results.map Result.dump := by
  have each := exists_entry made
  have free : ∀ text ∈ results.map Result.mbsValue, newline ∉ text := by
    intro text member
    obtain ⟨result, inside, rfl⟩ := List.mem_map.mp member
    obtain ⟨entry, here, same⟩ := each result inside
    exact invertible.newlineFree_of_encode (of_resultNew same).2 (newlineFree entry here)
  have dumps : results.map Result.dump =
      (results.map Result.mbsValue).map fun text => text ++ [newline] := by
    rw [List.map_map]
    apply List.map_congr_left
    intro result inside
    obtain ⟨entry, here, same⟩ := each result inside
    exact dump_of_resultNew invertible (nonNull entry here) same
  rw [dump, List.flatMap_def, dumps, ← List.flatMap_def, lines_flatMap_newline free]

/-- The buffers of a load are the lines of the entries. -/
theorem chunks_dump (invertible : L.Invertible) {entries : List (List WChar)}
    {results : List Result}
    (storable : ∀ entry ∈ entries, Storable L entry)
    (made : entries.map (resultNew L) = results.map some) :
    chunks maxLineSize (dump results) = results.map Result.dump := by
  have split :=
    lines_of_entries invertible (fun entry member => (storable entry member).newlineFree)
    (fun entry member => (storable entry member).nonNull) made
  rw [← split]
  apply chunks_eq_lines 16382
  intro line member
  rw [split] at member
  obtain ⟨result, inside, rfl⟩ := List.mem_map.mp member
  obtain ⟨entry, here, same⟩ := exists_entry made result inside
  obtain ⟨text, written, short⟩ := (storable entry here).fits
  rw [dump_of_resultNew invertible (storable entry here).nonNull same,
    Option.some.inj ((of_resultNew same).2.symm.trans written)]
  simp only [List.length_append, List.length_singleton, maxLineSize] at short ⊢
  omega

/-- The lines of entries load as their results, after what was loaded before. -/
theorem loadLines_dump (invertible : L.Invertible) {entries : List (List WChar)}
    {results : List Result} (storable : ∀ entry ∈ entries, Storable L entry)
    (made : entries.map (resultNew L) = results.map some) (lineCount : Nat) (memory : Memory)
    (ctx : CksumCtx) :
    ∃ loaded, loadLines L lineCount memory ctx (results.map Result.dump) = .ok loaded ∧
      loaded.results = memory.results ++ results := by
  induction results generalizing entries lineCount memory ctx with
  | nil => exact ⟨_, rfl, by simp⟩
  | cons result results ih =>
    cases entries with
    | nil => simp at made
    | cons entry entries =>
      simp only [List.map_cons, List.cons.injEq] at made
      rw [List.forall_mem_cons] at storable
      obtain ⟨next, taken, appended⟩ := loadLine_entry invertible storable.1 made.1 memory
      obtain ⟨loaded, ok, added⟩ := ih storable.2 made.2 (lineCount + 1) next
        (cksumUpdate ctx (upToNul result.dump))
      refine ⟨loaded, ?_, ?_⟩
      · rw [List.map_cons, loadLines, taken]
        exact ok
      · rw [added, appended, List.append_assoc, List.singleton_append]

/-- The file that is written for entries loads as their results. -/
theorem loadContent_dump (invertible : L.Invertible) {entries : List (List WChar)}
    {results : List Result} (storable : ∀ entry ∈ entries, Storable L entry)
    (made : entries.map (resultNew L) = results.map some) (memory : Memory) :
    ∃ loaded, loadContent L memory (dump results) = .ok loaded ∧
      loaded.results = memory.results ++ results := by
  rw [loadContent, chunks_dump invertible storable made]
  exact loadLines_dump invertible storable made 0 memory cksumInit

/-- Entries that lines can hold have results. -/
theorem exists_results {entries : List (List WChar)}
    (storable : ∀ entry ∈ entries, Storable L entry) :
    ∃ results : List Result, entries.map (resultNew L) = results.map some := by
  induction entries with
  | nil => exact ⟨[], rfl⟩
  | cons entry entries ih =>
    rw [List.forall_mem_cons] at storable
    obtain ⟨text, written, _⟩ := storable.1.fits
    obtain ⟨results, made⟩ := ih storable.2
    refine ⟨⟨true, entry, text, entry.length, (upToNul text).length⟩ :: results, ?_⟩
    rw [List.map_cons, List.map_cons, made, resultNew_eq written]

/-- The results of entries hold these entries. -/
theorem values_of_results {entries : List (List WChar)} {results : List Result}
    (made : entries.map (resultNew L) = results.map some) :
    results.map Result.wcsValue = entries := by
  induction results generalizing entries with
  | nil =>
    have none : entries = [] := by simpa using made
    simp [none]
  | cons result results ih =>
    cases entries with
    | nil => simp at made
    | cons entry entries =>
      simp only [List.map_cons, List.cons.injEq] at made
      rw [List.map_cons, ih made.2, (of_resultNew made.1).1]

/-- In a locale whose encoding is undone by its decoding, entries that lines can hold have results,
and loading what is written for these, into an empty array, gives these results back. -/
theorem entries_come_back (L : CLocale) (invertible : L.Invertible) (entries : List (List WChar))
    (storable : ∀ entry ∈ entries, Storable L entry) :
    ∃ results : List Result, entries.map (resultNew L) = results.map some ∧
      ∀ memory : Memory, memory.results = [] →
        ∃ loaded, loadContent L memory (dump results) = .ok loaded ∧
          loaded.results = results ∧ loaded.results.map Result.wcsValue = entries := by
  obtain ⟨results, made⟩ := exists_results storable
  refine ⟨results, made, fun memory empty => ?_⟩
  obtain ⟨loaded, ok, added⟩ := loadContent_dump invertible storable made memory
  rw [empty, List.nil_append] at added
  exact ⟨loaded, ok, added, by rw [added, values_of_results made]⟩

/-- Two entries, the second empty, in the C locale. -/
theorem entries_come_back_two :
    ∃ results : List Result, [[0x61, 0x20, 0x62], []].map (resultNew .ascii) = results.map some ∧
      ∀ memory : Memory, memory.results = [] →
        ∃ loaded, loadContent .ascii memory (dump results) = .ok loaded ∧
          loaded.results = results ∧
          loaded.results.map Result.wcsValue = [[0x61, 0x20, 0x62], []] := by
  apply entries_come_back .ascii CLocale.ascii_exact.invertible
  rw [List.forall_mem_cons, List.forall_mem_singleton]
  constructor
  · exact ⟨by decide, by decide, by simp [wcsWhitespace], [0x61, 0x20, 0x62], by decide, by decide⟩
  · exact ⟨by decide, by decide, by simp, [], rfl, by decide⟩

end Mdp.Entries
