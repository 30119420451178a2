import Mdp.Verif.Entries
import Mdp.Verif.RoundTrip

/-!
# New entries behind old ones

`mdp add` writes the results it has loaded and then its new entries. The file is read back in the
same two parts, because what is written for a result ends in a newline. The new entries come back
exactly if lines can hold them, whatever the part before them reads back as.
-/

namespace Mdp.Appending

open CStrings Entries Decoding RoundTrip

/-- The lines that a load gives of the file that is written for some results. -/
def reloaded (L : CLocale) (results : List Result) : List (List WChar) :=
  match loadContent L .initial (dump results) with
  | .ok loaded => loaded.results.map Result.wcsValue
  | .error _ => []

/-- What is written ends in a newline. -/
theorem terminated_dump (results : List Result) : Terminated (dump results) := by
  induction results with
  | nil => exact terminated_nil
  | cons result rest ih => exact (terminated_append_newline _).append ih

variable {L : CLocale}

/-- Results are written in their order. -/
theorem dump_append (old new : List Result) : dump (old ++ new) = dump old ++ dump new :=
  List.flatMap_append

/-- The later lines are loaded from the memory that the earlier ones leave. -/
theorem loadLines_append {lineCount : Nat} {memory mid : Memory} {ctx : CksumCtx}
    {front : List Bytes} (ok : loadLines L lineCount memory ctx front = .ok mid)
    (rest : List Bytes) :
    ∃ ctx', loadLines L lineCount memory ctx (front ++ rest) = loadLines L
      (lineCount + front.length) { mid with resultCrc32 := memory.resultCrc32 } ctx' rest := by
  induction front generalizing lineCount memory ctx with
  | nil =>
    cases ok
    exact ⟨ctx, rfl⟩
  | cons line front ih =>
    simp only [loadLines, List.cons_append, List.length_cons] at ok ⊢
    cases taken : loadLine L memory line with
    | none => simp [taken] at ok
    | some next =>
      simp only [taken] at ok
      obtain ⟨ctx', later⟩ := ih ok
      have same : next.resultCrc32 = memory.resultCrc32 := by
        simp only [loadLine, Option.map_eq_some_iff] at taken
        obtain ⟨_, _, rfl⟩ := taken
        rfl
      refine ⟨ctx', ?_⟩
      show loadLines L (lineCount + 1) next (cksumUpdate ctx (upToNul line)) (front ++ rest) = _
      rw [later, same]
      congr 1
      omega

/-- What a load adds was made of strings without trailing whitespace. -/
theorem loadLines_made {lineCount : Nat} {memory loaded : Memory} {ctx : CksumCtx}
    {pieces : List Bytes} (ok : loadLines L lineCount memory ctx pieces = .ok loaded) :
    ∃ added, loaded.results = memory.results ++ added ∧
      (added.map Result.wcsValue).map (resultNew L) = added.map some ∧
      ∀ value ∈ added.map Result.wcsValue, ∃ wides : List WChar,
        value = wides.rdropWhile isWhitespace := by
  induction pieces generalizing lineCount memory ctx with
  | nil =>
    cases ok
    exact ⟨[], by simp, rfl, by simp⟩
  | cons line rest ih =>
    simp only [loadLines] at ok
    cases taken : loadLine L memory line with
    | none => simp [taken] at ok
    | some next =>
      simp only [taken] at ok
      obtain ⟨added, results, made, stripped⟩ := ih ok
      simp only [loadLine, Option.map_eq_some_iff] at taken
      obtain ⟨result, one, rfl⟩ := taken
      have value := (of_resultNew one).1
      refine ⟨result :: added, by rw [results]; simp, ?_, ?_⟩
      · rw [List.map_cons, List.map_cons, List.map_cons, made, value, one]
      · rw [List.map_cons, List.forall_mem_cons, value]
        exact ⟨⟨_, upToNul_wcsStripTrailingWhitespaces _⟩, stripped⟩

/-- A string without trailing whitespace does not end in it. -/
theorem tight_rdropWhile {wides : List WChar} {wide : WChar}
    (last : (wides.rdropWhile isWhitespace).getLast? = some wide) : wide ∉ wcsWhitespace := by
  have nonempty : wides.rdropWhile isWhitespace ≠ [] := by
    intro empty
    simp [empty] at last
  have kept := List.rdropWhile_last_not isWhitespace wides nonempty
  rw [List.getLast?_eq_some_getLast nonempty, Option.some.injEq] at last
  rw [last] at kept
  simpa using kept

/-- What a load adds holds neither newline nor NUL, and does not end in whitespace. -/
theorem loaded_clean (exact : L.Exact) {pieces : List Bytes} {added : List Result}
    (all : List.Forall₂ (Dumped L) pieces added) :
    ∀ value ∈ added.map Result.wcsValue, newline.toUInt32 ∉ value ∧ (0 : WChar) ∉ value := by
  induction all with
  | nil => simp
  | @cons piece result pieces added one _ ih =>
    rw [List.map_cons, List.forall_mem_cons]
    refine ⟨⟨?_, ?_⟩, ih⟩
    · have valid := one.valid
      unfold CLocale.decode at valid
      split at valid
      · rw [← Option.some.inj valid]
        exact exact.notMem_decodeWithin (by decide) _ one.free
      · cases valid
    · intro null
      exact L.decode_nonNull one.valid one.nonNull 0 null rfl

/-- Entries without NUL are their own strings. -/
theorem map_upToNul {entries : List (List WChar)}
    (nonNull : ∀ entry ∈ entries, (0 : WChar) ∉ entry) :
    entries.map upToNul = entries := by
  conv_rhs => rw [← List.map_id entries]
  apply List.map_congr_left
  intro entry member
  exact upToNul_of_forall fun wide inside null => nonNull entry member (null ▸ inside)

/-- The file for some results reads back as another file before it does and then its own lines. -/
theorem exists_reloaded (exact : L.Exact) (old new : List Result) :
    ∃ memory added, reloaded L (old ++ new) = reloaded L old ++ added.map Result.wcsValue ∧
      (∃ lineCount ctx loaded, loadLines L lineCount memory ctx (chunks maxLineSize (dump new)) =
        .ok loaded ∧ loaded.results = memory.results ++ added) ∧
      List.Forall₂ (Dumped L) (chunks maxLineSize (dump new)) added := by
  obtain ⟨mid, _, ok, _, _⟩ := loadContent_succeeds (L := L) .initial (dump old)
  obtain ⟨loaded, _, whole, _, _⟩ := loadContent_succeeds (L := L) .initial (dump (old ++ new))
  have split : chunks maxLineSize (dump (old ++ new)) =
      chunks maxLineSize (dump old) ++ chunks maxLineSize (dump new) := by
    rw [dump_append]
    exact chunks_append_of_terminated 16382 (terminated_dump old) (dump new)
  obtain ⟨ctx, parts⟩ := loadLines_append ok (chunks maxLineSize (dump new))
  have later := whole
  rw [loadContent, split, parts] at later
  have reached : Reached L mid := .load .initial ok
  have writable : Writable L { mid with resultCrc32 := Memory.initial.resultCrc32 } :=
    reached.writable
  have before := newlineFree_of_reached exact reached
  have clear : NewlineFree { mid with resultCrc32 := Memory.initial.resultCrc32 } := before
  obtain ⟨added, results, _, all⟩ := loadLines_dumped exact writable clear chunk_piece later
  refine ⟨_, added, ?_, ⟨_, _, _, later, results⟩, all⟩
  simp only [reloaded, ok, whole, results, List.map_append]

/-- New results come back behind what the old ones come back as exactly if their entries can be held
by lines. -/
theorem reloaded_append_iff (exact : L.Exact) {old new : List Result} {entries : List (List WChar)}
    (made : (entries.map upToNul).map (resultNew L) = new.map some) :
    reloaded L (old ++ new) = reloaded L old ++ entries ↔
      ∀ entry ∈ entries, Storable L entry := by
  obtain ⟨memory, added, split, ⟨lineCount, ctx, loaded, later, results⟩, all⟩ :=
    exists_reloaded exact old new
  rw [split, List.append_cancel_left_eq]
  have invertible := exact.invertible
  constructor
  · intro back
    obtain ⟨added', same, _, stripped⟩ := loadLines_made later
    rw [results, List.append_cancel_left_eq] at same
    rw [← same, back] at stripped
    have clean := loaded_clean exact all
    rw [back] at clean
    rw [map_upToNul fun entry member => (clean entry member).2] at made
    have lined := lines_of_entries invertible (fun entry member => (clean entry member).1)
      (fun entry member => (clean entry member).2) made
    -- As many buffers are read as there are lines, so every line fits its buffer.
    have many : (chunks (16382 + 2) (dump new)).length = (lines (dump new)).length := by
      have read := all.length_eq
      have given := congrArg List.length back
      have held := congrArg List.length made
      simp only [List.length_map] at given held
      rw [lined, List.length_map, ← held, ← given]
      exact read
    have fits := fits_of_length_eq 16382 many
    intro entry member
    have inside : resultNew L entry ∈ new.map some := by
      rw [← made]
      exact List.mem_map_of_mem member
    obtain ⟨result, here, one⟩ := List.mem_map.mp inside
    have line : result.dump ∈ lines (dump new) := by
      rw [lined]
      exact List.mem_map_of_mem here
    have short := fits _ line
    rw [dump_of_resultNew invertible (clean entry member).2 one.symm, List.length_append,
      List.length_singleton] at short
    obtain ⟨wides, same⟩ := stripped entry member
    refine ⟨(clean entry member).1, (clean entry member).2, ?_, result.mbsValue,
      (of_resultNew one.symm).2, ?_⟩
    · intro wide last
      rw [same] at last
      exact tight_rdropWhile last
    · simp only [maxLineSize]
      omega
  · intro storable
    rw [map_upToNul fun entry member => (storable entry member).nonNull] at made
    have taken := later
    rw [chunks_dump invertible storable made] at taken
    obtain ⟨found, ok, appended⟩ := loadLines_dump invertible storable made lineCount memory ctx
    rw [ok, Except.ok.injEq] at taken
    rw [taken, results, List.append_cancel_left_eq] at appended
    rw [appended, values_of_results made]

/-- The text of a line up to its NUL is no longer than that of the line. -/
theorem lineBody_upToNul_length (line : Bytes) :
    (lineBody (upToNul line)).length ≤ (lineBody line).length := by
  have swapped : lineBody (upToNul line) = upToNul (lineBody line) := by
    unfold lineBody upToNul
    rw [List.takeWhile_takeWhile, List.takeWhile_takeWhile]
    congr 1
    funext byte
    simp only [and_comm]
  rw [swapped]
  exact (List.takeWhile_prefix _).length_le

/-- Lines that fit, with two bytes to spare, and that decode are loaded as entries that lines can
hold. -/
theorem storable_of_loaded (exact : L.Exact) {content : Bytes} {loaded : Memory}
    (ok : loadContent L .initial content = .ok loaded)
    (short : ∀ line ∈ lines content, (lineBody line).length < maxLineSize - 1)
    (valid : ∀ line ∈ lines content, (L.decode (upToNul line)).isSome) :
    ∀ entry ∈ loaded.results.map Result.wcsValue, Storable L entry := by
  have pieces : chunks maxLineSize content = lines content := by
    apply chunks_eq_lines 16382
    intro line member
    have room := short line member
    have whole : line.length ≤ (lineBody line).length + 1 := by
      obtain ⟨body, free, rfl | rfl⟩ := piece_of_mem_lines member
      · rw [lineBody_of_notMem free]
        omega
      · rw [lineBody_append_newline free, List.length_append, List.length_singleton]
    simp only [maxLineSize] at room
    omega
  obtain ⟨added, results, all⟩ := loadContent_dumped exact .initial ok
  obtain ⟨added', results', _, stripped⟩ := loadLines_made ok
  simp only [Memory.initial, List.nil_append] at results results'
  rw [← results', results] at stripped
  have clean := loaded_clean exact all
  rw [pieces] at all
  rw [results]
  have fits : ∀ result ∈ added, L.encode result.wcsValue = some result.mbsValue ∧
      result.mbsValue.length ≤ maxLineSize - 2 := by
    intro result member
    obtain ⟨line, inside, one⟩ := exists_left_of_mem all member
    have text := one.stripped (valid line inside)
    have room := short line inside
    have upTo := lineBody_upToNul_length line
    have piece := (piece_of_mem_lines inside).upToNul
    have dropped : (lineText (upToNul line)).length ≤ (lineBody (upToNul line)).length :=
      (List.rdropWhile_prefix _ _).length_le
    refine ⟨exact.encode_of_decode one.valid, ?_⟩
    rw [text, stripped_of_piece piece]
    simp only [maxLineSize] at room ⊢
    omega
  intro entry member
  obtain ⟨result, inside, rfl⟩ := List.mem_map.mp member
  obtain ⟨wides, same⟩ := stripped _ member
  refine ⟨(clean _ member).1, (clean _ member).2, ?_, result.mbsValue, fits result inside⟩
  intro wide last
  rw [same] at last
  exact tight_rdropWhile last

/-- Such lines come back as they were loaded. -/
theorem reloaded_of_loaded (exact : L.Exact) {content : Bytes} {loaded : Memory}
    (ok : loadContent L .initial content = .ok loaded)
    (short : ∀ line ∈ lines content, (lineBody line).length < maxLineSize - 1)
    (valid : ∀ line ∈ lines content, (L.decode (upToNul line)).isSome) :
    reloaded L loaded.results = loaded.results.map Result.wcsValue := by
  have storable := storable_of_loaded exact ok short valid
  obtain ⟨added, results, made, _⟩ := loadLines_made ok
  simp only [Memory.initial, List.nil_append] at results
  rw [← results] at made
  have nonNull : ∀ entry ∈ loaded.results.map Result.wcsValue, (0 : WChar) ∉ entry :=
    fun entry member => (storable entry member).nonNull
  rw [← map_upToNul nonNull] at made
  have back := (@reloaded_append_iff L exact [] loaded.results _ made).mpr storable
  rw [List.nil_append] at back
  rw [back]
  rfl

end Mdp.Appending
