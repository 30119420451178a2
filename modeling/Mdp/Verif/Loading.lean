import Mdp.Verif.Listing

/-!
# The results in memory

What a load can leave in the results: no more of them than an `unsigned int` counts, and none longer
than the buffer of a line. Searching changes which of them are visible, and nothing else.
-/

namespace Mdp.Loading

open Mdp Interaction CStrings Decoding Listing

variable {lib : Library} {L : CLocale}

/-- Results that `load_results_fp` can have made. -/
structure Loadable (results : List Result) : Prop where
  count : results.length ≤ uintMax
  short : ∀ result ∈ results, result.wcsLen < maxLineSize

/-- The cells of `wline`: no character is ever in the last one. -/
structure Ended (wline : List WChar) : Prop where
  size : wline.length ≤ maxLineSize
  last : ∀ wide, wline[maxLineSize - 1]? = some wide → wide = 0

/-- A string in the buffer is shorter than the buffer. -/
theorem Ended.short {wline : List WChar} (ended : Ended wline) :
    (upToNul wline).length < maxLineSize := by
  have part : upToNul wline <+: wline := List.takeWhile_prefix _
  have size := ended.size
  by_contra full
  have whole : upToNul wline = wline := part.eq_of_length_le (by omega)
  have inside : maxLineSize - 1 < wline.length := by
    rw [whole] at full
    have positive : 0 < maxLineSize := by decide
    omega
  have null := ended.last wline[maxLineSize - 1] (List.getElem?_eq_getElem inside)
  have member : wline[maxLineSize - 1] ∈ upToNul wline := by
    rw [whole]
    exact List.getElem_mem inside
  exact ne_zero_of_mem_upToNul member null

/-- Writing a shorter string over the front keeps the last cell. -/
theorem Ended.overwrite {wline cells : List WChar} (ended : Ended wline)
    (short : cells.length ≤ maxLineSize)
    (last : ∀ wide, cells[maxLineSize - 1]? = some wide → wide = 0) :
    Ended (CLocale.overwrite cells wline) := by
  have size := ended.size
  constructor
  · rw [CLocale.overwrite, List.length_append, List.length_drop]
    omega
  · intro wide there
    rw [CLocale.overwrite, List.getElem?_append] at there
    split at there
    · exact last wide there
    · rename_i after
      rw [List.getElem?_drop] at there
      have same : cells.length + (maxLineSize - 1 - cells.length) = maxLineSize - 1 := by omega
      rw [same] at there
      exact ended.last wide there

/-- A conversion of a line that `fgets` returned keeps the last cell. -/
theorem Ended.mbstowcs {wline : List WChar} {src : Bytes} (ended : Ended wline)
    (fits : src.length < maxLineSize) : Ended (L.mbstowcs maxLineSize src wline).1 := by
  have read := L.decodeWithin_length maxLineSize src
  unfold CLocale.mbstowcs
  dsimp only
  split
  · apply ended.overwrite
    · rw [List.length_append, List.length_singleton]
      omega
    · intro wide there
      rw [List.getElem?_append] at there
      split at there
      · omega
      · rw [List.getElem?_singleton] at there
        split at there
        · exact (Option.some.inj there).symm
        · cases there
  · apply ended.overwrite
    · omega
    · intro wide there
      rw [List.getElem?_eq_none_iff.mpr (by omega)] at there
      cases there

/-- Stripping only writes NUL. -/
theorem Ended.wcsStripBelow {len : Nat} {wline : List WChar} (ended : Ended wline) :
    Ended (wcsStripBelow len wline) := by
  induction len generalizing wline with
  | zero => exact ended
  | succ len ih =>
    unfold Mdp.wcsStripBelow
    split
    · apply ih
      constructor
      · rw [List.length_set]
        exact ended.size
      · intro wide there
        rw [List.getElem?_set] at there
        split at there
        · split at there
          · exact (Option.some.inj there).symm
          · cases there
        · exact ended.last wide there
    · exact ended

/-- A memory that loads have left. -/
structure Sized (memory : Memory) : Prop where
  buffer : Ended memory.wline
  results : Loadable memory.results

/-- Nothing is loaded at first. -/
theorem sized_initial : Sized .initial where
  buffer := ⟨by decide, by intro wide there; cases there⟩
  results := ⟨by decide, by intro result member; cases member⟩

/-- A line that is loaded adds a result that is not too long. -/
theorem sized_loadLine {memory next : Memory} {line : Bytes} (sized : Sized memory)
    (fits : line.length < maxLineSize) (room : memory.results.length < uintMax)
    (taken : loadLine L memory line = some next) : Sized next := by
  have string : (upToNul line).length < maxLineSize :=
    Nat.lt_of_le_of_lt (List.takeWhile_prefix _).length_le fits
  have buffer : Ended (wcsStripTrailingWhitespaces
      (L.mbstowcs maxLineSize (upToNul line) memory.wline).1) :=
    (sized.buffer.mbstowcs string).wcsStripBelow
  simp only [loadLine, resultNew, Option.map_eq_some_iff] at taken
  obtain ⟨result, ⟨mbs, -, made⟩, rfl⟩ := taken
  refine ⟨buffer, ?_, ?_⟩
  · rw [List.length_append, List.length_singleton]
    exact room
  · intro other member
    rcases List.mem_append.mp member with older | new
    · exact sized.results.short other older
    · rw [List.mem_singleton.mp new, ← made]
      exact buffer.short

/-- An array that takes one more item has room for it. -/
theorem arrayAdd_yields (num : Nat) : (arrayAdd num).Yields fun _ => num < uintMax := by
  unfold arrayAdd require
  by_cases room : num < uintMax
  · rw [decide_eq_true room]
    intro allocated
    cases allocated with
    | true => exact room
    | false => trivial
  · rw [decide_eq_false room]
    trivial

/-- The loop of `load_results_fp`. -/
theorem loadResultsLoop_yields {memory : Memory} {ctx : CksumCtx} {pieces : List Bytes}
    (sized : Sized memory) (fit : ∀ piece ∈ pieces, piece.length < maxLineSize) :
    (loadResultsLoop L memory ctx pieces).Yields Sized := by
  induction pieces generalizing memory ctx with
  | nil => exact ⟨sized.buffer, sized.results⟩
  | cons line rest ih =>
    rw [List.forall_mem_cons] at fit
    refine (Program.yields_true _).bind fun _ _ => ?_
    refine (Program.yields_true _).bind fun _ _ => ?_
    cases taken : loadLine L memory line with
    | none => trivial
    | some next =>
      refine (Program.yields_true _).bind fun _ _ => ?_
      refine (arrayAdd_yields _).bind fun _ room => ?_
      exact ih (sized_loadLine sized fit.1 room taken) fit.2

/-- `load_results_fp`. -/
theorem loadResultsFp_yields {memory : Memory} (sized : Sized memory) (fp : Option Stream) :
    (loadResultsFp L memory fp).Yields Sized := by
  cases fp with
  | none => exact loadResultsLoop_yields sized (by simp)
  | some fp => exact fun content => loadResultsLoop_yields sized fun _ => chunk_length

/-- What `mdp get` and `mdp prompt` load. -/
theorem loadPasswords_yields (cfg : Config) : (loadPasswords L cfg).Yields Sized := by
  have loads : (loadResultsGpg cfg L .initial).Yields Sized := by
    refine (Program.yields_true _).bind fun started _ => ?_
    cases started with
    | none => exact sized_initial
    | some opened =>
      cases there : opened.fp with
      | true =>
        simp only [there, if_true]
        refine (loadResultsFp_yields sized_initial _).bind fun loaded sized => ?_
        refine (Program.yields_true _).bind fun _ _ => ?_
        exact (Program.yields_true _).bind fun _ _ => sized
      | false =>
        simp only [there]
        exact sized_initial
  refine (Program.yields_true _).bind fun _ _ => ?_
  refine loads.bind fun memory sized => ?_
  exact (Program.yields_true _).bind fun _ _ => sized

/-- A search keeps results loadable. -/
theorem Loadable.filterResults {regex : Bool} {leftovers : Nat → Leftovers} {keywords : List Bytes}
    {results filtered : List Result} (loadable : Loadable results)
    (searched : filterResults lib L regex leftovers keywords results = .ok filtered) :
    Loadable filtered := by
  have kept := filterFrom_kept searched
  constructor
  · rw [← kept.length_eq]
    exact loadable.count
  · intro result member
    obtain ⟨line, there, same⟩ := exists_left_of_mem kept member
    rw [same]
    exact loadable.short line there

/-- Every listing of the pager is one of loadable results, in every run of `mdp get` and `mdp
prompt` in which the buffer of the prompt holds what is typed. -/
theorem loadable_of_reached {S : Type} {f : Effect posix S} {cfg : Config} {memory : Memory}
    {s t : S}
    (load : Reaches f (loadPasswords L cfg) s (.done memory) t) {regex : Bool} {typed : List Bytes}
    {state : PagerState} (reached : Reached lib L regex memory.results typed state)
    (short : ∀ text ∈ typed, text.length < promptLength) : Loadable state.results := by
  have loaded : Sized memory := (loadPasswords_yields cfg).of_reaches load
  induction reached with
  | get filtered => exact loaded.results.filterResults filtered
  | prompt => exact loaded.results
  | turn _ _ taken before =>
    rw [List.forall_mem_cons] at short
    exact (before short.2).filterResults (of_pagerSearch (of_pagerTurn taken)).2.2.2
  | outside _ _ overrun =>
    rw [List.forall_mem_cons] at short
    exact absurd short.1 (Nat.not_lt.mpr (long_of_outside overrun))

end Mdp.Loading
