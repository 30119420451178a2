import Mdp.Search

/-!
# Matching in memory

`line_matches_plain` and `wcscasestr` on the cells of the keyword buffer, with the calls that are
made. A read past the last cell ends the run: nothing is known of what follows it. Up to there it is
what `Mdp.Search` computes.
-/

namespace Mdp

open CStrings

/-- `wcslen` of a string in an array; `none` where it reads past the last cell. -/
def wcslenIn : List WChar → Option Nat
  | [] => none
  | wide :: cells => if wide = 0 then some 0 else (wcslenIn cells).map (· + 1)

/-- `wcscasestr` for a string in an array; `none` where it reads past the last cell. -/
def wcscasestrIn (towlower : WChar → WChar) (s : List WChar) :
    List WChar → Option (Option (List WChar))
  | [] => none
  | c :: find =>
    if c = 0 then some (some s)
    else
      match wcslenIn find with
      | none => none
      | some len => some (wcscasestrLoop towlower (towlower c) (find.take len) s)

variable (lib : Library) (L : CLocale)

/-- A call of `wcscasestr`: the keyword it is made for, and the cells of `kw`. -/
structure SearchCall where
  keyword : Bytes
  kw : List WChar

/-- A run of `line_matches`: its calls, and its result unless the last one reads past the last
cell. -/
structure Matching where
  calls : List SearchCall
  matched : Option Bool

/-- The loop of `line_matches_plain`, from the cells of its buffer. -/
def lineMatchesPlainIn (line : List WChar) : List WChar → List Bytes → Matching
  | _, [] => ⟨[], some true⟩
  | kw, keyword :: rest =>
    let kw := (L.mbstowcs keywordLength keyword kw).1
    match wcscasestrIn lib.towlower line kw with
    | none => ⟨[⟨keyword, kw⟩], none⟩
    | some none => ⟨[⟨keyword, kw⟩], some false⟩
    | some (some _) =>
      let later := lineMatchesPlainIn line kw rest
      ⟨⟨keyword, kw⟩ :: later.calls, later.matched⟩

/-- `line_matches` in plain mode. -/
def lineMatchesIn (kw : List WChar) (keywords : List Bytes) (line : List WChar) : Matching :=
  if line.head? = some hash then ⟨[], some false⟩ else lineMatchesPlainIn lib L line kw keywords

variable {lib L}

/-- A string that ends in the array. -/
theorem wcslenIn_append {wides cells : List WChar} (nonNull : ∀ wide ∈ wides, wide ≠ 0) :
    wcslenIn (wides ++ 0 :: cells) = some wides.length := by
  induction wides with
  | nil => rfl
  | cons wide wides ih =>
    rw [List.forall_mem_cons] at nonNull
    rw [List.cons_append, wcslenIn, if_neg nonNull.1, ih nonNull.2]
    rfl

/-- A string that does not. -/
theorem wcslenIn_eq_none {cells : List WChar} (nonNull : ∀ wide ∈ cells, wide ≠ 0) :
    wcslenIn cells = none := by
  induction cells with
  | nil => rfl
  | cons wide cells ih =>
    rw [List.forall_mem_cons] at nonNull
    rw [wcslenIn, if_neg nonNull.1, ih nonNull.2]
    rfl

/-- What is read of a string in an array, if it ends there. -/
theorem wcslenIn_eq_some {cells : List WChar} {len : Nat} (read : wcslenIn cells = some len) :
    cells.take len = upToNul cells := by
  induction cells generalizing len with
  | nil => cases read
  | cons wide cells ih =>
    rw [wcslenIn] at read
    by_cases null : wide = 0
    · rw [if_pos null] at read
      cases read
      simp [upToNul, null]
    · rw [if_neg null] at read
      obtain ⟨shorter, found, same⟩ := Option.map_eq_some_iff.mp read
      rw [← same, List.take_succ_cons, ih found]
      simp [upToNul, null]

/-- `wcscasestr` searches for the string in the array. -/
theorem wcscasestrIn_append {towlower : WChar → WChar} {s wides cells : List WChar}
    (nonNull : ∀ wide ∈ wides, wide ≠ 0) :
    wcscasestrIn towlower s (wides ++ 0 :: cells) = some (wcscasestr towlower s wides) := by
  cases wides with
  | nil => rfl
  | cons first wides =>
    rw [List.forall_mem_cons] at nonNull
    rw [List.cons_append, wcscasestrIn, if_neg nonNull.1, wcslenIn_append nonNull.2]
    simp [wcscasestr]

/-- It reads past an array without NUL. -/
theorem wcscasestrIn_eq_none {towlower : WChar → WChar} {s cells : List WChar}
    (nonNull : ∀ wide ∈ cells, wide ≠ 0) : wcscasestrIn towlower s cells = none := by
  cases cells with
  | nil => rfl
  | cons first cells =>
    rw [List.forall_mem_cons] at nonNull
    rw [wcscasestrIn, if_neg nonNull.1, wcslenIn_eq_none nonNull.2]

/-- A search that stays in the array finds what the search for the string finds. -/
theorem wcscasestrIn_eq_some {towlower : WChar → WChar} {s cells : List WChar}
    {found : Option (List WChar)} (searched : wcscasestrIn towlower s cells = some found) :
    wcscasestr towlower s (upToNul cells) = found := by
  cases cells with
  | nil => cases searched
  | cons first cells =>
    rw [wcscasestrIn] at searched
    by_cases null : first = 0
    · rw [if_pos null] at searched
      cases searched
      simp [upToNul, null, wcscasestr]
    · rw [if_neg null] at searched
      cases read : wcslenIn cells with
      | none => simp [read] at searched
      | some len =>
        simp only [read, Option.some.injEq] at searched
        have front : upToNul (first :: cells) = first :: upToNul cells := by simp [upToNul, null]
        rw [front, ← wcslenIn_eq_some read]
        exact searched

/-- A run that stays in the buffer has the result of the run on strings. -/
theorem lineMatchesPlainIn_matched {line kw : List WChar} {keywords : List Bytes} {matched : Bool}
    (ran : (lineMatchesPlainIn lib L line kw keywords).matched = some matched) :
    lineMatchesPlain lib L line kw keywords = matched := by
  induction keywords generalizing kw with
  | nil => exact Option.some.inj ran
  | cons keyword rest ih =>
    simp only [lineMatchesPlainIn] at ran
    simp only [lineMatchesPlain]
    cases searched : wcscasestrIn lib.towlower line (L.mbstowcs keywordLength keyword kw).1 with
    | none => simp [searched] at ran
    | some found =>
      rw [wcscasestrIn_eq_some searched]
      cases found with
      | none =>
        simp only [searched, Option.some.injEq] at ran
        simp [ran]
      | some place =>
        simp only [searched] at ran
        simpa using ih ran

/-- So it is of `line_matches`. -/
theorem lineMatchesIn_matched {line : List WChar} {leftovers : Leftovers} {keywords : List Bytes}
    {matched : Bool} (ran : (lineMatchesIn lib L leftovers.kw keywords line).matched =
      some matched) :
    lineMatches lib L false leftovers keywords line = .ok matched := by
  unfold lineMatchesIn at ran
  unfold lineMatches
  split at ran
  · rename_i comment
    rw [if_pos comment, ← Option.some.inj ran]
  · rename_i text
    rw [if_neg text, if_neg (by decide), lineMatchesPlainIn_matched ran]

end Mdp
