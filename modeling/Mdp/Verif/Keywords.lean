import Mdp.Matching
import Mdp.Verif.Printing

/-!
# The keyword buffer

A search in plain mode stays in the keyword buffer, and looks for whole keywords, exactly as long as
the keywords that it comes to leave a cell of the buffer for the terminator.
-/

namespace Mdp.Keywords

open Mdp CStrings Printing

variable {lib : Library} {L : CLocale}

/-- The buffer holds the characters of the keyword and then a NUL. -/
def Terminated (L : CLocale) (call : SearchCall) : Prop :=
  ∃ wides, L.decode call.keyword = some wides ∧ wides ++ [0] <+: call.kw

/-- No call reads past the buffer, and each one searches for its whole keyword. -/
structure Sound (L : CLocale) (run : Matching) : Prop where
  inside : run.matched.isSome
  whole : ∀ call ∈ run.calls, Terminated L call

/-- A keyword has fewer characters than the buffer has cells. -/
def Short (L : CLocale) (keyword : Bytes) : Prop :=
  ((L.decode keyword).getD []).length < keywordLength

/-- A keyword is short if all keywords in front of it occur in the line. -/
def ReachedShort (lib : Library) (L : CLocale) (line : List WChar) (keywords : List Bytes) : Prop :=
  ∀ front keyword rest, keywords = front ++ keyword :: rest →
    (∀ earlier ∈ front, Occurs lib L earlier line) → Short L keyword

/-- A keyword of the command line: a string of the locale. -/
structure Decodable (L : CLocale) (keyword : Bytes) : Prop where
  nonNull : ∀ byte ∈ keyword, byte ≠ 0
  valid : (L.decode keyword).isSome

/-- The first keyword is reached, and the others if it occurs. -/
theorem reachedShort_cons {line : List WChar} {keyword : Bytes} {rest : List Bytes} :
    ReachedShort lib L line (keyword :: rest) ↔
      Short L keyword ∧ (Occurs lib L keyword line → ReachedShort lib L line rest) := by
  constructor
  · intro reached
    have first := reached [] keyword rest rfl (by simp)
    refine ⟨first, fun occurs front other later split before => ?_⟩
    have longer : keyword :: rest = (keyword :: front) ++ other :: later := by rw [split]; rfl
    exact reached (keyword :: front) other later longer (List.forall_mem_cons.mpr ⟨occurs, before⟩)
  · rintro ⟨first, others⟩ front other later split before
    cases front with
    | nil =>
      have same := (List.cons.inj split).1
      rw [← same]
      exact first
    | cons earlier front =>
      have same := List.cons.inj split
      have occurs := List.forall_mem_cons.mp before
      exact others (same.1 ▸ occurs.1) front other later same.2 occurs.2

/-- A short keyword is found where it occurs, from a buffer that holds it whole. -/
theorem search_short {keyword : Bytes} (line kw : List WChar) (given : Decodable L keyword)
    (short : Short L keyword) :
    (∃ found, wcscasestrIn lib.towlower line (L.mbstowcs keywordLength keyword kw).1 = some found ∧
        (found.isSome ↔ Occurs lib L keyword line)) ∧
      Terminated L ⟨keyword, (L.mbstowcs keywordLength keyword kw).1⟩ := by
  obtain ⟨wides, decoded⟩ := Option.isSome_iff_exists.mp given.valid
  have fits : wides.length < keywordLength := by
    unfold Short at short
    rwa [decoded, Option.getD_some] at short
  have nonNull := L.decode_nonNull decoded given.nonNull
  have stored := L.mbstowcs_fits kw decoded fits
  constructor
  · refine ⟨wcscasestr lib.towlower line wides, ?_, ?_⟩
    · rw [stored, wcscasestrIn_append nonNull]
    · rw [wcscasestr_isSome_iff nonNull, Occurs, decoded, Option.getD_some]
  · refine ⟨wides, decoded, ?_⟩
    show wides ++ [0] <+: (L.mbstowcs keywordLength keyword kw).1
    rw [stored]
    exact (List.prefix_append_right_inj wides).mpr (by simp)

/-- A keyword that is not short fills the buffer, and the search reads past it. -/
theorem search_long {keyword : Bytes} (line : List WChar) {kw : List WChar}
    (cells : kw.length = keywordLength) (given : Decodable L keyword) (long : ¬ Short L keyword) :
    wcscasestrIn lib.towlower line (L.mbstowcs keywordLength keyword kw).1 = none := by
  obtain ⟨wides, decoded⟩ := Option.isSome_iff_exists.mp given.valid
  have fills : keywordLength ≤ wides.length := by
    unfold Short at long
    rwa [decoded, Option.getD_some, Nat.not_lt] at long
  have nonNull := L.decode_nonNull decoded given.nonNull
  rw [L.mbstowcs_fills decoded fills cells]
  exact wcscasestrIn_eq_none fun wide member => nonNull wide (List.mem_of_mem_take member)

/-- The buffer keeps its size. -/
theorem mbstowcs_length {keyword : Bytes} {kw : List WChar} (cells : kw.length = keywordLength)
    (given : Decodable L keyword) :
    (L.mbstowcs keywordLength keyword kw).1.length = keywordLength := by
  obtain ⟨wides, decoded⟩ := Option.isSome_iff_exists.mp given.valid
  by_cases fits : wides.length < keywordLength
  · rw [L.mbstowcs_fits kw decoded fits, List.length_append, List.length_cons, List.length_drop,
      cells]
    omega
  · rw [L.mbstowcs_fills decoded (by omega) cells, List.length_take]
    omega

/-- The loop over the keywords is sound exactly when those that are reached are short. -/
theorem lineMatchesPlainIn_sound {keywords : List Bytes}
    (given : ∀ keyword ∈ keywords, Decodable L keyword) (line : List WChar) {kw : List WChar}
    (cells : kw.length = keywordLength) :
    Sound L (lineMatchesPlainIn lib L line kw keywords) ↔ ReachedShort lib L line keywords := by
  induction keywords generalizing kw with
  | nil =>
    have sound : Sound L (lineMatchesPlainIn lib L line kw []) :=
      ⟨rfl, by simp [lineMatchesPlainIn]⟩
    have reached : ReachedShort lib L line [] := by
      intro front keyword rest split
      simp at split
    exact iff_of_true sound reached
  | cons keyword rest ih =>
    rw [List.forall_mem_cons] at given
    rw [reachedShort_cons, lineMatchesPlainIn]
    by_cases short : Short L keyword
    · obtain ⟨⟨found, searched, occurs⟩, whole⟩ := @search_short lib L keyword line kw given.1 short
      simp only [searched]
      cases found with
      | none =>
        have absent : ¬ Occurs lib L keyword line := fun there => by simpa using occurs.mpr there
        have sound : Sound L ⟨[⟨keyword, (L.mbstowcs keywordLength keyword kw).1⟩], some false⟩ :=
          ⟨rfl, by simpa using whole⟩
        exact iff_of_true sound ⟨short, fun there => absurd there absent⟩
      | some place =>
        have there : Occurs lib L keyword line := occurs.mp rfl
        have later := ih given.2 (mbstowcs_length cells given.1)
        constructor
        · intro sound
          have tail : Sound L (lineMatchesPlainIn lib L line (L.mbstowcs keywordLength keyword kw).1
              rest) :=
            ⟨sound.inside, fun call member => sound.whole call (List.mem_cons_of_mem _ member)⟩
          exact ⟨short, fun _ => later.mp tail⟩
        · rintro ⟨-, others⟩
          have tail := later.mpr (others there)
          exact ⟨tail.inside, List.forall_mem_cons.mpr ⟨whole, tail.whole⟩⟩
    · rw [search_long line cells given.1 short]
      have unsound : ¬ Sound L ⟨[⟨keyword, (L.mbstowcs keywordLength keyword kw).1⟩], none⟩ :=
        fun sound => by
        simpa using sound.inside
      exact iff_of_false unsound fun both => short both.1

/-- A search of a line in plain mode stays in the keyword buffer and looks for whole keywords if and
only if the line is a comment, or every keyword is short whose earlier keywords all occur in the
line. -/
theorem sound_iff (lib : Library) (L : CLocale) (keywords : List Bytes)
    (given : ∀ keyword ∈ keywords, Decodable L keyword) (line kw : List WChar)
    (cells : kw.length = keywordLength) :
    Sound L (lineMatchesIn lib L kw keywords line) ↔
      line.head? = some hash ∨ ReachedShort lib L line keywords := by
  unfold lineMatchesIn
  by_cases comment : line.head? = some hash
  · rw [if_pos comment]
    exact iff_of_true ⟨rfl, by simp⟩ (.inl comment)
  · rw [if_neg comment, lineMatchesPlainIn_sound given line cells]
    simp [comment]

/-- `mdp get ab`, and a line in which it occurs. -/
theorem sound_iff_short :
    Sound .ascii (lineMatchesIn plainLibrary .ascii (List.replicate 50 1) [ascii "ab"]
      (wideLiteral "xaby")) ↔
      (wideLiteral "xaby").head? = some hash ∨
        ReachedShort plainLibrary .ascii (wideLiteral "xaby") [ascii "ab"] :=
  sound_iff plainLibrary .ascii [ascii "ab"]
    (by
      intro keyword member
      rw [List.mem_singleton.mp member]
      exact ⟨by decide +kernel, by decide +kernel⟩)
    (wideLiteral "xaby") (List.replicate 50 1) List.length_replicate

/-- A keyword of 50 letters fills the buffer, and `wcscasestr` reads past it. -/
theorem not_sound :
    Decodable .ascii (List.replicate 50 0x61) ∧
      ¬ Sound .ascii (lineMatchesIn plainLibrary .ascii (List.replicate 50 0)
        [List.replicate 50 0x61] (wideLiteral "x")) := by
  constructor
  · refine ⟨fun byte member => ?_, by decide +kernel⟩
    rw [List.eq_of_mem_replicate member]
    decide
  · intro sound
    have past : (lineMatchesIn plainLibrary .ascii (List.replicate 50 0) [List.replicate 50 0x61]
        (wideLiteral "x")).matched = none := by decide +kernel
    have inside := sound.inside
    rw [past] at inside
    cases inside

end Mdp.Keywords
