import Mdp.Strings
import Mdp.Verif.Printing

/-!
# The first occurrence

`wcscasestr` finds the first place where a string occurs in another one after `towlower`, whatever
`towlower` is, and reads no cell behind the terminators.
-/

namespace Mdp.Substring

open Mdp CStrings Printing

variable {towlower : WChar → WChar} {s find : List WChar}

/-- From an index on, the characters are those of `find`, after `towlower`. -/
def OccursAt (towlower : WChar → WChar) (s find : List WChar) (i : Nat) : Prop :=
  ∀ k (inside : k < find.length), (s[i + k]?).map towlower = some (towlower find[k])

/-- The first such index. -/
def FirstAt (towlower : WChar → WChar) (s find : List WChar) (i : Nat) : Prop :=
  OccursAt towlower s find i ∧ ∀ j < i, ¬ OccursAt towlower s find j

/-- The first suffix that begins with `find`, by trying them all. -/
def naiveSearch (towlower : WChar → WChar) (s find : List WChar) : Option (List WChar) :=
  s.tails.find? fun rest => find.map towlower <+: rest.map towlower

/-- A string occurs where it is a prefix of what is left. -/
theorem occursAt_iff (i : Nat) :
    OccursAt towlower s find i ↔ find.map towlower <+: (s.drop i).map towlower := by
  rw [List.prefix_iff_getElem?]
  simp [OccursAt]

/-- An occurrence is inside the string. -/
theorem FirstAt.le {i : Nat} (first : FirstAt towlower s find i) : i ≤ s.length := by
  by_contra outside
  have last : OccursAt towlower s find s.length := by
    have here := (occursAt_iff i).mp first.1
    rw [List.drop_of_length_le (by omega)] at here
    rw [occursAt_iff, List.drop_length]
    exact here
  exact first.2 s.length (by omega) last

/-- The naive search finds the first occurrence. -/
theorem naiveSearch_eq_some_iff (i : Nat) (inside : i ≤ s.length) :
    naiveSearch towlower s find = some (s.drop i) ↔ FirstAt towlower s find i := by
  have index : i < s.tails.length := by
    rw [List.length_tails]
    omega
  unfold naiveSearch FirstAt
  rw [List.find?_eq_some_iff_getElem, decide_eq_true_iff, ← occursAt_iff]
  apply and_congr_right
  intro _
  constructor
  · rintro ⟨place, bound, found, before⟩ j earlier
    rw [List.getElem_tails] at found
    rw [List.length_tails] at bound
    have same : place = i := by
      have lengths := congrArg List.length found
      rw [List.length_drop, List.length_drop] at lengths
      omega
    have apart := before j (same ▸ earlier)
    rw [List.getElem_tails] at apart
    simpa [occursAt_iff] using apart
  · intro before
    refine ⟨i, index, List.getElem_tails .., fun j earlier => ?_⟩
    rw [List.getElem_tails]
    simpa [occursAt_iff] using before j earlier

/-- The search finds nothing where nothing occurs. -/
theorem naiveSearch_eq_none_iff :
    naiveSearch towlower s find = none ↔ ∀ i, ¬ OccursAt towlower s find i := by
  unfold naiveSearch
  rw [List.find?_eq_none]
  constructor
  · intro absent i occurs
    have suffix : s.drop i ∈ s.tails := (List.mem_tails _ _).mpr (List.drop_suffix i s)
    exact absent _ suffix (decide_eq_true ((occursAt_iff i).mp occurs))
  · intro absent rest suffix occurs
    obtain ⟨front, same⟩ := (List.mem_tails _ _).mp suffix
    apply absent front.length
    rw [occursAt_iff, ← same, List.drop_left]
    exact of_decide_eq_true occurs

/-- `wcscasestr` searches as the naive search does. -/
theorem wcscasestr_eq_naiveSearch (wanted : ∀ wide ∈ find, wide ≠ 0) :
    wcscasestr towlower s find = naiveSearch towlower s find := by
  cases find with
  | nil =>
    cases s with
    | nil => rfl
    | cons sc s => simp [wcscasestr, naiveSearch]
  | cons c find =>
    rw [List.forall_mem_cons] at wanted
    rw [wcscasestr]
    induction s with
    | nil => simp [wcscasestrLoop, naiveSearch]
    | cons sc s ih =>
      unfold naiveSearch at ih ⊢
      rw [wcscasestrLoop, List.tails_cons, List.find?_cons, List.map_cons, List.map_cons, ih]
      by_cases first : towlower sc = towlower c
      · by_cases others : wcsncasecmp towlower s find find.length = 0
        · have here := (wcsncasecmp_eq_zero wanted.2).mp others
          simp [first, others, here]
        · have apart := mt (wcsncasecmp_eq_zero wanted.2).mpr others
          simp [first, others, apart]
      · simp [first, Ne.symm first]

/-- Where its string and the one that it looks for end in their last cells, `wcscasestr` stays in
the cells of both. It returns the place of the first occurrence, and `NULL` exactly if there is
none; the empty string occurs at the first place. -/
theorem finds_first (towlower : WChar → WChar) (s find : List WChar)
    (string : ∀ wide ∈ s, wide ≠ 0) (wanted : ∀ wide ∈ find, wide ≠ 0) :
    ∃ found, wcscasestrCells towlower (s ++ [0]) (find ++ [0]) = some found ∧
      (∀ i, found = some ((s ++ [0]).drop i) ↔ FirstAt towlower s find i) ∧
      (found = none ↔ ∀ i, ¬ OccursAt towlower s find i) ∧
      (find = [] → found = some (s ++ [0])) := by
  refine ⟨_, wcscasestrCells_append string wanted [] [], ?_, ?_, ?_⟩
  · intro i
    rw [wcscasestr_eq_naiveSearch wanted]
    by_cases inside : i ≤ s.length
    · rw [List.drop_append_of_le_length inside, ← naiveSearch_eq_some_iff i inside]
      simp [Option.map_eq_some_iff]
    · have past : (s ++ [0]).drop i = [] := by
        apply List.drop_of_length_le
        rw [List.length_append, List.length_singleton]
        omega
      rw [past]
      refine iff_of_false (by simp) fun first => inside first.le
  · rw [wcscasestr_eq_naiveSearch wanted, Option.map_eq_none_iff, naiveSearch_eq_none_iff]
  · rintro rfl
    rfl

/-- `Ab` in `aaB`. -/
theorem finds_first_letters :
    ∃ found, wcscasestrCells plainLibrary.towlower (wideLiteral "aaB" ++ [0])
      (wideLiteral "Ab" ++ [0]) =
        some found ∧
      (∀ i, found = some ((wideLiteral "aaB" ++ [0]).drop i) ↔
        FirstAt plainLibrary.towlower (wideLiteral "aaB") (wideLiteral "Ab") i) ∧
      (found = none ↔ ∀ i, ¬ OccursAt plainLibrary.towlower (wideLiteral "aaB")
        (wideLiteral "Ab") i) ∧
      (wideLiteral "Ab" = [] → found = some (wideLiteral "aaB" ++ [0])) :=
  finds_first plainLibrary.towlower (wideLiteral "aaB") (wideLiteral "Ab")
    (List.forall_iff_forall_mem.mp (by decide)) (List.forall_iff_forall_mem.mp (by decide))

end Mdp.Substring
