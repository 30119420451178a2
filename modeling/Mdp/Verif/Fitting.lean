import Mdp.Verif.Layout

/-!
# Results below the window

`refresh_listing` counts one row for each result when it decides whether to draw them. Where results
wrap, the last ones can begin, or go on, below the window.
-/

namespace Mdp.Fitting

open Mdp CStrings Stacking Loading Layout

/-- A listing is inside the window if and only if there is room below its first row for the rows
that its results need: each one those that are left to it, and the last one those that it wraps
onto. -/
theorem inside_iff (size : Winsize) (wide : 0 < size.wsCol.toNat) (results : List Result)
    (loadable : Loadable results) (placed : List Placed)
    (drawn : refreshListing (initCurses (some size)) results = some (.lines placed)) :
    (∀ line ∈ placed, ∀ row, Occupies size.wsCol.toNat line row → row < size.wsRow.toNat) ↔
      (size.wsRow.toNat - (visibleResults results).length) / 2 +
        reach (rowsOf size.wsCol.toNat) (advanceOf size.wsCol.toNat) (visibleResults results) ≤
          size.wsRow.toNat := by
  obtain ⟨-, left, whole, rfl⟩ := lines_of_drawn wide loadable drawn
  by_cases nothing : visibleResults results = []
  · rw [nothing]
    simp only [stacked_nil, List.map_nil, List.length_nil, reach]
    have half := Nat.div_le_self (size.wsRow.toNat - 0) 2
    exact iff_of_true (by simp) (by omega)
  · rw [← forall_stacked_iff nothing fun result _ => rowsOf_le wide result]
    rw [List.forall_mem_map]
    -- the last row of a result is one of those that it is on
    refine forall₂_congr fun line member => ?_
    have fits := whole line.2 (mem_of_stacked member)
    constructor
    · intro inside
      have some : 0 < rowsOf size.wsCol.toNat line.2 := Nat.succ_pos _
      have last := inside ((line.1 + rowsOf size.wsCol.toNat line.2 : Nat) - 1)
        ((occupies_iff wide fits _).mpr (by omega))
      omega
    · intro ends row on
      have within := (occupies_iff wide fits row).mp on
      omega

/-- A result of 25 letters in a window of ten columns and five rows, and one below it. -/
theorem inside_iff_two :
    (∀ line ∈ [⟨1, 0, letters 25⟩, (⟨4, 0, letters 5⟩ : Placed)], ∀ row,
        Occupies (10 : UInt16).toNat line row → row < (5 : UInt16).toNat) ↔
      ((5 : UInt16).toNat - (visibleResults ([25, 5].map letters)).length) / 2 +
        reach (rowsOf (10 : UInt16).toNat) (advanceOf (10 : UInt16).toNat)
          (visibleResults ([25, 5].map letters)) ≤
          (5 : UInt16).toNat :=
  inside_iff ⟨5, 10⟩
    (by decide) ([25, 5].map letters) (letters_loadable (by decide) (by decide)) _ rfl

/-- In a window of three rows the second one is drawn below it. -/
theorem not_inside :
    refreshListing (initCurses (some ⟨3, 10⟩)) ([25, 5].map letters) =
        some (.lines [⟨0, 0, letters 25⟩, ⟨3, 0, letters 5⟩]) ∧
      Occupies 10 ⟨3, 0, letters 5⟩ 3 ∧ ¬ (3 : Int) < (3 : UInt16).toNat :=
  ⟨rfl, .inl rfl, by decide⟩

end Mdp.Fitting
