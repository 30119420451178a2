import Mathlib.Order.Interval.Finset.Nat
import Mdp.Verif.Drawing

/-!
# How often each character is drawn

The search for the largest weight keeps the first of several. So over all vectors of weights, an
earlier position of the character set is selected more often than a later one.
-/

namespace Mdp.Uniformity

open Mdp FirstMaximum Drawing

/-- What `1 + arc4random_uniform(20000)` can be. -/
abbrev Weight : Type := Finset.Icc 1 20000

/-- There is more than one weight. -/
instance : Nontrivial Weight :=
  ⟨⟨1, by simp⟩, ⟨2, by simp⟩, by simp⟩

/-- The number of weight vectors for which a round selects a position. -/
def selections {k : Nat} (i : Fin k) : Nat :=
  (Finset.univ.filter fun weights : Fin k → Weight =>
    selectedPosition (fun j => (weights j).val) = i).card

/-- They are those in which the position is the first of the largest weights. -/
theorem selections_eq {k : Nat} (i : Fin k) : selections i = (selecting Weight i).card := by
  unfold selections selecting
  congr 1
  apply Finset.filter_congr
  intro weights _
  have positive : ∀ j, 0 < (weights j).val := fun j => (Finset.mem_Icc.mp (weights j).property).1
  rw [selectedPosition_eq_iff positive]
  exact IsFirstMax.comp (Subtype.strictMono_coe _)

/-- An earlier position is selected for more weight vectors. -/
theorem selections_lt {k : Nat} {i j : Fin k} (before : i < j) : selections j < selections i := by
  rw [selections_eq, selections_eq]
  exact card_selecting_lt before

/-- Two positions are selected equally often only if they are the same one, so all of them are only
in a set of one character. -/
theorem uniform_iff {k : Nat} (full : 1 ≤ k) :
    (∀ i j : Fin k, selections i = selections j ↔ i = j) ∧
      ((∀ i j : Fin k, selections i = selections j) ↔ k = 1) := by
  have apart : ∀ i j : Fin k, selections i = selections j ↔ i = j := by
    intro i j
    constructor
    · intro equal
      rcases lt_trichotomy i j with before | same | after
      · exact absurd equal (selections_lt before).ne'
      · exact same
      · exact absurd equal (selections_lt after).ne
    · rintro rfl
      rfl
  refine ⟨apart, fun uniform => ?_, ?_⟩
  · by_contra more
    have two : 1 < k := by omega
    have same := (apart ⟨0, full⟩ ⟨1, two⟩).mp (uniform _ _)
    simp at same
  · rintro rfl i j
    rw [Subsingleton.elim i j]

/-- Of two characters one is favoured. -/
theorem uniform_iff_two : (∀ i j : Fin 2, selections i = selections j) ↔ 2 = 1 :=
  (uniform_iff (by decide)).2

/-- The first of two characters is selected more often. -/
theorem not_uniform : ¬ ∀ (k : Nat), 1 ≤ k → ∀ i j : Fin k, selections i = selections j := by
  intro uniform
  have less : selections (1 : Fin 2) < selections (0 : Fin 2) := selections_lt (by decide)
  exact less.ne (uniform 2 (by decide) 1 0)

end Mdp.Uniformity
