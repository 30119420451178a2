import Mathlib.Data.Fintype.Pi
import Mathlib.Logic.Equiv.Fin.Basic
import Mathlib.Order.Fin.Basic

/-!
# The first of the largest values

A search that goes over a vector and keeps what it holds unless it finds something larger selects
the first position of the largest value. This position is unique. Over all vectors of a finite type
with at least two values, an earlier position is selected by more vectors than a later one:
exchanging the two entries takes the vectors that select the later position to vectors that select
the earlier one, and misses those in which both are the largest.
-/

namespace FirstMaximum

variable {α : Type*} [LinearOrder α] {k : Nat}

/-- The first position of the largest value. -/
structure IsFirstMax (values : Fin k → α) (j : Fin k) : Prop where
  largest : ∀ i, values i ≤ values j
  first : ∀ i < j, values i < values j

/-- Whether a position is the first maximum can be decided. -/
instance (values : Fin k → α) (j : Fin k) : Decidable (IsFirstMax values j) :=
  decidable_of_iff ((∀ i, values i ≤ values j) ∧ ∀ i < j, values i < values j)
    ⟨fun both => ⟨both.1, both.2⟩, fun selected => ⟨selected.largest, selected.first⟩⟩

namespace IsFirstMax

variable {values : Fin k → α} {i j : Fin k}

/-- There is one first maximum at most. -/
theorem unique (left : IsFirstMax values i) (right : IsFirstMax values j) : i = j := by
  rcases lt_trichotomy i j with before | same | after
  · exact absurd (left.largest j) (not_le.mpr (right.first i before))
  · exact same
  · exact absurd (right.largest i) (not_le.mpr (left.first j after))

/-- A strictly monotone map of the values selects the same position. -/
theorem comp {β : Type*} [LinearOrder β] {f : α → β} (strict : StrictMono f) :
    IsFirstMax (f ∘ values) j ↔ IsFirstMax values j := by
  constructor
  · intro selected
    exact ⟨fun i => strict.le_iff_le.mp (selected.largest i),
      fun i before => strict.lt_iff_lt.mp (selected.first i before)⟩
  · intro selected
    exact ⟨fun i => strict.monotone (selected.largest i),
      fun i before => strict (selected.first i before)⟩

/-- If the later of two positions is selected, the earlier one is once they are exchanged. -/
theorem swap (selected : IsFirstMax values j) (before : i < j) :
    IsFirstMax (values ∘ Equiv.swap i j) i := by
  have moved : (values ∘ Equiv.swap i j) i = values j := by simp
  refine ⟨fun p => ?_, fun p earlier => ?_⟩
  · rw [moved]
    exact selected.largest _
  · rw [moved, Function.comp_apply,
      Equiv.swap_apply_of_ne_of_ne (ne_of_lt earlier) (ne_of_lt (earlier.trans before))]
    exact selected.first p (earlier.trans before)

/-- The first value is selected if no later one is larger. -/
theorem zero {values : Fin (k + 1) → α} (later : ∀ i : Fin k, values i.succ ≤ values 0) :
    IsFirstMax values 0 := by
  refine ⟨fun i => ?_, fun i before => absurd before (Fin.not_lt_zero i)⟩
  cases i using Fin.cases with
  | zero => exact le_rfl
  | succ i => exact later i

/-- What is selected behind the first value is selected if it is larger than the first one. -/
theorem succ {values : Fin (k + 1) → α} {j : Fin k} (more : values 0 < values j.succ)
    (selected : IsFirstMax (fun i : Fin k => values i.succ) j) : IsFirstMax values j.succ := by
  constructor
  · intro i
    cases i using Fin.cases with
    | zero => exact more.le
    | succ i => exact selected.largest i
  · intro i before
    cases i using Fin.cases with
    | zero => exact more
    | succ i => exact selected.first i (Fin.succ_lt_succ_iff.mp before)

end IsFirstMax

variable [Fintype α]

/-- The vectors that select a position. -/
def selecting (α : Type*) [LinearOrder α] [Fintype α] (j : Fin k) : Finset (Fin k → α) :=
  Finset.univ.filter fun values => IsFirstMax values j

/-- The values that select a position are those with their first maximum there. -/
theorem mem_selecting {values : Fin k → α} {j : Fin k} :
    values ∈ selecting α j ↔ IsFirstMax values j := by simp [selecting]

/-- An earlier position is selected by more vectors. -/
theorem card_selecting_lt [Nontrivial α] {i j : Fin k} (before : i < j) :
    (selecting α j).card < (selecting α i).card := by
  have injective : Function.Injective fun values : Fin k → α => values ∘ Equiv.swap i j :=
    (Equiv.swap i j).surjective.injective_comp_right
  rw [← Finset.card_image_of_injective (selecting α j) injective]
  apply Finset.card_lt_card
  rw [Finset.ssubset_iff_of_subset]
  · -- the largest value at both positions, and a smaller one in front of them
    obtain ⟨small, large, less⟩ := exists_pair_lt α
    refine ⟨fun p => if p < i then small else large, ?_, ?_⟩
    · rw [mem_selecting]
      refine ⟨fun p => ?_, fun p earlier => ?_⟩
      · rw [if_neg (lt_irrefl i)]
        split
        · exact less.le
        · exact le_rfl
      · rw [if_pos earlier, if_neg (lt_irrefl i)]
        exact less
    · rw [Finset.mem_image]
      rintro ⟨values, member, same⟩
      have later : values i < values j := (mem_selecting.mp member).first i before
      have left := congrFun same j
      have right := congrFun same i
      simp only [Function.comp_apply, Equiv.swap_apply_left, Equiv.swap_apply_right,
        if_neg (lt_irrefl i), if_neg (not_lt.mpr before.le)] at left right
      rw [left, right] at later
      exact lt_irrefl large later
  · intro values member
    rw [Finset.mem_image] at member
    obtain ⟨original, selects, same⟩ := member
    rw [← same, mem_selecting]
    exact (mem_selecting.mp selects).swap before

end FirstMaximum
