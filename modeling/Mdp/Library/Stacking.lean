import Mathlib.Data.List.Basic

/-!
# Stacked items

Items are placed one after the other along an axis. Each one covers `extent` of it and moves the
next one on by `advance`. If no item covers more than it moves the next one, they do not overlap,
and whether they all end before a bound depends on the last one only.
-/

namespace Stacking

variable {α : Type*} {extent advance : α → Nat}

/-- The items with where they begin. -/
def stacked (advance : α → Nat) (start : Nat) : List α → List (Nat × α)
  | [] => []
  | item :: rest => (start, item) :: stacked advance (start + advance item) rest

/-- How far they reach from where the first one begins. -/
def reach (extent advance : α → Nat) : List α → Nat
  | [] => 0
  | [last] => extent last
  | item :: next :: rest => advance item + reach extent advance (next :: rest)

/-- No items take no places. -/
@[simp] theorem stacked_nil (start : Nat) : stacked advance start ([] : List α) = [] := rfl

/-- The first item is at the start, and the others behind it. -/
@[simp] theorem stacked_cons (start : Nat) (item : α) (rest : List α) :
    stacked advance start (item :: rest) =
        (start, item) :: stacked advance (start + advance item) rest :=
  rfl

/-- All items are placed, in their order. -/
theorem stacked_map_snd (start : Nat) (items : List α) :
    (stacked advance start items).map Prod.snd = items := by
  induction items generalizing start with
  | nil => rfl
  | cons item rest ih => rw [stacked_cons, List.map_cons, ih]

/-- What has a place is one of the items. -/
theorem mem_of_stacked {start : Nat} {items : List α} {placed : Nat × α}
    (member : placed ∈ stacked advance start items) : placed.2 ∈ items := by
  have inside : placed.2 ∈ (stacked advance start items).map Prod.snd := List.mem_map_of_mem member
  rwa [stacked_map_snd] at inside

/-- No item begins before the start. -/
theorem start_le {start : Nat} {items : List α} {placed : Nat × α}
    (member : placed ∈ stacked advance start items) : start ≤ placed.1 := by
  induction items generalizing start with
  | nil => cases member
  | cons item rest ih =>
    rcases List.mem_cons.mp member with first | later
    · exact Nat.le_of_eq (congrArg Prod.fst first).symm
    · have after := ih later
      omega

/-- An item ends before the next ones begin. -/
theorem stacked_pairwise {items : List α} (covers : ∀ item ∈ items, extent item ≤ advance item)
    (start : Nat) :
    (stacked advance start items).Pairwise fun first later =>
      first.1 + extent first.2 ≤ later.1 := by
  induction items generalizing start with
  | nil => exact .nil
  | cons item rest ih =>
    rw [List.forall_mem_cons] at covers
    rw [stacked_cons, List.pairwise_cons]
    refine ⟨fun placed member => ?_, ih covers.2 _⟩
    have after := start_le member
    have first := covers.1
    show start + extent item ≤ placed.1
    omega

/-- All items end before a bound if the last one does. -/
theorem forall_stacked_iff {items : List α} (nonempty : items ≠ [])
    (covers : ∀ item ∈ items, extent item ≤ advance item) (start bound : Nat) :
    (∀ placed ∈ stacked advance start items, placed.1 + extent placed.2 ≤ bound) ↔
      start + reach extent advance items ≤ bound := by
  induction items generalizing start with
  | nil => exact absurd rfl nonempty
  | cons item rest ih =>
    rw [List.forall_mem_cons] at covers
    rw [stacked_cons, List.forall_mem_cons]
    cases rest with
    | nil => simp [reach]
    | cons next rest =>
      have later := ih (by simp) covers.2 (start + advance item)
      have first := covers.1
      rw [later, reach]
      constructor
      · rintro ⟨-, fits⟩
        omega
      · intro fits
        show start + extent item ≤ bound ∧ _
        omega

end Stacking
