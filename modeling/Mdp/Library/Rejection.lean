import Mathlib.Algebra.BigOperators.Fin
import Mathlib.Algebra.GroupWithZero.Nat
import Mathlib.Data.Fintype.BigOperators
import Mathlib.Data.Int.CardIntervalMod
import Mathlib.Data.Nat.Periodic

/-!
# Drawing again

A source is asked until it gives a draw that is accepted, and the result is the value of that draw.
If every value belongs to as many accepted draws, every number of tries gives every value equally
often. The numbers below `total` that are at least `total % bound` have this property for their
remainders modulo `bound`.
-/

namespace Rejection

section Outcomes

variable {α β : Type*} {accept : α → Bool} {value : α → β}

/-- The value of the first accepted draw, if there is one. -/
def outcome (accept : α → Bool) (value : α → β) (draws : List α) : Option β :=
  (draws.find? accept).map value

/-- Nothing comes of no draws. -/
theorem outcome_nil : outcome accept value [] = none := rfl

/-- The first draw counts where it is accepted. -/
theorem outcome_cons (draw : α) (draws : List α) :
    outcome accept value (draw :: draws) =
      if accept draw then some (value draw) else outcome accept value draws := by
  unfold outcome
  rw [List.find?_cons]
  cases accept draw <;> rfl

/-- The value is one of an accepted draw. -/
theorem accepted_of_outcome {draws : List α} {result : β}
    (drawn : outcome accept value draws = some result) :
    ∃ draw ∈ draws, accept draw = true ∧ value draw = result := by
  unfold outcome at drawn
  obtain ⟨draw, found, same⟩ := Option.map_eq_some_iff.mp drawn
  exact ⟨draw, List.mem_of_find?_eq_some found, List.find?_some found, same⟩

variable [Fintype α] [DecidableEq β]

/-- The accepted draws of a value. -/
def drawsOf (accept : α → Bool) (value : α → β) (result : β) : Finset α :=
  Finset.univ.filter fun draw => accept draw = true ∧ value draw = result

/-- The sequences of draws that give a value. -/
def runsOf (accept : α → Bool) (value : α → β) (tries : Nat) (result : β) :
    Finset (Fin tries → α) :=
  Finset.univ.filter fun draws => outcome accept value (List.ofFn draws) = some result

/-- The sequences that begin with a draw: all of them if it is accepted with this value, none if it
is accepted with another one, and otherwise those that give the value later. -/
theorem card_runsOf_cons (tries : Nat) (result : β) (draw : α) :
    (Finset.univ.filter fun draws : Fin tries → α =>
        outcome accept value (draw :: List.ofFn draws) = some result).card =
      (if accept draw = true ∧ value draw = result then Fintype.card α ^ tries else 0) +
        (if accept draw = false then (runsOf accept value tries result).card else 0) := by
  cases accepted : accept draw with
  | true =>
    by_cases same : value draw = result
    · simp [outcome_cons, accepted, same]
    · simp [outcome_cons, accepted, same]
  | false => simp [outcome_cons, accepted, runsOf]

/-- One more try. -/
theorem card_runsOf_succ (tries : Nat) (result : β) :
    (runsOf accept value (tries + 1) result).card =
      (drawsOf accept value result).card * Fintype.card α ^ tries +
        (Finset.univ.filter fun draw => accept draw = false).card *
          (runsOf accept value tries result).card := by
  have split : (runsOf accept value (tries + 1) result).card =
      ∑ draw : α, (Finset.univ.filter fun draws : Fin tries → α =>
        outcome accept value (draw :: List.ofFn draws) = some result).card := by
    simp only [runsOf, Finset.card_filter]
    rw [← Fintype.sum_prod_type' (f := fun draw draws =>
      if outcome accept value (draw :: List.ofFn draws) = some result then 1 else 0)]
    apply Fintype.sum_equiv (Fin.consEquiv fun _ : Fin (tries + 1) => α).symm
    intro draws
    rw [List.ofFn_succ]
    rfl
  rw [split]
  simp only [card_runsOf_cons]
  rw [Finset.sum_add_distrib, ← Finset.sum_filter, ← Finset.sum_filter, Finset.sum_const,
    Finset.sum_const, smul_eq_mul, smul_eq_mul]
  rfl

/-- Values of as many accepted draws come out of as many sequences, whatever their length. -/
theorem card_runsOf_eq {first second : β}
    (even : (drawsOf accept value first).card = (drawsOf accept value second).card)
    (tries : Nat) :
    (runsOf accept value tries first).card = (runsOf accept value tries second).card := by
  induction tries with
  | zero => simp [runsOf, outcome_nil]
  | succ tries ih => rw [card_runsOf_succ, card_runsOf_succ, even, ih]

end Outcomes

/-- A class of remainders has as many members in every stretch of whole periods. -/
theorem card_remainders {bound result : Nat} (below : result < bound) (start periods : Nat) :
    ((Finset.Ico start (start + bound * periods)).filter
      fun number => number % bound = result).card = periods := by
  have positive : 0 < bound := by omega
  have period : Function.Periodic (fun number => number ≡ result [MOD bound])
      (bound * periods) := by
    intro number
    simp [Nat.ModEq]
  have same : ∀ number : Nat, number % bound = result ↔ number ≡ result [MOD bound] := by
    intro number
    unfold Nat.ModEq
    rw [Nat.mod_eq_of_lt below]
  have counted := Nat.filter_Ico_card_eq_of_periodic start (bound * periods) _ period
  rw [Nat.count_modEq_card _ positive, Nat.mul_mod_right, Nat.mul_div_cancel_left _ positive]
    at counted
  simp only [same]
  simpa using counted

/-- The numbers that are not drawn again give every remainder equally often. -/
theorem card_accepted {bound result : Nat} (total : Nat) (below : result < bound) :
    ((Finset.Ico (total % bound) total).filter fun number => number % bound = result).card =
      total / bound := by
  have whole : total = total % bound + bound * (total / bound) := (Nat.mod_add_div _ _).symm
  have counted := card_remainders below (total % bound) (total / bound)
  rwa [← whole] at counted

/-- More than half of the numbers are not drawn again. -/
theorem half_lt_accepted {bound total : Nat} (positive : 0 < bound) (fits : bound ≤ total) :
    total < 2 * (total - total % bound) := by
  have split := Nat.mod_add_div total bound
  have rest := Nat.mod_lt total positive
  have least : 0 < total / bound := Nat.div_pos fits positive
  have more : bound * 1 ≤ bound * (total / bound) := Nat.mul_le_mul_left bound least
  omega

end Rejection
