import Mathlib.Data.FinEnum
import Mdp.Library.Rejection
import Mdp.System
import Mdp.Verif.Generator

/-!
# Random numbers below a bound

`arc4random_uniform` draws words until one is at least `min`. The words it accepts give every number
below the bound equally often.
-/

namespace Mdp.Bounded

open Mdp Rejection Generator

/-- With 64 bits `min` is the remainder of the number of words. -/
theorem toNat_uniformMin {upperBound : UInt32} (positive : 0 < upperBound.toNat) :
    (uniformMin upperBound).toNat = 4294967296 % upperBound.toNat := by
  have below := upperBound.toNat_lt
  have rest := Nat.mod_lt 4294967296 positive
  unfold uniformMin
  rw [UInt64.toNat_toUInt32, UInt64.toNat_mod, UInt32.toNat_toUInt64]
  exact Nat.mod_eq_of_lt (by simpa using (by omega : 4294967296 % upperBound.toNat < 4294967296))

/-- Taking a bound off twice does not change the remainder. -/
theorem mod_sub_twice {total bound : Nat} (fits : 2 * bound ≤ total) :
    (total - 2 * bound) % bound = total % bound := by
  have split : total = total - 2 * bound + bound * 2 := by omega
  calc (total - 2 * bound) % bound
      = (total - 2 * bound + bound * 2) % bound := (Nat.add_mul_mod_self_left _ _ _).symm
    _ = total % bound := by rw [← split]

/-- Without them it is computed otherwise, and the same. -/
theorem uniformMinNarrow_eq {upperBound : UInt32} (two : 2 ≤ upperBound.toNat) :
    uniformMinNarrow upperBound = uniformMin upperBound := by
  apply UInt32.toNat_inj.mp
  rw [toNat_uniformMin (by omega)]
  have below := upperBound.toNat_lt
  unfold uniformMinNarrow
  split_ifs with large
  · have more : 2147483648 < upperBound.toNat := by simpa using UInt32.lt_iff_toNat_lt.mp large
    have single : 4294967296 % upperBound.toNat = 4294967296 - upperBound.toNat := by
      rw [Nat.mod_eq_sub_mod (by omega), Nat.mod_eq_of_lt (by omega)]
    have flipped : (~~~upperBound).toNat = 4294967295 - upperBound.toNat := by
      rw [UInt32.toNat_not]
      rfl
    have one : (1 : UInt32).toNat = 1 := rfl
    rw [UInt32.toNat_add, flipped, one, single]
    omega
  · have fewer : upperBound.toNat ≤ 2147483648 := by
      by_contra more
      exact large (UInt32.lt_iff_toNat_lt.mpr (by simpa using more))
    have doubled : (upperBound * 2).toNat = upperBound.toNat * 2 % 4294967296 := by
      rw [UInt32.toNat_mul]
      rfl
    rw [UInt32.toNat_mod, UInt32.toNat_add, UInt32.toNat_sub, doubled]
    have top : (0xffffffff : UInt32).toNat = 4294967295 := rfl
    have one : (1 : UInt32).toNat = 1 := rfl
    rw [top, one]
    have total : 2 ^ 32 = 4294967296 := rfl
    rw [total]
    -- Twice the bound may be all words, and is then no word.
    by_cases half : upperBound.toNat = 2147483648
    · rw [half]
    · have less : (4294967296 - upperBound.toNat * 2 % 4294967296 + 4294967295) % 4294967296 + 1 =
          4294967296 - 2 * upperBound.toNat := by omega
      have small : (4294967296 - 2 * upperBound.toNat) % 4294967296 =
          4294967296 - 2 * upperBound.toNat := Nat.mod_eq_of_lt (by omega)
      rw [less, small]
      exact mod_sub_twice (by omega)

/-- Whether the loop ends with a word. -/
def accepts (upperBound word : UInt32) : Bool := decide (uniformMin upperBound ≤ word)

/-- A word is accepted from the remainder of 2^32 on. -/
theorem accepts_iff {upperBound word : UInt32} (positive : 0 < upperBound.toNat) :
    accepts upperBound word = true ↔ 4294967296 % upperBound.toNat ≤ word.toNat := by
  unfold accepts
  rw [decide_eq_true_iff, UInt32.le_iff_toNat_le, toNat_uniformMin positive]

/-- Words with a property of their numbers, counted as numbers. -/
theorem card_words (property : Nat → Prop) [DecidablePred property] :
    (Finset.univ.filter fun word : UInt32 => property word.toNat).card =
      ((Finset.range 4294967296).filter property).card := by
  apply Finset.card_bij fun word _ => word.toNat
  · intro word member
    have holds := (Finset.mem_filter.mp member).2
    exact Finset.mem_filter.mpr ⟨Finset.mem_range.mpr word.toNat_lt, holds⟩
  · intro first _ second _ same
    exact UInt32.toNat_inj.mp same
  · intro number member
    obtain ⟨below, holds⟩ := Finset.mem_filter.mp member
    have same : (UInt32.ofNat number).toNat = number :=
      UInt32.toNat_ofNat_of_lt (Finset.mem_range.mp below)
    refine ⟨UInt32.ofNat number, ?_, same⟩
    rw [Finset.mem_filter, same]
    exact ⟨Finset.mem_univ _, holds⟩

/-- Every number below the bound is the result of as many accepted words. -/
theorem card_drawsOf {upperBound result : UInt32} (below : result < upperBound) :
    (drawsOf (accepts upperBound) (fun word => word % upperBound) result).card =
      4294967296 / upperBound.toNat := by
  have under : result.toNat < upperBound.toNat := UInt32.lt_iff_toNat_lt.mp below
  have positive : 0 < upperBound.toNat := by omega
  have counted := card_accepted 4294967296 under
  unfold drawsOf
  have same : ∀ word : UInt32, (accepts upperBound word = true ∧ word % upperBound = result) ↔
      (4294967296 % upperBound.toNat ≤ word.toNat ∧ word.toNat % upperBound.toNat =
          result.toNat) := by
    intro word
    rw [accepts_iff positive, ← UInt32.toNat_inj, UInt32.toNat_mod]
  have interval : (Finset.range 4294967296).filter (fun number =>
        4294967296 % upperBound.toNat ≤ number ∧ number % upperBound.toNat = result.toNat) =
      (Finset.Ico (4294967296 % upperBound.toNat) 4294967296).filter fun number =>
        number % upperBound.toNat = result.toNat := by
    ext number
    simp only [Finset.mem_filter, Finset.mem_range, Finset.mem_Ico]
    tauto
  simp only [same]
  rw [card_words fun number => 4294967296 % upperBound.toNat ≤ number ∧
    number % upperBound.toNat = result.toNat, interval, counted]

/-- More than half of the words are accepted. -/
theorem half_lt_accepts {upperBound : UInt32} (positive : 0 < upperBound.toNat) :
    2147483648 < (Finset.univ.filter fun word => accepts upperBound word = true).card := by
  have fits : upperBound.toNat ≤ 4294967296 := Nat.le_of_lt upperBound.toNat_lt
  have half := half_lt_accepted positive fits
  have interval : (Finset.range 4294967296).filter (4294967296 % upperBound.toNat ≤ ·) =
      Finset.Ico (4294967296 % upperBound.toNat) 4294967296 := by
    ext number
    simp only [Finset.mem_filter, Finset.mem_range, Finset.mem_Ico]
    tauto
  simp only [accepts_iff positive]
  rw [card_words (4294967296 % upperBound.toNat ≤ ·), interval, Nat.card_Ico]
  omega

/-- The narrow computation of `min` and the wide one agree, every result below the bound has the
same number of accepted words, and more than half of all words are accepted. -/
theorem min_spec {upperBound : UInt32} (two : 2 ≤ upperBound) :
    uniformMinNarrow upperBound = uniformMin upperBound ∧
      (∀ result < upperBound,
        (Finset.univ.filter fun word : UInt32 =>
          uniformMin upperBound ≤ word ∧ word % upperBound = result).card =
            4294967296 / upperBound.toNat) ∧
      2147483648 < (Finset.univ.filter fun word : UInt32 => uniformMin upperBound ≤ word).card := by
  have many : 2 ≤ upperBound.toNat := UInt32.le_iff_toNat_le.mp two
  refine ⟨uniformMinNarrow_eq many, fun result below => ?_, ?_⟩
  · have counted := card_drawsOf below
    simpa only [drawsOf, accepts, decide_eq_true_iff] using counted
  · have half := half_lt_accepts (by omega : 0 < upperBound.toNat)
    simpa only [accepts, decide_eq_true_iff] using half

/-- The bound of the weights, and one of their values. -/
theorem min_spec_weights : uniformMinNarrow 20000 = uniformMin 20000 ∧
    (Finset.univ.filter fun word : UInt32 =>
      uniformMin 20000 ≤ word ∧ word % 20000 = 7).card = 214748 :=
  ⟨(@min_spec 20000 (by decide)).1,
    (@min_spec 20000 (by decide)).2.1 7 (by decide)⟩

/-- What successive calls of `arc4random` return. -/
def words (around : Nat → Entropy) : Nat → Arc4 → List UInt32
  | 0, _ => []
  | tries + 1, a => (arc4random around a).1 :: words around tries (arc4random around a).2

/-- The loop returns the remainder of the first accepted word. -/
theorem arc4randomRetry_eq (around : Nat → Entropy) (upperBound : UInt32) (tries : Nat) (a : Arc4) :
    (arc4randomRetry around (uniformMin upperBound) upperBound tries a).map Prod.fst =
      outcome (accepts upperBound) (fun word => word % upperBound) (words around tries a) := by
  induction tries generalizing a with
  | zero => rfl
  | succ tries ih =>
    rw [words, outcome_cons, arc4randomRetry]
    by_cases accepted : uniformMin upperBound ≤ (arc4random around a).1
    · simp [accepts, accepted]
    · simp [accepts, accepted, ih]

/-- Any number of tries gives a number below the bound, which is what a caller may count on. -/
theorem effect_arc4randomUniform (around : Nat → Entropy) {upperBound r : UInt32} {tries : Nat}
    {a a' : Arc4} (positive : 0 < upperBound)
    (drawn : arc4randomUniform around upperBound tries a = some (r, a')) (s : State) :
    effect (.arc4randomUniform upperBound) r s = some s := by
  have below : r < upperBound := by
    unfold arc4randomUniform at drawn
    split_ifs at drawn with small
    · have zero : 0 = r := congrArg Prod.fst (Option.some.inj drawn)
      rwa [← zero]
    · have returned := congrArg (Option.map Prod.fst) drawn
      rw [arc4randomRetry_eq] at returned
      have first : outcome (accepts upperBound) (fun word => word % upperBound)
          (words around tries a) = some r := returned
      obtain ⟨word, _, _, same⟩ := accepted_of_outcome first
      rw [← same]
      exact UInt32.mod_lt word positive
  simp [effect, below]

/-- What `arc4random_uniform` returns is the remainder of the first accepted one of the words it
draws, and among all sequences of as many words every number below the bound is returned for equally
many. -/
theorem uniform_even (around : Nat → Entropy) {upperBound first second : UInt32}
    (tries : Nat) (a : Arc4) (two : 2 ≤ upperBound) (firstBelow : first < upperBound)
    (secondBelow : second < upperBound) :
    (arc4randomUniform around upperBound tries a).map Prod.fst =
        outcome (accepts upperBound) (fun word => word % upperBound) (words around tries a) ∧
      (Finset.univ.filter fun draws : Fin tries → UInt32 =>
          outcome (accepts upperBound) (fun word => word % upperBound) (List.ofFn draws) =
            some first).card =
        (Finset.univ.filter fun draws : Fin tries → UInt32 =>
          outcome (accepts upperBound) (fun word => word % upperBound) (List.ofFn draws) =
            some second).card := by
  constructor
  · have large : ¬ upperBound < 2 := UInt32.not_lt.mpr two
    rw [arc4randomUniform, if_neg large]
    exact arc4randomRetry_eq around upperBound tries a
  · exact card_runsOf_eq (by rw [card_drawsOf firstBelow, card_drawsOf secondBelow]) tries

/-- Draws below three, of a generator that is bare. -/
theorem uniform_even_bare :
    (arc4randomUniform (fun _ => bare) 3 5 Arc4.fresh).map Prod.fst =
        outcome (accepts 3) (fun word => word % 3) (words (fun _ => bare) 5 Arc4.fresh) ∧
      (Finset.univ.filter fun draws : Fin 5 → UInt32 =>
          outcome (accepts 3) (fun word => word % 3) (List.ofFn draws) = some 0).card =
        (Finset.univ.filter fun draws : Fin 5 → UInt32 =>
          outcome (accepts 3) (fun word => word % 3) (List.ofFn draws) = some 2).card :=
  uniform_even (fun _ => bare) 5 Arc4.fresh (by decide) (by decide) (by decide)

end Mdp.Bounded
