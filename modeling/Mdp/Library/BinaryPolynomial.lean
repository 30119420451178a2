import Mathlib.Algebra.CharP.Two
import Mathlib.Algebra.Field.ZMod
import Mathlib.Data.ZMod.Basic
import Mathlib.GroupTheory.OrderOfElement
import Mathlib.RingTheory.AdjoinRoot

/-!
# Numbers as polynomials over two elements

The binary digits of a number are the coefficients of a polynomial. Combining bits is addition,
moving them up is multiplication by a power of `X`, and moving them up in a register of fixed width
that is combined with a generator whenever a bit leaves it is multiplication by `X` modulo the
generator. So powers of `X` modulo a generator can be computed, and with them the order of `X`.
-/

namespace BinaryPolynomial

open Polynomial

/-- The polynomial whose coefficients are the binary digits of a number. -/
noncomputable def poly (n : Nat) : (ZMod 2)[X] :=
  ∑ i ∈ Finset.range (n.log2 + 1), if n.testBit i = true then X ^ i else 0

/-- A digit as a coefficient. -/
def digit (bit : Bool) : ZMod 2 := if bit then 1 else 0

/-- The sum of digits is their exclusive or. -/
theorem digit_xor (left right : Bool) : digit (left ^^ right) = digit left + digit right := by
  cases left <;> cases right <;> decide

/-- Different digits are different coefficients. -/
theorem digit_injective : Function.Injective digit := by decide

/-- The coefficients of a number are its binary digits. -/
theorem coeff_poly (n i : Nat) : (poly n).coeff i = digit (n.testBit i) := by
  have zero : ∀ j, (if n.testBit j = true then (X : (ZMod 2)[X]) ^ j else 0).coeff i =
      if i = j then digit (n.testBit j) else 0 := by
    intro j
    cases bit : n.testBit j <;> simp [digit, coeff_X_pow]
  unfold poly
  rw [finsetSum_coeff]
  simp only [zero]
  rw [Finset.sum_ite_eq]
  by_cases inside : i ∈ Finset.range (n.log2 + 1)
  · rw [if_pos inside]
  · have high : n < 2 ^ i := by
      have bound : n.log2 + 1 ≤ i := by simpa using inside
      exact Nat.lt_of_lt_of_le Nat.lt_log2_self (Nat.pow_le_pow_right (by omega) bound)
    rw [if_neg inside, Nat.testBit_lt_two_pow high]
    rfl

/-- Different numbers are different polynomials. -/
theorem poly_injective : Function.Injective poly := by
  intro left right same
  apply Nat.eq_of_testBit_eq
  intro i
  have coefficients := congrArg (fun p => p.coeff i) same
  simp only [coeff_poly] at coefficients
  exact digit_injective coefficients

/-- Zero is the polynomial zero. -/
@[simp] theorem poly_zero : poly 0 = 0 := by
  ext i
  simp [coeff_poly, digit]

/-- The sum of polynomials is the exclusive or of the numbers. -/
theorem poly_xor (left right : Nat) : poly (left ^^^ right) = poly left + poly right := by
  ext i
  rw [coeff_add, coeff_poly, coeff_poly, coeff_poly, Nat.testBit_xor, digit_xor]

/-- Numbers whose exclusive or is zero are equal. -/
theorem eq_of_xor_eq_zero {left right : Nat} (zero : left ^^^ right = 0) : left = right := by
  apply Nat.eq_of_testBit_eq
  intro i
  have bits := congrArg (fun n => n.testBit i) zero
  simpa using bits

/-- Digits in front of others. -/
theorem poly_mul_add (high : Nat) {low width : Nat} (below : low < 2 ^ width) :
    poly (2 ^ width * high + low) = X ^ width * poly high + poly low := by
  ext i
  rw [coeff_add, coeff_X_pow_mul', coeff_poly, coeff_poly, coeff_poly,
    Nat.testBit_two_pow_mul_add high below]
  by_cases inside : i < width
  · rw [if_pos inside, if_neg (by omega), zero_add]
  · have outside : low < 2 ^ i :=
      Nat.lt_of_lt_of_le below (Nat.pow_le_pow_right (by omega) (by omega))
    rw [if_neg inside, if_pos (by omega), Nat.testBit_lt_two_pow outside]
    simp [digit]

/-- A shift to the left multiplies by a power of `X`. -/
theorem poly_mul (width high : Nat) : poly (2 ^ width * high) = X ^ width * poly high := by
  have moved := poly_mul_add high (Nat.two_pow_pos width)
  simpa using moved

/-- One has a single digit. -/
theorem testBit_one (i : Nat) : Nat.testBit 1 i = decide (i = 0) := by
  rw [Bool.eq_iff_iff, decide_eq_true_iff]
  exact Nat.testBit_one_eq_true_iff_self_eq_zero

/-- One is the polynomial one. -/
theorem poly_one : poly 1 = 1 := by
  ext i
  rw [coeff_poly, testBit_one, coeff_one]
  by_cases zero : i = 0 <;> simp [digit, zero]

/-- A power of two is a power of `X`. -/
theorem poly_two_pow (width : Nat) : poly (2 ^ width) = X ^ width := by
  have moved := poly_mul width 1
  simpa [poly_one] using moved

/-- Fewer digits are a smaller degree. -/
theorem degree_poly_lt {n width : Nat} (below : n < 2 ^ width) : (poly n).degree < width := by
  rw [degree_lt_iff_coeff_zero]
  intro i outside
  have high : n < 2 ^ i := Nat.lt_of_lt_of_le below (Nat.pow_le_pow_right (by omega) outside)
  rw [coeff_poly, Nat.testBit_lt_two_pow high]
  rfl

/-- Everything is its own negative. -/
theorem add_self (p : (ZMod 2)[X]) : p + p = 0 := CharTwo.add_self_eq_zero p

section Generator

variable {width tail : Nat}

/-- The generator, whose leading term does not fit into the register. -/
noncomputable def generator (width tail : Nat) : (ZMod 2)[X] := X ^ width + poly tail

/-- A generator is the polynomial of a number with one digit more. -/
theorem generator_eq (below : tail < 2 ^ width) :
    generator width tail = poly (2 ^ width + tail) := by
  have split := poly_mul_add 1 below
  rw [poly_one, mul_one, mul_one] at split
  exact split.symm

/-- A generator is monic. -/
theorem generator_monic (below : tail < 2 ^ width) : (generator width tail).Monic :=
  monic_X_pow_add (degree_poly_lt below)

/-- The degree of a generator is its width. -/
theorem degree_generator (below : tail < 2 ^ width) :
    (generator width tail).degree = width := by
  have small : (poly tail).degree < ((X : (ZMod 2)[X]) ^ width).degree := by
    rw [degree_X_pow]
    exact degree_poly_lt below
  rw [generator, degree_add_eq_left_of_degree_lt small, degree_X_pow]

/-- What a polynomial leaves modulo the generator. -/
noncomputable def residue (width tail : Nat) : (ZMod 2)[X] →+* AdjoinRoot (generator width tail) :=
  AdjoinRoot.mk (generator width tail)

/-- The same is left of two polynomials if the generator divides their sum. -/
theorem residue_eq_iff {left right : (ZMod 2)[X]} :
    residue width tail left = residue width tail right ↔ generator width tail ∣ left + right := by
  rw [residue, AdjoinRoot.mk_eq_mk]
  have same : left - right = left + right := CharTwo.sub_eq_add left right
  rw [same]

/-- Numbers that fit into the register are known from what they leave. -/
theorem residue_injective (below : tail < 2 ^ width) {left right : Nat}
    (leftBelow : left < 2 ^ width)
    (rightBelow : right < 2 ^ width)
    (same : residue width tail (poly left) = residue width tail (poly right)) : left = right := by
  have divides := residue_eq_iff.mp same
  rw [← poly_xor] at divides
  by_contra differ
  have nonzero : poly (left ^^^ right) ≠ 0 := by
    rw [← poly_zero]
    exact fun zero => differ (eq_of_xor_eq_zero (poly_injective zero))
  have small : (poly (left ^^^ right)).degree < (generator width tail).degree := by
    rw [degree_generator below]
    exact degree_poly_lt (Nat.xor_lt_two_pow leftBelow rightBelow)
  exact (generator_monic below).not_dvd_of_degree_lt nonzero small divides

/-- The register is the remainder of whatever leaves the same. -/
theorem poly_eq_modByMonic (below : tail < 2 ^ width) {register : Nat}
    (registerBelow : register < 2 ^ width) {p : (ZMod 2)[X]}
    (same : residue width tail (poly register) = residue width tail p) :
    poly register = p %ₘ generator width tail := by
  have small : (poly register).degree < (generator width tail).degree := by
    rw [degree_generator below]
    exact degree_poly_lt registerBelow
  rw [← (modByMonic_eq_self_iff (generator_monic below)).mpr small]
  apply modByMonic_eq_of_dvd_sub (generator_monic below)
  rw [CharTwo.sub_eq_add]
  exact residue_eq_iff.mp same

/-- The register moved up by one place. -/
def shift (width tail register : Nat) : Nat :=
  if 2 ^ width ≤ 2 * register then (2 * register) ^^^ (2 ^ width + tail) else 2 * register

/-- The bit that leaves the register takes the generator's leading term with it. -/
theorem shift_lt (below : tail < 2 ^ width) {register : Nat}
    (registerBelow : register < 2 ^ width) :
    shift width tail register < 2 ^ width := by
  unfold shift
  split_ifs with leaves
  · apply Nat.lt_pow_two_of_testBit
    intro i outside
    have first : (2 * register).testBit i = decide (i = width) := by
      have split : 2 * register = 2 ^ width * 1 + (2 * register - 2 ^ width) := by omega
      rw [split, Nat.testBit_two_pow_mul_add 1 (by omega), if_neg (by omega),
        testBit_one]
      exact decide_eq_decide.mpr (by omega)
    have second : (2 ^ width + tail).testBit i = decide (i = width) := by
      have split : 2 ^ width + tail = 2 ^ width * 1 + tail := by omega
      rw [split, Nat.testBit_two_pow_mul_add 1 below, if_neg (by omega),
        testBit_one]
      exact decide_eq_decide.mpr (by omega)
    rw [Nat.testBit_xor, first, second, Bool.xor_self]
  · omega

/-- Moving the register up is multiplication by `X`. -/
theorem residue_shift (below : tail < 2 ^ width) (register : Nat) :
    residue width tail (poly (shift width tail register)) =
      residue width tail (X * poly register) := by
  have doubled : poly (2 * register) = X * poly register := by
    have moved := poly_mul 1 register
    rwa [pow_one, pow_one] at moved
  unfold shift
  split_ifs with leaves
  · rw [poly_xor, doubled, ← generator_eq below, residue_eq_iff]
    have sum : X * poly register + generator width tail + X * poly register =
        generator width tail := by
      have pair := add_self (X * poly register)
      linear_combination pair
    rw [sum]
  · rw [doubled]

/-- The product of two registers, over the digits of the second one. -/
def product (width tail : Nat) : Nat → Nat → Nat → Nat
  | 0, _, _ => 0
  | digits + 1, left, right =>
    shift width tail (product width tail digits left (right / 2)) ^^^
      (if right % 2 = 1 then left else 0)

/-- A product of registers fits into a register. -/
theorem product_lt (below : tail < 2 ^ width) {digits left right : Nat}
    (leftBelow : left < 2 ^ width) :
    product width tail digits left right < 2 ^ width := by
  induction digits generalizing right with
  | zero => exact Nat.two_pow_pos width
  | succ digits ih =>
    apply Nat.xor_lt_two_pow (shift_lt below ih)
    split_ifs
    · exact leftBelow
    · exact Nat.two_pow_pos width

/-- The first digit and the others. -/
theorem poly_half (n : Nat) : poly n = X * poly (n / 2) + poly (n % 2) := by
  have split := poly_mul_add (n / 2) (show n % 2 < 2 ^ 1 by omega)
  rw [pow_one, pow_one, Nat.div_add_mod] at split
  exact split

/-- The product of registers is the product of their residues. -/
theorem residue_product (below : tail < 2 ^ width) {digits : Nat} (left : Nat) {right : Nat}
    (rightBelow : right < 2 ^ digits) :
    residue width tail (poly (product width tail digits left right)) =
      residue width tail (poly left * poly right) := by
  induction digits generalizing right with
  | zero =>
    have zero : right = 0 := by simpa using rightBelow
    simp [product, zero]
  | succ digits ih =>
    have halved : right / 2 < 2 ^ digits := by
      rw [Nat.pow_succ] at rightBelow
      omega
    have last : poly (if right % 2 = 1 then left else 0) = poly left * poly (right % 2) := by
      have cases : right % 2 = 0 ∨ right % 2 = 1 := by omega
      cases cases with
      | inl even => simp [even]
      | inr odd => simp [odd, poly_one]
    have before := ih halved
    rw [product, poly_xor, map_add, residue_shift below, map_mul, before, last, poly_half right]
    simp only [map_add, map_mul]
    ring

/-- A power of `X`, over the digits of the exponent. -/
def power (width tail : Nat) : Nat → Nat → Nat
  | 0, _ => 1
  | digits + 1, exponent =>
    let half := power width tail digits (exponent / 2)
    let square := product width tail width half half
    if exponent % 2 = 1 then shift width tail square else square

/-- A power in a register fits into the register. -/
theorem power_lt (below : tail < 2 ^ width) (wide : 0 < width) {digits exponent : Nat} :
    power width tail digits exponent < 2 ^ width := by
  induction digits generalizing exponent with
  | zero => exact Nat.one_lt_two_pow (by omega)
  | succ digits ih =>
    simp only [power]
    split_ifs
    · exact shift_lt below (product_lt below ih)
    · exact product_lt below ih

/-- A power in a register is the residue of that power of `X`. -/
theorem residue_power (below : tail < 2 ^ width) (wide : 0 < width) {digits exponent : Nat}
    (exponentBelow : exponent < 2 ^ digits) :
    residue width tail (poly (power width tail digits exponent)) =
      residue width tail (X ^ exponent) := by
  induction digits generalizing exponent with
  | zero =>
    have zero : exponent = 0 := by simpa using exponentBelow
    simp [power, zero, poly_one]
  | succ digits ih =>
    have halved : exponent / 2 < 2 ^ digits := by
      rw [Nat.pow_succ] at exponentBelow
      omega
    have squared : residue width tail (poly (product width tail width
        (power width tail digits (exponent / 2)) (power width tail digits (exponent / 2)))) =
        residue width tail (X ^ (exponent / 2 + exponent / 2)) := by
      rw [residue_product below _ (power_lt below wide), map_mul, ih halved, ← map_mul, ← pow_add]
    simp only [power]
    split_ifs with odd
    · have whole : exponent = exponent / 2 + exponent / 2 + 1 := by omega
      rw [residue_shift below, map_mul, squared, ← map_mul, ← pow_succ', ← whole]
    · have whole : exponent = exponent / 2 + exponent / 2 := by omega
      rw [squared, ← whole]

/-- A power of `X` leaves one exactly if the register that computes it does. -/
theorem residue_pow_eq_one_iff (below : tail < 2 ^ width) (wide : 0 < width) {digits exponent : Nat}
    (exponentBelow : exponent < 2 ^ digits) :
    residue width tail (X ^ exponent) = 1 ↔ power width tail digits exponent = 1 := by
  have one : residue width tail (poly 1) = 1 := by rw [poly_one, map_one]
  rw [← residue_power below wide exponentBelow, ← one]
  constructor
  · exact residue_injective below (power_lt below wide) (Nat.one_lt_two_pow (by omega))
  · intro same
    rw [same]

/-- The order of `X`, from powers of it that are computed. -/
theorem orderOf_eq (below : tail < 2 ^ width) (wide : 0 < width) {digits order : Nat}
    (orderBelow : order < 2 ^ digits) (positive : 0 < order)
    (whole : power width tail digits order = 1)
    (proper : ∀ p, p.Prime → p ∣ order → power width tail digits (order / p) ≠ 1) :
    orderOf (residue width tail X) = order := by
  apply orderOf_eq_of_pow_and_pow_div_prime positive
  · rw [← map_pow]
    exact (residue_pow_eq_one_iff below wide orderBelow).mpr whole
  · intro p prime divides one
    rw [← map_pow] at one
    have fewer : order / p < 2 ^ digits := Nat.lt_of_le_of_lt (Nat.div_le_self _ _) orderBelow
    exact proper p prime divides ((residue_pow_eq_one_iff below wide fewer).mp one)

/-- A generator with a constant term has nothing in common with `X`. -/
theorem isCoprime_X (below : tail < 2 ^ width) (wide : 0 < width) (odd : tail % 2 = 1) :
    IsCoprime (generator width tail) X := by
  have even : 2 ∣ 2 ^ width := dvd_pow_self 2 (by omega)
  have last : (2 ^ width + tail) % 2 = 1 := by omega
  have split := poly_half (2 ^ width + tail)
  rw [← generator_eq below, last, poly_one] at split
  refine ⟨1, -poly ((2 ^ width + tail) / 2), ?_⟩
  linear_combination split

/-- So it divides nothing that only moving up by some places makes a multiple of it. -/
theorem dvd_of_dvd_X_pow_mul (below : tail < 2 ^ width) (wide : 0 < width) (odd : tail % 2 = 1)
    {places : Nat} {p : (ZMod 2)[X]} (divides : generator width tail ∣ X ^ places * p) :
    generator width tail ∣ p :=
  ((isCoprime_X below wide odd).pow_right).dvd_of_dvd_mul_left divides

/-- Digits that all lie in one window of its width are not divided by the generator. -/
theorem not_dvd_of_window (below : tail < 2 ^ width) (wide : 0 < width) (odd : tail % 2 = 1)
    {digits low : Nat} (nonzero : digits ≠ 0)
    (window : ∀ i, digits.testBit i = true → low ≤ i ∧ i < low + width) :
    ¬ generator width tail ∣ poly digits := by
  intro divides
  have few : digits >>> low < 2 ^ width := by
    apply Nat.lt_pow_two_of_testBit
    intro i outside
    rw [Nat.testBit_shiftRight]
    by_contra bit
    have inside := window (low + i) (by simpa using bit)
    omega
  have moved : digits = 2 ^ low * (digits >>> low) := by
    apply Nat.eq_of_testBit_eq
    intro i
    rw [Nat.mul_comm, Nat.testBit_mul_two_pow, Nat.testBit_shiftRight]
    by_cases above : low ≤ i
    · rw [decide_eq_true above, Bool.true_and, Nat.add_sub_cancel' above]
    · rw [decide_eq_false above, Bool.false_and]
      by_contra bit
      exact above (window i (by simpa using bit)).1
  have remains : digits >>> low ≠ 0 := by
    intro zero
    rw [zero, Nat.mul_zero] at moved
    exact nonzero moved
  rw [moved, poly_mul] at divides
  have divides := dvd_of_dvd_X_pow_mul below wide odd divides
  have some : poly (digits >>> low) ≠ 0 := by
    rw [← poly_zero]
    exact fun zero => remains (poly_injective zero)
  have small : (poly (digits >>> low)).degree < (generator width tail).degree := by
    rw [degree_generator below]
    exact degree_poly_lt few
  exact (generator_monic below).not_dvd_of_degree_lt some small divides

/-- Two digits that are nearer to each other than the order of `X` are not divided by it. -/
theorem not_dvd_of_pair (below : tail < 2 ^ width) (wide : 0 < width) (odd : tail % 2 = 1)
    {first second : Nat} (before : first < second)
    (near : second - first < orderOf (residue width tail X)) :
    ¬ generator width tail ∣ X ^ first + X ^ second := by
  intro divides
  have split : (X : (ZMod 2)[X]) ^ first + X ^ second = X ^ first * (X ^ (second - first) + 1) := by
    rw [mul_add, ← pow_add, Nat.add_sub_cancel' (Nat.le_of_lt before), mul_one, add_comm]
  rw [split] at divides
  have divides := dvd_of_dvd_X_pow_mul below wide odd divides
  have one : residue width tail X ^ (second - first) = 1 := by
    rw [← map_pow, ← map_one (residue width tail)]
    exact residue_eq_iff.mpr divides
  have least := orderOf_le_of_pow_eq_one (by omega) one
  omega

end Generator

end BinaryPolynomial
