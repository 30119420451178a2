import Mdp.Verif.Sections

/-!
# Numerals

What becomes of a decimal numeral of any length where `strtoull` converts it and an `unsigned int`
takes it: numbers from 2^64 on are saturated, and then 32 bits are left.
-/

namespace Mdp.Numerals

open Mdp CStrings

/-- A text is a decimal numeral of a number. -/
structure Numeral (n : Nat) (text : Bytes) : Prop where
  nonempty : text ≠ []
  digits : ∀ byte ∈ text, isDigit byte = true
  value : digitsValue text = n

/-- Whether a text is a numeral can be decided. -/
instance (n : Nat) (text : Bytes) : Decidable (Numeral n text) :=
  decidable_of_iff (text ≠ [] ∧ (text.all isDigit = true) ∧ digitsValue text = n)
    ⟨fun all => ⟨all.1, List.all_eq_true.mp all.2.1, all.2.2⟩,
      fun numeral => ⟨numeral.nonempty, List.all_eq_true.mpr numeral.digits, numeral.value⟩⟩

/-- The number that is left of one. -/
def converted (n : Nat) : Nat := min n 18446744073709551615 % 4294967296

/-- What a number is converted to fits an `unsigned int`. -/
theorem converted_lt (n : Nat) : converted n < 4294967296 := Nat.mod_lt _ (by decide)

/-- A number below 2^32 is left as it is. -/
theorem converted_of_lt {n : Nat} (small : n < 4294967296) : converted n = n := by
  unfold converted
  omega

/-- A digit is no blank and no sign. -/
theorem of_isDigit {byte : UInt8} (digit : isDigit byte = true) :
    isSpace byte = false ∧ byte ≠ 0x2d ∧ byte ≠ 0x2b := by
  simp only [isDigit, Bool.and_eq_true, decide_eq_true_eq, UInt8.le_iff_toNat_le] at digit
  have low : 48 ≤ byte.toNat := digit.1
  have apart : ∀ other : UInt8, other.toNat < 48 → byte ≠ other := by
    rintro other small rfl
    omega
  refine ⟨?_, apart 0x2d (by decide), apart 0x2b (by decide)⟩
  have above : ¬ byte ≤ 0x0d := by
    rw [UInt8.le_iff_toNat_le]
    show ¬ byte.toNat ≤ 13
    omega
  simp [isSpace, apart 0x20 (by decide), above]

/-- `strtoull` on a numeral. -/
theorem unsignedOf_numeral {n : Nat} {text : Bytes} (numeral : Numeral n text) :
    (unsignedOf text).toNat = converted n := by
  obtain ⟨nonempty, digits, value⟩ := numeral
  cases text with
  | nil => exact absurd rfl nonempty
  | cons byte rest =>
    obtain ⟨noSpace, noMinus, noPlus⟩ := of_isDigit (digits byte (List.mem_cons_self ..))
    have blanks : (byte :: rest).dropWhile isSpace = byte :: rest :=
      List.dropWhile_cons_of_neg (by simp [noSpace])
    have sign : signed (byte :: rest) = (false, byte :: rest) := by
      unfold signed
      split
      · rename_i same
        exact absurd (List.cons.inj same).1 noMinus
      · rename_i same
        exact absurd (List.cons.inj same).1 noPlus
      · rfl
    have all : (byte :: rest).takeWhile isDigit = byte :: rest :=
      List.takeWhile_eq_self_iff.mpr digits
    have read : strtoull (byte :: rest) = if 18446744073709551615 < n then 18446744073709551615
        else UInt64.ofNat n := by
      unfold strtoull
      simp only [blanks, sign, all, value, Bool.false_eq_true, if_false]
    unfold unsignedOf converted
    rw [read, UInt64.toNat_toUInt32]
    split
    · rename_i large
      rw [Nat.min_eq_right (Nat.le_of_lt large)]
      rfl
    · rename_i small
      rw [UInt64.toNat_ofNat', Nat.min_eq_left (by omega)]
      omega

/-- The largest number that comes through, a multiple of 2^32, and a number that is saturated. -/
example : [4294967295, 4294967296, 4294967301, 18446744073709551616].map converted =
    [4294967295, 0, 5, 4294967295] := by decide +kernel

end Mdp.Numerals
