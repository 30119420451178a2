import Mdp.Library.BinaryPolynomial
import Mdp.Library.TableCrc

/-!
# Table-driven checksums as remainders

A table that has for every octet what it leaves when it is moved up by the width of the register
makes the table-driven step a step of a division: the register is the remainder of the bytes that
were read, moved up by its width.
-/

namespace CrcPolynomial

open Polynomial BinaryPolynomial

/-- The table has for each octet the register that the octet leaves after eight places. -/
def Tabulates (table : Nat → UInt32) (tail : Nat) : Prop :=
  ∀ i < 256, (table i).toNat = (shift 32 tail)^[8] (2 ^ 24 * i)

/-- The number that bytes are, the first of them in front. -/
def number (bytes : List UInt8) : Nat := bytes.foldl (fun n byte => 2 ^ 8 * n + byte.toNat) 0

/-- No bytes are the number zero. -/
@[simp] theorem number_nil : number [] = 0 := rfl

/-- A byte at the end moves the others up. -/
theorem number_concat (bytes : List UInt8) (byte : UInt8) :
    number (bytes ++ [byte]) = 2 ^ 8 * number bytes + byte.toNat := by
  simp [number]

/-- The polynomial of bytes, byte by byte. -/
theorem poly_number_concat (bytes : List UInt8) (byte : UInt8) :
    poly (number (bytes ++ [byte])) = X ^ 8 * poly (number bytes) + poly byte.toNat := by
  rw [number_concat, poly_mul_add _ byte.toNat_lt]

/-- The bit at a position of a byte string, whose bytes begin with their highest bits. -/
def bitAt (bytes : List UInt8) (position : Nat) : Bool :=
  (bytes.getD (position / 8) 0).toNat.testBit (7 - position % 8)

/-- The digits of the number of a byte string are its bits, the last one first. -/
theorem testBit_number (bytes : List UInt8) (i : Nat) :
    (number bytes).testBit i =
      if i < 8 * bytes.length then bitAt bytes (8 * bytes.length - 1 - i) else false := by
  induction bytes using List.reverseRecOn generalizing i with
  | nil => simp
  | append_singleton bytes byte ih =>
    have length : (bytes ++ [byte]).length = bytes.length + 1 := by simp
    rw [number_concat, Nat.testBit_two_pow_mul_add _ byte.toNat_lt, length]
    by_cases last : i < 8
    · have place : (8 * (bytes.length + 1) - 1 - i) / 8 = bytes.length := by omega
      have within : 7 - (8 * (bytes.length + 1) - 1 - i) % 8 = i := by omega
      rw [if_pos last, if_pos (by omega), bitAt, place, within]
      simp
    · rw [if_neg last, ih]
      by_cases inside : i < 8 * (bytes.length + 1)
      · have place : 8 * (bytes.length + 1) - 1 - i = 8 * bytes.length - 1 - (i - 8) := by omega
        have before : (8 * bytes.length - 1 - (i - 8)) / 8 < bytes.length := by omega
        rw [if_pos (by omega), if_pos inside, place, bitAt, bitAt, List.getD_eq_getElem?_getD,
          List.getD_eq_getElem?_getD, List.getElem?_append_left before]
      · rw [if_neg (by omega), if_neg inside]

section Register

variable {table : Nat → UInt32} {tail : Nat}

/-- Shifting a register multiplies its residue by a power of `X`. -/
theorem residue_iterate_shift (below : tail < 2 ^ 32) (register places : Nat) :
    residue 32 tail (poly ((shift 32 tail)^[places] register)) =
      residue 32 tail (X ^ places * poly register) := by
  induction places generalizing register with
  | zero => simp
  | succ places ih =>
    rw [Function.iterate_succ_apply, ih, map_mul, residue_shift below, ← map_mul, ← mul_assoc,
      ← pow_succ]

/-- What an entry of the table leaves. -/
theorem Tabulates.residue (tabulates : Tabulates table tail) (below : tail < 2 ^ 32) {i : Nat}
    (inside : i < 256) :
    residue 32 tail (poly (table i).toNat) = residue 32 tail (X ^ 32 * poly i) := by
  rw [tabulates i inside, residue_iterate_shift below, poly_mul, ← mul_assoc, ← pow_add]

/-- The register moved up by an octet, without the octet that leaves it. -/
theorem poly_shiftLeft (crc : UInt32) :
    poly (crc <<< 8).toNat = X ^ 8 * poly crc.toNat + X ^ 32 * poly (crc >>> 24).toNat := by
  have bound := crc.toNat_lt
  have high : (crc >>> 24).toNat = crc.toNat / 2 ^ 24 := by
    rw [UInt32.toNat_shiftRight, Nat.shiftRight_eq_div_pow]
    rfl
  have low : (crc <<< 8).toNat = 2 ^ 8 * crc.toNat % 2 ^ 32 := by
    rw [UInt32.toNat_shiftLeft, Nat.shiftLeft_eq, Nat.mul_comm]
    rfl
  have split : 2 ^ 8 * crc.toNat = 2 ^ 32 * (crc.toNat / 2 ^ 24) + 2 ^ 8 * crc.toNat % 2 ^ 32 := by
    omega
  have whole := poly_mul 8 crc.toNat
  rw [split, poly_mul_add _ (Nat.mod_lt _ (by omega))] at whole
  have pair := add_self (X ^ 32 * poly (crc.toNat / 2 ^ 24))
  rw [low, high]
  linear_combination whole - pair

/-- A step brings one more byte into the division. -/
theorem residue_step (tabulates : Tabulates table tail) (below : tail < 2 ^ 32) (crc : UInt32)
    (byte : UInt8) :
    residue 32 tail (poly (TableCrc.step table crc byte).toNat) =
      residue 32 tail (X ^ 8 * poly crc.toNat + X ^ 32 * poly byte.toNat) := by
  have index : poly ((crc >>> 24) ^^^ byte.toUInt32).toNat =
      poly (crc >>> 24).toNat + poly byte.toNat := by
    rw [UInt32.toNat_xor, poly_xor, UInt8.toNat_toUInt32]
  have entry := tabulates.residue below (TableCrc.index_lt crc byte)
  have pair := add_self (X ^ 32 * poly (crc >>> 24).toNat)
  rw [TableCrc.step, UInt32.toNat_xor, poly_xor, map_add, entry, index, poly_shiftLeft, ← map_add]
  apply congrArg
  linear_combination pair

/-- The register after some bytes. -/
theorem residue_foldl (tabulates : Tabulates table tail) (below : tail < 2 ^ 32)
    (bytes : List UInt8) :
    residue 32 tail (poly (bytes.foldl (TableCrc.step table) 0).toNat) =
      residue 32 tail (X ^ 32 * poly (number bytes)) := by
  induction bytes using List.reverseRecOn with
  | nil => simp
  | append_singleton bytes byte ih =>
    rw [List.foldl_append, List.foldl_cons, List.foldl_nil, residue_step tabulates below, map_add,
      map_mul, ih, ← map_mul, ← map_add, poly_number_concat]
    apply congrArg
    ring

/-- It is the remainder of the bytes moved up by its width. -/
theorem poly_foldl (tabulates : Tabulates table tail) (below : tail < 2 ^ 32)
    (bytes : List UInt8) :
    poly (bytes.foldl (TableCrc.step table) 0).toNat =
      (X ^ 32 * poly (number bytes)) %ₘ generator 32 tail :=
  poly_eq_modByMonic below (UInt32.toNat_lt _) (residue_foldl tabulates below bytes)

/-- Two byte strings lead to one register exactly if the generator divides their sum. -/
theorem foldl_eq_iff (tabulates : Tabulates table tail) (below : tail < 2 ^ 32) (odd : tail % 2 = 1)
    (left right : List UInt8) :
    left.foldl (TableCrc.step table) 0 = right.foldl (TableCrc.step table) 0 ↔
      generator 32 tail ∣ poly (number left) + poly (number right) := by
  have leaves : ∀ bytes : List UInt8,
    residue 32 tail (poly (bytes.foldl (TableCrc.step table) 0).toNat) =
      residue 32 tail (X ^ 32 * poly (number bytes)) := residue_foldl tabulates below
  constructor
  · intro same
    have both := leaves left
    rw [same, leaves right] at both
    have divides := residue_eq_iff.mp both.symm
    rw [← mul_add] at divides
    exact dvd_of_dvd_X_pow_mul below (by omega) odd divides
  · intro divides
    apply UInt32.toNat_inj.mp
    apply residue_injective below (UInt32.toNat_lt _) (UInt32.toNat_lt _)
    rw [leaves left, leaves right]
    apply residue_eq_iff.mpr
    rw [← mul_add]
    exact Dvd.dvd.mul_left divides _

end Register

end CrcPolynomial
