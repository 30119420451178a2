import Mathlib.Data.List.Induction
import Mathlib.Data.List.Nodup

/-!
# Table-driven checksums

A 32-bit checksum that takes a byte at a time: the register moves up eight places and is combined
with the table's word for its high octet and the byte. Where the low octets of the table's words are
distinct, the words that leave the register at its lower end say which entry was used, so a step can
be undone, and so can up to four steps without the bytes being known.
-/

namespace TableCrc

/-- One byte. -/
def step (table : Nat → UInt32) (crc : UInt32) (byte : UInt8) : UInt32 :=
  (crc <<< 8) ^^^ table ((crc >>> 24) ^^^ byte.toUInt32).toNat

/-- The low octets of the table's words are distinct. -/
def Separates (table : Nat → UInt32) : Prop :=
  ∀ i < 256, ∀ j < 256, (table i).toNat % 256 = (table j).toNat % 256 → i = j

/-- Whether numbers are distinct and none is in a set of bits. -/
def distinctFrom : Nat → List Nat → Bool
  | _, [] => true
  | seen, n :: rest => !seen.testBit n && distinctFrom (seen ||| 1 <<< n) rest

/-- Distinct numbers are not in the set and not repeated. -/
theorem nodup_of_distinctFrom {seen : Nat} {numbers : List Nat}
    (distinct : distinctFrom seen numbers = true) :
    (∀ n ∈ numbers, seen.testBit n = false) ∧ numbers.Nodup := by
  induction numbers generalizing seen with
  | nil => simp
  | cons n rest ih =>
    simp only [distinctFrom, Bool.and_eq_true, Bool.not_eq_true'] at distinct
    obtain ⟨others, nodup⟩ := ih distinct.2
    have apart : ∀ m ∈ rest, seen.testBit m = false ∧ m ≠ n := by
      intro m member
      have clear := others m member
      simp only [Nat.testBit_or, Bool.or_eq_false_iff, Nat.one_shiftLeft,
        Nat.testBit_two_pow, decide_eq_false_iff_not] at clear
      exact ⟨clear.1, fun same => clear.2 same.symm⟩
    rw [List.forall_mem_cons, List.nodup_cons]
    exact ⟨⟨distinct.1, fun m member => (apart m member).1⟩,
      fun member => (apart n member).2 rfl, nodup⟩

/-- A table of 256 words whose low octets are distinct. -/
theorem separates_of_distinctFrom {words : List UInt32} (many : words.length = 256)
    (distinct : distinctFrom 0 (words.map fun word => word.toNat % 256) = true) :
    Separates fun i => words.getD i 0 := by
  intro i below j under same
  have nodup := (nodup_of_distinctFrom distinct).2
  have length : (words.map fun word => word.toNat % 256).length = 256 := by
    rw [List.length_map, many]
  have low : ∀ n, (bound : n < (words.map fun word => word.toNat % 256).length) →
      (words.map fun word => word.toNat % 256)[n] = (words.getD n 0).toNat % 256 := by
    intro n bound
    have inside : n < words.length := by omega
    simp [inside]
  have first := low i (by omega)
  have second := low j (by omega)
  exact nodup.getElem_inj_iff.mp (first.trans (same.trans second.symm))

/-- Two registers agree in their low bits. -/
def Agree (bits : Nat) (left right : UInt32) : Prop :=
  ∀ i < bits, left.toBitVec.getLsbD i = right.toBitVec.getLsbD i

variable {table : Nat → UInt32}

/-- A register agrees with itself. -/
theorem Agree.rfl {bits : Nat} {crc : UInt32} : Agree bits crc crc := fun _ _ => Eq.refl _

/-- Registers that agree in all bits are equal. -/
theorem eq_of_agree {left right : UInt32} (agree : Agree 32 left right) : left = right := by
  apply UInt32.toBitVec_inj.mp
  apply BitVec.eq_of_getLsbD_eq
  exact agree

/-- The index a step uses is one of the table's. -/
theorem index_lt (crc : UInt32) (byte : UInt8) :
    ((crc >>> 24) ^^^ byte.toUInt32).toNat < 256 := by
  have high : (crc >>> 24).toNat < 2 ^ 8 := by
    have bound := crc.toNat_lt
    simp only [UInt32.toNat_shiftRight, Nat.shiftRight_eq_div_pow]
    have shift : (24 : UInt32).toNat % 32 = 24 := by decide
    rw [shift]
    omega
  have low : byte.toUInt32.toNat < 2 ^ 8 := by
    have bound := byte.toNat_lt
    simpa using bound
  rw [UInt32.toNat_xor]
  exact Nat.xor_lt_two_pow high low

/-- Words that agree in their low octet have one remainder. -/
theorem mod_eq_of_agree {left right : UInt32} (agree : Agree 8 left right) :
    left.toNat % 256 = right.toNat % 256 := by
  apply Nat.eq_of_testBit_eq
  intro i
  rw [show (256 : Nat) = 2 ^ 8 by rfl, Nat.testBit_mod_two_pow, Nat.testBit_mod_two_pow]
  by_cases low : i < 8
  · have same := agree i low
    simp only [BitVec.getLsbD, UInt32.toNat_toBitVec] at same
    simp [low, same]
  · simp [low]

/-- Below the octet that moved up, a step is the table's word. -/
theorem getLsbD_step_low (crc : UInt32) (byte : UInt8) {i : Nat} (low : i < 8) :
    (step table crc byte).toBitVec.getLsbD i =
      (table ((crc >>> 24) ^^^ byte.toUInt32).toNat).toBitVec.getLsbD i := by
  simp [step, low]

/-- Above it, a step is the register combined with the table's word. -/
theorem getLsbD_step_high (crc : UInt32) (byte : UInt8) {i : Nat} (inside : i + 8 < 32) :
    (step table crc byte).toBitVec.getLsbD (i + 8) =
      (crc.toBitVec.getLsbD i ^^
        (table ((crc >>> 24) ^^^ byte.toUInt32).toNat).toBitVec.getLsbD (i + 8)) := by
  have above : ¬ i + 8 < 8 := by omega
  have within : i < 32 := by omega
  simp [step, inside, above, BitVec.getLsbD_eq_getElem within]

/-- Two steps that agree in the low octet and some bits above it used one index, from registers that
agree in so many bits. -/
theorem undo_step (separates : Separates table) {bits : Nat} (most : bits ≤ 24)
    {left right : UInt32} {first second : UInt8}
    (agree : Agree (bits + 8) (step table left first) (step table right second)) :
    (left >>> 24) ^^^ first.toUInt32 = (right >>> 24) ^^^ second.toUInt32 ∧
      Agree bits left right := by
  have octet : Agree 8 (table ((left >>> 24) ^^^ first.toUInt32).toNat)
      (table ((right >>> 24) ^^^ second.toUInt32).toNat) := by
    intro i low
    rw [← getLsbD_step_low left first low, ← getLsbD_step_low right second low]
    exact agree i (by omega)
  have index : (left >>> 24) ^^^ first.toUInt32 = (right >>> 24) ^^^ second.toUInt32 := by
    apply UInt32.toNat_inj.mp
    exact separates _ (index_lt left first) _ (index_lt right second) (mod_eq_of_agree octet)
  refine ⟨index, fun i low => ?_⟩
  have above := agree (i + 8) (by omega)
  rw [getLsbD_step_high left first (by omega), getLsbD_step_high right second (by omega),
    index] at above
  exact Bool.xor_left_inj.mp above

/-- A byte is known from the index it leads to. -/
theorem byte_eq_of_index {crc : UInt32} {first second : UInt8}
    (same : (crc >>> 24) ^^^ first.toUInt32 = (crc >>> 24) ^^^ second.toUInt32) :
    first = second := by
  have bits := congrArg UInt32.toBitVec same
  simp only [UInt32.toBitVec_xor, BitVec.xor_right_inj] at bits
  have words : first.toUInt32 = second.toUInt32 := UInt32.toBitVec_inj.mp bits
  have numbers := congrArg UInt32.toNat words
  rw [UInt8.toNat_toUInt32, UInt8.toNat_toUInt32] at numbers
  exact UInt8.toNat_inj.mp numbers

/-- A step with one byte loses nothing of the register. -/
theorem step_injective (separates : Separates table) {left right : UInt32} {byte : UInt8}
    (same : step table left byte = step table right byte) : left = right := by
  have agree : Agree (24 + 8) (step table left byte) (step table right byte) := by
    rw [same]
    exact Agree.rfl
  obtain ⟨index, low⟩ := undo_step separates (Nat.le_refl 24) agree
  have bits := congrArg UInt32.toBitVec index
  simp only [UInt32.toBitVec_xor, BitVec.xor_left_inj] at bits
  apply eq_of_agree
  intro i bound
  by_cases inside : i < 24
  · exact low i inside
  · have octet := congrArg (fun word : BitVec 32 => word.getLsbD (i - 24)) bits
    simpa [show 24 + (i - 24) = i by omega] using octet

/-- Steps with the same bytes lose nothing of the register. -/
theorem foldl_injective (separates : Separates table) {left right : UInt32} {bytes : List UInt8}
    (same : bytes.foldl (step table) left = bytes.foldl (step table) right) : left = right := by
  induction bytes generalizing left right with
  | nil => exact same
  | cons byte bytes ih => exact step_injective separates (ih same)

/-- Up to four bytes are known from the register they lead to. -/
theorem burst_injective (separates : Separates table) {crc : UInt32} {first second : List UInt8}
    (many : first.length = second.length) (few : first.length ≤ 4)
    (agree : Agree (8 * first.length) (first.foldl (step table) crc)
      (second.foldl (step table) crc)) : first = second := by
  induction first using List.reverseRecOn generalizing second with
  | nil => exact (List.length_eq_zero_iff.mp many.symm).symm
  | append_singleton first byte ih =>
    rcases List.eq_nil_or_concat' second with rfl | ⟨second, other, rfl⟩
    · simp at many
    · simp only [List.length_append, List.length_singleton, Nat.add_right_cancel_iff] at many few
      rw [List.length_append, List.length_singleton, List.foldl_append, List.foldl_append,
        List.foldl_cons, List.foldl_nil, List.foldl_cons, List.foldl_nil, Nat.mul_add] at agree
      -- The last step gives its index and, eight bits lower, the registers before it.
      obtain ⟨index, before⟩ := undo_step separates (by omega) agree
      have early := ih many (by omega) before
      subst early
      rw [byte_eq_of_index index]

end TableCrc
