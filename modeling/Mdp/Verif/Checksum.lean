import Mathlib.Tactic.NormNum.Prime
import Mdp.Library.CrcPolynomial
import Mdp.Verif.Burst

/-!
# What the checksum is

The register of `crc.c` is a remainder by the polynomial that the comment over its table gives. So
an edit that keeps the length of the file is missed exactly if the polynomial divides the sum of the
two contents: never if the bits it changes lie close together, and never if they are two.
-/

namespace Mdp.Checksum

open Polynomial BinaryPolynomial CrcPolynomial Interaction CStrings Burst

/-- `G(x)` without its leading term, a bit for each of the others. -/
def tail : Nat := 0x04c11db7

/-- The other terms have a degree below 32. -/
theorem tail_lt : tail < 2 ^ 32 := by decide

/-- One of them is the constant term. -/
theorem tail_odd : tail % 2 = 1 := by decide

/-- `crc32tab` has for each octet what it leaves. -/
theorem crc32tab_tabulates : Tabulates word tail := by
  have checked : (List.range 256).all (fun i =>
      (word i).toNat == (shift 32 tail)^[8] (2 ^ 24 * i)) = true := by decide +kernel
  intro i inside
  have entry := List.all_eq_true.mp checked i (List.mem_range.mpr inside)
  exact eq_of_beq entry

/-- The polynomial of the comment. -/
noncomputable def posix : (ZMod 2)[X] :=
  X ^ 32 + X ^ 26 + X ^ 23 + X ^ 22 + X ^ 16 + X ^ 12 + X ^ 11 + X ^ 10 + X ^ 8 + X ^ 7 + X ^ 5 +
    X ^ 4 + X ^ 2 + X + 1

/-- The generator of these terms is the polynomial of the comment. -/
theorem generator_eq_posix : generator 32 tail = posix := by
  have terms : tail = 2 ^ 26 ^^^ 2 ^ 23 ^^^ 2 ^ 22 ^^^ 2 ^ 16 ^^^ 2 ^ 12 ^^^ 2 ^ 11 ^^^ 2 ^ 10 ^^^
      2 ^ 8 ^^^ 2 ^ 7 ^^^ 2 ^ 5 ^^^ 2 ^ 4 ^^^ 2 ^ 2 ^^^ 2 ^ 1 ^^^ 2 ^ 0 := by decide
  have first : poly (2 ^ 0) = 1 := by rw [poly_two_pow, pow_zero]
  have second : poly (2 ^ 1) = X := by rw [poly_two_pow, pow_one]
  unfold generator posix
  rw [terms]
  repeat rw [poly_xor]
  rw [first, second]
  repeat rw [poly_two_pow]
  ring

/-- The bytes of the length that `CKSUM_Final` reads, the lowest first. -/
def lengthOctets : Nat → Nat → Bytes
  | 0, _ => []
  | left + 1, len => if len = 0 then [] else UInt8.ofNat len :: lengthOctets left (len >>> 8)

/-- The loop over the length feeds its octets to the register. -/
theorem cksumLength_eq (left : Nat) (crc : UInt32) (len : Nat) :
    cksumLength left crc len = (lengthOctets left len).foldl (TableCrc.step word) crc := by
  induction left generalizing crc len with
  | zero => rfl
  | succ left ih =>
    unfold cksumLength lengthOctets
    split_ifs with done
    · rfl
    · rw [ih, List.foldl_cons, cksumByte_eq]

/-- They are all the digits of the length, which an `off_t` holds. -/
theorem lengthOctets_eq_digits {left len : Nat} (fits : len < 256 ^ left) :
    lengthOctets left len = (Nat.digits 256 len).map UInt8.ofNat := by
  induction left generalizing len with
  | zero =>
    have zero : len = 0 := by simpa using fits
    simp [lengthOctets, zero]
  | succ left ih =>
    unfold lengthOctets
    split_ifs with done
    · simp [done]
    · have rest : len >>> 8 = len / 256 := Nat.shiftRight_eq_div_pow len 8
      have fewer : len / 256 < 256 ^ left := by
        rw [Nat.pow_succ] at fits
        omega
      have octet : UInt8.ofNat len = UInt8.ofNat (len % 256) := by
        apply UInt8.toNat_inj.mp
        simp
      rw [Nat.digits_def' (by omega) (by omega), List.map_cons, ← octet, rest, ih fewer]

/-- The bytes that go into the checksum of a byte string. -/
def stream (bytes : Bytes) : Bytes := bytes ++ lengthOctets 8 bytes.length

/-- The checksum is the complement of the register after the stream. -/
theorem cksum_eq (bytes : Bytes) :
    cksum bytes = ~~~ (stream bytes).foldl (TableCrc.step word) 0 := by
  unfold cksum cksumFinal cksumUpdate cksumInit stream
  simp only [Nat.zero_add]
  rw [cksumLength_eq, List.foldl_append, cksumByte_eq]

/-- The checksum of a file is the complement of the remainder, by the polynomial of the comment, of
the file followed by the digits of its length, moved up by the width of the register. -/
theorem cksum_is_remainder (bytes : Bytes) (fits : bytes.length < 2 ^ 63) (crc : UInt32) :
    cksum bytes = crc ↔
      poly (~~~crc).toNat = (X ^ 32 * poly (number (bytes ++
        (Nat.digits 256 bytes.length).map UInt8.ofNat))) %ₘ posix := by
  have octets : lengthOctets 8 bytes.length = (Nat.digits 256 bytes.length).map UInt8.ofNat :=
    lengthOctets_eq_digits (by omega)
  have remainder := poly_foldl crc32tab_tabulates tail_lt (stream bytes)
  rw [generator_eq_posix, stream, octets, ← octets, ← stream] at remainder
  rw [← octets, ← stream, ← remainder, cksum_eq]
  constructor
  · intro same
    rw [← same, UInt32.not_not]
  · intro same
    have words := UInt32.toNat_inj.mp (poly_injective same)
    rw [← words, UInt32.not_not]

/-- `123456789`, without a newline. -/
def digits : Bytes := [0x31, 0x32, 0x33, 0x34, 0x35, 0x36, 0x37, 0x38, 0x39]

/-- The nine digits have the checksum that POSIX gives for them. -/
theorem cksum_is_remainder_digits :
    poly (~~~(930766865 : UInt32)).toNat =
      (X ^ 32 * poly (number (digits ++
        (Nat.digits 256 digits.length).map UInt8.ofNat))) %ₘ posix :=
  (cksum_is_remainder digits (by decide) 930766865).mp (by decide +kernel)

/-- Byte strings of one length have one checksum exactly if the polynomial divides their sum. -/
theorem cksum_eq_iff {content other : Bytes} (length : content.length = other.length) :
    cksum content = cksum other ↔ posix ∣ poly (number content) + poly (number other) := by
  have registers : cksum content = cksum other ↔
      content.foldl (TableCrc.step word) 0 = other.foldl (TableCrc.step word) 0 := by
    rw [cksum_eq, cksum_eq, stream, stream, List.foldl_append, List.foldl_append, length]
    constructor
    · intro same
      exact TableCrc.foldl_injective word_separates (UInt32.not_inj.mp same)
    · intro same
      rw [same]
  rw [registers, foldl_eq_iff crc32tab_tabulates tail_lt tail_odd, generator_eq_posix]

/-- The bits in which two contents differ. -/
def Differ (content other : Bytes) (position : Nat) : Prop :=
  bitAt content position ≠ bitAt other position

/-- The digits of the sum of two contents are the places where they differ. -/
theorem testBit_difference {content other : Bytes} (length : content.length = other.length)
    (i : Nat) :
    (number content ^^^ number other).testBit i = true ↔
      i < 8 * content.length ∧ Differ content other (8 * content.length - 1 - i) := by
  unfold Differ
  rw [Nat.testBit_xor, testBit_number, testBit_number, ← length]
  by_cases inside : i < 8 * content.length
  · rw [if_pos inside, if_pos inside, bne_iff_ne]
    simp [inside]
  · rw [if_neg inside, if_neg inside]
    simp [inside]

/-- Behind the last byte there is nothing to differ. -/
theorem Differ.lt {content other : Bytes} {position : Nat} (differ : Differ content other position)
    (length : content.length = other.length) : position < 8 * content.length := by
  by_contra outside
  have behind : content.length ≤ position / 8 := by omega
  apply differ
  rw [bitAt, bitAt, List.getD_eq_getElem?_getD, List.getD_eq_getElem?_getD,
    List.getElem?_eq_none behind, List.getElem?_eq_none (by omega)]

/-- Byte strings are known from their length and their number. -/
theorem eq_of_number_eq {content other : Bytes} (length : content.length = other.length)
    (same : number content = number other) : content = other := by
  induction content using List.reverseRecOn generalizing other with
  | nil => exact (List.length_eq_zero_iff.mp length.symm).symm
  | append_singleton content byte ih =>
    cases List.eq_nil_or_concat' other with
    | inl empty =>
      rw [empty] at length
      simp at length
    | inr split =>
      obtain ⟨before, last, rfl⟩ := split
      rw [number_concat, number_concat] at same
      have bound := byte.toNat_lt
      have bound' := last.toNat_lt
      have bytes : byte = last := UInt8.toNat_inj.mp (by omega)
      have numbers : number content = number before := by omega
      have lengths : content.length = before.length := by simpa using length
      rw [ih lengths numbers, bytes]

/-- Bits that are changed within four bytes, wherever these begin, are noticed. -/
theorem cksum_ne_of_window {content other : Bytes} (length : content.length = other.length)
    (differ : content ≠ other) {start : Nat}
    (window : ∀ position, Differ content other position → start ≤ position ∧
      position < start + 32) :
    cksum content ≠ cksum other := by
  intro same
  have divides := (cksum_eq_iff length).mp same
  rw [← poly_xor, ← generator_eq_posix] at divides
  have nonzero : number content ^^^ number other ≠ 0 := fun zero =>
    differ (eq_of_number_eq length (eq_of_xor_eq_zero zero))
  -- Counted from the end the window is as wide, unless it reaches over the first bit.
  apply @not_dvd_of_window 32 tail tail_lt (by omega) tail_odd _
    (8 * content.length - (start + 32)) nonzero _ divides
  intro i bit
  obtain ⟨inside, place⟩ := (testBit_difference length i).mp bit
  have placed := window _ place
  omega

/-- The prime divisors of the number of registers other than zero. -/
theorem prime_divisors {p : Nat} (prime : p.Prime) (divides : p ∣ 3 * 5 * 17 * 257 * 65537) :
    p = 3 ∨ p = 5 ∨ p = 17 ∨ p = 257 ∨ p = 65537 := by
  have three : Nat.Prime 3 := by norm_num
  have five : Nat.Prime 5 := by norm_num
  have seventeen : Nat.Prime 17 := by norm_num
  have large : Nat.Prime 257 := by norm_num
  have larger : Nat.Prime 65537 := by norm_num
  rw [prime.dvd_mul, prime.dvd_mul, prime.dvd_mul, prime.dvd_mul,
    Nat.prime_dvd_prime_iff_eq prime three, Nat.prime_dvd_prime_iff_eq prime five,
    Nat.prime_dvd_prime_iff_eq prime seventeen, Nat.prime_dvd_prime_iff_eq prime large,
    Nat.prime_dvd_prime_iff_eq prime larger] at divides
  simpa only [or_assoc] using divides

/-- The order of `X`: its powers are all registers other than zero. -/
theorem order_X : orderOf (residue 32 tail X) = 3 * 5 * 17 * 257 * 65537 := by
  apply @orderOf_eq 32 tail tail_lt (by omega) 32 _ (by omega) (by omega)
  · decide +kernel
  · intro p prime divides
    rcases prime_divisors prime divides with rfl | rfl | rfl | rfl | rfl <;> decide +kernel

/-- Two bits that differ, in a file of less than 512 MiB, are noticed. -/
theorem cksum_ne_of_two {content other : Bytes} (length : content.length = other.length)
    (small : content.length < 2 ^ 29) {first second : Nat} (before : first < second)
    (firstDiffers : Differ content other first) (secondDiffers : Differ content other second)
    (only : ∀ position, Differ content other position → position = first ∨ position = second) :
    cksum content ≠ cksum other := by
  intro same
  have divides := (cksum_eq_iff length).mp same
  have firstInside := firstDiffers.lt length
  have secondInside := secondDiffers.lt length
  have digits : number content ^^^ number other =
      2 ^ (8 * content.length - 1 - second) ^^^ 2 ^ (8 * content.length - 1 - first) := by
    apply Nat.eq_of_testBit_eq
    intro i
    rw [Bool.eq_iff_iff, testBit_difference length, Nat.testBit_xor, Nat.testBit_two_pow,
      Nat.testBit_two_pow]
    constructor
    · intro ⟨inside, place⟩
      cases only _ place with
      | inl one =>
        have here : 8 * content.length - 1 - first = i := by omega
        have there : ¬ 8 * content.length - 1 - second = i := by omega
        simp [here, there]
      | inr two =>
        have here : 8 * content.length - 1 - second = i := by omega
        have there : ¬ 8 * content.length - 1 - first = i := by omega
        simp [here, there]
    · intro either
      by_cases two : 8 * content.length - 1 - second = i
      · have back : 8 * content.length - 1 - i = second := by omega
        rw [back]
        exact ⟨by omega, secondDiffers⟩
      · have one : 8 * content.length - 1 - first = i := by simpa [two] using either
        have back : 8 * content.length - 1 - i = first := by omega
        rw [back]
        exact ⟨by omega, firstDiffers⟩
  rw [← poly_xor, digits, poly_xor, poly_two_pow, poly_two_pow, ← generator_eq_posix] at divides
  apply @not_dvd_of_pair 32 tail tail_lt (by omega) tail_odd _ _ _ _ divides
  · omega
  · rw [order_X]
    omega

/-- At most two bits that differ. -/
theorem cksum_ne_of_pair {content other : Bytes} (length : content.length = other.length)
    (differ : content ≠ other) (small : content.length < 2 ^ 29) {first second : Nat}
    (only : ∀ position, Differ content other position → position = first ∨ position = second) :
    cksum content ≠ cksum other := by
  by_cases both : Differ content other first ∧ Differ content other second
  · rcases Nat.lt_trichotomy first second with before | same | after
    · exact cksum_ne_of_two length small before both.1 both.2 only
    · apply @cksum_ne_of_window content other length differ first
      intro position differs
      have placed := only position differs
      omega
    · exact cksum_ne_of_two length small after both.2 both.1 fun position differs =>
        (only position differs).symm
  · -- Only one of them differs, and one bit lies in any window that begins with it.
    by_cases one : Differ content other first
    · apply @cksum_ne_of_window content other length differ first
      intro position differs
      cases only position differs with
      | inl same => omega
      | inr same => exact absurd ⟨one, same ▸ differs⟩ both
    · apply @cksum_ne_of_window content other length differ second
      intro position differs
      cases only position differs with
      | inl same => exact absurd (same ▸ differs) one
      | inr same => omega

/-- Without a NUL the checksum of a load is that of the content. -/
theorem checksum_eq_cksum {content : Bytes} (nonNull : ∀ byte ∈ content, byte ≠ 0) :
    checksum content = cksum content := by
  rw [checksum, seen_eq_self nonNull]

/-- Loads of two contents of one length, without NUL, leave one value in `result_crc32` exactly if
the polynomial divides the sum of the contents. -/
theorem missed_iff (L : CLocale) {content left : Bytes} {memory memory' loaded reloaded : Memory}
    (contentNonNull : ∀ byte ∈ content, byte ≠ 0)
    (leftNonNull : ∀ byte ∈ left, byte ≠ 0) (length : content.length = left.length)
    (load : loadContent L memory content = .ok loaded)
    (reload : loadContent L memory' left = .ok reloaded) :
    (loaded.resultCrc32 != reloaded.resultCrc32) = false ↔
      posix ∣ poly (number content) + poly (number left) := by
  rw [loadContent_resultCrc32 load, loadContent_resultCrc32 reload,
    checksum_eq_cksum contentNonNull, checksum_eq_cksum leftNonNull, ← cksum_eq_iff length]
  exact bne_eq_false_iff_eq

/-- A letter and another one, in a line of their own. -/
theorem loads_letter (letter : UInt8) (which : letter = 0x61 ∨ letter = 0x62) :
    ∃ loaded, loadContent .ascii .initial [letter, newline] = .ok loaded := by
  have accepted : (loadContent .ascii .initial [letter, newline]).toOption.isSome = true := by
    rcases which with rfl | rfl <;> decide +kernel
  cases read : loadContent .ascii .initial [letter, newline] with
  | ok loaded => exact ⟨loaded, rfl⟩
  | error ending =>
    rw [read] at accepted
    cases accepted

/-- Two files of one letter each. -/
theorem missed_iff_letters : ∃ loaded reloaded,
    loadContent .ascii .initial [0x61, newline] = .ok loaded ∧
      loadContent .ascii .initial [0x62, newline] = .ok reloaded ∧
      ((loaded.resultCrc32 != reloaded.resultCrc32) = false ↔
        posix ∣ poly (number [0x61, newline]) + poly (number [0x62, newline])) := by
  obtain ⟨loaded, first⟩ := loads_letter 0x61 (.inl rfl)
  obtain ⟨reloaded, second⟩ := loads_letter 0x62 (.inr rfl)
  exact ⟨loaded, reloaded, first, second,
    missed_iff .ascii (by simp [newline]) (by simp [newline]) rfl first second⟩

/-- In no run whose two contents have different checksums is "No changes" reported. -/
theorem unreported_of_checksum_ne (L : CLocale) {content left : Bytes}
    (checksums : checksum content ≠ checksum left) {cfg : Config} {command : Command.Edits}
    {s t : State}
    {q : Prog Unit} {outcome : Outcome} (start : s.globals = .initial)
    (run : Reaches observed (process cfg L command) (.initial, s) q (outcome, t))
    (printed : outcome.printed = some content) (edited : outcome.left = some left) :
    outcome.reported = false := by
  obtain ⟨stage, _, holds⟩ := observed_run (process_follows cfg L command) start run
  by_contra reported
  obtain ⟨_, source, found, compared, same⟩ :=
    holds.decided.reported (Bool.not_eq_false _ ▸ reported)
  have source_eq : source = some content := compared.printed.symm.trans printed
  have found_eq : found = left := Option.some.inj (compared.left.symm.trans edited)
  rw [source_eq, found_eq] at same
  exact checksums same.symm

/-- Contents that differ in few bits: all of them within 32 bits, or no more than two in a file of
less than 512 MiB. -/
def FewBits (content other : Bytes) : Prop :=
  (∃ start, ∀ position, Differ content other position → start ≤ position ∧ position < start + 32) ∨
    (content.length < 2 ^ 29 ∧
      ∃ first second, ∀ position, Differ content other position →
        position = first ∨ position = second)

/-- Two NUL-free contents of one length that differ in few bits leave different values in
`result_crc32`, and in no run in which gpg prints the one and the editor leaves the other is
"No changes" reported. -/
theorem few_bits_are_noticed (L : CLocale) (content left : Bytes)
    (contentNonNull : ∀ byte ∈ content, byte ≠ 0) (leftNonNull : ∀ byte ∈ left, byte ≠ 0)
    (length : content.length = left.length) (differ : content ≠ left) (few : FewBits content left) :
    (∀ memory memory' loaded reloaded, loadContent L memory content = .ok loaded →
      loadContent L memory' left = .ok reloaded →
      (loaded.resultCrc32 != reloaded.resultCrc32) = true) ∧
    ∀ (cfg : Config) (command : Command.Edits) (s t : State) (q : Prog Unit) (outcome : Outcome),
      s.globals = .initial →
      Reaches observed (process cfg L command) (.initial, s) q (outcome, t) →
      outcome.printed = some content → outcome.left = some left → outcome.reported = false := by
  have sums : cksum content ≠ cksum left := by
    cases few with
    | inl close =>
      obtain ⟨start, window⟩ := close
      exact cksum_ne_of_window length differ window
    | inr two =>
      obtain ⟨small, first, second, only⟩ := two
      exact cksum_ne_of_pair length differ small only
  have checksums : checksum content ≠ checksum left := by
    rwa [checksum_eq_cksum contentNonNull, checksum_eq_cksum leftNonNull]
  constructor
  · intro memory memory' loaded reloaded first second
    rw [loadContent_resultCrc32 first, loadContent_resultCrc32 second]
    exact bne_iff_ne.mpr checksums
  · intro cfg command s t q outcome start run printed edited
    exact unreported_of_checksum_ne L checksums start run printed edited

/-- The letters `a` and `b` differ in two bits next to each other. -/
theorem few_bits_are_noticed_letter : ∃ loaded reloaded,
    loadContent .ascii .initial [0x61, newline] = .ok loaded ∧
      loadContent .ascii .initial [0x62, newline] = .ok reloaded ∧
      (loaded.resultCrc32 != reloaded.resultCrc32) = true := by
  have few : FewBits [0x61, newline] [0x62, newline] := by
    refine .inl ⟨0, fun position differs => ?_⟩
    have inside := differs.lt rfl
    simp only [List.length_cons, List.length_nil] at inside
    omega
  obtain ⟨loaded, first⟩ := loads_letter 0x61 (.inl rfl)
  obtain ⟨reloaded, second⟩ := loads_letter 0x62 (.inr rfl)
  exact ⟨loaded, reloaded, first, second,
    (few_bits_are_noticed .ascii [0x61, newline] [0x62, newline] (by simp [newline])
      (by simp [newline]) rfl (by decide) few).1 _ _ loaded reloaded first second⟩

end Mdp.Checksum
