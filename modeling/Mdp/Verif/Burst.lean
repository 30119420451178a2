import Mdp.Library.TableCrc
import Mdp.Outcome

/-!
# Short edits change the checksum

The checksum is taken of the bytes a load sees, buffer by buffer, and of their number. Two contents
of one length that differ only within four adjacent bytes give different checksums: up to the first
of these bytes the registers are equal, four bytes are known from the register they lead to, and
neither the bytes after them nor the length loses anything of it.
-/

namespace Mdp.Burst

open Interaction CStrings

/-- The table as a function. -/
def word (i : Nat) : UInt32 := crc32tab.getD i 0

/-- The update of `crc.c` is the table-driven step. -/
theorem cksumByte_eq : cksumByte = TableCrc.step word := rfl

/-- The low octets of `crc32tab` are distinct. -/
theorem word_separates : TableCrc.Separates word := by
  have distinct : TableCrc.distinctFrom 0 (crc32tab.toList.map fun entry => entry.toNat % 256) =
      true := by decide +kernel
  have many : crc32tab.toList.length = 256 := by decide +kernel
  have separates := TableCrc.separates_of_distinctFrom many distinct
  have same : (fun i => crc32tab.toList.getD i 0) = word := by
    funext i
    simp [word, Array.getD_eq_getD_getElem?]
  rwa [same] at separates

/-- The loop of `CKSUM_Final` loses nothing of the register. -/
theorem cksumLength_injective {left : Nat} {crc other : UInt32} {len : Nat}
    (same : cksumLength left crc len = cksumLength left other len) : crc = other := by
  induction left generalizing crc other len with
  | zero => exact same
  | succ left ih =>
    simp only [cksumLength] at same
    split at same
    · exact same
    · have stepped := ih same
      rw [cksumByte_eq] at stepped
      exact TableCrc.step_injective word_separates stepped

/-- `CKSUM_Final` loses nothing of the register. -/
theorem cksumFinal_injective {crc other : UInt32} (len : Nat)
    (same : cksumFinal ⟨crc, len⟩ = cksumFinal ⟨other, len⟩) : crc = other := by
  have words := congrArg (fun crc : UInt32 => ~~~crc) same
  simp only [cksumFinal, UInt32.not_not] at words
  exact cksumLength_injective words

/-- Two contents differ at most at four adjacent positions. -/
def Near (content other : Bytes) : Prop :=
  ∃ start, ∀ i, content[i]? ≠ other[i]? → start ≤ i ∧ i < start + 4

/-- Such contents are the same bytes, at most four bytes each, and the same bytes. -/
theorem Near.split {content other : Bytes} (near : Near content other)
    (same : content.length = other.length) :
    ∃ before first second after, content = before ++ first ++ after ∧
      other = before ++ second ++ after ∧ first.length = second.length ∧ first.length ≤ 4 := by
  obtain ⟨start, near⟩ := near
  have agree : ∀ i, (i < start ∨ start + 4 ≤ i) → content[i]? = other[i]? := by
    intro i outside
    by_contra differ
    have inside := near i differ
    omega
  have before : content.take start = other.take start := by
    apply List.ext_getElem?
    intro i
    by_cases inside : i < start
    · rw [List.getElem?_take_of_lt inside, List.getElem?_take_of_lt inside]
      exact agree i (.inl inside)
    · rw [List.getElem?_take_eq_none (by omega), List.getElem?_take_eq_none (by omega)]
  have after : content.drop (start + 4) = other.drop (start + 4) := by
    apply List.ext_getElem?
    intro i
    rw [List.getElem?_drop, List.getElem?_drop]
    exact agree _ (.inr (by omega))
  have cut : ∀ bytes : Bytes, bytes =
      bytes.take start ++ (bytes.drop start).take 4 ++ bytes.drop (start + 4) := by
    intro bytes
    rw [List.append_assoc, ← List.drop_drop, List.take_append_drop, List.take_append_drop]
  refine ⟨content.take start, (content.drop start).take 4, (other.drop start).take 4,
    content.drop (start + 4), cut content, ?_, ?_, ?_⟩
  · rw [before, after]
    exact cut other
  · simp only [List.length_take, List.length_drop, same]
  · simp only [List.length_take]
    omega

/-- The checksums of such contents agree only if they are equal. -/
theorem eq_of_cksum_eq {content other : Bytes} (near : Near content other)
    (length : content.length = other.length) (same : cksum content = cksum other) :
    content = other := by
  obtain ⟨before, first, second, after, rfl, rfl, many, few⟩ := near.split length
  have registers : (before ++ first ++ after).foldl (TableCrc.step word) 0 =
      (before ++ second ++ after).foldl (TableCrc.step word) 0 := by
    apply cksumFinal_injective (before ++ first ++ after).length
    simpa only [cksum, cksumUpdate, cksumInit, cksumByte_eq, Nat.zero_add, ← length] using same
  simp only [List.foldl_append] at registers
  have burst := TableCrc.foldl_injective word_separates registers
  have equal : first = second := by
    apply TableCrc.burst_injective word_separates many few
    rw [burst]
    exact TableCrc.Agree.rfl
  rw [equal]

/-- The checksums of what is loaded differ. -/
theorem checksum_ne {content left : Bytes} (contentNonNull : ∀ byte ∈ content, byte ≠ 0)
    (leftNonNull : ∀ byte ∈ left, byte ≠ 0) (length : content.length = left.length)
    (differ : content ≠ left) (near : Near content left) : checksum content ≠ checksum left := by
  rw [checksum, checksum, seen_eq_self contentNonNull, seen_eq_self leftNonNull]
  exact fun same => differ (eq_of_cksum_eq near length same)

/-- Two NUL-free contents of one length that differ, but only within four adjacent bytes, leave
different values in `result_crc32`, whatever the memories they are loaded into, so that
`has_changed` is true. In no run in which gpg prints the one and the editor leaves the other is "No
changes" reported. -/
theorem change_is_noticed (L : CLocale) (content left : Bytes)
    (contentNonNull : ∀ byte ∈ content, byte ≠ 0) (leftNonNull : ∀ byte ∈ left, byte ≠ 0)
    (length : content.length = left.length) (differ : content ≠ left) (near : Near content left) :
    (∀ memory memory' loaded reloaded, loadContent L memory content = .ok loaded →
      loadContent L memory' left = .ok reloaded →
      (loaded.resultCrc32 != reloaded.resultCrc32) = true) ∧
    ∀ (cfg : Config) (command : Command.Edits) (s t : State) (q : Prog Unit) (outcome : Outcome),
      s.globals = .initial →
      Reaches observed (process cfg L command) (.initial, s) q (outcome, t) →
      outcome.printed = some content → outcome.left = some left → outcome.reported = false := by
  have checksums := checksum_ne contentNonNull leftNonNull length differ near
  constructor
  · intro memory memory' loaded reloaded first second
    rw [loadContent_resultCrc32 first, loadContent_resultCrc32 second]
    exact bne_iff_ne.mpr checksums
  · intro cfg command s t q outcome start run printed edited
    obtain ⟨stage, _, holds⟩ := observed_run (process_follows cfg L command) start run
    by_contra reported
    obtain ⟨_, source, found, compared, same⟩ :=
      holds.decided.reported (Bool.not_eq_false _ ▸ reported)
    have source_eq : source = some content := compared.printed.symm.trans printed
    have found_eq : found = left := Option.some.inj (compared.left.symm.trans edited)
    rw [source_eq, found_eq] at same
    exact checksums same.symm

/-- One letter of a line is changed. -/
theorem change_is_noticed_letter : ∃ loaded reloaded,
    loadContent .ascii .initial [0x61, newline] = .ok loaded ∧
      loadContent .ascii .initial [0x62, newline] = .ok reloaded ∧
      (loaded.resultCrc32 != reloaded.resultCrc32) = true := by
  have near : Near [0x61, newline] [0x62, newline] := by
    refine ⟨0, fun i differ => ⟨Nat.zero_le i, ?_⟩⟩
    by_contra far
    rw [List.getElem?_eq_none (by simp; omega), List.getElem?_eq_none (by simp; omega)] at differ
    exact differ rfl
  have loads : ∀ content : Bytes, (loadContent .ascii .initial content).toOption.isSome = true →
      ∃ loaded, loadContent .ascii .initial content = .ok loaded := by
    intro content accepted
    cases read : loadContent .ascii .initial content with
    | ok loaded => exact ⟨loaded, rfl⟩
    | error ending =>
      rw [read] at accepted
      cases accepted
  obtain ⟨loaded, first⟩ := loads [0x61, newline] (by decide +kernel)
  obtain ⟨reloaded, second⟩ := loads [0x62, newline] (by decide +kernel)
  exact ⟨loaded, reloaded, first, second,
    (change_is_noticed .ascii [0x61, newline] [0x62, newline] (by simp [newline])
      (by simp [newline]) rfl (by decide) near).1 _ _ loaded reloaded first second⟩

end Mdp.Burst
