import Mdp.Library.Stacking
import Mdp.Screen
import Mdp.Verif.Loading

/-!
# The listing

The results that are drawn are stacked: each one covers the rows that it wraps onto, and the next
one begins below them. One character takes one column.
-/

namespace Mdp.Layout

open Mdp CStrings Stacking Loading

/-- The visible results. -/
def visibleResults (results : List Result) : List Result := results.filter Result.visible

/-- The rows that a result needs in a window of some width. -/
def rowsOf (width : Nat) (result : Result) : Nat := (result.wcsLen - 1) / width + 1

/-- The rows that `refresh_listing` leaves to it. -/
def advanceOf (width : Nat) (result : Result) : Nat :=
  if width < result.wcsLen then result.wcsLen / width + 1 else 1

/-- The rows that a result is on: the one it starts on, and those that its characters wrap onto. -/
def Occupies (width : Nat) (placed : Placed) (row : Int) : Prop :=
  row = placed.topOffset ∨
    ∃ k : Nat, k < placed.result.wcsLen ∧
      row = placed.topOffset + (placed.leftOffset + k) / (width : Int)

/-- `refresh_listing` leaves enough of them. -/
theorem rowsOf_le {width : Nat} (positive : 0 < width) (result : Result) :
    rowsOf width result ≤ advanceOf width result := by
  unfold rowsOf advanceOf
  split
  · have quotients : (result.wcsLen - 1) / width ≤ result.wcsLen / width :=
      Nat.div_le_div_right (Nat.sub_le ..)
    omega
  · have one : (result.wcsLen - 1) / width = 0 := Nat.div_eq_of_lt (by omega)
    omega

/-- A result takes a row for each of its characters at most, and one more. -/
theorem advanceOf_le (width : Nat) (result : Result) :
    advanceOf width result ≤ result.wcsLen + 1 := by
  unfold advanceOf
  split
  · have quotient := Nat.div_le_self result.wcsLen width
    omega
  · omega

/-- No character is further down than the last row that the result needs. -/
theorem quotient_le {width left length k : Nat}
    (whole : left + length ≤ width ∨ left = 0) (inside : k < length) :
    (left + k) / width ≤ (length - 1) / width := by
  rcases whole with short | first
  · rw [Nat.div_eq_of_lt (by omega : left + k < width)]
    exact Nat.zero_le _
  · rw [first, Nat.zero_add]
    exact Nat.div_le_div_right (by omega)

/-- A result that begins in the first column, or ends in the row it begins in, is on the rows it
needs. -/
theorem occupies_iff {width left top : Nat} {result : Result} (positive : 0 < width)
    (whole : left + result.wcsLen ≤ width ∨ left = 0) (row : Int) :
    Occupies width ⟨top, left, result⟩ row ↔ (top : Int) ≤ row ∧
        row < (top + rowsOf width result : Nat) := by
  have quotient : ∀ k : Nat, ((left : Int) + k) / (width : Int) = ((left + k) / width : Nat) := by
    intro k
    push_cast
    rfl
  show (row = top ∨ ∃ k : Nat, k < result.wcsLen ∧ row = top + ((left : Int) + k) / (width : Int)) ↔
    _
  unfold rowsOf
  constructor
  · rintro (first | ⟨k, inside, later⟩)
    · rw [first]
      generalize (result.wcsLen - 1) / width = rows
      omega
    · have below := quotient_le whole inside
      rw [quotient k] at later
      generalize (left + k) / width = down at later below
      generalize (result.wcsLen - 1) / width = rows at below
      omega
  · rintro ⟨low, high⟩
    obtain ⟨d, same⟩ := Int.eq_ofNat_of_zero_le (by omega : 0 ≤ row - top)
    have bound : d ≤ (result.wcsLen - 1) / width := by
      generalize (result.wcsLen - 1) / width = rows at high
      omega
    by_cases first : d = 0
    · left
      omega
    · right
      have zero : left = 0 := by
        rcases whole with short | zero
        · rw [Nat.div_eq_of_lt (by omega)] at bound
          omega
        · exact zero
      have wide : d * width ≤ result.wcsLen - 1 := (Nat.le_div_iff_mul_le positive).mp bound
      have some : 0 < d * width := Nat.mul_pos (by omega) positive
      refine ⟨d * width, by omega, ?_⟩
      rw [quotient, zero, Nat.zero_add, Nat.mul_div_cancel _ positive]
      omega

/-- The loop of `results_visible_length` counts. -/
theorem visibleLengthFrom_toNat {results : List Result} {len : UInt32}
    (room : len.toNat + results.length < 4294967296) :
    (visibleLengthFrom len results).toNat = len.toNat + (visibleResults results).length := by
  induction results generalizing len with
  | nil => rfl
  | cons result results ih =>
    rw [List.length_cons] at room
    unfold visibleLengthFrom visibleResults
    cases seen : result.visible with
    | true =>
      have next : (len + 1).toNat = len.toNat + 1 := by
        rw [UInt32.toNat_add]
        show (len.toNat + 1) % 4294967296 = _
        omega
      rw [if_pos rfl, ih (by omega), List.filter_cons_of_pos seen, next, List.length_cons]
      show len.toNat + 1 + (visibleResults results).length = len.toNat +
        ((visibleResults results).length + 1)
      omega
    | false =>
      rw [if_neg (by decide), ih (by omega), List.filter_cons_of_neg (by simp [seen])]
      rfl

/-- The number of visible results is their number. -/
theorem resultsVisibleLength_toNat {results : List Result} (loadable : Loadable results) :
    (resultsVisibleLength results).toNat = (visibleResults results).length := by
  have count := loadable.count
  have room : (0 : UInt32).toNat + results.length < 4294967296 := by
    show 0 + results.length < 4294967296
    unfold uintMax at count
    omega
  have counted := visibleLengthFrom_toNat room
  rw [resultsVisibleLength, counted]
  exact Nat.zero_add _

/-- The loop of `get_max_length` does not forget a length. -/
theorem le_maxLengthFrom {results : List Result}
    (short : ∀ result ∈ results, result.wcsLen < maxLineSize)
    (maxlen : UInt32) : maxlen.toNat ≤ (maxLengthFrom maxlen results).toNat ∧
      ∀ result ∈ visibleResults results, result.wcsLen ≤ (maxLengthFrom maxlen results).toNat := by
  induction results generalizing maxlen with
  | nil => exact ⟨Nat.le_refl _, by intro result member; cases member⟩
  | cons first rest ih =>
    rw [List.forall_mem_cons] at short
    have fits := short.1
    unfold maxLineSize at fits
    have value : (UInt32.ofNat first.wcsLen).toNat = first.wcsLen := by
      rw [UInt32.toNat_ofNat']
      omega
    unfold maxLengthFrom visibleResults
    by_cases longer : first.visible = true ∧ first.wcsLen > maxlen.toNat
    · have later := ih short.2 (UInt32.ofNat first.wcsLen)
      rw [value] at later
      rw [if_pos longer, List.filter_cons_of_pos longer.1, List.forall_mem_cons]
      exact ⟨by omega, later.1, later.2⟩
    · have later := ih short.2 maxlen
      rw [if_neg longer]
      refine ⟨later.1, ?_⟩
      cases seen : first.visible with
      | true =>
        have below : first.wcsLen ≤ maxlen.toNat := by
          rw [seen] at longer
          simpa using longer
        rw [List.filter_cons_of_pos seen, List.forall_mem_cons]
        exact ⟨by omega, later.2⟩
      | false =>
        rw [List.filter_cons_of_neg (by simp [seen])]
        exact later.2

/-- Sums below 2^31 are themselves. -/
theorem wrapped_of_lt {sum : Nat} (small : sum < 2147483648) : wrapped sum = sum := by
  have rest : ((sum : Int) % 4294967296).toNat = sum := by omega
  have value : (UInt32.ofNat sum).toNat = sum := by
    rw [UInt32.toNat_ofNat']
    omega
  unfold wrapped asInt
  rw [rest, value, if_pos small]

/-- The loop of `refresh_listing` stacks the visible results. -/
theorem placeLines_eq {window : Window} (positive : 0 < window.windowWidth.toNat) (left : Int)
    {results : List Result} (short : ∀ result ∈ results, result.wcsLen < maxLineSize) {top : Nat}
    (room : top + (visibleResults results).length * maxLineSize < 2147483648) :
    placeLines window left top results =
      some ((stacked (advanceOf window.windowWidth.toNat) top (visibleResults results)).map
          fun placed => ⟨placed.1, left, placed.2⟩) := by
  induction results generalizing top with
  | nil => rfl
  | cons result rest ih =>
    rw [List.forall_mem_cons] at short
    have fits := short.1
    unfold placeLines
    cases seen : result.visible with
    | false =>
      have same : visibleResults (result :: rest) = visibleResults rest :=
        List.filter_cons_of_neg (by simp [seen])
      rw [same] at room ⊢
      rw [if_pos rfl]
      exact ih short.2 room
    | true =>
      have cons : visibleResults (result :: rest) = result :: visibleResults rest :=
        List.filter_cons_of_pos seen
      rw [cons, List.length_cons, Nat.add_one_mul] at room
      rw [cons, stacked_cons, List.map_cons, if_neg (by decide)]
      have advance := advanceOf_le window.windowWidth.toNat result
      have below : top + advanceOf window.windowWidth.toNat result +
          (visibleResults rest).length * maxLineSize < 2147483648 := by omega
      have later := ih short.2 below
      unfold advanceOf at later ⊢
      by_cases long : window.windowWidth.toNat < result.wcsLen
      · have quotient := Nat.div_le_self result.wcsLen window.windowWidth.toNat
        have nonzero : window.windowWidth ≠ 0 := by
          intro zero
          rw [zero] at positive
          exact absurd positive (by decide)
        have next : wrapped ((top : Int) + (result.wcsLen / window.windowWidth.toNat : Nat)) + 1 =
            ((top + (result.wcsLen / window.windowWidth.toNat + 1) : Nat) : Int) := by
          rw [← Int.natCast_add, wrapped_of_lt (by omega)]
          omega
        rw [if_pos long] at later
        rw [if_pos long, if_neg nonzero, if_pos long, next, later]
        rfl
      · rw [if_neg long] at later
        rw [if_neg long, if_neg long]
        have next : ((top : Int) + 1) = ((top + 1 : Nat) : Int) := rfl
        rw [next, later]
        rfl

/-- The columns that are left free in front of results that are not too wide. -/
theorem half_of_le {width length : UInt32} (fits : length ≤ width) (small : width.toNat < 65536) :
    asInt ((width - length) / 2) = ((width.toNat - length.toNat) / 2 : Nat) := by
  have half : ((width - length) / 2).toNat = (width.toNat - length.toNat) / 2 := by
    rw [UInt32.toNat_div, UInt32.toNat_sub_of_le _ _ fits]
    rfl
  unfold asInt
  rw [half, if_pos (by omega)]

/-- The column that the results begin in. -/
theorem leftOffset_eq {width : UInt32} {results : List Result}
    (short : ∀ result ∈ results, result.wcsLen < maxLineSize) (small : width.toNat < 65536) :
    ∃ left : Nat, (if width < getMaxLength results then 0
        else asInt ((width - getMaxLength results) / 2)) = (left : Int) ∧
      ∀ result ∈ visibleResults results, left + result.wcsLen ≤ width.toNat ∨ left = 0 := by
  have lengths : ∀ result ∈ visibleResults results, result.wcsLen ≤ (getMaxLength results).toNat :=
    (le_maxLengthFrom short 0).2
  by_cases beyond : width < getMaxLength results
  · exact ⟨0, if_pos beyond, fun _ _ => .inr rfl⟩
  · have fits : getMaxLength results ≤ width := UInt32.not_lt.mp beyond
    have numbers := UInt32.le_iff_toNat_le.mp fits
    refine ⟨(width.toNat - (getMaxLength results).toNat) / 2, ?_, fun result member => .inl ?_⟩
    · rw [if_neg beyond, half_of_le fits small]
    · have length := lengths result member
      omega

/-- A listing stacks the visible results in the middle of the window, from a column in which the
widest one fits, or else from the first one. -/
theorem lines_of_drawn {size : Winsize} (wide : 0 < size.wsCol.toNat) {results : List Result}
    (loadable : Loadable results) {placed : List Placed}
    (drawn : refreshListing (initCurses (some size)) results = some (.lines placed)) :
    (visibleResults results).length < size.wsRow.toNat ∧
      ∃ left : Nat, (∀ result ∈ visibleResults results, left + result.wcsLen ≤ size.wsCol.toNat ∨
        left = 0) ∧
        placed = (stacked (advanceOf size.wsCol.toNat)
          ((size.wsRow.toNat - (visibleResults results).length) / 2) (visibleResults results)).map
              fun line =>
            ⟨line.1, left, line.2⟩ := by
  have count := resultsVisibleLength_toNat loadable
  have columns := size.wsCol.toNat_lt
  have rows := size.wsRow.toNat_lt
  have width : size.wsCol.toUInt32.toNat = size.wsCol.toNat := UInt16.toNat_toUInt32 ..
  have height : size.wsRow.toUInt32.toNat = size.wsRow.toNat := UInt16.toNat_toUInt32 ..
  unfold refreshListing initCurses at drawn
  dsimp only at drawn
  by_cases many : resultsVisibleLength results ≥ size.wsRow.toUInt32 ∨
      resultsVisibleLength results ≥ resultsMaxLen
  · rw [if_pos many] at drawn
    cases drawn
  · rw [if_neg many] at drawn
    rw [not_or, UInt32.not_le, UInt32.not_le, UInt32.lt_iff_toNat_lt, UInt32.lt_iff_toNat_lt, count,
      height] at many
    have few : (visibleResults results).length < 128 := many.2
    refine ⟨many.1, ?_⟩
    have below : resultsVisibleLength results ≤ size.wsRow.toUInt32 := by
      rw [UInt32.le_iff_toNat_le]
      omega
    rw [half_of_le below (by omega), count, height] at drawn
    have room : (size.wsRow.toNat - (visibleResults results).length) / 2 +
        (visibleResults results).length * maxLineSize < 2147483648 := by
      unfold maxLineSize
      omega
    obtain ⟨left, column, whole⟩ :=
      leftOffset_eq loadable.short (by omega : size.wsCol.toUInt32.toNat < 65536)
    have positive : 0 < (Window.mk size.wsCol.toUInt32 size.wsRow.toUInt32).windowWidth.toNat := by
      show 0 < size.wsCol.toUInt32.toNat
      rw [width]
      exact wide
    have place := placeLines_eq positive left loadable.short room
    rw [column, place] at drawn
    rw [width] at whole
    refine ⟨left, whole, ?_⟩
    have same := Listing.lines.inj (Option.some.inj drawn)
    rw [← same]
    show _ = (stacked (advanceOf size.wsCol.toNat) _ _).map _
    rw [← width]

/-- The rows of two visible results in a listing are disjoint, and the results appear in their
order. -/
theorem lines_in_order (size : Winsize) (wide : 0 < size.wsCol.toNat) (results : List Result)
    (loadable : Loadable results) (placed : List Placed)
    (drawn : refreshListing (initCurses (some size)) results = some (.lines placed)) :
    placed.map Placed.result = results.filter Result.visible ∧
      placed.Pairwise fun first later => ∀ row row', Occupies size.wsCol.toNat first row →
        Occupies size.wsCol.toNat later row' → row < row' := by
  obtain ⟨-, left, whole, rfl⟩ := lines_of_drawn wide loadable drawn
  constructor
  · rw [List.map_map]
    exact stacked_map_snd _ _
  · have covers : ∀ result ∈ visibleResults results,
        rowsOf size.wsCol.toNat result ≤ advanceOf size.wsCol.toNat result :=
      fun result _ => rowsOf_le wide result
    have apart := stacked_pairwise covers ((size.wsRow.toNat - (visibleResults results).length) / 2)
    rw [List.pairwise_map]
    refine apart.imp_of_mem ?_
    intro first later member member' ends row row' on on'
    have fits := whole first.2 (mem_of_stacked member)
    have fits' := whole later.2 (mem_of_stacked member')
    have below := (occupies_iff wide fits row).mp on
    have above := (occupies_iff wide fits' row').mp on'
    omega

/-- A visible result of some letters. -/
def letters (length : Nat) : Result where
  visible := true
  wcsValue := List.replicate length 0x61
  mbsValue := List.replicate length 0x61
  wcsLen := length
  mbsLen := length

/-- Lines of letters can be loaded. -/
theorem letters_loadable {lengths : List Nat} (count : lengths.length ≤ uintMax)
    (short : ∀ length ∈ lengths, length < maxLineSize) : Loadable (lengths.map letters) := by
  constructor
  · rw [List.length_map]
    exact count
  · intro result member
    obtain ⟨length, there, rfl⟩ := List.mem_map.mp member
    exact short length there

/-- A result that wraps, and one below it. -/
theorem lines_in_order_two :
    [⟨1, 0, letters 25⟩, (⟨4, 0, letters 5⟩ : Placed)].map Placed.result =
        ([25, 5].map letters).filter Result.visible ∧
      [⟨1, 0, letters 25⟩, (⟨4, 0, letters 5⟩ : Placed)].Pairwise fun first later => ∀ row row',
        Occupies (10 : UInt16).toNat first row → Occupies (10 : UInt16).toNat later row' →
            row < row' :=
  lines_in_order ⟨5, 10⟩ (by decide) ([25, 5].map letters)
    (letters_loadable (by decide) (by decide)) _ rfl

end Mdp.Layout
