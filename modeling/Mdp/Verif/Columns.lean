import Mdp.Verif.Layout

/-!
# Columns

The column that `wmove` is given. For the results it is guarded by a comparison with the width of
the window, and for the message it is not: where the window is narrower than the message, the
`size_t` wraps.
-/

namespace Mdp.Columns

open Mdp CStrings Loading Layout

/-- The columns that `wmove` is given. -/
def columns : Listing → List Int
  | .tooMany _ x => [x]
  | .lines placed => placed.map Placed.leftOffset

/-- Nothing is divided by zero, and in a window that has columns `wmove` is given one of them. -/
def InRange (window : Window) (drawn : Option Listing) : Prop :=
  ∃ listing, drawn = some listing ∧ ∀ column ∈ columns listing, 0 < window.windowWidth.toNat →
    0 ≤ column ∧ column < window.windowWidth.toNat

/-- The test for which `refresh_listing` draws the message. -/
def TooMany (window : Window) (results : List Result) : Prop :=
  window.windowHeight ≤ resultsVisibleLength results ∨ resultsMaxLen ≤ resultsVisibleLength results

/-- Whether there are too many results can be decided. -/
instance (window : Window) (results : List Result) : Decidable (TooMany window results) :=
  inferInstanceAs (Decidable (_ ∨ _))

/-- The message takes 45 bytes with its NUL. -/
theorem sizeofTooMany_toNat : sizeofTooMany.toNat = 45 := by decide +kernel

/-- The message is in range exactly if the window is wider than the array that holds it. -/
theorem message_iff {width : UInt32} (small : width.toNat < 65536) :
    (0 ≤ asInt ((width.toUInt64 - sizeofTooMany - 1) / 2).toUInt32 ∧
        asInt ((width.toUInt64 - sizeofTooMany - 1) / 2).toUInt32 < width.toNat) ↔
      46 ≤ width.toNat := by
  have size := sizeofTooMany_toNat
  have number : width.toUInt64.toNat = width.toNat := UInt32.toNat_toUInt64 ..
  have one : (1 : UInt64).toNat = 1 := rfl
  have two : (2 : UInt64).toNat = 2 := rfl
  have column : ((width.toUInt64 - sizeofTooMany - 1) / 2).toUInt32.toNat =
      (18446744073709551616 - 46 + width.toNat) % 18446744073709551616 / 2 % 4294967296 := by
    rw [UInt64.toNat_toUInt32, UInt64.toNat_div, UInt64.toNat_sub, UInt64.toNat_sub, number, size,
      one, two]
    omega
  unfold asInt
  rw [column]
  constructor
  · rintro ⟨nonnegative, inside⟩
    split at nonnegative <;> omega
  · intro wide
    rw [if_pos (by omega)]
    omega

/-- All results are given the same column. -/
theorem placeLines_columns {window : Window} {left top : Int} {results : List Result}
    {placed : List Placed} (lines : placeLines window left top results = some placed) :
    ∀ line ∈ placed, line.leftOffset = left := by
  induction results generalizing top placed with
  | nil =>
    cases lines
    intro line member
    cases member
  | cons result rest ih =>
    unfold placeLines at lines
    split at lines
    · exact ih lines
    · split at lines
      · split at lines
        · cases lines
        · obtain ⟨later, found, rfl⟩ := Option.map_eq_some_iff.mp lines
          exact List.forall_mem_cons.mpr ⟨rfl, ih found⟩
      · obtain ⟨later, found, rfl⟩ := Option.map_eq_some_iff.mp lines
        exact List.forall_mem_cons.mpr ⟨rfl, ih found⟩

/-- The loop divides by zero exactly if the window has no column and a visible result has a
character. -/
theorem placeLines_isSome {window : Window} {left top : Int} {results : List Result} :
    (placeLines window left top results).isSome ↔
      0 < window.windowWidth.toNat ∨ ∀ result ∈ results, result.visible = true →
          result.wcsLen = 0 := by
  induction results generalizing top with
  | nil => simp [placeLines]
  | cons result rest ih =>
    unfold placeLines
    rw [List.forall_mem_cons]
    cases seen : result.visible with
    | false => simp [ih]
    | true =>
      rw [if_neg (by decide)]
      by_cases none : window.windowWidth = 0
      · have zero : window.windowWidth.toNat = 0 := by rw [none]; rfl
        by_cases empty : result.wcsLen = 0
        · simp [zero, empty, ih]
        · have long : result.wcsLen > window.windowWidth.toNat := by omega
          rw [if_pos long, if_pos none]
          simp [zero, empty]
      · have positive : 0 < window.windowWidth.toNat :=
          Nat.pos_of_ne_zero fun zero => none (UInt32.toNat_inj.mp zero)
        by_cases long : result.wcsLen > window.windowWidth.toNat
        · rw [if_pos long, if_neg none, Option.isSome_map, ih]
          simp [positive]
        · rw [if_neg long, Option.isSome_map, ih]
          simp [positive]

/-- The column of the results is one of the window's. -/
theorem leftOffset_inside {width : UInt32} (longest : UInt32) (small : width.toNat < 65536)
    (positive : 0 < width.toNat) :
    0 ≤ (if width < longest then 0 else asInt ((width - longest) / 2)) ∧
      (if width < longest then 0 else asInt ((width - longest) / 2)) < width.toNat := by
  by_cases beyond : width < longest
  · rw [if_pos beyond]
    omega
  · rw [if_neg beyond, half_of_le (UInt32.not_lt.mp beyond) small]
    omega

/-- Where the message is drawn. -/
theorem inRange_message {window : Window} {results : List Result}
    (small : window.windowWidth.toNat < 65536) (many : TooMany window results) :
    InRange window (refreshListing window results) ↔
      window.windowWidth.toNat = 0 ∨ 46 ≤ window.windowWidth.toNat := by
  have drawn : refreshListing window results = some (.tooMany (asInt (window.windowHeight / 2))
      (asInt ((window.windowWidth.toUInt64 - sizeofTooMany - 1) / 2).toUInt32)) := if_pos many
  have message := message_iff small
  rw [drawn]
  constructor
  · rintro ⟨listing, same, inside⟩
    cases same
    by_cases none : window.windowWidth.toNat = 0
    · exact .inl none
    · have column := inside _ (List.mem_cons_self ..) (Nat.pos_of_ne_zero none)
      exact .inr (message.mp column)
  · intro room
    refine ⟨_, rfl, fun column member positive => ?_⟩
    rw [List.mem_singleton.mp member]
    exact message.mpr (by omega)

/-- Where the results are drawn. -/
theorem inRange_lines {window : Window} {results : List Result}
    (small : window.windowWidth.toNat < 65536) (few : ¬ TooMany window results) :
    InRange window (refreshListing window results) ↔ 0 < window.windowWidth.toNat ∨
      ∀ result ∈ results, result.visible = true → result.wcsLen = 0 := by
  have drawn : refreshListing window results = (placeLines window
      (if window.windowWidth < getMaxLength results then 0
        else asInt ((window.windowWidth - getMaxLength results) / 2))
      (asInt ((window.windowHeight - resultsVisibleLength results) / 2)) results).map .lines :=
        if_neg few
  have inside := leftOffset_inside (getMaxLength results) small
  rw [drawn]
  generalize (if window.windowWidth < getMaxLength results then (0 : Int)
    else asInt ((window.windowWidth - getMaxLength results) / 2)) = left at inside ⊢
  generalize asInt ((window.windowHeight - resultsVisibleLength results) / 2) = top
  have ends : (placeLines window left top results).isSome ↔ _ := placeLines_isSome
  rw [← ends]
  constructor
  · rintro ⟨listing, same, -⟩
    obtain ⟨placed, found, -⟩ := Option.map_eq_some_iff.mp same
    rw [found]
    rfl
  · intro whole
    obtain ⟨placed, found⟩ := Option.isSome_iff_exists.mp whole
    rw [found]
    refine ⟨.lines placed, rfl, fun column member positive => ?_⟩
    obtain ⟨line, there, rfl⟩ := List.mem_map.mp member
    rw [placeLines_columns found line there]
    exact inside positive

/-- `refresh_listing` divides by no zero, and passes columns of the window, if and only if the
message is drawn and the window has no column or at least as many as the message with its NUL has
bytes and one more, or the results are drawn and the window has a column or none of them has a
character. -/
theorem inRange_iff (ws : Option Winsize) (results : List Result) :
    InRange (initCurses ws) (refreshListing (initCurses ws) results) ↔
      if TooMany (initCurses ws) results then
        (initCurses ws).windowWidth.toNat = 0 ∨ 46 ≤ (initCurses ws).windowWidth.toNat
      else 0 < (initCurses ws).windowWidth.toNat ∨
        ∀ result ∈ results, result.visible = true → result.wcsLen = 0 := by
  have small : (initCurses ws).windowWidth.toNat < 65536 := by
    cases ws with
    | none => decide
    | some size => exact lt_of_eq_of_lt (UInt16.toNat_toUInt32 ..) size.wsCol.toNat_lt
  by_cases many : TooMany (initCurses ws) results
  · rw [if_pos many]
    exact inRange_message small many
  · rw [if_neg many]
    exact inRange_lines small many

/-- In a window of 40 columns and 24 rows the message for 24 results is given the column -3. -/
theorem not_inRange :
    ¬ InRange (initCurses (some ⟨24, 40⟩))
      (refreshListing (initCurses (some ⟨24, 40⟩)) (List.replicate 24 (letters 1))) := by
  rintro ⟨listing, same, inside⟩
  have drawn : refreshListing (initCurses (some ⟨24, 40⟩)) (List.replicate 24 (letters 1)) =
      some (.tooMany 12 (-3)) := rfl
  rw [drawn] at same
  cases same
  have column := inside (-3) (List.mem_cons_self ..) (by decide)
  omega

end Mdp.Columns
