import Mdp.ConfigFile

/-!
# The screen

What `ui-curses.c` sets up and where `refresh_listing` of `pager.c` puts the results. The types are
those of a 64-bit system; a division by zero ends the drawing.
-/

namespace Mdp

open CStrings

/-- What the `TIOCGWINSZ` request reports. -/
structure Winsize where
  wsRow : UInt16
  wsCol : UInt16

/-- `window_width` and `window_height`. -/
structure Window where
  windowWidth : UInt32
  windowHeight : UInt32

/-- The size that `init_curses` takes, zero if the request fails. -/
def initCurses : Option Winsize → Window
  | none => ⟨0, 0⟩
  | some ws => ⟨ws.wsCol.toUInt32, ws.wsRow.toUInt32⟩

/-- What `init_curses` passes to `timeout`. -/
def cursesDelay (cfg : Settings) : Int := asInt (cfg.timeout * 1000)

/-- The loop of `results_visible_length`. -/
def visibleLengthFrom (len : UInt32) : List Result → UInt32
  | [] => len
  | result :: results => visibleLengthFrom (if result.visible then len + 1 else len) results

/-- `results_visible_length`. -/
def resultsVisibleLength (results : List Result) : UInt32 := visibleLengthFrom 0 results

/-- The loop of `get_max_length`. -/
def maxLengthFrom (maxlen : UInt32) : List Result → UInt32
  | [] => maxlen
  | result :: results =>
    if result.visible = true ∧ result.wcsLen > maxlen.toNat then
      maxLengthFrom (UInt32.ofNat result.wcsLen) results
    else maxLengthFrom maxlen results

/-- `get_max_length`. -/
def getMaxLength (results : List Result) : UInt32 := maxLengthFrom 0 results

/-- `RESULTS_MAX_LEN`. -/
def resultsMaxLen : UInt32 := 128

/-- `MSG_TOO_MANY`. -/
def msgTooMany : Bytes := ascii "Too many results, please refine your search."

/-- `sizeof(MSG_TOO_MANY)`. -/
def sizeofTooMany : UInt64 := UInt64.ofNat (msgTooMany.length + 1)

/-- A result and the position `wmove` is given for it. -/
structure Placed where
  topOffset : Int
  leftOffset : Int
  result : Result

/-- What `refresh_listing` draws. -/
inductive Listing where
  /-- `MSG_TOO_MANY`, at this position. -/
  | tooMany (y x : Int)
  | lines (placed : List Placed)

/-- A `size_t` that an `int` was added to, assigned to an `int`. -/
def wrapped (sum : Int) : Int := asInt (UInt32.ofNat (sum % 4294967296).toNat)

/-- The loop of `refresh_listing`; `none` where it divides by zero. -/
def placeLines (window : Window) (leftOffset : Int) : Int → List Result → Option (List Placed)
  | _, [] => some []
  | topOffset, result :: results =>
    if result.visible = false then placeLines window leftOffset topOffset results
    else if result.wcsLen > window.windowWidth.toNat then
      if window.windowWidth = 0 then none
      else
        (placeLines window leftOffset
          (wrapped (topOffset + (result.wcsLen / window.windowWidth.toNat : Nat)) + 1) results).map
            (⟨topOffset, leftOffset, result⟩ :: ·)
    else
      (placeLines window leftOffset (topOffset + 1) results).map
        (⟨topOffset, leftOffset, result⟩ :: ·)

/-- `refresh_listing`; `none` where it divides by zero. -/
def refreshListing (window : Window) (results : List Result) : Option Listing :=
  let len := resultsVisibleLength results
  if len ≥ window.windowHeight ∨ len ≥ resultsMaxLen then
    some (.tooMany (asInt (window.windowHeight / 2))
      (asInt ((window.windowWidth.toUInt64 - sizeofTooMany - 1) / 2).toUInt32))
  else
    let topOffset := asInt ((window.windowHeight - len) / 2)
    let leftOffset :=
      if window.windowWidth < getMaxLength results then 0
      else asInt ((window.windowWidth - getMaxLength results) / 2)
    (placeLines window leftOffset topOffset results).map .lines

end Mdp
