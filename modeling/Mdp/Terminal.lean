import Mdp.Pager
import Mdp.Screen
import Mdp.Library.Interrupts

/-!
# The terminal

`_pager` and what it draws, with the functions of `ui-curses.c` that start and stop curses, call by
call. A window change may arrive before any of the calls; its handler ends the program. What an
iteration of the loop does to the keywords and the results is `pagerTurn`.

Of curses the model has what mdp uses: a window, which is drawn on, and the terminal, which shows
the window as it was when it was last refreshed. Positions are those of `refreshListing` and are not
looked at here. `getch` and `getnstr` refresh the window before they wait, and echo what is typed if
echoing is on; nothing turns it off again once the first prompt has turned it on.
-/

namespace Mdp

open Interaction CStrings

/-- The calls to curses and about the terminal. -/
inductive Curses where
  /-- `signal(SIGWINCH, resize)`. -/
  | signalWinch
  /-- The `TIOCGWINSZ` request. -/
  | ioctl
  | initscr
  | noecho
  | cbreak
  | cursSet (visibility : Nat)
  | timeout (delay : Int)
  | clear
  | wmove (y x : Int)
  | waddstr (text : Bytes)
  | refresh
  | echo
  | getnstr (n : Nat)
  | getch
  | endwin
  /-- Whether the global `screen` is not `NULL`. -/
  | screen
  /-- What the comparison of each result finds in memory. -/
  | leftovers

/-- The answers. -/
@[reducible] def Curses.Answer : Curses → Type
  | .ioctl => Option Winsize
  | .getnstr _ => Bytes
  | .getch => Int
  | .screen => Bool
  | .leftovers => Nat → Leftovers
  | _ => Unit

/-- The interface between the pager and the terminal. -/
abbrev curses : Interface := ⟨Curses, Curses.Answer⟩

/-- A program that draws. -/
abbrev Show (α : Type) := Program curses Stop α

/-- The terminal, and what the process keeps of it. -/
structure Terminal where
  /-- `resize` is installed. -/
  catching : Bool
  /-- `resize` is running. -/
  masked : Bool
  /-- `screen` is not `NULL`. -/
  screen : Bool
  /-- The terminal is in the mode of curses. -/
  taken : Bool
  echoing : Bool
  /-- What was drawn on the window since it was cleared. -/
  window : List Bytes
  /-- What the terminal shows of it. -/
  shown : List Bytes

/-- The terminal as the pager finds it. -/
def Terminal.initial : Terminal := ⟨false, false, false, false, true, [], []⟩

/-- The window is copied to the terminal, which is taken if it was given back before. -/
def Terminal.refreshed (s : Terminal) : Terminal := { s with taken := true, shown := s.window }

/-- The terminal after some text was typed. -/
def Terminal.typed (s : Terminal) (text : Bytes) : Terminal :=
  if s.echoing then { s with window := s.window ++ [text], shown := s.shown ++ [text] } else s

/-- What is typed with a key; `ERR` and function keys are no characters. -/
def keyText (key : Int) : Bytes := if 0 ≤ key ∧ key < 256 then [UInt8.ofNat key.toNat] else []

/-- The terminal after an answer. Without a screen curses does nothing. -/
def display : Effect curses Terminal
  | .signalWinch, _, s => some { s with catching := true }
  | .initscr, _, s => some { s with screen := true, taken := true, window := [], shown := [] }
  | .noecho, _, s => some { s with echoing := false }
  | .echo, _, s => some { s with echoing := true }
  | .clear, _, s => some { s with window := [] }
  | .waddstr text, _, s => some { s with window := s.window ++ [text] }
  | .refresh, _, s => some s.refreshed
  | .getnstr n, text, s => if text.length ≤ n then some (s.refreshed.typed text) else none
  | .getch, key, s => some (s.refreshed.typed (keyText key))
  | .endwin, _, s => some { s with taken := false }
  | .screen, answer, s => if answer = s.screen then some s else none
  | _, _, s => some s

/-- A window change starts `resize` if that is installed and not running. -/
def resized (s : Terminal) : Option Terminal :=
  if s.catching = true ∧ s.masked = false then some { s with masked := true } else none

/-- Make one call. -/
def onScreen (request : Curses) : Show (Curses.Answer request) := .call request .done

/-- `init_curses`. -/
def startCurses (cfg : Settings) : Show Window := do
  onScreen .signalWinch
  let ws ← onScreen .ioctl
  onScreen .initscr
  onScreen .noecho
  onScreen .cbreak
  onScreen (.cursSet 0)
  onScreen (.timeout (cursesDelay cfg))
  pure (initCurses ws)

/-- The part of `shutdown_curses` for a screen that is there. -/
def closeScreen : Show Unit := do
  onScreen .clear
  onScreen .refresh
  onScreen .endwin

/-- `shutdown_curses`. -/
def shutdownCurses : Show Unit := do
  if ← onScreen .screen then closeScreen else pure ()

/-- How `resize` ends the program. -/
def resizeEnding : Stop := .ending (.exit exitFailure "terminal resize")

/-- `resize`. -/
def resize : Show Unit := do
  onScreen .clear
  shutdownCurses
  .halt resizeEnding

/-- `"Keywords: "`. -/
def promptText : Bytes := ascii "Keywords: "

/-- What `refresh_listing` draws of a listing. -/
def Listing.texts : Listing → List Bytes
  | .tooMany _ _ => [msgTooMany]
  | .lines placed => placed.map fun line => line.result.mbsValue

/-- The loop of `refresh_listing` that draws. -/
def drawLines : List Placed → Show Unit
  | [] => .done ()
  | line :: rest => do
    onScreen (.wmove line.topOffset line.leftOffset)
    onScreen (.waddstr line.result.mbsValue)
    drawLines rest

/-- What `refresh_listing` does with a listing. -/
def drawListing : Listing → Show Unit
  | .tooMany y x => do
    onScreen (.wmove y x)
    onScreen (.waddstr msgTooMany)
    onScreen .refresh
  | .lines placed => do
    drawLines placed
    onScreen .refresh

/-- `refresh_listing`. What it draws before a division by zero is not shown, and left out. -/
def showListing (window : Window) (results : List Result) : Show Unit :=
  match refreshListing window results with
  | none => .halt (.ending .crash)
  | some listing => drawListing listing

/-- `keyword_prompt` up to the line that it gets. -/
def askKeywords (window : Window) : Show Bytes := do
  onScreen (.cursSet 1)
  onScreen (.wmove (asInt (window.windowHeight - 1)) 0)
  onScreen (.waddstr promptText)
  onScreen .refresh
  onScreen .echo
  onScreen (.getnstr promptLength)

variable (lib : Library) (L : CLocale) (regex : Bool)

/-- `keyword_prompt` and `filter_results`. -/
def promptSearch (window : Window) (state : PagerState) : Show PagerState := do
  let text ← askKeywords window
  let leftovers ← onScreen .leftovers
  match pagerSearch lib L regex ⟨0x2f, text, leftovers⟩ state.results with
  | .error stop => .halt stop
  | .ok state => .done state

/-- The loop of `_pager`, as long as a budget of iterations lasts; whether it has left the loop. -/
def pagerLoop (window : Window) : Nat → PagerState → Show Bool
  | 0, _ => .done false
  | budget + 1, state => do
    onScreen .clear
    if state.startWithPrompt then do
      let state ← promptSearch lib L regex window state
      pagerLoop window budget state
    else do
      showListing window state.results
      let key ← onScreen .getch
      if key = 0x2f then do
        let state ← promptSearch lib L regex window state
        pagerLoop window budget state
      else pure true

/-- `_pager`, as long as the budget of iterations lasts. -/
def pager (cfg : Settings) (budget : Nat) (state : PagerState) : Show Bool := do
  let window ← startCurses cfg
  if ← pagerLoop lib L regex window budget state then do
    shutdownCurses
    pure true
  else pure false

end Mdp
