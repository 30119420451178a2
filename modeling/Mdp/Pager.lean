import Mdp.Search

/-!
# The pager

`pager.c` with the part of `keywords.c` that it uses, and the two commands that start it. What is
drawn is left out: the pager shows the results that are visible when it reaches `refresh_listing`.
-/

namespace Mdp

open Interaction CStrings

/-- `keywords_load_from_char`: `strtok_r` skips the empty words between two spaces. -/
def keywordsLoadFromChar (kw : Bytes) : List Bytes :=
  (kw.splitOn 0x20).filter fun word => !word.isEmpty

/-- The size of the buffer of `keyword_prompt`, and how much of a line `getnstr` takes. -/
def promptLength : Nat := 50

/-- What the loop of `_pager` works on. -/
structure PagerState where
  startWithPrompt : Bool
  /-- `keywords`. -/
  keywords : List Bytes
  /-- `results`. -/
  results : List Result
  deriving DecidableEq

/-- What one iteration of the loop is given. -/
structure Turn where
  /-- What `getch` returns, `ERR` after the timeout. -/
  key : Int
  /-- The line typed at the prompt. -/
  text : Bytes
  /-- What the comparison of each result finds in memory. -/
  leftovers : Nat → Leftovers

/-- `keyword_prompt`. Where `getnstr` takes as many bytes as the buffer has, its NUL goes behind
it. -/
def keywordPrompt (turn : Turn) : Except Stop (List Bytes) :=
  if turn.text.length < promptLength then .ok (keywordsLoadFromChar turn.text) else .error .outside

variable (lib : Library) (L : CLocale)

/-- `keyword_prompt` and `filter_results`. -/
def pagerSearch (regex : Bool) (turn : Turn) (results : List Result) : Except Stop PagerState :=
  match keywordPrompt turn with
  | .error stop => .error stop
  | .ok keywords =>
    match filterResults lib L regex turn.leftovers keywords results with
    | .error ending => .error (.ending ending)
    | .ok results => .ok ⟨false, keywords, results⟩

/-- One iteration of the loop of `_pager`; `none` where it breaks. -/
def pagerTurn (regex : Bool) (state : PagerState) (turn : Turn) :
    Except Stop (Option PagerState) :=
  if state.startWithPrompt then (pagerSearch lib L regex turn state.results).map some
  else if turn.key = 0x2f then (pagerSearch lib L regex turn state.results).map some
  else .ok none

/-- `mdp_get` without `cmd_raw`, up to the loop of `pager`. -/
def mdpGet (cfg : Config) (regex : Bool) (leftovers : Nat → Leftovers) (keywords : List Bytes) :
    Prog PagerState := do
  debug cfg "mdp_get()"
  let memory ← loadPasswords L cfg
  let results ← orExit (filterResults lib L regex leftovers keywords memory.results)
  pure ⟨false, keywords, results⟩

/-- `mdp_prompt`, up to the loop of `pager_with_prompt`. -/
def mdpPrompt (cfg : Config) : Prog PagerState := do
  debug cfg "mdp_prompt()"
  let memory ← loadPasswords L cfg
  pure ⟨true, [], memory.results⟩

variable {lib L}

/-- A search with a line that the buffer holds. -/
theorem of_pagerSearch {regex : Bool} {turn : Turn} {results : List Result} {after : PagerState}
    (searched : pagerSearch lib L regex turn results = .ok after) :
    turn.text.length < promptLength ∧ after.startWithPrompt = false ∧
      after.keywords = keywordsLoadFromChar turn.text ∧
      filterResults lib L regex turn.leftovers after.keywords results = .ok after.results := by
  unfold pagerSearch keywordPrompt at searched
  by_cases short : turn.text.length < promptLength
  · rw [if_pos short] at searched
    cases filtered :
      filterResults lib L regex turn.leftovers (keywordsLoadFromChar turn.text) results with
    | error ending => simp [filtered] at searched
    | ok found =>
      simp only [filtered, Except.ok.injEq] at searched
      subst searched
      exact ⟨short, rfl, rfl, filtered⟩
  · rw [if_neg short] at searched
    cases searched

/-- An iteration that goes on has searched all the results again. -/
theorem of_pagerTurn {regex : Bool} {state after : PagerState} {turn : Turn}
    (taken : pagerTurn lib L regex state turn = .ok (some after)) :
    pagerSearch lib L regex turn state.results = .ok after := by
  have searched : (pagerSearch lib L regex turn state.results).map some = .ok (some after) := by
    unfold pagerTurn at taken
    split at taken
    · exact taken
    · split at taken
      · exact taken
      · cases taken
  cases found : pagerSearch lib L regex turn state.results with
  | error stop => simp [found, Except.map] at searched
  | ok found =>
    simp only [found, Except.map, Except.ok.injEq, Option.some.injEq] at searched
    rw [searched]

/-- Only a line that the buffer does not hold makes an access outside it. -/
theorem long_of_outside {regex : Bool} {state : PagerState} {turn : Turn}
    (overrun : pagerTurn lib L regex state turn = .error .outside) :
    promptLength ≤ turn.text.length := by
  have searched : (pagerSearch lib L regex turn state.results).map some = .error .outside := by
    unfold pagerTurn at overrun
    split at overrun
    · exact overrun
    · split at overrun
      · exact overrun
      · cases overrun
  by_contra short
  rw [not_le] at short
  unfold pagerSearch keywordPrompt at searched
  rw [if_pos short] at searched
  cases filtered : filterResults lib L regex turn.leftovers (keywordsLoadFromChar turn.text)
      state.results with
  | error ending => simp [filtered, Except.map] at searched
  | ok found => simp [filtered, Except.map] at searched

end Mdp
