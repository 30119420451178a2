import Mdp.Terminal
import Mdp.Verif.Listing

/-!
# What the pager shows on the screen

A history is kept beside every run of the pager: the window, the lines typed at the prompts, and the
results as the last of them was searched for. At every moment it says what is on the terminal,
whatever the keys and wherever the window changes. While the pager waits for a key it shows the
listing of those results, a prompt opened with a slash leaves that listing where it is, and where
the pager is left by a key, by the timeout or by a window change the terminal is given back with
nothing on it. Where a search fails the program exits without giving the terminal back, with what it
showed at the prompt still on it.
-/

namespace Mdp.PagerScreen

open Mdp Interaction CStrings Listing Printing

/-- What is drawn of the results. -/
def listed (window : Window) (results : List Result) : List Bytes :=
  match refreshListing window results with
  | none => []
  | some listing => listing.texts

/-- What is remembered of a run of the pager. -/
structure History where
  /-- The window that was found at the start. -/
  window : Window
  /-- The lines that were typed at the prompts, the last one first. -/
  typed : List Bytes
  /-- The keywords and the results after the last search. -/
  state : PagerState
  /-- What was on the terminal when the last line was typed. -/
  answered : List Bytes

/-- What is on the terminal while a line is typed: the listing that the prompt was opened from, the
slash if keys are echoed, as they are from the first prompt on, and the text of the prompt. No
listing comes before the prompt that the pager starts with. -/
def History.prompt (history : History) : List Bytes :=
  (if history.state.startWithPrompt then []
    else listed history.window history.state.results ++
      if history.typed.isEmpty then [] else [[0x2f]]) ++ [promptText]

/-- After another line was typed. -/
def History.answer (history : History) (text : Bytes) : History :=
  { history with
    typed := text :: history.typed
    answered := history.prompt ++ [text] }

section Runs

variable (lib : Library) (L : CLocale) (regex : Bool)

/-- After all results were searched for the words of the last line. -/
def History.search (history : History) (leftovers : Nat → Leftovers) : History :=
  let keywords := keywordsLoadFromChar (history.typed.headD [])
  match filterResults lib L regex leftovers keywords history.state.results with
  | .error _ => history
  | .ok results => { history with state := ⟨false, keywords, results⟩ }

/-- The history after an answer. -/
def History.note (entry : Entry curses Terminal) (history : History) : History :=
  match entry with
  | ⟨.ioctl, ws, _⟩ => { history with window := initCurses ws }
  | ⟨.getnstr _, text, _⟩ => history.answer text
  | ⟨.leftovers, leftovers, _⟩ => history.search lib L regex leftovers
  | _ => history

/-- The effect of the calls of the pager, with the history beside the terminal. -/
abbrev recorded : Effect curses (History × Terminal) := display.record (History.note lib L regex)

end Runs

/-- A window change, with the history beside the terminal. -/
def windowChanged (x : History × Terminal) : Option (History × Terminal) :=
  (resized x.2).map fun t => (x.1, t)

/-- The history before the first call. -/
def History.initial (state : PagerState) : History := ⟨initCurses none, [], state, []⟩

section Moments

variable (lib : Library) (L : CLocale) (regex : Bool) (loaded : List Result)

/-- The state is the one that a search for the words of the last line has left, and the buffer of
the prompt has held every line. -/
structure Searched (history : History) : Prop where
  reached : Reached lib L regex loaded history.typed history.state
  held : ∀ text ∈ history.typed, text.length < promptLength
  last : ∀ text, history.typed.head? = some text →
    history.state.startWithPrompt = false ∧ history.state.keywords = keywordsLoadFromChar text

/-- What the terminal shows where the program waits and where it ends. Nothing is said of a program
that has made an access outside an array. -/
structure Showing (q : Show Bool) (history : History) (t : Terminal) : Prop where
  waits : ∀ next, q = .call .getch next → t.taken = true ∧
    Searched lib L regex loaded history ∧ history.state.startWithPrompt = false ∧
    t.shown = listed history.window history.state.results
  asks : ∀ n next, q = .call (.getnstr n) next → t.taken = true ∧
    Searched lib L regex loaded history ∧ t.shown = history.prompt
  ended : q = .done true → t.taken = false ∧ t.shown = []
  resized : q = .halt resizeEnding → t.taken = false ∧ t.shown = []
  failed : ∀ ending, q = .halt (.ending ending) → .ending ending ≠ resizeEnding →
    t.taken = true ∧ t.shown = history.answered

/-- What is asked of the terminal where this is called. -/
def Awaits (history : History) (t : Terminal) : Curses → Prop
  | .getch => t.taken = true ∧ Searched lib L regex loaded history ∧
      history.state.startWithPrompt = false ∧
      t.shown = listed history.window history.state.results
  | .getnstr _ => t.taken = true ∧ Searched lib L regex loaded history ∧ t.shown = history.prompt
  | _ => True

/-- What is asked of the terminal, by what the program has come to. -/
def Asked (history : History) (t : Terminal) : Show Bool → Prop
  | .call request _ => Awaits lib L regex loaded history t request
  | .done broke => broke = true → t.taken = false ∧ t.shown = []
  | .halt stop => (stop = resizeEnding → t.taken = false ∧ t.shown = []) ∧
      (stop ≠ resizeEnding → stop ≠ .outside → t.taken = true ∧ t.shown = history.answered)

variable {lib L regex loaded}

/-- It is enough to look at what the program has come to. -/
theorem Showing.of_asked {q : Show Bool} {history : History} {t : Terminal}
    (asked : Asked lib L regex loaded history t q) : Showing lib L regex loaded q history t := by
  constructor
  · rintro next rfl
    exact asked
  · rintro n next rfl
    exact asked
  · rintro rfl
    exact asked rfl
  · rintro rfl
    exact asked.1 rfl
  · rintro ending rfl other
    exact asked.2 other Stop.noConfusion

end Moments

/-- Without a screen the terminal is as it was. -/
def BlankWithoutScreen (t : Terminal) : Prop := t.screen = false → t.taken = false ∧ t.shown = []

/-- With a screen there is nothing to show of it. -/
theorem BlankWithoutScreen.of_screen {t : Terminal} (up : t.screen = true) :
    BlankWithoutScreen t := by
  intro off
  rw [up] at off
  cases off

variable {lib : Library} {L : CLocale} {regex : Bool} {loaded : List Result}
  {K : Terminal → Prop} {history : History} {s : Terminal}

/-- From here on the terminal always shows what it is to show, and meets a condition. -/
abbrev KeepsShowing (lib : Library) (L : CLocale) (regex : Bool) (loaded : List Result)
    (K : Terminal → Prop) (p : Show Bool) (x : History × Terminal) : Prop :=
  p.Safe (recorded lib L regex) (fun q x => Showing lib L regex loaded q x.1 x.2 ∧ K x.2)
    (fun _ _ => True) x

/-- The same with the condition that the handler of a window change needs. -/
abbrev KeepsScreen (lib : Library) (L : CLocale) (regex : Bool) (loaded : List Result)
    (p : Show Bool) (history : History) (s : Terminal) : Prop :=
  KeepsShowing lib L regex loaded BlankWithoutScreen p (history, s)

/-- The calls that wait for the user. -/
def waiting : Curses → Bool
  | .getch => true
  | .getnstr _ => true
  | _ => false

/-- Nothing is asked of the terminal where nobody is waited for. -/
theorem showing_call {request : Curses} {next : request.Answer → Show Bool}
    (silent : waiting request = false) :
    Showing lib L regex loaded (.call request next) history s := by
  refine .of_asked ?_
  cases request with
  | getch => cases silent
  | getnstr n => cases silent
  | _ => trivial

/-- A program that a window change has ended. -/
theorem showing_resized (taken : s.taken = false) (shown : s.shown = []) :
    Showing lib L regex loaded (.halt resizeEnding) history s :=
  .of_asked ⟨fun _ => ⟨taken, shown⟩, fun other => absurd rfl other⟩

/-- A program that has failed. -/
theorem showing_failed {stop : Stop} (other : stop ≠ resizeEnding) (taken : s.taken = true)
    (shown : s.shown = history.answered) :
    Showing lib L regex loaded (.halt stop) history s :=
  .of_asked ⟨fun same => absurd same other, fun _ _ => ⟨taken, shown⟩⟩

/-- A call that waits for nobody, with its one effect. -/
theorem keepsShowing_call {request : Curses} {next : request.Answer → Show Bool}
    {after : request.Answer → History × Terminal} (silent : waiting request = false) (kept : K s)
    (runs : ∀ answer, recorded lib L regex request answer (history, s) = some (after answer))
    (each : ∀ answer, KeepsShowing lib L regex loaded K (next answer) (after answer)) :
    KeepsShowing lib L regex loaded K (.call request next) (history, s) := by
  refine ⟨⟨showing_call silent, kept⟩, fun answer x taken => ?_⟩
  rw [runs answer] at taken
  rw [← Option.some.inj taken]
  exact each answer

/-- The terminal between two iterations of the loop: it shows what it showed at the last prompt. -/
structure Ready (history : History) (t : Terminal) : Prop where
  screen : t.screen = true
  taken : t.taken = true
  echoing : t.echoing = !history.typed.isEmpty
  shown : t.shown = history.answered

/-- `keyword_prompt` up to the line that it gets. -/
theorem askKeywords_keeps {window : Window} {rest : Bytes → Show Bool} (up : s.screen = true)
    (searched : Searched lib L regex loaded history)
    (drawn : s.window ++ [promptText] = history.prompt)
    (each : ∀ text t, Ready (history.answer text) t →
      KeepsScreen lib L regex loaded (rest text) (history.answer text) t) :
    KeepsScreen lib L regex loaded ((askKeywords window).bind rest) history s := by
  refine keepsShowing_call rfl (.of_screen up) (fun _ => rfl) fun _ => ?_
  refine keepsShowing_call rfl (.of_screen up) (fun _ => rfl) fun _ => ?_
  refine keepsShowing_call rfl (.of_screen up) (fun _ => rfl) fun _ => ?_
  refine keepsShowing_call rfl (.of_screen up) (fun _ => rfl) fun _ => ?_
  refine keepsShowing_call rfl (.of_screen up) (fun _ => rfl) fun _ => ?_
  refine ⟨⟨.of_asked ⟨rfl, searched, drawn⟩, .of_screen up⟩, ?_⟩
  rintro text ⟨after, t⟩ taken
  obtain ⟨done, noted⟩ := Effect.record_eq_some.mp taken
  simp only [display, Option.ite_none_right_eq_some, Option.some.injEq] at done
  obtain rfl : after = history.answer text := noted
  rw [← done.2]
  refine each text _ ⟨up, rfl, rfl, ?_⟩
  show (s.window ++ [promptText]) ++ [text] = history.prompt ++ [text]
  rw [drawn]

/-- A regular expression that is not one ends the program otherwise than a window change. -/
theorem lineMatchesRegex_error {behind : Bytes} {line : List WChar} {keywords : List Bytes}
    {ending : Ending} (failed : lineMatchesRegex lib L behind line keywords = .error ending) :
    .ending ending ≠ resizeEnding := by
  induction keywords with
  | nil => cases failed
  | cons keyword rest ih =>
    rw [lineMatchesRegex] at failed
    cases compiled : lib.regcomp keyword with
    | none =>
      simp only [compiled, Except.error.injEq] at failed
      rw [← failed]
      decide
    | some accepts =>
      simp only [compiled] at failed
      split at failed
      · exact ih failed
      · cases failed

/-- So does every search that fails. -/
theorem filterFrom_error {leftovers : Nat → Leftovers} {keywords : List Bytes} {i : Nat}
    {results : List Result} {ending : Ending}
    (failed : filterFrom lib L regex leftovers keywords i results = .error ending) :
    .ending ending ≠ resizeEnding := by
  induction results generalizing i with
  | nil => cases failed
  | cons result rest ih =>
    rw [filterFrom] at failed
    cases matched : lineMatches lib L regex (leftovers i) keywords result.wcsValue with
    | error found =>
      simp only [matched, Except.error.injEq] at failed
      rw [← failed]
      unfold lineMatches at matched
      split at matched
      · cases matched
      · split at matched
        · exact lineMatchesRegex_error matched
        · cases matched
    | ok visible =>
      simp only [matched] at failed
      cases others : filterFrom lib L regex leftovers keywords (i + 1) rest with
      | error found =>
        simp only [others, Except.error.injEq] at failed
        subst failed
        exact ih others
      | ok others' =>
        simp only [others] at failed
        cases failed

/-- So does every prompt whose search fails. -/
theorem pagerSearch_error {turn : Turn} {results : List Result} {stop : Stop}
    (failed : pagerSearch lib L regex turn results = .error stop) : stop ≠ resizeEnding := by
  unfold pagerSearch keywordPrompt at failed
  by_cases short : turn.text.length < promptLength
  · rw [if_pos short] at failed
    cases filtered : filterResults lib L regex turn.leftovers (keywordsLoadFromChar turn.text)
        results with
    | error ending =>
      simp only [filtered, Except.error.injEq] at failed
      rw [← failed]
      exact filterFrom_error filtered
    | ok found =>
      simp only [filtered] at failed
      cases failed
  · rw [if_neg short, Except.error.injEq] at failed
    rw [← failed]
    decide

/-- A search changes the state of the history, and nothing else. -/
theorem search_typed (lib : Library) (L : CLocale) (regex : Bool) (history : History)
    (leftovers : Nat → Leftovers) :
    (history.search lib L regex leftovers).typed = history.typed ∧
      (history.search lib L regex leftovers).answered = history.answered ∧
      (history.search lib L regex leftovers).window = history.window := by
  unfold History.search
  dsimp only
  split
  · exact ⟨rfl, rfl, rfl⟩
  · exact ⟨rfl, rfl, rfl⟩

/-- Where the search of a prompt succeeds, its result is the one in the history. -/
theorem search_state {history : History} {text : Bytes} {leftovers : Nat → Leftovers}
    {after : PagerState}
    (found : pagerSearch lib L regex ⟨0x2f, text, leftovers⟩ history.state.results = .ok after) :
    ((history.answer text).search lib L regex leftovers).state = after := by
  obtain ⟨_, start, keywords, filtered⟩ := of_pagerSearch found
  rw [keywords] at filtered
  have searched : filterResults lib L regex leftovers
      (keywordsLoadFromChar ((history.answer text).typed.headD []))
        (history.answer text).state.results =
      .ok after.results := filtered
  obtain ⟨startWithPrompt, words, results⟩ := after
  rw [History.search, searched]
  simp only at start keywords ⊢
  rw [start, keywords]
  rfl

/-- A search that succeeds leaves a state that was searched. -/
theorem Searched.search {text : Bytes} {leftovers : Nat → Leftovers} {after : PagerState}
    (searched : Searched lib L regex loaded history)
    (found : pagerSearch lib L regex ⟨0x2f, text, leftovers⟩ history.state.results = .ok after) :
    Searched lib L regex loaded ((history.answer text).search lib L regex leftovers) := by
  obtain ⟨short, start, keywords, _⟩ := of_pagerSearch found
  have taken : pagerTurn lib L regex history.state ⟨0x2f, text, leftovers⟩ = .ok (some after) := by
    unfold pagerTurn
    rw [found]
    split <;> rfl
  have typed := (search_typed lib L regex (history.answer text) leftovers).1
  have state := search_state found
  constructor
  · rw [typed, state]
    exact .turn searched.reached _ taken
  · rw [typed]
    exact List.forall_mem_cons.mpr ⟨short, searched.held⟩
  · intro last same
    rw [typed] at same
    cases same
    rw [state]
    exact ⟨start, keywords⟩

/-- `keyword_prompt` and `filter_results`. -/
theorem promptSearch_keeps {window : Window} {rest : PagerState → Show Bool} (up : s.screen = true)
    (searched : Searched lib L regex loaded history)
    (drawn : s.window ++ [promptText] = history.prompt)
    (each : ∀ later t, Searched lib L regex loaded later → Ready later t →
      later.window = history.window → KeepsScreen lib L regex loaded (rest later.state) later t) :
    KeepsScreen lib L regex loaded ((promptSearch lib L regex window history.state).bind rest)
      history s := by
  simp only [promptSearch, Program.bind_eq, Program.bind_assoc]
  refine askKeywords_keeps up searched drawn fun text t ready => ?_
  refine keepsShowing_call rfl (.of_screen ready.screen) (fun _ => rfl) fun leftovers => ?_
  obtain ⟨typed, answered, same⟩ :=
    search_typed lib L regex (history.answer text) leftovers
  have shown : t.shown = ((history.answer text).search lib L regex leftovers).answered := by
    rw [answered]
    exact ready.shown
  simp only [Program.done_bind]
  cases found : pagerSearch lib L regex ⟨0x2f, text, leftovers⟩ history.state.results with
  | error stop =>
    have other := pagerSearch_error found
    exact ⟨⟨showing_failed other ready.taken shown, .of_screen ready.screen⟩, trivial⟩
  | ok after =>
    have later := each _ t (searched.search found)
      ⟨ready.screen, ready.taken, by rw [typed]; exact ready.echoing, shown⟩ same
    rw [search_state found] at later
    exact later

/-- The lines of a listing are drawn on the window. -/
theorem drawLines_keeps {placed : List Placed} {rest : Unit → Show Bool} (up : s.screen = true)
    (each : ∀ t, t.screen = true → t.echoing = s.echoing →
      t.window = s.window ++ placed.map (fun line => line.result.mbsValue) →
      KeepsScreen lib L regex loaded (rest ()) history t) :
    KeepsScreen lib L regex loaded ((drawLines placed).bind rest) history s := by
  induction placed generalizing s with
  | nil => exact each s up rfl (by simp)
  | cons line placed ih =>
    refine keepsShowing_call rfl (.of_screen up) (fun _ => rfl) fun _ => ?_
    refine keepsShowing_call rfl (.of_screen up) (fun _ => rfl) fun _ => ?_
    refine ih up fun t screen echoing window => each t screen echoing ?_
    rw [window]
    simp

/-- A listing is shown. -/
theorem drawListing_keeps {listing : Listing} {rest : Unit → Show Bool} (up : s.screen = true)
    (blank : s.window = [])
    (each : ∀ t, t.screen = true → t.taken = true → t.echoing = s.echoing →
      t.window = listing.texts → t.shown = listing.texts →
      KeepsScreen lib L regex loaded (rest ()) history t) :
    KeepsScreen lib L regex loaded ((drawListing listing).bind rest) history s := by
  cases listing with
  | tooMany y x =>
    refine keepsShowing_call rfl (.of_screen up) (fun _ => rfl) fun _ => ?_
    refine keepsShowing_call rfl (.of_screen up) (fun _ => rfl) fun _ => ?_
    refine keepsShowing_call rfl (.of_screen up) (fun _ => rfl) fun _ => ?_
    refine each _ up rfl rfl ?_ ?_
    · simp [Terminal.refreshed, blank, Listing.texts]
    · simp [Terminal.refreshed, blank, Listing.texts]
  | lines placed =>
    simp only [drawListing, Program.bind_eq, Program.bind_assoc]
    refine drawLines_keeps up fun t screen echoing window => ?_
    rw [blank, List.nil_append] at window
    refine keepsShowing_call rfl (.of_screen screen) (fun _ => rfl) fun _ => ?_
    exact each _ screen rfl echoing window window

/-- Text that is typed leaves the screen there. -/
theorem typed_screen (t : Terminal) (text : Bytes) : (t.typed text).screen = t.screen := by
  unfold Terminal.typed
  split <;> rfl

/-- A slash that is typed at a listing, where keys are echoed, stands behind it at the prompt. -/
theorem typed_slash (start : history.state.startWithPrompt = false)
    (echo : s.echoing = !history.typed.isEmpty)
    (contents : s.window = listed history.window history.state.results) :
    (s.typed (keyText 0x2f)).window ++ [promptText] = history.prompt := by
  rw [History.prompt, start, Terminal.typed, echo]
  cases none : history.typed.isEmpty with
  | true => simp [contents]
  | false => simp [contents, keyText]

/-- The loop, and what follows it where it was left and where the budget is over. -/
theorem pagerLoop_keeps {budget : Nat} {rest : Bool → Show Bool} (ready : Ready history s)
    (searched : Searched lib L regex loaded history)
    (each : ∀ broke later t, t.screen = true →
      KeepsScreen lib L regex loaded (rest broke) later t) :
    KeepsScreen lib L regex loaded
      ((pagerLoop lib L regex history.window budget history.state).bind rest) history s := by
  induction budget generalizing s history with
  | zero => exact each false history s ready.screen
  | succ budget ih =>
    have again : ∀ later t, Searched lib L regex loaded later → Ready later t →
        later.window = history.window → KeepsScreen lib L regex loaded
          ((pagerLoop lib L regex history.window budget later.state).bind rest) later t := by
      intro later t searched ready same
      rw [← same]
      exact ih ready searched
    refine keepsShowing_call rfl (.of_screen ready.screen) (fun _ => rfl) fun _ => ?_
    cases start : history.state.startWithPrompt with
    | true =>
      simp only [if_true, Program.bind_eq, Program.done_bind, Program.bind_assoc]
      refine promptSearch_keeps ready.screen searched ?_ again
      rw [History.prompt, start, if_pos rfl]
    | false =>
      simp only [Bool.false_eq_true, if_false, Program.bind_eq, Program.done_bind,
        Program.bind_assoc, showListing]
      cases refreshed : refreshListing history.window history.state.results with
      | none =>
        have other : Stop.ending .crash ≠ resizeEnding := by decide
        exact ⟨⟨showing_failed other ready.taken ready.shown, .of_screen ready.screen⟩, trivial⟩
      | some listing =>
        have drawn : listing.texts = listed history.window history.state.results := by
          rw [listed, refreshed]
        refine drawListing_keeps ready.screen rfl fun t screen taken echoing window shown => ?_
        refine ⟨⟨.of_asked ⟨taken, searched, start, shown.trans drawn⟩, .of_screen screen⟩, ?_⟩
        rintro key ⟨after, t'⟩ answered
        obtain ⟨done, noted⟩ := Effect.record_eq_some.mp answered
        obtain rfl : after = history := noted
        have typed : t.refreshed.typed (keyText key) = t' := Option.some.inj done
        have up : t'.screen = true := by
          rw [← typed, typed_screen]
          exact screen
        by_cases slash : key = 0x2f
        · subst slash
          have prompt := typed_slash start (s := t.refreshed) (echoing.trans ready.echoing)
            (window.trans drawn)
          rw [typed] at prompt
          simp only [Program.done_bind, if_true, Program.bind_assoc]
          exact promptSearch_keeps up searched prompt again
        · simp only [Program.done_bind, if_neg slash]
          exact each true after t' up

/-- `shutdown_curses` where the screen is there. -/
theorem shutdownCurses_keeps {rest : Unit → Show Bool} (up : s.screen = true)
    (kept : ∀ t, t.screen = true → t.masked = s.masked → K t)
    (each : ∀ t, t.screen = true → t.masked = s.masked → t.taken = false → t.shown = [] →
      KeepsShowing lib L regex loaded K (rest ()) (history, t)) :
    KeepsShowing lib L regex loaded K (shutdownCurses.bind rest) (history, s) := by
  refine ⟨⟨showing_call rfl, kept s up rfl⟩, ?_⟩
  rintro answer ⟨after, t⟩ taken
  obtain ⟨done, noted⟩ := Effect.record_eq_some.mp taken
  obtain rfl : after = history := noted
  simp only [display, Option.ite_none_right_eq_some, Option.some.injEq] at done
  obtain ⟨rfl, rfl⟩ := done
  rw [up]
  refine keepsShowing_call rfl (kept s up rfl) (fun _ => rfl) fun _ => ?_
  refine keepsShowing_call rfl (kept _ up rfl) (fun _ => rfl) fun _ => ?_
  refine keepsShowing_call rfl (kept _ up rfl) (fun _ => rfl) fun _ => ?_
  exact each _ up rfl rfl rfl

/-- The pager. -/
theorem pager_keeps {cfg : Settings} {budget : Nat} {state : PagerState}
    (reached : Reached lib L regex loaded [] state) :
    KeepsScreen lib L regex loaded (pager lib L regex cfg budget state) (.initial state)
      .initial := by
  have blank : BlankWithoutScreen .initial := fun _ => ⟨rfl, rfl⟩
  refine keepsShowing_call rfl blank (fun _ => rfl) fun _ => ?_
  refine keepsShowing_call rfl blank (fun _ => rfl) fun ws => ?_
  refine keepsShowing_call rfl blank (fun _ => rfl) fun _ => ?_
  refine keepsShowing_call rfl (.of_screen rfl) (fun _ => rfl) fun _ => ?_
  refine keepsShowing_call rfl (.of_screen rfl) (fun _ => rfl) fun _ => ?_
  refine keepsShowing_call rfl (.of_screen rfl) (fun _ => rfl) fun _ => ?_
  refine keepsShowing_call rfl (.of_screen rfl) (fun _ => rfl) fun _ => ?_
  have searched : Searched lib L regex loaded ⟨initCurses ws, [], state, []⟩ :=
    ⟨reached, by simp, by simp⟩
  refine pagerLoop_keeps ⟨rfl, rfl, rfl, rfl⟩ searched fun broke later t up => ?_
  cases broke with
  | false => exact ⟨⟨.of_asked Bool.noConfusion, .of_screen up⟩, trivial⟩
  | true =>
    refine shutdownCurses_keeps up (fun _ screen _ => .of_screen screen) ?_
    intro t screen _ taken shown
    exact ⟨⟨.of_asked fun _ => ⟨taken, shown⟩, .of_screen screen⟩, trivial⟩

/-- The handler of a window change, which nothing follows. -/
theorem resize_keeps {q : Show Bool} (blank : BlankWithoutScreen s) (masked : s.masked = true) :
    KeepsShowing lib L regex loaded (fun t => t.masked = true) (Program.interruptedBy resize q)
      (history, s) := by
  refine keepsShowing_call rfl masked (fun _ => rfl) fun _ => ?_
  cases screen : s.screen with
  | false =>
    obtain ⟨taken, shown⟩ := blank screen
    refine ⟨⟨showing_call rfl, masked⟩, ?_⟩
    rintro answer ⟨after, t⟩ answered
    obtain ⟨done, _⟩ := Effect.record_eq_some.mp answered
    simp only [display, Option.ite_none_right_eq_some, Option.some.injEq] at done
    obtain ⟨rfl, rfl⟩ := done
    exact ⟨⟨showing_resized taken shown, masked⟩, trivial⟩
  | true =>
    simp only [Program.done_bind, Program.bind_eq, Program.bind_assoc, Program.halt_bind]
    refine shutdownCurses_keeps rfl (fun _ _ same => same.trans masked) ?_
    intro t _ same taken shown
    exact ⟨⟨showing_resized taken shown, same.trans masked⟩, trivial⟩

/-- Regular expressions without operators; a parenthesis alone is not one. -/
def literalLibrary : Library where
  towlower wide := wide
  regcomp keyword := if keyword = ascii "(" then none else some fun line =>
    line.tails.any fun rest => keyword.isPrefixOf rest

/-- A slash and a letter, and then a slash and a line that is not a regular expression. -/
def mistyping : Oracle curses (History × Terminal)
  | .ioctl, _ => some ⟨24, 80⟩
  | .getnstr _, x => if x.1.typed.isEmpty then ascii "a" else ascii "("
  | .getch, _ => 0x2f
  | .screen, x => x.2.screen
  | .leftovers, _ => fun _ => ⟨[], []⟩
  | .signalWinch, _ => ()
  | .initscr, _ => ()
  | .noecho, _ => ()
  | .cbreak, _ => ()
  | .cursSet _, _ => ()
  | .timeout _, _ => ()
  | .clear, _ => ()
  | .wmove _ _, _ => ()
  | .waddstr _, _ => ()
  | .refresh, _ => ()
  | .echo, _ => ()
  | .endwin, _ => ()

/-- Whether a program has halted. -/
def halted : Show Bool → Bool
  | .halt _ => true
  | _ => false

end Mdp.PagerScreen
