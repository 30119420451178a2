import Mdp.Pager
import Mdp.Verif.Printing

/-!
# What the pager shows

Each search of the pager sets the flag of every result again, so what it shows depends on the last
keywords alone. It shows no comment. It does show the empty lines of the password file, when the
keywords match them: an empty prompt matches every line, and so do many regular expressions.
-/

namespace Mdp.Listing

open Mdp Interaction CStrings Printing

/-- A line that is no comment and that all the keywords match. -/
def Matches (lib : Library) (L : CLocale) (regex : Bool) (keywords : List Bytes)
    (line : List WChar) : Prop :=
  line.head? ≠ some hash ∧ ∀ keyword ∈ keywords,
    if regex then (lib.regcomp keyword).any (fun accepts => accepts ((L.encode line).getD [])) =
      true
    else Occurs lib L keyword line

/-- The runs of `mdp get` with the pager and of `mdp prompt` on the loaded results, up to an
iteration of the pager's loop, with the lines that were typed at the prompts. -/
inductive Reached (lib : Library) (L : CLocale) (regex : Bool) (loaded : List Result) :
    List Bytes → PagerState → Prop
  /-- `mdp get` has filtered before the pager starts. -/
  | get {leftovers : Nat → Leftovers} {keywords : List Bytes} {results : List Result}
    (filtered : filterResults lib L regex leftovers keywords loaded = .ok results) :
    Reached lib L regex loaded [] ⟨false, keywords, results⟩
  | prompt : Reached lib L regex loaded [] ⟨true, [], loaded⟩
  | turn {typed : List Bytes} {before after : PagerState}
    (earlier : Reached lib L regex loaded typed before) (turn : Turn)
    (taken : pagerTurn lib L regex before turn = .ok (some after)) :
    Reached lib L regex loaded (turn.text :: typed) after
  /-- A process that has written outside its buffer may come to anything. -/
  | outside {typed : List Bytes} {before : PagerState}
    (earlier : Reached lib L regex loaded typed before) (turn : Turn)
    (overrun : pagerTurn lib L regex before turn = .error .outside) (after : PagerState) :
    Reached lib L regex loaded (turn.text :: typed) after

/-- Whether a result is a loaded one, with its flag set by the keywords. -/
def Flagged (lib : Library) (L : CLocale) (regex : Bool) (keywords : List Bytes)
    (line result : Result) : Prop :=
  result = { line with visible := result.visible } ∧
    (result.visible = true ↔ Matches lib L regex keywords line.wcsValue)

/-- What `refresh_listing` is to show: the loaded lines that the last keywords match, and among them
neither a comment nor an empty line. -/
structure Shows (lib : Library) (L : CLocale) (regex : Bool) (loaded : List Result)
    (state : PagerState) : Prop where
  matching : List.Forall₂ (Flagged lib L regex state.keywords) loaded state.results
  noComment : ∀ result ∈ state.results, result.visible = true →
    result.wcsValue.head? ≠ some hash
  noEmpty : ∀ result ∈ state.results, result.visible = true → result.wcsValue ≠ []

/-- The bytes of a line leave room for a NUL in the buffer of `line_matches_regex`. -/
def HoldsLine (L : CLocale) (line : List WChar) : Prop :=
  ∃ mbs, L.encode line = some mbs ∧ mbs.length < maxLineSize

/-- Comparisons that are defined: the buffers hold all that is put into them. -/
structure Held (L : CLocale) (regex : Bool) (loaded : List Result) (typed keywords : List Bytes) :
    Prop where
  prompt : ∀ text ∈ typed, text.length < promptLength
  plain : regex = false → ∀ keyword ∈ keywords, Fits L keyword
  /-- No line is converted where there is no regular expression, and no comment is. -/
  expressions : regex = true → keywords ≠ [] → ∀ line ∈ loaded,
    line.wcsValue.head? ≠ some hash → HoldsLine L line.wcsValue

variable {lib : Library} {L : CLocale} {regex : Bool} {loaded : List Result}

/-- The loop over the regular expressions, where each one that it comes to compiles. -/
theorem lineMatchesRegex_iff {behind : Bytes} {keywords : List Bytes} {line : List WChar}
    {visible : Bool} (held : keywords ≠ [] → HoldsLine L line)
    (ok : lineMatchesRegex lib L behind line keywords = .ok visible) :
    visible = true ↔ ∀ keyword ∈ keywords,
      (lib.regcomp keyword).any (fun accepts => accepts ((L.encode line).getD [])) = true := by
  induction keywords with
  | nil =>
    cases ok
    simp
  | cons keyword rest ih =>
    obtain ⟨mbs, written, short⟩ := held (List.cons_ne_nil _ _)
    have stored : L.wcstombs behind maxLineSize line = (L.encode line).getD [] := by
      rw [L.wcstombs_fits written short, written, Option.getD_some]
    rw [List.forall_mem_cons]
    unfold lineMatchesRegex at ok
    rw [stored] at ok
    cases compiled : lib.regcomp keyword with
    | none => simp [compiled] at ok
    | some accepts =>
      simp only [compiled] at ok
      split at ok
      · rename_i accepted
        rw [ih (fun _ => ⟨mbs, written, short⟩) ok]
        simp [accepted]
      · rename_i rejected
        cases ok
        simp [rejected]

/-- `line_matches` in both modes. -/
theorem lineMatches_iff {keywords : List Bytes} {leftovers : Leftovers} {line : List WChar}
    {visible : Bool} (plain : regex = false → ∀ keyword ∈ keywords, Fits L keyword)
    (short : regex = true → keywords ≠ [] → line.head? ≠ some hash → HoldsLine L line)
    (ok : lineMatches lib L regex leftovers keywords line = .ok visible) :
    visible = true ↔ Matches lib L regex keywords line := by
  cases regex with
  | false =>
    rw [lineMatches_plain (plain rfl)] at ok
    cases ok
    rw [decide_eq_true_iff]
    simp [Matches, Wanted]
  | true =>
    unfold lineMatches at ok
    split at ok
    · rename_i comment
      cases ok
      simp [Matches, comment]
    · rename_i other
      have flag := lineMatchesRegex_iff (fun some => short rfl some other) ok
      rw [flag]
      simp [Matches, other]

/-- A search keeps the lines, and their order. -/
theorem filterFrom_kept {keywords : List Bytes} {leftovers : Nat → Leftovers} {i : Nat}
    {results filtered : List Result}
    (ok : filterFrom lib L regex leftovers keywords i results = .ok filtered) :
    List.Forall₂ (fun line result => result = { line with visible := result.visible })
      results filtered := by
  induction results generalizing i filtered with
  | nil =>
    cases ok
    exact .nil
  | cons line rest ih =>
    unfold filterFrom at ok
    split at ok
    · cases ok
    · split at ok
      · cases ok
      · rename_i others found
        cases ok
        exact .cons rfl (ih found)

/-- A search sets every flag. -/
theorem filterFrom_flagged {keywords : List Bytes} {leftovers : Nat → Leftovers} {i : Nat}
    {results filtered : List Result}
    (plain : regex = false → ∀ keyword ∈ keywords, Fits L keyword)
    (short : regex = true → keywords ≠ [] → ∀ line ∈ results,
      line.wcsValue.head? ≠ some hash → HoldsLine L line.wcsValue)
    (ok : filterFrom lib L regex leftovers keywords i results = .ok filtered) :
    List.Forall₂ (Flagged lib L regex keywords) results filtered := by
  induction results generalizing i filtered with
  | nil =>
    cases ok
    exact .nil
  | cons line rest ih =>
    unfold filterFrom at ok
    split at ok
    · cases ok
    · rename_i visible matched
      split at ok
      · cases ok
      · rename_i others found
        cases ok
        have first := lineMatches_iff plain
          (fun mode some other => short mode some line List.mem_cons_self other) matched
        have later := ih
          (fun mode some other member => short mode some other (List.mem_cons_of_mem _ member))
            found
        exact .cons ⟨rfl, first⟩ later

/-- Two relations along three lists. -/
theorem forall₂_chain {α β γ : Type} {R : α → β → Prop} {S : β → γ → Prop} {T : α → γ → Prop}
    (chain : ∀ a b c, R a b → S b c → T a c) {first : List α} {second : List β} {third : List γ}
    (left : List.Forall₂ R first second) (right : List.Forall₂ S second third) :
    List.Forall₂ T first third := by
  induction left generalizing third with
  | nil =>
    cases right
    exact .nil
  | cons one _ ih =>
    cases right with
    | cons other later => exact .cons (chain _ _ _ one other) (ih later)

/-- Flags that were set before a search do not matter to it. -/
theorem Flagged.of_kept {keywords : List Bytes} {line before result : Result}
    (kept : before = { line with visible := before.visible })
    (flagged : Flagged lib L regex keywords before result) :
    Flagged lib L regex keywords line result := by
  have same : before.wcsValue = line.wcsValue := by rw [kept]
  constructor
  · rw [flagged.1, kept]
  · rw [← same]
    exact flagged.2

variable {typed : List Bytes}

/-- The pager has the lines that were loaded. -/
theorem Reached.kept {state : PagerState} (reached : Reached lib L regex loaded typed state)
    (short : ∀ text ∈ typed, text.length < promptLength) :
    List.Forall₂ (fun line result => result = { line with visible := result.visible })
      loaded state.results := by
  induction reached with
  | get filtered => exact filterFrom_kept filtered
  | prompt =>
    rw [List.forall₂_same]
    intro result _
    rfl
  | turn earlier turn taken ih =>
    rw [List.forall_mem_cons] at short
    obtain ⟨_, _, _, filtered⟩ := of_pagerSearch (of_pagerTurn taken)
    apply forall₂_chain _ (ih short.2) (filterFrom_kept filtered)
    intro line before result kept again
    rw [again, kept]
  | outside earlier turn overrun after ih =>
    rw [List.forall_mem_cons] at short
    exact absurd short.1 (Nat.not_lt.mpr (long_of_outside overrun))

/-- At each listing the flags are those of the last keywords. -/
theorem Reached.flagged {state : PagerState} (reached : Reached lib L regex loaded typed state)
    (listing : state.startWithPrompt = false) (held : Held L regex loaded typed state.keywords) :
    List.Forall₂ (Flagged lib L regex state.keywords) loaded state.results := by
  obtain ⟨short, plain, lines⟩ := held
  cases reached with
  | get filtered => exact filterFrom_flagged plain lines filtered
  | prompt => contradiction
  | turn earlier turn taken =>
    rw [List.forall_mem_cons] at short
    obtain ⟨_, _, _, filtered⟩ := of_pagerSearch (of_pagerTurn taken)
    have kept := earlier.kept short.2
    have flags := filterFrom_flagged plain (fun mode some result member other => by
      obtain ⟨line, there, same⟩ := Decoding.exists_left_of_mem kept member
      have value : result.wcsValue = line.wcsValue := by rw [same]
      rw [value] at other ⊢
      exact lines mode some line there other) filtered
    apply forall₂_chain _ kept flags
    intro line before result kept flagged
    exact flagged.of_kept kept
  | outside earlier turn overrun =>
    rw [List.forall_mem_cons] at short
    exact absurd short.1 (Nat.not_lt.mpr (long_of_outside overrun))

/-- A loaded line is visible where the keywords match it. -/
theorem exists_visible {state : PagerState} {line : Result}
    (all : List.Forall₂ (Flagged lib L regex state.keywords) loaded state.results)
    (member : line ∈ loaded) (matching : Matches lib L regex state.keywords line.wcsValue) :
    ∃ result ∈ state.results, result.visible = true ∧ result.wcsValue = line.wcsValue := by
  obtain ⟨result, inside, flagged⟩ := Decoding.exists_left_of_mem all.flip member
  have flag : Flagged lib L regex state.keywords line result := flagged
  exact ⟨result, inside, flag.2.mpr matching, by rw [flag.1]⟩

/-- Where the comparisons are defined, the pager shows what it is to show exactly if it has no empty
line that the last keywords match. -/
theorem Reached.shows_iff {state : PagerState} (reached : Reached lib L regex loaded typed state)
    (listing : state.startWithPrompt = false) (held : Held L regex loaded typed state.keywords) :
    Shows lib L regex loaded state ↔
      ((∃ line ∈ loaded, line.wcsValue = []) → ¬ Matches lib L regex state.keywords []) := by
  have flagged := reached.flagged listing held
  constructor
  · rintro shows ⟨line, member, empty⟩ matching
    rw [← empty] at matching
    obtain ⟨result, inside, visible, value⟩ := exists_visible flagged member matching
    exact shows.noEmpty result inside visible (value.trans empty)
  · intro condition
    constructor
    · exact flagged
    · intro result inside visible
      obtain ⟨line, _, flag⟩ := Decoding.exists_left_of_mem flagged inside
      have value : result.wcsValue = line.wcsValue := by rw [flag.1]
      rw [value]
      exact (flag.2.mp visible).1
    · intro result inside visible empty
      obtain ⟨line, member, flag⟩ := Decoding.exists_left_of_mem flagged inside
      have value : result.wcsValue = line.wcsValue := by rw [flag.1]
      rw [value] at empty
      apply condition ⟨line, member, empty⟩
      rw [← empty]
      exact flag.2.mp visible

/-- What `mdp get` starts the pager with, in every run of its calls. -/
theorem reached_of_mdpGet {S : Type} {f : Effect posix S} {cfg : Config}
    {leftovers : Nat → Leftovers} {keywords : List Bytes} {state : PagerState} {s t : S}
    (run : Reaches f (mdpGet lib L cfg regex leftovers keywords) s (.done state) t) :
    ∃ memory u v, Reaches f (loadPasswords L cfg) u (.done memory) v ∧
      Reached lib L regex memory.results [] state := by
  simp only [mdpGet, Program.bind_eq] at run
  obtain ⟨_, u, _, run⟩ := Reaches.of_bind_done run
  obtain ⟨memory, v, load, run⟩ := Reaches.of_bind_done run
  obtain ⟨results, w, search, run⟩ := Reaches.of_bind_done run
  have ended : state = ⟨false, keywords, results⟩ := by
    cases run
    rfl
  have filtered : filterResults lib L regex leftovers keywords memory.results = .ok results := by
    cases found : filterResults lib L regex leftovers keywords memory.results with
    | error ending =>
      rw [found] at search
      cases search
    | ok value =>
      rw [found] at search
      cases search
      rfl
  rw [ended]
  exact ⟨memory, u, v, load, .get filtered⟩

/-- What `mdp prompt` starts the pager with, in every run of its calls. -/
theorem reached_of_mdpPrompt {S : Type} {f : Effect posix S} {cfg : Config}
    {state : PagerState} {s t : S}
    (run : Reaches f (mdpPrompt L cfg) s (.done state) t) :
    ∃ memory u v, Reaches f (loadPasswords L cfg) u (.done memory) v ∧
      Reached lib L regex memory.results [] state := by
  simp only [mdpPrompt, Program.bind_eq] at run
  obtain ⟨_, u, _, run⟩ := Reaches.of_bind_done run
  obtain ⟨memory, v, load, run⟩ := Reaches.of_bind_done run
  have ended : state = ⟨true, [], memory.results⟩ := by
    cases run
    rfl
  rw [ended]
  exact ⟨memory, u, v, load, .prompt⟩

/-- When a search leaves nothing else to be shown: its comparisons are defined, no line that was
typed has filled the buffer of a prompt, and no loaded line is empty or the keywords do not match
the empty line. -/
def Admitted (lib : Library) (L : CLocale) (regex : Bool) (loaded : List Result)
    (typed keywords : List Bytes) : Prop :=
  Held L regex loaded typed keywords ∧
    ((∃ line ∈ loaded, line.wcsValue = []) → ¬ Matches lib L regex keywords [])

/-- The lines of a password file with an empty line between two others. -/
def sampleResults : List Result :=
  [⟨true, [0x61], [0x61], 1, 1⟩, ⟨true, [], [], 0, 0⟩, ⟨true, [0x62], [0x62], 1, 1⟩]

/-- They are what such a file is loaded as. -/
example : (loadContent .ascii .initial (ascii "a\n\nb\n")).toOption.map Memory.results =
    some sampleResults := by decide +kernel

end Mdp.Listing
