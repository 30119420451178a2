import Mdp.Launch

/-!
# The parts of a configuration file

A file is a top part and sections, each begun by a `profile` line. The lines of the top part set the
`cfg_` variables, and no later line does.
-/

namespace Mdp.Sections

open Mdp CStrings

/-- What the lines of a configuration file ask for, if there is one. -/
def fileDirectives (config : Option Bytes) : List Directive :=
  directives ((config.map (chunks maxLineSize)).getD [])

/-- A configuration that is read has run what its lines ask for. -/
theorem runAll_of_configRead {L : CLocale} {state final : ConfigState} {config : Option Bytes}
    (accepted : configRead L state config = .ok final) :
    runAll L state (fileDirectives config) = some final := by
  cases config with
  | none =>
    cases accepted
    rfl
  | some content =>
    have read := configRead_toOption L state content
    rw [accepted] at read
    exact read.symm

/-- Whether a line begins a section. -/
def begins : Directive → Bool
  | .profile _ => true
  | _ => false

/-- The lines before the next section. -/
def leading (asked : List Directive) : List Directive := asked.takeWhile fun first => !begins first

/-- The value a line gives to a setting. -/
def given (setting : Bytes) : Directive → Option Bytes
  | .set name value => if name = setting then value else none
  | _ => none

/-- A line that sets another one gives it none. -/
theorem given_of_ne {setting name : Bytes} (other : name ≠ setting) (value : Option Bytes) :
    given setting (.set name value) = none := if_neg other

/-- The value that the last `set` of a setting stored; `read` converts the text. -/
def lastValue {α : Type} (read : Bytes → Option α) (setting : Bytes) (asked : List Directive) :
    Option α := (asked.filterMap fun first => (given setting first).bind read).getLast?

/-- A later line counts before an earlier one. -/
theorem lastValue_cons {α : Type} (read : Bytes → Option α) (setting : Bytes) (first : Directive)
    (rest : List Directive) : lastValue read setting (first :: rest) =
      (lastValue read setting rest).or ((given setting first).bind read) := by
  unfold lastValue
  cases here : (given setting first).bind read with
  | none => simp only [List.filterMap_cons, here, Option.or_none]
  | some value =>
    simp only [List.filterMap_cons, here, List.getLast?_cons]
    cases (List.filterMap (fun first => (given setting first).bind read) rest).getLast? <;> simp

/-- A line that does not set it does not count. -/
theorem lastValue_cons_of_none {α : Type} (read : Bytes → Option α) {setting : Bytes}
    {first : Directive} (other : given setting first = none) (rest : List Directive) :
    lastValue read setting (first :: rest) = lastValue read setting rest := by
  rw [lastValue_cons, other, Option.bind_none, Option.or_none]

/-- A value that counts is the value of some line. -/
theorem lastValue_mem {α : Type} {read : Bytes → Option α} {setting : Bytes}
    {asked : List Directive}
    {value : α} (last : lastValue read setting asked = some value) :
    ∃ text, .set setting (some text) ∈ asked ∧ read text = some value := by
  obtain ⟨first, member, found⟩ := List.mem_filterMap.mp (List.mem_of_getLast? last)
  obtain ⟨text, there, converted⟩ := Option.bind_eq_some_iff.mp found
  cases first with
  | set name value =>
    simp only [given, Option.ite_none_right_eq_some] at there
    obtain ⟨rfl, rfl⟩ := there
    exact ⟨text, member, converted⟩
  | _ => cases there

/-- No line of a section changes the `cfg_` variables. -/
theorem runAll_settings {L : CLocale} {cfg : Settings} {older : List Profile} {profile : Profile}
    {asked : List Directive} {final : ConfigState}
    (accepted : runAll L ⟨cfg, older, some profile⟩ asked = some final) : final.settings = cfg := by
  induction asked generalizing older profile with
  | nil =>
    cases accepted
    rfl
  | cons first rest ih =>
    obtain ⟨next, taken, later⟩ := of_runAll_cons accepted
    cases taken with
    | nothing => exact ih later
    | setTop top => cases top
    | setInside => exact ih later
    | profile => exact ih later

/-- What holds of the `cfg_` variables before and after the top part, line by line. -/
theorem top_induction {L : CLocale} {motive : Settings → List Directive → Settings → Prop}
    (nil : ∀ cfg, motive cfg [] cfg)
    (nothing : ∀ cfg rest final, motive cfg rest final → motive cfg (.nothing :: rest) final)
    (set : ∀ name value cfg next rest final, VariableSet L name value cfg next →
      motive next rest final → motive cfg (.set name value :: rest) final)
    {cfg : Settings} {asked : List Directive} {final : ConfigState}
    (accepted : runAll L ⟨cfg, [], none⟩ asked = some final) :
    motive cfg (leading asked) final.settings := by
  induction asked generalizing cfg with
  | nil =>
    cases accepted
    exact nil cfg
  | cons first rest ih =>
    obtain ⟨next, taken, later⟩ := of_runAll_cons accepted
    cases taken with
    | nothing => exact nothing cfg _ _ (ih later)
    | @setTop name value settings _ ran =>
        exact set name value cfg settings _ _ (of_setVariable ran) (ih later)
    | setInside inside => cases inside
    | profile =>
      rw [runAll_settings later]
      exact nil cfg

end Mdp.Sections
