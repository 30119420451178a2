import Mdp.Screen
import Mdp.Verif.Numerals

/-!
# The timeout of the pager

A `set timeout` line sets a number of seconds, and curses is given milliseconds as an `int`. Where
the product does not fit, the delay is another one, or negative, which makes `getch` wait without
limit.
-/

namespace Mdp.Timeout

open Mdp CStrings Sections Numerals

/-- The value that the last `set timeout` line of the top part gives. -/
def timeoutText (config : Option Bytes) : Option Bytes :=
  lastValue some (ascii "timeout") (leading (fileDirectives config))

/-- The top part sets the timeout to the number of that line. -/
theorem timeout_top {L : CLocale} {cfg : Settings} {asked : List Directive} {final : ConfigState}
    (accepted : runAll L ⟨cfg, [], none⟩ asked = some final) :
    final.settings.timeout =
      ((lastValue some (ascii "timeout") (leading asked)).map unsignedOf).getD cfg.timeout := by
  refine top_induction (motive := fun cfg lines left => left.timeout =
    ((lastValue some (ascii "timeout") lines).map unsignedOf).getD cfg.timeout) ?_ ?_ ?_ accepted
  · intro cfg
    rfl
  · intro cfg rest left same
    rw [lastValue_cons_of_none some rfl]
    exact same
  · intro name value cfg next rest left changed same
    rw [same]
    by_cases named : name = ascii "timeout"
    · subst named
      cases changed with
      | timeout _ there =>
        rw [lastValue_cons, given, if_pos rfl, there, Option.bind_some]
        cases lastValue some (ascii "timeout") rest <;> rfl
      | _ named => exact absurd named (by decide)
    · have kept : next.timeout = cfg.timeout := by
        cases changed with
        | timeout here => exact absurd here named
        | _ => rfl
      rw [kept, lastValue_cons_of_none some (given_of_ne named value)]

/-- The delay for a number of seconds is that many seconds exactly if the milliseconds fit in an
`int`. -/
theorem delay_iff {cfg : Settings} {n : Nat} (seconds : cfg.timeout.toNat = converted n) :
    (0 ≤ cursesDelay cfg ∧ cursesDelay cfg = 1000 * n) ↔ n ≤ 2147483 := by
  have product : (cfg.timeout * 1000).toNat = converted n * 1000 % 4294967296 := by
    rw [UInt32.toNat_mul, seconds]
    rfl
  have bound := (cfg.timeout * 1000).toNat_lt
  unfold cursesDelay asInt
  constructor
  · rintro ⟨nonnegative, equal⟩
    split at equal <;> omega
  · intro small
    rw [converted_of_lt (by omega), Nat.mod_eq_of_lt (by omega)] at product
    rw [product, if_pos (by omega)]
    omega

/-- With a configuration that is read, whose last `set timeout` line gives a numeral, curses waits
that many seconds exactly if the number is at most 2147483. -/
theorem waits_iff {L : CLocale} {around : Surroundings} {cmd : CommandVariables}
    {state : ConfigState}
    {text : Bytes} {n : Nat} (read : readConfig L around cmd = .ok state)
    (line : timeoutText around.config = some text) (numeral : Numeral n text) :
    (0 ≤ cursesDelay state.settings ∧ cursesDelay state.settings = 1000 * n) ↔ n ≤ 2147483 := by
  obtain ⟨before, accepted, rfl⟩ := of_readConfig read
  have top := timeout_top (runAll_of_configRead accepted)
  apply delay_iff
  have last : lastValue some (ascii "timeout") (leading (fileDirectives around.config)) =
      some text :=
    line
  rw [last] at top
  show before.settings.timeout.toNat = _
  rw [top]
  exact unsignedOf_numeral numeral

/-- A configuration file with one line. -/
def timeoutFile (value : String) : Option Bytes := some (ascii ("set timeout " ++ value ++ "\n"))

/-- What a process finds with such a file. -/
def timeoutAround (value : String) : Surroundings :=
  ⟨false, none, ascii "/h/.mdp", timeoutFile value⟩

/-- The configuration that it comes to. -/
def timeoutState (seconds : UInt32) : ConfigState :=
  ⟨configSetDefaults (ascii "/h/.mdp") .initial { Settings.initial none with timeout := seconds },
    [], none⟩

/-- A timeout of fifteen seconds. -/
theorem waits_iff_fifteen :
    (0 ≤ cursesDelay (timeoutState 15).settings ∧
      cursesDelay (timeoutState 15).settings = 1000 * 15) ↔ 15 ≤ 2147483 :=
  waits_iff (by rfl : readConfig .ascii (timeoutAround "15") .initial = .ok (timeoutState 15))
    (by decide +kernel : timeoutText (timeoutAround "15").config = some (ascii "15"))
    (by decide +kernel : Numeral 15 (ascii "15"))

/-- With `set timeout 2147484` the delay is negative. -/
theorem not_waits : ¬ ∀ (L : CLocale) (around : Surroundings) (cmd : CommandVariables)
    (state : ConfigState) (text : Bytes) (n : Nat), readConfig L around cmd = .ok state →
    timeoutText around.config = some text → Numeral n text → 1 ≤ n →
    0 ≤ cursesDelay state.settings ∧ cursesDelay state.settings = 1000 * n := by
  intro waits
  have delay := waits .ascii (timeoutAround "2147484") .initial (timeoutState 2147484)
    (ascii "2147484") 2147484 (by rfl) (by decide +kernel) (by decide +kernel) (by decide)
  exact absurd delay (by decide +kernel)

end Mdp.Timeout
