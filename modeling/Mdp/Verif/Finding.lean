import Mdp.Verif.Adding
import Mdp.Verif.Printing

/-!
# What `mdp add` adds is found again

A password without prefix is a line of its own, and a line that begins with `#` is a comment to
every search. Character sets with symbols contain that sign, so some passwords are never found
again.
-/

namespace Mdp.Finding

open Mdp Interaction CStrings Entries Appending Undisturbed Adding Printing

/-- A search in plain mode, by any keywords that occur in an entry, makes the result at an index
visible, and this holds the entry. -/
def FoundAt (lib : Library) (L : CLocale) (results : List Result) (index : Nat)
    (entry : List WChar) : Prop :=
  ∀ (keywords : List Bytes) (leftovers : Nat → Leftovers), keywords ≠ [] →
    (∀ keyword ∈ keywords, Fits L keyword ∧ Occurs lib L keyword entry) →
    ∃ filtered result, filterResults lib L false leftovers keywords results = .ok filtered ∧
      filtered[index]? = some result ∧ result.wcsValue = entry ∧ result.visible = true

/-- The old entries as they read back once they are written again. -/
def rewritten (L : CLocale) (content : Option Bytes) : List (List WChar) :=
  reloaded L (resultsOf L content)

/-- The new file reads back as the old entries and the new ones behind them, and each of the new
ones is found. -/
structure FoundAgain (lib : Library) (L : CLocale) (before after : Option Bytes)
    (entries : List (List WChar)) : Prop where
  back : entriesOf L after = rewritten L before ++ entries
  found : ∀ index entry, entries[index]? = some entry →
    FoundAt lib L (resultsOf L after) ((rewritten L before).length + index) entry

/-- Options that hold strings: no character of a set or of the prefix is NUL. -/
structure HoldStrings (opts : AddOptions) : Prop where
  characterSet : ∀ profile, profileOf opts = some profile → (0 : WChar) ∉ profile.letters
  prefixText : ∀ text, opts.prefixText = some text → (0 : WChar) ∉ text

/-- The characters of a password are in its set. -/
theorem mem_passwordOf {set : List WChar} (full : set ≠ []) (length : Nat) (weights : List UInt32) :
    ∀ wide ∈ passwordOf set length weights, wide ∈ set := by
  induction length generalizing weights with
  | zero => simp [passwordOf]
  | succ length ih =>
    rw [passwordOf, List.forall_mem_cons]
    refine ⟨?_, ih _⟩
    have bound : heaviest 0 0 0 ((weights.take set.length).map fun drawn => 1 + drawn.toNat) <
        set.length := by
      apply heaviest_lt (List.length_pos_of_ne_nil full)
      rw [List.length_map, List.length_take]
      omega
    rw [chosen, List.getD_eq_getElem?_getD, List.getElem?_eq_getElem bound, Option.getD_some]
    exact List.getElem_mem bound

/-- A password has the length that was asked for. -/
theorem length_passwordOf (set : List WChar) (length : Nat) (weights : List UInt32) :
    (passwordOf set length weights).length = length := by
  induction length generalizing weights with
  | zero => rfl
  | succ length ih => rw [passwordOf, List.length_cons, ih]

/-- Every password is one of some weights. -/
theorem exists_of_mem_passwordsOf {set : List WChar} {length count : Nat} {weights : List UInt32}
    {password : List WChar} (member : password ∈ passwordsOf set length count weights) :
    ∃ own, password = passwordOf set length own := by
  induction count generalizing weights with
  | zero => cases member
  | succ count ih =>
    rw [passwordsOf, List.mem_cons] at member
    rcases member with first | later
    · exact ⟨weights, first⟩
    · exact ih later

/-- An entry ends as its password does. -/
theorem entryOf_getLast? {opts : AddOptions} {password : List WChar} (nonempty : password ≠ []) :
    (entryOf opts password).getLast? = password.getLast? := by
  unfold entryOf
  cases opts.prefixText with
  | none => rfl
  | some text =>
    rw [List.getLast?_append, List.getLast?_cons_of_ne_nil nonempty,
      List.getLast?_eq_some_getLast nonempty, Option.some_or]

/-- The characters of an entry are those of the prefix, the tab and those of the password. -/
theorem mem_entryOf {opts : AddOptions} {password : List WChar} {wide : WChar}
    (member : wide ∈ entryOf opts password) :
    (∃ text, opts.prefixText = some text ∧ wide ∈ text) ∨ wide = 0x09 ∨ wide ∈ password := by
  unfold entryOf at member
  cases given : opts.prefixText with
  | none =>
    rw [given] at member
    exact .inr (.inr member)
  | some text =>
    rw [given] at member
    simp only [List.mem_append, List.mem_cons] at member
    rcases member with inside | rfl | later
    · exact .inl ⟨text, rfl, inside⟩
    · exact .inr (.inl rfl)
    · exact .inr (.inr later)

/-- What is generated from strings, a set without whitespace and a prefix without newline is held by
a line if it is short enough. -/
theorem storable_generated {L : CLocale} {opts : AddOptions} {weights : List UInt32}
    {profile : Profile} (named : profileOf opts = some profile) (full : profile.letters ≠ [])
    (positive : 1 ≤ passwordLength opts profile) (strings : HoldStrings opts)
    (blankless : ∀ wide ∈ profile.letters, wide ∉ wcsWhitespace)
    (oneLine : ∀ text, opts.prefixText = some text → newline.toUInt32 ∉ text) {entry : List WChar}
    (member : entry ∈ generated opts weights)
    (short : ∃ text, L.encode entry = some text ∧ text.length ≤ maxLineSize - 2) :
    Storable L entry := by
  rw [generated, named] at member
  obtain ⟨password, inside, rfl⟩ := List.mem_map.mp member
  obtain ⟨own, same⟩ := exists_of_mem_passwordsOf inside
  have characters : ∀ wide ∈ password, wide ∈ profile.letters := by
    rw [same]
    exact mem_passwordOf full _ own
  have nonempty : password ≠ [] := by
    apply List.ne_nil_of_length_pos
    rw [same, length_passwordOf]
    exact positive
  refine ⟨?_, ?_, ?_, short⟩
  · intro present
    rcases mem_entryOf present with ⟨text, given, held⟩ | tab | drawn
    · exact oneLine text given held
    · exact absurd tab (by decide)
    · exact blankless _ (characters _ drawn) (by decide)
  · intro present
    rcases mem_entryOf present with ⟨text, given, held⟩ | tab | drawn
    · exact strings.prefixText text given held
    · exact absurd tab (by decide)
    · exact strings.characterSet profile named (characters _ drawn)
  · intro wide last
    rw [entryOf_getLast? nonempty] at last
    exact blankless wide (characters wide (List.mem_of_getLast? last))

variable {lib : Library} {L : CLocale}

/-- A result is found by what occurs in its entry exactly if the entry is no comment. -/
theorem foundAt_iff {results : List Result} {index : Nat} {entry : List WChar}
    (there : (results.map Result.wcsValue)[index]? = some entry) :
    FoundAt lib L results index entry ↔ entry.head? ≠ some hash := by
  have held : ∀ keywords : List Bytes, (∀ keyword ∈ keywords, Fits L keyword) →
      ∀ leftovers, filterResults lib L false leftovers keywords results =
          .ok (results.map fun result =>
              { result with visible := decide (Wanted lib L keywords result.wcsValue) }) :=
    fun keywords fits leftovers => filterFrom_plain fits leftovers 0 results
  rw [List.getElem?_map, Option.map_eq_some_iff] at there
  obtain ⟨result, at', same⟩ := there
  constructor
  · intro found
    have nothing : Fits L [] := ⟨by simp, [], rfl, by decide⟩
    have occurs : Occurs lib L [] entry := by simp [Occurs, CLocale.decode, CLocale.decodeWithin]
    obtain ⟨filtered, visible, ok, member, _, shown⟩ := found [[]] (fun _ => ⟨[], []⟩) (by simp)
      (by rw [List.forall_mem_singleton]; exact ⟨nothing, occurs⟩)
    rw [held [[]] (by rw [List.forall_mem_singleton]; exact nothing), Except.ok.injEq] at ok
    rw [← ok, List.getElem?_map, at', Option.map_some, Option.some.injEq] at member
    rw [← member] at shown
    rw [← same]
    exact (of_decide_eq_true shown).1
  · intro plain keywords leftovers _ all
    have shown : Wanted lib L keywords result.wcsValue := by
      rw [same]
      exact ⟨plain, fun keyword member => (all keyword member).2⟩
    exact ⟨_, { result with visible := decide (Wanted lib L keywords result.wcsValue) },
      held keywords (fun keyword member => (all keyword member).1) leftovers,
      by rw [List.getElem?_map, at', Option.map_some], same, decide_eq_true shown⟩

/-- After a run of `mdp add` that nothing disturbs and that saves, for a character set without
whitespace and a prefix that is no comment and one line, the new entries come back and are found
again exactly if none of them begins with `#` and each of them is short enough for a line. -/
theorem found_again_iff (lib : Library) (cfg : Config) (L : CLocale) (exact : L.Exact)
    (decrypt : Bytes → Bytes) (opts : AddOptions) (s t : State) (weights : List UInt32)
    (run : Reaches (undisturbedCalls decrypt) (mdpAdd cfg L opts) (⟨[], false⟩, s) (.done ())
      (⟨weights, true⟩, t)) (strings : HoldStrings opts)
    (blankless : ∀ profile, profileOf opts = some profile →
      ∀ wide ∈ profile.letters, wide ∉ wcsWhitespace)
    (plain : ∀ text, opts.prefixText = some text →
      text.head? ≠ some hash ∧ newline.toUInt32 ∉ text) :
    FoundAgain lib L (plaintext decrypt s) (plaintext decrypt t) (generated opts weights) ↔
      ∀ entry ∈ generated opts weights, entry.head? ≠ some hash ∧
        ∃ text, L.encode entry = some text ∧ text.length ≤ maxLineSize - 2 := by
  obtain ⟨old, new, added⟩ := (mdpAdd_ends opts rfl).of_run run rfl
  have before : rewritten L (plaintext decrypt s) = reloaded L old := by
    rw [rewritten, resultsOf_before added]
  have back := entriesOf_after_iff exact added
  have there : ∀ index entry, (generated opts weights)[index]? = some entry →
      entriesOf L (plaintext decrypt t) = reloaded L old ++ generated opts weights →
      ((resultsOf L (plaintext decrypt t)).map Result.wcsValue)[(reloaded L old).length + index]? =
        some entry := by
    intro index entry at' whole
    have values : (resultsOf L (plaintext decrypt t)).map Result.wcsValue = _ := whole
    rw [values, List.getElem?_append_right (Nat.le_add_right _ _), Nat.add_sub_cancel_left, at']
  constructor
  · intro again entry member
    have whole := again.back
    rw [before] at whole
    obtain ⟨index, at'⟩ := List.getElem?_of_mem member
    have found := again.found index entry at'
    rw [before] at found
    exact ⟨(foundAt_iff (there index entry at' whole)).mp found, (back.mp whole entry member).fits⟩
  · intro condition
    have storable : ∀ entry ∈ generated opts weights, Storable L entry := by
      intro entry member
      obtain ⟨profile, named, full, positive⟩ := added.full (List.ne_nil_of_mem member)
      exact storable_generated named full positive strings (blankless profile named)
        (fun text given => (plain text given).2) member (condition entry member).2
    have whole := back.mpr storable
    refine ⟨by rw [before]; exact whole, fun index entry at' => ?_⟩
    rw [before]
    exact (foundAt_iff (there index entry at' whole)).mpr
      (condition entry (List.mem_of_getElem? at')).1

/-- No prefix, and a character set of visible characters. -/
def visibleSet (opts : AddOptions) : Bool :=
  opts.prefixText.isNone && (profileOf opts).all fun profile =>
    profile.letters.all fun wide => wide != 0 && !wcsWhitespace.contains wide

/-- A visible set is of strings, and without whitespace. -/
theorem of_visibleSet {opts : AddOptions} (visible : visibleSet opts = true) :
    HoldStrings opts ∧ (∀ profile, profileOf opts = some profile →
      ∀ wide ∈ profile.letters, wide ∉ wcsWhitespace) ∧
      ∀ text, opts.prefixText = some text → text.head? ≠ some hash ∧ newline.toUInt32 ∉ text := by
  rw [visibleSet, Bool.and_eq_true, Option.isNone_iff_eq_none] at visible
  obtain ⟨noPrefix, drawn⟩ := visible
  have characters : ∀ profile, profileOf opts = some profile →
      ∀ wide ∈ profile.letters, wide ≠ 0 ∧ wide ∉ wcsWhitespace := by
    intro profile named wide member
    rw [named, Option.all_some, List.all_eq_true] at drawn
    have both := drawn wide member
    simpa using both
  refine ⟨⟨fun profile named member => (characters profile named 0 member).1 rfl, ?_⟩,
    fun profile named wide member => (characters profile named wide member).2, ?_⟩
  · intro text given
    rw [noPrefix] at given
    cases given
  · intro text given
    rw [noPrefix] at given
    cases given

/-- The letters that are drawn by default are found again. -/
theorem found_again_iff_letter : ∃ cfg opts weights t,
    launched "set gpg_key_id k\n" = .ok (cfg, .edits (.add opts)) ∧
    Reaches (undisturbedCalls id) (mdpAdd cfg .ascii opts) (⟨[], false⟩, sampleState true)
      (.done ())
      (⟨weights, true⟩, t) ∧
    (FoundAgain ⟨id, fun _ => none⟩ .ascii (plaintext id (sampleState true))
        (plaintext id t) (generated opts weights) ↔
      ∀ entry ∈ generated opts weights, entry.head? ≠ some hash ∧
        ∃ text, CLocale.ascii.encode entry = some text ∧ text.length ≤ maxLineSize - 2) := by
  have good : (played "set gpg_key_id k\n" 1).any (savedAs [[0x62]] (ascii "p\nb\n")) = true := by
    decide +kernel
  have visible : (addCommand (launched "set gpg_key_id k\n")).all
      (fun command => visibleSet command.2) = true := by decide +kernel
  obtain ⟨cfg, opts, weights, t, command, run, _, _⟩ := exists_of_played good
  rw [command] at visible
  obtain ⟨strings, blankless, plain⟩ := of_visibleSet visible
  exact ⟨cfg, opts, weights, t, command, run,
    found_again_iff _ cfg .ascii CLocale.ascii_exact id opts _ t weights run strings blankless
      plain⟩

/-- A password that is one `#` is never found again. -/
theorem not_found_again : ¬ ∀ (lib : Library) (L : CLocale) (around : Surroundings)
    (argv : List Bytes) (cfg : Config) (decrypt : Bytes → Bytes) (opts : AddOptions) (s t : State)
    (weights : List UInt32), L.Exact → launch L around argv = .ok (cfg, .edits (.add opts)) →
    Reaches (undisturbedCalls decrypt) (mdpAdd cfg L opts) (⟨[], false⟩, s) (.done ())
      (⟨weights, true⟩, t) →
    HoldStrings opts →
    (∀ profile, profileOf opts = some profile →
      ∀ wide ∈ profile.letters, wide ∉ wcsWhitespace) →
    (∀ text, opts.prefixText = some text →
      text.head? ≠ some hash ∧ newline.toUInt32 ∉ text) →
    FoundAgain lib L (plaintext decrypt s) (plaintext decrypt t) (generated opts weights) := by
  intro claim
  have good : (played "set gpg_key_id k\nset character_set $SYMBOLS\n" 4).any
      (savedAs [[0x23]] (ascii "p\n#\n")) = true := by decide +kernel
  have visible : (addCommand (launched "set gpg_key_id k\nset character_set $SYMBOLS\n")).all
      (fun command => visibleSet command.2) = true := by decide +kernel
  obtain ⟨cfg, opts, weights, t, command, run, generation, content⟩ := exists_of_played good
  rw [command] at visible
  obtain ⟨strings, blankless, plain⟩ := of_visibleSet visible
  have again := claim ⟨id, fun _ => none⟩ .ascii _ _ cfg id opts (sampleState true) t
    weights CLocale.ascii_exact command run strings blankless plain
  have before : plaintext id (sampleState true) = some (ascii "p") := rfl
  have found := again.found 0 [0x23] (by rw [generation]; rfl)
  rw [content, before] at found
  have there : ((resultsOf .ascii (some (ascii "p\n#\n"))).map Result.wcsValue)[
      (rewritten .ascii (some (ascii "p"))).length + 0]? = some [0x23] := by decide +kernel
  exact (foundAt_iff there).mp found rfl

end Mdp.Finding
