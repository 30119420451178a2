import Mdp.Verif.SetLines

/-!
# Character sets

`set character_set` with a value that is not quoted. `strdelim` ends a token at an `=`, so the set
has all the characters of the value exactly when none of them is one.
-/

namespace Mdp.CharacterSets

open Mdp CStrings SetLines

/-- The character set that a `set` line sets: of the current profile, if there is one. -/
def characterSetInForce (state : ConfigState) : Option (List WChar) :=
  match state.currentProfile with
  | none => state.settings.characterSet
  | some profile => profile.characterSet

/-- What a value makes of the set. -/
theorem configSet_characterSet {L : CLocale} {given : Bytes} {wides : List WChar}
    (nonempty : given ≠ []) (resolved : configResolveCharacterSet L given = some wides)
    (linenum : Nat)
    (state : ConfigState) :
    ∃ next, configSet L (ascii "character_set") (some given) linenum state = .ok next ∧
      characterSetInForce next = some wides := by
  have value : ∀ message,
      characterSetValue L linenum message (some given) = .ok wides := by
    intro message
    cases given with
    | nil => exact absurd rfl nonempty
    | cons byte rest =>
      unfold characterSetValue givenValue
      simp only [bind, Except.bind, resolved]
  cases current : state.currentProfile with
  | none =>
    have set : setVariable L (ascii "character_set") (some given) linenum state.settings =
        .ok { state.settings with characterSet := some wides } := by
      show (do
        let set ← characterSetValue L linenum _ (some given)
        Except.ok { state.settings with characterSet := some set }) = _
      rw [value]
      rfl
    refine ⟨{ state with settings := { state.settings with characterSet := some wides } }, ?_, ?_⟩
    · simp only [configSet, current, set]
      rfl
    · simp only [characterSetInForce, current]
  | some profile =>
    have set : setProfileVariable L (ascii "character_set") (some given) linenum profile =
        .ok { profile with characterSet := wides } := by
      show (do
        let set ← characterSetValue L linenum _ (some given)
        Except.ok { profile with characterSet := set }) = _
      rw [value]
      rfl
    refine ⟨{ state with currentProfile := some { profile with characterSet := wides } }, ?_, rfl⟩
    simp only [configSet, current, set]
    rfl

/-- The set in force after an accepted line is what its value resolves to. -/
theorem of_configSet {L : CLocale} {value : Option Bytes} {linenum : Nat} {state next : ConfigState}
    (accepted : configSet L (ascii "character_set") value linenum state = .ok next) :
    ∃ given, value = some given ∧ given ≠ [] ∧
      configResolveCharacterSet L given = characterSetInForce next := by
  unfold configSet at accepted
  cases current : state.currentProfile with
  | none =>
    rw [current] at accepted
    obtain ⟨settings, set, same⟩ := bind_eq_ok accepted
    cases same
    cases of_setVariable set with
    | characterSet _ there full resolved =>
      refine ⟨_, there, full, ?_⟩
      simp only [resolved, characterSetInForce]
    | _ named => exact absurd named (by decide)
  | some profile =>
    rw [current] at accepted
    obtain ⟨changed, set, same⟩ := bind_eq_ok accepted
    cases same
    obtain ⟨given, there, full, cases⟩ := of_setProfileVariable set
    rcases cases with ⟨named, -⟩ | ⟨-, wides, resolved, rfl⟩ | ⟨named, -⟩
    · exact absurd named (by decide)
    · exact ⟨given, there, full, resolved⟩
    · exact absurd named (by decide)

/-- The set of an alias has quotes in it, or no `$`. -/
theorem of_characterSetAlias {value : Bytes} {wides : List WChar}
    (named : characterSetAlias value = some wides) :
    0x24 ∈ value ∧ (quote.toUInt32 ∈ wides ∨ 0x24 ∉ wides) := by
  unfold characterSetAlias at named
  repeat
    split at named
    · rename_i same
      cases named
      rw [same]
      decide +kernel
  cases named

/-- A text without quotes does not spell the set of an alias that is part of it. -/
theorem ne_of_alias {L : CLocale} (exact : L.Exact) {value token : Bytes} {wides set : List WChar}
    (unquoted : quote ∉ value) (decoded : L.decode value = some wides)
    (part : 0x24 ∈ token → 0x24 ∈ value) (named : characterSetAlias token = some set) :
    set ≠ wides := by
  have written := exact.encode_of_decode decoded
  obtain ⟨dollar, quoted | free⟩ := of_characterSetAlias named
  · rintro rfl
    -- a quote in the set is a quote in the text
    exact unquoted (exact.mem_of_encode (by decide) written quoted)
  · rintro rfl
    have sign : CLocale.Plain 0x24 := by decide
    exact exact.notMem_of_encode sign written free (part dollar)

/-- A text without quotes has the characters of a token that is part of it only if it is this
token. -/
theorem eq_of_resolved {L : CLocale} (exact : L.Exact) {value token : Bytes} {wides : List WChar}
    (unquoted : quote ∉ value) (decoded : L.decode value = some wides)
    (part : ∀ byte ∈ token, byte ∈ value)
    (resolved : configResolveCharacterSet L token = some wides) : token = value := by
  cases named : characterSetAlias token with
  | some set =>
    rw [configResolveCharacterSet, named, Option.some_or] at resolved
    have other := ne_of_alias exact unquoted decoded (part 0x24) named
    exact absurd (Option.some.inj resolved) other
  | none =>
    rw [configResolveCharacterSet, named, Option.none_or] at resolved
    have written := exact.encode_of_decode resolved
    rw [exact.encode_of_decode decoded] at written
    exact (Option.some.inj written).symm

/-- A line that sets the character set to a value without quotes around it. -/
def characterSetLine (lead gap spaces value trail : Bytes) : Bytes :=
  lead ++ (ascii "set" ++
    (gap ++ (ascii "character_set" ++ (spaces ++ (value ++ (trail ++ [newline]))))))

/-- A value that can stand without quotes on one line. -/
structure BareValue (value : Bytes) : Prop where
  nonempty : value ≠ []
  ink : ∀ byte ∈ value, byte ∉ whitespace
  unquoted : quote ∉ value
  nonNull : (0 : UInt8) ∉ value

/-- Without `=` it is one token. -/
theorem BareValue.word {value : Bytes} (bare : BareValue value) (free : equals ∉ value) :
    Word value := by
  intro byte member
  have ink := bare.ink byte member
  have unquoted : byte ≠ quote := fun same => bare.unquoted (same ▸ member)
  have other : byte ≠ equals := fun same => free (same ▸ member)
  unfold inToken
  rw [decide_eq_true_eq, List.mem_append, not_or]
  simp [ink, unquoted, other]

/-- What is left of the buffer for the value: all of it but an `=` in front. -/
theorem afterDelimiter_value {delimiter : UInt8} {blanks value : Bytes} (only : Blanks blanks)
    (other : delimiter ≠ equals) (bare : BareValue value) :
    afterDelimiter delimiter (blanks ++ value) = value ∨
      value = equals :: afterDelimiter delimiter (blanks ++ value) := by
  cases value with
  | nil => exact absurd rfl bare.nonempty
  | cons byte rest =>
    have ink := bare.ink byte (List.mem_cons_self ..)
    by_cases sign : byte = equals
    · have solid : skipWhitespace rest = rest := by
        cases rest with
        | nil => rfl
        | cons first rest =>
          show skipWhitespace ([] ++ first :: rest) = _
          exact skipWhitespace_white (by simp) (bare.ink first (by simp))
      have left : afterDelimiter delimiter (blanks ++ byte :: rest) = rest := by
        unfold afterDelimiter
        rw [skipWhitespace_white only.white ink]
        exact (if_pos ⟨sign, other⟩).trans solid
      rw [left, sign]
      exact .inr rfl
    · exact .inl (afterDelimiter_white only.white ink sign)

/-- What such a line asks for: the first token of the value, or of what follows an `=` in front of
it. -/
theorem directive_characterSetLine {lead gap spaces value trail : Bytes} (before : Blanks lead)
    (between : Blanks gap) (spaced : gap ≠ []) (apart : Blanks spaces) (spaced' : spaces ≠ [])
    (bare : BareValue value) (after : Blanks trail) :
    ∃ text, (text = value ∨ value = equals :: text) ∧
      directive (characterSetLine lead gap spaces value trail) =
        .set (ascii "character_set") (strdelim (some text)).1 := by
  cases spaces with
  | nil => exact absurd rfl spaced'
  | cons delimiter blanks =>
    have ends : inToken delimiter = false ∧ delimiter ≠ quote ∧ delimiter ≠ equals := by
      rcases apart delimiter (List.mem_cons_self ..) with rfl | rfl <;> decide
    have only : Blanks blanks := fun byte member => apart byte (List.mem_cons_of_mem _ member)
    obtain ⟨front, last, same⟩ := (List.eq_nil_or_concat value).resolve_left bare.nonempty
    rw [List.concat_eq_append] at same
    subst same
    have found : directive (lead ++ (ascii "set" ++ (gap ++ (ascii "character_set" ++
          delimiter :: (blanks ++ front ++ last :: (trail ++ [newline])))))) =
        .set (ascii "character_set")
          (strdelim (some (afterDelimiter delimiter (blanks ++ front ++ [last])))).1 :=
      directive_set before between spaced
        (by decide) (by decide) ends.1 ends.2.1 (bare.ink last (by simp))
        after.white_newline
    refine ⟨_, afterDelimiter_value only ends.2.2 bare, ?_⟩
    have rest : blanks ++ front ++ [last] = blanks ++ (front ++ [last]) := List.append_assoc ..
    rw [rest] at found
    rw [← found, characterSetLine]
    simp

/-- Such a line is read whole. -/
theorem upToNul_characterSetLine {lead gap spaces value trail : Bytes} (before : Blanks lead)
    (between : Blanks gap) (apart : Blanks spaces) (bare : BareValue value) (after : Blanks trail) :
    upToNul (characterSetLine lead gap spaces value trail) =
      characterSetLine lead gap spaces value trail := by
  have ends : (0 : UInt8) ≠ newline := by decide
  have spaces' := apart.nonNull
  have trail' := after.nonNull
  have value' := bare.nonNull
  apply upToNul_set before between (by decide)
  simp only [List.mem_append, List.mem_singleton]
  tauto

/-- What such a line does: it sets the set to the first token of what is left for the value. -/
theorem processConfigLine_characterSetLine {lead gap spaces value trail : Bytes}
    (before : Blanks lead)
    (between : Blanks gap) (spaced : gap ≠ []) (apart : Blanks spaces) (spaced' : spaces ≠ [])
    (bare : BareValue value) (after : Blanks trail) (L : CLocale) (linenum : Nat)
    (state : ConfigState) :
    ∃ text, (text = value ∨ value = equals :: text) ∧
      processConfigLine L (upToNul (characterSetLine lead gap spaces value trail)) linenum state =
        configSet L (ascii "character_set") (strdelim (some text)).1 linenum state := by
  obtain ⟨text, left, asks⟩ :=
    directive_characterSetLine before between spaced apart spaced' bare after
  refine ⟨text, left, ?_⟩
  rw [upToNul_characterSetLine before between apart bare after, processConfigLine, asks]
  rfl

/-- A line that sets the character set to a value without quotes makes it exactly the characters of
the value if and only if none of its bytes is an `=`. -/
theorem whole_iff (L : CLocale) (exact : L.Exact) (lead gap spaces value trail : Bytes)
    (before : Blanks lead) (between : Blanks gap) (spaced : gap ≠ []) (apart : Blanks spaces)
    (spaced' : spaces ≠ []) (bare : BareValue value) (after : Blanks trail) (wides : List WChar)
    (decoded : L.decode value = some wides) (plain : characterSetAlias value = none) (linenum : Nat)
    (state : ConfigState) :
    (∃ next, processConfigLine L (upToNul (characterSetLine lead gap spaces value trail)) linenum
      state = .ok next ∧ characterSetInForce next = some wides) ↔
      equals ∉ value := by
  obtain ⟨text, left, runs⟩ :=
    processConfigLine_characterSetLine before between spaced apart spaced' bare after L linenum
      state
  rw [runs]
  constructor
  · rintro ⟨next, accepted, set⟩ member
    obtain ⟨given, first, -, resolved⟩ := of_configSet accepted
    rw [set] at resolved
    have part : ∀ byte ∈ text, byte ∈ value := by
      intro byte inside
      rcases left with same | same
      · rw [← same]
        exact inside
      · rw [same]
        exact List.mem_cons_of_mem _ inside
    have token := takeWhile_of_strdelim (fun quoted => bare.unquoted (part _ quoted)) first
    have inside : ∀ byte ∈ given, byte ∈ value := by
      rw [token]
      exact fun byte taken => part byte ((List.takeWhile_prefix inToken).subset taken)
    have same := eq_of_resolved exact bare.unquoted decoded inside resolved
    -- the token has no `=`
    rw [← same, token] at member
    exact absurd (List.mem_takeWhile_imp member) (by decide)
  · intro free
    have whole : text = value := by
      rcases left with same | same
      · exact same
      · exact absurd (same ▸ List.mem_cons_self ..) free
    have resolved : configResolveCharacterSet L value = some wides := by
      rw [configResolveCharacterSet, plain, decoded]
      rfl
    rw [whole, strdelim_last (bare.word free)]
    exact configSet_characterSet bare.nonempty resolved linenum state

/-- `set character_set abc` at the top. -/
theorem whole_iff_abc :
    (∃ next, processConfigLine .ascii (upToNul (characterSetLine [] [0x20] [0x20] (ascii "abc") []))
      1 (.initial none) = .ok next ∧ characterSetInForce next = some (wideLiteral "abc")) ↔
      equals ∉ ascii "abc" :=
  whole_iff .ascii CLocale.ascii_exact [] [0x20] [0x20] (ascii "abc") []
    (by decide) (by decide) (by decide)
    (by decide) (by decide) ⟨by decide, by decide +kernel, by decide, by decide⟩ (by decide)
    (wideLiteral "abc")
    (by decide +kernel) (by decide +kernel) 1 (.initial none)

/-- `set character_set a=b` leaves `a`: the rest of the value is dropped without a message. -/
theorem not_whole :
    BareValue (ascii "a=b") ∧ CLocale.ascii.decode (ascii "a=b") = some (wideLiteral "a=b") ∧
      characterSetAlias (ascii "a=b") = none ∧
      ∃ next, processConfigLine .ascii
        (upToNul (characterSetLine [] [0x20] [0x20] (ascii "a=b") [])) 1
          (.initial none) = .ok next ∧
        characterSetInForce next = some (wideLiteral "a") ∧ wideLiteral "a" ≠ wideLiteral "a=b" :=
  ⟨⟨by decide, by decide +kernel, by decide, by decide⟩, by decide +kernel, by decide +kernel,
    _, rfl, by decide +kernel, by decide⟩

end Mdp.CharacterSets
