import Mdp.Verif.SetLines

/-!
# Quoted values

A command, a path or a key between double quotes is stored as it is written, whatever blanks, `=`
and `#` it contains and however it is separated from its name.
-/

namespace Mdp.Quoting

open Mdp CStrings SetLines

/-- The variables that hold a command, a path or a key. -/
inductive Quotable where
  | editor
  | gpgPath
  | gpgKeyId
  | passwordFile

namespace Quotable

/-- The name in the configuration. -/
def name : Quotable → Bytes
  | editor => ascii "editor"
  | gpgPath => ascii "gpg_path"
  | gpgKeyId => ascii "gpg_key_id"
  | passwordFile => ascii "password_file"

/-- What `set_variable` looks at before it sets the variable; `editor` may be set again. -/
def held : Quotable → Settings → Option Bytes
  | editor, _ => none
  | gpgPath, cfg => cfg.gpgPath
  | gpgKeyId, cfg => cfg.gpgKeyId
  | passwordFile, cfg => cfg.passwordFile

/-- The variables with a value for this one. -/
def store : Quotable → Bytes → Settings → Settings
  | editor, value, cfg => { cfg with editor := some value }
  | gpgPath, value, cfg => { cfg with gpgPath := some value }
  | gpgKeyId, value, cfg => { cfg with gpgKeyId := some value }
  | passwordFile, value, cfg => { cfg with passwordFile := some value }

/-- The name of a setting is a word. -/
theorem name_word (setting : Quotable) : Word setting.name ∧ setting.name ≠ [] := by
  cases setting <;> decide

end Quotable

/-- `set_variable` stores a value that is not empty. -/
theorem setVariable_quotable (L : CLocale) (setting : Quotable) {value : Bytes}
    (nonempty : value ≠ [])
    (linenum : Nat) {cfg : Settings} (free : setting.held cfg = none) :
    setVariable L setting.name (some value) linenum cfg = .ok (setting.store value cfg) := by
  cases value with
  | nil => exact absurd rfl nonempty
  | cons byte rest =>
    cases setting with
    | editor => rfl
    | gpgPath =>
      have none : cfg.gpgPath = none := free
      show (do
        let given ← onceValue linenum _ _ cfg.gpgPath (some (byte :: rest))
        Except.ok { cfg with gpgPath := some given }) = _
      rw [none]
      rfl
    | gpgKeyId =>
      have none : cfg.gpgKeyId = none := free
      show (do
        let given ← onceValue linenum _ _ cfg.gpgKeyId (some (byte :: rest))
        Except.ok { cfg with gpgKeyId := some given }) = _
      rw [none]
      rfl
    | passwordFile =>
      have none : cfg.passwordFile = none := free
      show (do
        let given ← onceValue linenum _ _ cfg.passwordFile (some (byte :: rest))
        Except.ok { cfg with passwordFile := some given }) = _
      rw [none]
      rfl

/-- Blanks with at most one `=` among or in place of them. -/
inductive Separator : Bytes → Prop where
  | blanks {blanks : Bytes} (only : Blanks blanks) (nonempty : blanks ≠ []) : Separator blanks
  | sign {before after : Bytes} (left : Blanks before) (right : Blanks after) :
    Separator (before ++ equals :: after)

/-- A separator begins with a delimiter, and the token after it begins with the value. -/
theorem Separator.split {separator : Bytes} (separates : Separator separator) :
    ∃ delimiter rest, separator = delimiter :: rest ∧ inToken delimiter = false ∧
      delimiter ≠ quote ∧
      ∀ text, afterDelimiter delimiter (rest ++ quote :: text) = quote :: text := by
  have ink : quote ∉ whitespace := by decide
  have other : quote ≠ equals := by decide
  have delimits : ∀ {blank : UInt8}, blank = 0x20 ∨ blank = 0x09 →
      inToken blank = false ∧ blank ≠ quote ∧ blank ≠ equals := by
    rintro blank (rfl | rfl) <;> decide
  cases separates with
  | blanks only nonempty =>
    cases separator with
    | nil => exact absurd rfl nonempty
    | cons blank blanks =>
      have ends := delimits (only blank (List.mem_cons_self ..))
      refine ⟨blank, blanks, rfl, ends.1, ends.2.1, fun text => ?_⟩
      exact afterDelimiter_white (fun byte member =>
        only.white byte (List.mem_cons_of_mem _ member))
        ink other
  | @sign before after left right =>
    cases before with
    | nil =>
      refine ⟨equals, after, rfl, by decide, by decide, fun text => ?_⟩
      exact afterDelimiter_white right.white ink other
    | cons blank blanks =>
      have ends := delimits (left blank (List.mem_cons_self ..))
      refine ⟨blank, blanks ++ equals :: after, rfl, ends.1, ends.2.1, fun text => ?_⟩
      -- the blanks are skipped, then the one `=` and the blanks behind it
      have skipped : skipWhitespace (blanks ++ equals :: (after ++ quote :: text)) =
          equals :: (after ++ quote :: text) :=
        skipWhitespace_white (fun byte member => left.white byte (List.mem_cons_of_mem _ member))
          (by decide)
      rw [List.append_assoc, List.cons_append]
      unfold afterDelimiter
      simp only [skipped]
      rw [if_pos ⟨trivial, ends.2.2⟩]
      exact skipWhitespace_white right.white ink

/-- A line that sets a variable to a quoted value. -/
def quotedLine (lead gap name separator value trail : Bytes) : Bytes :=
  lead ++ (ascii "set" ++
    (gap ++ (name ++ (separator ++ quote :: (value ++ quote :: (trail ++ [newline]))))))

/-- A value that can stand between quotes on one line. -/
structure QuotedValue (value : Bytes) : Prop where
  nonempty : value ≠ []
  unquoted : quote ∉ value
  nonNull : (0 : UInt8) ∉ value
  oneLine : (0x0d : UInt8) ∉ value ∧ newline ∉ value

/-- What such a line asks for. -/
theorem directive_quotedLine {lead gap separator value trail : Bytes} (setting : Quotable)
    (before : Blanks lead) (between : Blanks gap) (spaced : gap ≠ [])
    (separates : Separator separator)
    (unquoted : quote ∉ value) (after : Blanks trail) :
    directive (quotedLine lead gap setting.name separator value trail) =
      .set setting.name (some value) := by
  obtain ⟨delimiter, rest, rfl, ends, other, left⟩ := separates.split
  have found : directive (lead ++ (ascii "set" ++ (gap ++ (setting.name ++
        delimiter :: (rest ++ quote :: value ++ quote :: (trail ++ [newline])))))) =
      .set setting.name
          (strdelim (some (afterDelimiter delimiter (rest ++ quote :: value ++ [quote])))).1 :=
    directive_set before between spaced setting.name_word.1 setting.name_word.2 ends other
      (by decide)
      after.white_newline
  have token : (strdelim (some (afterDelimiter delimiter (rest ++ quote :: value ++ [quote])))).1 =
      some value := by
    rw [List.append_assoc, List.cons_append, left, strdelim_quoted unquoted]
  rw [token] at found
  rw [← found, quotedLine]
  simp

/-- Such a line is read whole. -/
theorem upToNul_quotedLine {lead gap separator value trail : Bytes} (setting : Quotable)
    (before : Blanks lead) (between : Blanks gap) (separates : Separator separator)
    (nonNull : (0 : UInt8) ∉ value) (after : Blanks trail) :
    upToNul (quotedLine lead gap setting.name separator value trail) =
      quotedLine lead gap setting.name separator value trail := by
  have separator' : (0 : UInt8) ∉ separator := by
    cases separates with
    | blanks only _ => exact only.nonNull
    | sign left right =>
      rw [List.mem_append, List.mem_cons]
      rintro (inside | same | inside)
      · exact left.nonNull inside
      · exact absurd same (by decide)
      · exact right.nonNull inside
  have name : (0 : UInt8) ∉ setting.name := by cases setting <;> decide
  have ends : (0 : UInt8) ≠ quote ∧ (0 : UInt8) ≠ newline := by decide
  have trail' := after.nonNull
  apply upToNul_set before between name
  simp only [List.mem_append, List.mem_cons, List.not_mem_nil, or_false]
  tauto

/-- A line that sets a variable, not set before, to a quoted value stores exactly this value in it,
and changes nothing else. -/
theorem quoted_value_is_stored (L : CLocale) (setting : Quotable)
    (lead gap separator value trail : Bytes)
    (before : Blanks lead) (between : Blanks gap) (spaced : gap ≠ [])
    (separates : Separator separator)
    (quotable : QuotedValue value) (after : Blanks trail) (linenum : Nat) (state : ConfigState)
    (top : state.currentProfile = none) (free : setting.held state.settings = none) :
    processConfigLine L (upToNul (quotedLine lead gap setting.name separator value trail)) linenum
      state =
      .ok { state with settings := setting.store value state.settings } := by
  have whole := upToNul_quotedLine setting before between separates quotable.nonNull after
  have asks := directive_quotedLine setting before between spaced separates quotable.unquoted after
  have stored := setVariable_quotable L setting quotable.nonempty linenum free
  rw [whole, processConfigLine, asks]
  show configSet L setting.name (some value) linenum state = _
  unfold configSet
  rw [top]
  simp only [stored]
  rfl

/-- `set gpg_path = "/a b=#"`, after a tab. -/
theorem quoted_value_is_stored_path :
    processConfigLine .ascii
      (upToNul (quotedLine [0x09] [0x20] (ascii "gpg_path") [0x20, equals, 0x20] (ascii "/a b=#")
        [])) 1 (.initial none) =
      .ok { ConfigState.initial none with
        settings := { Settings.initial none with gpgPath := some (ascii "/a b=#") } } :=
  quoted_value_is_stored .ascii .gpgPath [0x09] [0x20] [0x20, equals, 0x20] (ascii "/a b=#") []
    (by decide) (by decide) (by decide)
    (Separator.sign (by decide : Blanks [0x20]) (by decide : Blanks [0x20]))
    ⟨by decide, by decide, by decide, by decide⟩ (by decide) 1 (.initial none) rfl rfl

end Mdp.Quoting
