import Mdp.ConfigFile
import Mdp.Library.OnCells

/-!
# The configuration file in memory

`config_read` and what it calls, on the cells of the array `line`. Strings are cut up where they
stand: a pointer is the index of a cell, and an access outside the array ends the run without a
result. What is done with the words of a line is in `Mdp.ConfigFile`.
-/

namespace Mdp

open CStrings OnCells

/-- The loop of `strip_trailing_whitespaces` below its index. -/
def stripBelow (s : Nat) : Nat → OnCells UInt8 Unit
  | 0 => pure ()
  | len + 1 => do
    let byte ← fetch (s + len)
    -- `strchr` also finds the NUL of its string
    if byte ∉ whitespace ++ [0] then pure ()
    else
      store (s + len) 0
      stripBelow s len

/-- `strip_trailing_whitespaces`: its index is an `int`. -/
def stripTrailingWhitespacesIn (s : Nat) : OnCells UInt8 Unit := do
  let len ← strlen s
  stripBelow s (Int.bmod (len - 1) 4294967296 + 1).toNat

/-- `strdelim`: what it returns, and what `*s` is afterwards. -/
def strdelimIn : Option Nat → OnCells UInt8 (Option Nat × Option Nat)
  | none => pure (none, none)
  | some old => do
    match ← strpbrk old (whitespace ++ [quote, equals]) with
    | none => pure (some old, none)
    | some s =>
      let byte ← fetch s
      if byte = quote then
        let len ← strlen s
        memmove s (s + 1) len
        match ← strpbrk s [quote] with
        | none => pure (none, none)
        | some s =>
          store s 0
          pure (some old, some s)
      else
        let wspace := byte = equals
        store s 0
        let n ← strspn (s + 1) whitespace
        let s := s + (n + 1)
        let byte ← fetch s
        if byte = equals ∧ ¬ wspace then
          let n ← strspn (s + 1) whitespace
          let s := s + (n + 1)
          pure (some old, some s)
        else pure (some old, some s)

/-- A pointer as a string, if it is not null. -/
def stringAt? : Option Nat → OnCells UInt8 (Option Bytes)
  | none => pure none
  | some p => do
    let text ← stringAt p
    pure (some text)

/-- `process_config_line` from its comparisons of `keyword` on. -/
def processKeyword (L : CLocale) (keyword : Nat) (line : Option Nat) (linenum : Nat)
    (state : ConfigState) : OnCells UInt8 (Except ConfigError ConfigState) := do
  let word ← stringAt keyword
  if word = ascii "set" then
    let (name, line) ← strdelimIn line
    match name with
    | none => pure (.error (.line linenum "%s: set without variable name on line %d."))
    | some name =>
      let (value, _) ← strdelimIn line
      let name ← stringAt name
      let value ← stringAt? value
      pure (configSet L name value linenum state)
  else if word = ascii "profile" then
    let (name, _) ← strdelimIn line
    match name with
    | none => pure (.error (.line linenum "%s: profile without variable name on line %d."))
    | some name =>
      let name ← stringAt name
      pure (configProfile name state)
  else pure (.error (.line linenum "%s: unknown command on line %d."))

/-- `process_config_line`. -/
def processConfigLineIn (L : CLocale) (line : Nat) (linenum : Nat) (state : ConfigState) :
    OnCells UInt8 (Except ConfigError ConfigState) := do
  stripTrailingWhitespacesIn line
  match ← strdelimIn (some line) with
  | (none, _) => pure (.ok state)
  | (some keyword, line) =>
    let first ← fetch keyword
    match ← if first = 0 then strdelimIn line else pure (some keyword, line) with
    | (none, _) => pure (.ok state)
    | (some keyword, line) =>
      let first ← fetch keyword
      if first = 0 ∨ first = newline ∨ first = 0x23 then pure (.ok state)
      else processKeyword L keyword line linenum state

/-- What `fgets` writes: the bytes it has read and a NUL. -/
def fgetsIn (chunk : Bytes) : OnCells UInt8 Unit := fun cells =>
  if chunk.length < cells.length then
    some ((), chunk ++ 0 :: cells.drop (chunk.length + 1))
  else none

/-- The loop of `config_read`. -/
def configLinesIn (L : CLocale) (linenum : Nat) (state : ConfigState) :
    List Bytes → OnCells UInt8 (Except ConfigError ConfigState)
  | [] => pure (.ok state)
  | chunk :: rest => do
    fgetsIn chunk
    match ← processConfigLineIn L 0 linenum state with
    | .error error => pure (.error error)
    | .ok state => configLinesIn L (linenum + 1) state rest

/-- `config_read`. -/
def configReadIn (L : CLocale) (state : ConfigState) :
    Option Bytes → OnCells UInt8 (Except ConfigError ConfigState)
  | none => pure (.ok state)
  | some content => configLinesIn L 1 state (chunks maxLineSize content)

end Mdp
