import Mdp.Arrays
import Mdp.Pager

/-!
# The keywords in memory

`keywords.c` and `keyword_prompt` on memory: the array of pointers, the blocks of `strdup`, and the
buffer that a prompt fills and `strtok_r` cuts up. An access to memory that is not there, or no
longer, ends a run as one outside an array does.
-/

namespace Mdp

open CStrings OnCells Stopping

/-- The memory that `keywords.c` works on. -/
structure KeywordMemory where
  /-- The number of requests for memory so far. -/
  requests : Nat
  /-- Those of them that `strdup` made, in their order. -/
  asked : List Nat
  /-- The number of strings that `strdup` has made. -/
  made : Nat
  /-- Those of them that nobody has freed. -/
  blocks : Nat → Option Bytes
  /-- `keywords`. -/
  keywords : GrowingArray (Option Nat)
  /-- `kw`, the buffer of `keyword_prompt`. -/
  kw : Bytes

/-- The memory before the first keyword. -/
def KeywordMemory.initial : KeywordMemory := ⟨0, [], 0, fun _ => none, .initializer, []⟩

/-- A computation on the memory. -/
abbrev KeywordRun (α : Type) := Stopping ArrayStop KeywordMemory α

/-- A computation on arrays. -/
def onArrays {α : Type} (x : Arrays α) : KeywordRun α := fun m =>
  match x m.requests with
  | .error stop => .error stop
  | .ok (value, requests) => .ok (value, { m with requests })

/-- A computation on the buffer. -/
def onKw {α : Type} (x : OnCells UInt8 α) : KeywordRun α := fun m =>
  match x m.kw with
  | none => .error .outside
  | some (value, kw) => .ok (value, { m with kw })

section Functions

-- What a request is answered: what new cells of an array hold, where there is memory.
variable (memory : Nat → Option (Nat → Option Nat))

/-- `strdup`. -/
def strdup (text : Bytes) : KeywordRun (Option Nat) := fun m =>
  match memory m.requests with
  | none => .ok (none, { m with
      requests := m.requests + 1
      asked := m.asked ++ [m.requests] })
  | some _ => .ok (some m.made, { m with
      requests := m.requests + 1
      asked := m.asked ++ [m.requests]
      made := m.made + 1
      blocks := Function.update m.blocks m.made (some text) })

/-- `xfree` of a string. -/
def xfree (ptr : Option Nat) : KeywordRun Unit := fun m =>
  match ptr with
  | none => .error (.ending (.exit exitFailure "null pointer"))
  | some block =>
    match m.blocks block with
    | none => .error .outside
    | some _ => .ok ((), { m with blocks := Function.update m.blocks block none })

/-- `ARRAY_ITEM(&keywords, i)`. -/
def keywordAt (i : UInt32) : KeywordRun (Option Nat) := fun m =>
  match arrayItem m.keywords i with
  | .error stop => .error stop
  | .ok ptr => .ok (ptr, m)

/-- The loop of `keywords_clear`, with `left` keywords to go. -/
def clearLoop (i : UInt32) : Nat → KeywordRun Unit
  | 0 => pure ()
  | left + 1 => do
    let ptr ← keywordAt i
    xfree ptr
    clearLoop (i + 1) left

/-- `keywords_clear`. -/
def keywordsClear : KeywordRun Unit := do
  let m ← get
  clearLoop 0 m.keywords.num.toNat
  modify fun m => { m with keywords := arrayClear m.keywords }

/-- `ARRAY_ADD(&keywords, strdup(text))`, with pointers of eight bytes. -/
def keywordsAdd (text : Bytes) : KeywordRun Unit := do
  let m ← get
  let keywords ← onArrays (arrayEnsure memory 8 m.keywords 1)
  modify fun m => { m with keywords }
  let ptr ← strdup memory text
  let keywords ← onArrays (arrayAppend keywords ptr)
  modify fun m => { m with keywords }

/-- The loop of `keywords_load_from_argv`. -/
def addAll : List Bytes → KeywordRun Unit
  | [] => pure ()
  | kw :: rest => do
    keywordsAdd memory kw
    addAll rest

/-- `keywords_load_from_argv`. -/
def keywordsLoadFromArgv (av : List Bytes) : KeywordRun Unit := do
  keywordsClear
  addAll memory av

/-- `strtok_r(s, " ", &last)`: what it returns, and what `last` is afterwards. -/
def strtokR (s last : Option Nat) : OnCells UInt8 (Option Nat × Option Nat) :=
  match s.or last with
  | none => fun _ => none
  | some s => do
    let n ← strspn s [0x20]
    let s := s + n
    let byte ← fetch s
    if byte = 0 then pure (none, some s)
    else
      let n ← strcspn s [0x20]
      let stop := s + n
      let byte ← fetch stop
      if byte = 0 then pure (some s, some stop)
      else
        store stop 0
        pure (some s, some (stop + 1))

/-- The loop of `keywords_load_from_char`, for at most `left` words. -/
def addTokens (p last : Option Nat) : Nat → KeywordRun Unit
  | 0 => pure ()
  | left + 1 =>
    match p with
    | none => pure ()
    | some p => do
      let word ← onKw (stringAt p)
      keywordsAdd memory word
      let (p, last) ← onKw (strtokR none last)
      addTokens p last left

/-- `keywords_load_from_char` of the buffer; no two words begin at the same cell. -/
def keywordsLoadFromKw : KeywordRun Unit := do
  keywordsClear
  let (p, last) ← onKw (strtokR (some 0) none)
  let m ← get
  addTokens memory p last (m.kw.length + 1)

/-- `getnstr(kw, 50)`: as many bytes of a line as it takes, and a NUL. -/
def getnstr (text : Bytes) : KeywordRun Unit :=
  onKw fun kw =>
    let taken := text.take promptLength
    if taken.length < kw.length then some ((), taken ++ 0 :: kw.drop (taken.length + 1)) else none

/-- `keyword_prompt`, with the line that is typed. -/
def keywordPromptIn (text : Bytes) : KeywordRun Unit := do
  modify fun m => { m with kw := List.replicate promptLength 0 }
  getnstr text
  keywordsLoadFromKw memory

end Functions

end Mdp
