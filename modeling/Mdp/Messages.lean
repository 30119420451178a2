import Mdp.Editor

/-!
# Messages and memory

The functions that print, format and ask for memory, and nothing else. They are parts of programs
that are looked at in several ways, so their lemmas are stated for every set of calls that has
theirs.
-/

namespace Mdp

open Interaction CStrings

/-- The calls of messages and memory. -/
def Call.Message : Call → Prop
  | .allocate => True
  | .strftime => True
  | .getpid => True
  | .print _ => True
  | _ => False

/-- A check makes no call. -/
theorem uses_require {P : Call → Prop} {passed : Bool} {message : String} :
    (require passed message).Uses P := by
  cases passed <;> trivial

section Messages

variable {P : Call → Prop} (messages : ∀ request : Call, request.Message → P request) {cfg : Config}
include messages

/-- `xmalloc` asks for memory. -/
theorem messages_xmalloc : xmalloc.Uses P :=
  ⟨messages .allocate trivial, fun _ => uses_require⟩

/-- `xasprintf` asks for memory. -/
theorem messages_xasprintf : xasprintf.Uses P :=
  ⟨messages .allocate trivial, fun _ => uses_require⟩

/-- `debug` formats a message and prints it. -/
theorem messages_debug {fmt : String} : (debug cfg fmt).Uses P := by
  unfold debug
  split
  · refine ⟨messages .getpid trivial, fun pid => ⟨messages .strftime trivial, fun tbuf => ?_⟩⟩
    cases tbuf with
    | none => trivial
    | some tbuf =>
      exact (messages_xasprintf messages).bind fun _ =>
        ⟨messages (.print _) trivial, fun _ => trivial⟩
  · trivial

/-- `ARRAY_ADD` asks for memory. -/
theorem messages_arrayAdd {num : Nat} : (arrayAdd num).Uses P :=
  uses_require.bind fun _ => ⟨messages .allocate trivial, fun _ => uses_require⟩

/-- The warning about a line is printed. -/
theorem messages_warnUnlessNewline {line : Bytes} : (warnUnlessNewline line).Uses P := by
  unfold warnUnlessNewline
  split
  · trivial
  · exact ⟨messages (.print _) trivial, fun _ => trivial⟩

/-- The copy of an editor is made in new memory. -/
theorem messages_editorCommand {editor : Bytes} : (editorCommand editor).Uses P := by
  unfold editorCommand
  split
  · exact (messages_xasprintf messages).bind fun _ => trivial
  · exact ⟨messages .allocate trivial, fun _ => trivial⟩

end Messages

/-- A string is read by one call. -/
theorem uses_readString {P : Call → Prop} {α : Type} {pointer : Option (List α)}
    (reads : P (.readString pointer.isSome)) : (readString pointer).Uses P := by
  refine ⟨reads, fun present => ?_⟩
  cases present <;> trivial

end Mdp
