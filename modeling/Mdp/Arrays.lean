import Mdp.Library.OnCells
import Mdp.Library.Stopping
import Mdp.Utils

/-!
# Growing arrays

`array.h` with `xrealloc` under it, on the cells of the block. A computation stops with the exit of
the program, or where it leaves the block or divides by zero. The state is the number of requests
for memory so far.
-/

namespace Mdp

open OnCells Stopping

/-- What can stop a computation on an array. -/
inductive ArrayStop where
  | ending (ending : Ending)
  /-- An access outside the block. -/
  | outside
  /-- A division by zero. -/
  | divides
  deriving DecidableEq, Repr

/-- `struct n` of `ARRAY_DECL`. -/
structure GrowingArray (α : Type) where
  /-- The items that the block at `list` has room for, or `NULL`. -/
  list : Option (List α)
  num : UInt32
  /-- The size of the block in bytes. -/
  space : UInt64

/-- `ARRAY_INITIALIZER`. -/
def GrowingArray.initializer {α : Type} : GrowingArray α := ⟨none, 0, 0⟩

/-- A computation on arrays, with the number of requests for memory. -/
abbrev Arrays (α : Type) := Stopping ArrayStop Nat α

/-- `errx` or `err`. -/
def arrayErr {α : Type} (message : String) : Arrays α :=
  halt (.ending (.exit exitFailure message))

section Macros

variable {α : Type}

/-- `ARRAY_ITEM`. -/
def arrayItem (a : GrowingArray α) (i : UInt32) : Except ArrayStop α :=
  match a.list with
  | none => .error .outside
  | some cells =>
    match cells[i.toNat]? with
    | none => .error .outside
    | some item => .ok item

/-- A `memmove` of items. -/
def arrayMove (a : GrowingArray α) (dest src n : Nat) : Arrays (GrowingArray α) :=
  match memmove dest src n (a.list.getD []) with
  | none => halt .outside
  | some (_, cells) => pure { a with list := some cells }

/-- `ARRAY_SET`. -/
def arraySet (a : GrowingArray α) (i : UInt32) (s : α) : Arrays (GrowingArray α) :=
  match store i.toNat s (a.list.getD []) with
  | none => halt .outside
  | some (_, cells) => pure { a with list := some cells }

/-- `ARRAY_CLEAR`. -/
def arrayClear (a : GrowingArray α) : GrowingArray α := { a with num := 0 }

/-- `ARRAY_FREE`. -/
def arrayFree (_ : GrowingArray α) : GrowingArray α := .initializer

/-- The `memmove` of `ARRAY_REMOVE`. -/
def arrayClose (a : GrowingArray α) (i : UInt32) : Arrays (GrowingArray α) :=
  if i < a.num - 1 then arrayMove a i.toNat (i.toNat + 1) (a.num - i - 1).toNat else pure a

/-- `ARRAY_REMOVE`. -/
def arrayRemove (a : GrowingArray α) (i : UInt32) : Arrays (GrowingArray α) := do
  let a ← arrayClose a i
  let a := { a with num := a.num - 1 }
  pure (if a.num = 0 then arrayFree a else a)

/-- The `memmove` of `ARRAY_INSERT`. -/
def arrayOpen (a : GrowingArray α) (i : UInt32) : Arrays (GrowingArray α) :=
  if i < a.num then arrayMove a (i.toNat + 1) i.toNat (a.num - i).toNat else pure a

/-- `ARRAY_TRUNC`. -/
def arrayTrunc (a : GrowingArray α) (n : UInt32) : GrowingArray α :=
  if n < a.num then { a with num := a.num - n } else arrayFree a

/-- What `ARRAY_ADD` does when there is room. -/
def arrayAppend (a : GrowingArray α) (s : α) : Arrays (GrowingArray α) := do
  let a ← arraySet a a.num s
  pure { a with num := a.num + 1 }

variable (memory : Nat → Option (Nat → α)) (itemsize : UInt64)

/-- `xrealloc` of a block of items. What a request is answered is `none` where there is no memory,
else what the new cells hold. -/
def arrayRealloc (oldptr : Option (List α)) (nmemb size : UInt64) : Arrays (List α) := do
  let newsize := nmemb * size
  if newsize = 0 then arrayErr "zero size"
  else if 18446744073709551615 / nmemb < size then arrayErr "nmemb * size > SIZE_MAX"
  else
    let request ← modifyGet fun requests => (requests, requests + 1)
    match memory request with
    | none => arrayErr "xrealloc failed"
    | some fresh =>
      let items := (oldptr.getD []).take (newsize.toNat / itemsize.toNat)
      pure (items ++ (List.range' items.length
        (newsize.toNat / itemsize.toNat - items.length)).map fresh)

/-- The part of `ARRAY_ENSURE` that asks for the first block, of `ARRAY_INITIALSPACE`. -/
def arrayFirst (a : GrowingArray α) : Arrays (GrowingArray α) :=
  if a.space = 0 then do
    let space := 10 * itemsize
    let list ← arrayRealloc memory itemsize a.list 1 space
    pure { a with list := some list, space }
  else pure a

/-- The loop of `ARRAY_ENSURE`; a `size_t` cannot be doubled more often than it has bits. -/
def arrayDouble (need : UInt64) : Nat → GrowingArray α → Arrays (GrowingArray α)
  | 0, a => pure a
  | left + 1, a =>
    if a.space ≤ need then do
      let list ← arrayRealloc memory itemsize a.list 2 a.space
      arrayDouble need left { a with list := some list, space := a.space * 2 }
    else pure a

/-- `ARRAY_ENSURE`. -/
def arrayEnsure (a : GrowingArray α) (n : UInt32) : Arrays (GrowingArray α) :=
  if 4294967295 - n < a.num then arrayErr "number too big"
  else if a.num + n = 0 then halt .divides
  else if 18446744073709551615 / (a.num + n).toUInt64 < itemsize then arrayErr "size too big"
  else do
    let a ← arrayFirst memory itemsize a
    arrayDouble memory itemsize ((a.num + n).toUInt64 * itemsize) 64 a

/-- `ARRAY_ADD`. -/
def arrayAddItem (a : GrowingArray α) (s : α) : Arrays (GrowingArray α) := do
  let a ← arrayEnsure memory itemsize a 1
  arrayAppend a s

/-- `ARRAY_INSERT`. -/
def arrayInsert (a : GrowingArray α) (i : UInt32) (s : α) : Arrays (GrowingArray α) := do
  let a ← arrayEnsure memory itemsize a 1
  let a ← arrayOpen a i
  let a ← arraySet a i s
  pure { a with num := a.num + 1 }

/-- `ARRAY_EXPAND`. -/
def arrayExpand (a : GrowingArray α) (n : UInt32) : Arrays (GrowingArray α) := do
  let a ← arrayEnsure memory itemsize a n
  pure { a with num := a.num + n }

/-- `ARRAY_CONCAT` of two arrays that are not the same. -/
def arrayConcat (a b : GrowingArray α) : Arrays (GrowingArray α) := do
  let a ← arrayEnsure memory itemsize a b.num
  let cells := a.list.getD []
  let items := (b.list.getD []).take b.num.toNat
  if items.length = b.num.toNat ∧ a.num.toNat + items.length ≤ cells.length then
    pure { a with
      list := some (cells.take a.num.toNat ++ items ++ cells.drop (a.num.toNat + items.length))
      num := a.num + b.num }
  else halt .outside

end Macros

end Mdp
