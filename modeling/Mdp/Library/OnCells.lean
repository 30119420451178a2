import Mdp.Library.Lines

/-!
# Strings edited in place

Computations on the cells of one array, through indices into it. A computation that reads or writes
outside the array has no result. A string stands in the array from an index up to a NUL. The rules
say what the functions of the C library do to the strings of an array and which cells they leave
alone.
-/

open CStrings

/-- A computation on the cells of an array, without a result where it leaves them. -/
abbrev OnCells (α β : Type) := StateT (List α) Option β

namespace OnCells

variable {α β γ : Type}

/-- The cell at an index. -/
def fetch (p : Nat) : OnCells α α := fun cells => cells[p]?.map fun cell => (cell, cells)

/-- Write the cell at an index. -/
def store (p : Nat) (cell : α) : OnCells α Unit := fun cells =>
  if p < cells.length then some ((), cells.set p cell) else none

/-- `memmove` of some cells. -/
def memmove (dest src n : Nat) : OnCells α Unit := fun cells =>
  if src + n ≤ cells.length ∧ dest + n ≤ cells.length then
    some ((), cells.take dest ++ ((cells.drop src).take n ++ cells.drop (dest + n)))
  else none

/-- How many cells are passed over in front of one that is not. -/
def countWhile (pass : α → Bool) : List α → Option Nat
  | [] => none
  | cell :: cells => if pass cell then (countWhile pass cells).map (· + 1) else some 0

/-- The number of cells passed over from an index on. -/
def scan (pass : α → Bool) (p : Nat) : OnCells α Nat := fun cells =>
  (countWhile pass (cells.drop p)).map fun n => (n, cells)

section Functions

variable [OfNat α 0] [DecidableEq α]

/-- `strlen`. -/
def strlen (p : Nat) : OnCells α Nat := scan (fun cell => decide (cell ≠ 0)) p

/-- `strspn`, for a set without NUL. -/
def strspn (p : Nat) (set : List α) : OnCells α Nat := scan (fun cell => decide (cell ∈ set)) p

/-- `strcspn`. -/
def strcspn (p : Nat) (set : List α) : OnCells α Nat :=
  scan (fun cell => decide (cell ≠ 0 ∧ cell ∉ set)) p

/-- `strpbrk`. -/
def strpbrk (p : Nat) (set : List α) : OnCells α (Option Nat) := do
  let n ← strcspn p set
  let cell ← fetch (p + n)
  pure (if cell = 0 then none else some (p + n))

/-- The string that stands at an index. -/
def stringAt (p : Nat) : OnCells α (List α) := do
  let n ← strlen p
  let cells ← get
  pure ((cells.drop p).take n)

end Functions

/-- A computation goes on from the cells that its first part leaves. -/
theorem bind_run {x : OnCells α β} {f : β → OnCells α γ} {cells after : List α} {value : β}
    (first : x cells = some (value, after)) : (x >>= f) cells = f value after := by
  change (x cells).bind (fun found => f found.1 found.2) = _
  rw [first]
  rfl

/-- Cells are passed over up to one that is not. -/
theorem countWhile_append {pass : α → Bool} {text : List α} {stop : α} (after : List α)
    (passed : ∀ cell ∈ text, pass cell = true) (stops : pass stop = false) :
    countWhile pass (text ++ stop :: after) = some text.length := by
  induction text with
  | nil => simp [countWhile, stops]
  | cons cell text ih =>
    rw [List.forall_mem_cons] at passed
    rw [List.cons_append, countWhile, if_pos passed.1, ih passed.2]
    rfl

/-- The cells in front of an index, and their number, are as before. -/
structure Keeps (p : Nat) (cells after : List α) : Prop where
  length : after.length = cells.length
  front : after.take p = cells.take p

/-- Nothing is kept as well. -/
theorem Keeps.refl (p : Nat) (cells : List α) : Keeps p cells cells := ⟨rfl, rfl⟩

/-- What is kept twice is kept. -/
theorem Keeps.trans {p : Nat} {cells between after : List α} (first : Keeps p cells between)
    (second : Keeps p between after) : Keeps p cells after :=
  ⟨second.length.trans first.length, second.front.trans first.front⟩

/-- What is kept in front of an index is kept in front of a smaller one. -/
theorem Keeps.mono {p q : Nat} {cells after : List α} (keeps : Keeps q cells after) (le : p ≤ q) :
    Keeps p cells after where
  length := keeps.length
  front := by
    have shorter := congrArg (List.take p) keeps.front
    rwa [List.take_take, List.take_take, Nat.min_eq_left le] at shorter

section Strings

variable [OfNat α 0] {cells after : List α} {p : Nat} {text word rest : List α}

/-- A text stands in the cells from an index on, with its terminator. -/
structure Holds (cells : List α) (p : Nat) (text : List α) : Prop where
  string : ∀ cell ∈ text, cell ≠ 0
  there : ∃ front after, front.length = p ∧ cells = front ++ (text ++ 0 :: after)

/-- The end of a string is a string. -/
theorem Holds.later (holds : Holds cells p (word ++ rest)) :
    Holds cells (p + word.length) rest := by
  obtain ⟨string, front, after, place, split⟩ := holds
  refine ⟨fun cell member => string cell (List.mem_append_right word member), front ++ word, after,
    ?_, ?_⟩
  · rw [List.length_append, place]
  · rw [split, List.append_assoc, List.append_assoc]

/-- The terminator of a string is the empty string. -/
theorem Holds.last (holds : Holds cells p text) : Holds cells (p + text.length) [] := by
  rw [← List.append_nil text] at holds
  exact holds.later

/-- The string in front of a place is still there when the cells in front of it are kept. -/
theorem Holds.kept {q : Nat} (holds : Holds cells p text) (keeps : Keeps q cells after)
    (before : p + text.length < q) : Holds after p text := by
  obtain ⟨string, front, tail, place, split⟩ := holds
  have inside : (front ++ (text ++ [0])).length ≤ q := by
    simp only [List.length_append, List.length_singleton]
    omega
  have whole : cells = front ++ (text ++ [0]) ++ tail := by
    rw [split]
    simp
  have same : after.take (front ++ (text ++ [0])).length = front ++ (text ++ [0]) := by
    have shorter := (keeps.mono inside).front
    rw [shorter, whole, List.take_left]
  refine ⟨string, front, after.drop (front ++ (text ++ [0])).length, place, ?_⟩
  have parts := List.take_append_drop (front ++ (text ++ [0])).length after
  rw [same] at parts
  nth_rewrite 1 [← parts]
  simp

/-- A string ends inside the array. -/
theorem Holds.inside (holds : Holds cells p text) : p + text.length < cells.length := by
  obtain ⟨_, front, after, place, split⟩ := holds
  rw [split, ← place]
  simp only [List.length_append, List.length_cons]
  omega

/-- A scan of a string up to a cell that is not passed over. -/
theorem Holds.scan_run {pass : α → Bool} {stop : α} (holds : Holds cells p (word ++ stop :: rest))
    (passed : ∀ cell ∈ word, pass cell = true) (stops : pass stop = false) :
    scan pass p cells = some (word.length, cells) := by
  obtain ⟨_, front, after, place, split⟩ := holds
  have from_here : cells.drop p = word ++ stop :: (rest ++ 0 :: after) := by
    rw [split, ← place, List.drop_left]
    simp
  rw [scan, from_here, countWhile_append _ passed stops]
  rfl

/-- A scan of a whole string. -/
theorem Holds.scan_whole {pass : α → Bool} (holds : Holds cells p text)
    (passed : ∀ cell ∈ text, pass cell = true) (stops : pass 0 = false) :
    scan pass p cells = some (text.length, cells) := by
  obtain ⟨_, front, after, place, split⟩ := holds
  have from_here : cells.drop p = text ++ 0 :: after := by rw [split, ← place, List.drop_left]
  rw [scan, from_here, countWhile_append _ passed stops]
  rfl

/-- The first cell of a string can be read. -/
theorem Holds.fetch_first {cell : α} (holds : Holds cells p (cell :: rest)) :
    fetch p cells = some (cell, cells) := by
  obtain ⟨_, front, after, place, split⟩ := holds
  rw [fetch, split, ← place]
  simp

/-- The cell behind a string is NUL. -/
theorem Holds.fetch_end (holds : Holds cells p []) : fetch p cells = some (0, cells) := by
  obtain ⟨_, front, after, place, split⟩ := holds
  rw [fetch, split, ← place]
  simp

/-- A NUL cuts a string into two. -/
theorem Holds.cut {cell : α} (holds : Holds cells p (word ++ cell :: rest)) :
    ∃ after, store (p + word.length) 0 cells = some ((), after) ∧
      Keeps (p + word.length) cells after ∧ Holds after p word ∧
      Holds after (p + word.length + 1) rest := by
  have inside := holds.later.inside
  obtain ⟨string, front, tail, place, split⟩ := holds
  have written : cells.set (p + word.length) 0 = front ++ (word ++ 0 :: (rest ++ 0 :: tail)) := by
    have here : p + word.length = (front ++ word).length := by rw [List.length_append, place]
    have whole : cells = (front ++ word) ++ cell :: (rest ++ 0 :: tail) := by
      rw [split]
      simp
    rw [here, whole, List.set_append_right _ _ (Nat.le_refl _), Nat.sub_self, List.set_cons_zero,
      List.append_assoc]
  refine ⟨cells.set (p + word.length) 0, ?_, ⟨List.length_set, ?_⟩, ⟨?_, ?_⟩, ?_, ?_⟩
  · rw [store, if_pos (by omega)]
  · rw [List.take_set_of_le (Nat.le_refl _)]
  · exact fun cell member => string cell (List.mem_append_left _ member)
  · exact ⟨front, _, place, written⟩
  · exact fun cell member => string cell (by simp [member])
  · refine ⟨front ++ (word ++ [0]), tail, ?_, ?_⟩
    · simp only [List.length_append, List.length_singleton, place]
      omega
    · rw [written]
      simp

/-- Moving the end of a string one cell to the front takes a cell out of it. -/
theorem Holds.close_up {cell : α} (holds : Holds cells p (word ++ cell :: rest)) :
    ∃ after, memmove (p + word.length) (p + word.length + 1) (rest.length + 1) cells =
        some ((), after) ∧
      Keeps (p + word.length) cells after ∧ Holds after p (word ++ rest) := by
  have inside := holds.inside
  rw [List.length_append, List.length_cons] at inside
  obtain ⟨string, front, tail, place, split⟩ := holds
  have here : p + word.length = (front ++ word).length := by rw [List.length_append, place]
  have whole : cells = (front ++ word) ++ ([cell] ++ ((rest ++ [0]) ++ tail)) := by
    rw [split]
    simp
  have first : cells.take (p + word.length) = front ++ word := by rw [here, whole, List.take_left]
  have moved : (cells.drop (p + word.length + 1)).take (rest.length + 1) = rest ++ [0] := by
    rw [← List.drop_drop, here, whole, List.drop_left, List.singleton_append, List.drop_succ_cons,
      List.drop_zero, show rest.length + 1 = (rest ++ [0]).length by simp, List.take_left]
  have stays : cells.drop (p + word.length + (rest.length + 1)) = 0 :: tail := by
    rw [← List.drop_drop, here, whole, List.drop_left,
      show [cell] ++ ((rest ++ [0]) ++ tail) = ([cell] ++ rest) ++ 0 :: tail by simp,
      show rest.length + 1 = ([cell] ++ rest).length by simp, List.drop_left]
  refine ⟨(front ++ word) ++ ((rest ++ [0]) ++ 0 :: tail), ?_, ⟨?_, ?_⟩, ?_, ?_⟩
  · rw [memmove, if_pos ⟨by omega, by omega⟩, first, moved, stays]
  · rw [whole]
    simp only [List.length_append, List.length_cons, List.length_nil]
    omega
  · rw [first, here, List.take_left]
  · intro other member
    rcases List.mem_append.mp member with early | late
    · exact string other (List.mem_append_left _ early)
    · exact string other (List.mem_append_right _ (List.mem_cons_of_mem _ late))
  · exact ⟨front, 0 :: tail, place, by simp⟩

variable [DecidableEq α]

/-- An array with a NUL holds a string at its first cell. -/
theorem holds_upToNul (cells : List α) (terminated : (0 : α) ∈ cells) :
    Holds cells 0 (upToNul cells) := by
  obtain ⟨rest, split, ended | ⟨tail, begins⟩⟩ := upToNul_append_rest cells
  · rw [ended, List.append_nil] at split
    rw [split] at terminated
    exact absurd rfl (ne_zero_of_mem_upToNul terminated)
  · rw [begins] at split
    exact ⟨fun cell member => ne_zero_of_mem_upToNul member, [], tail, rfl, split⟩

/-- `strlen` of a string is its length. -/
theorem Holds.strlen_run (holds : Holds cells p text) :
    strlen p cells = some (text.length, cells) :=
  holds.scan_whole (fun cell member => by simpa using holds.string cell member) (by simp)

/-- What has been written in front of a NUL is a string up to its own first NUL. -/
theorem holds_written (written rest : List α) :
    Holds (written ++ 0 :: rest) 0 (upToNul written) := by
  have stands := holds_upToNul (written ++ 0 :: rest) (by simp)
  have same : upToNul (written ++ 0 :: rest) = upToNul written := by
    obtain ⟨after, split, ended⟩ := upToNul_append_rest written
    have nonNull : ∀ cell ∈ upToNul written, cell ≠ 0 := fun _ => ne_zero_of_mem_upToNul
    rcases ended with rfl | ⟨tail, rfl⟩
    · rw [List.append_nil] at split
      rw [← split] at nonNull
      rw [upToNul_append_zero nonNull, upToNul_of_forall nonNull]
    · conv_lhs => rw [split]
      rw [List.append_assoc, List.cons_append, upToNul_append_zero nonNull]
  rwa [same] at stands

/-- `strspn` passes over the cells of the set. -/
theorem Holds.strspn_run (holds : Holds cells p text) (set : List α) (proper : (0 : α) ∉ set) :
    ∃ n, strspn p set cells = some (n, cells) ∧
      Holds cells (p + n) (text.dropWhile fun cell => decide (cell ∈ set)) := by
  have passed : ∀ cell ∈ text.takeWhile (fun cell => decide (cell ∈ set)),
      decide (cell ∈ set) = true := fun cell member =>
    List.mem_takeWhile_imp (p := fun cell => decide (cell ∈ set)) member
  have split := List.takeWhile_append_dropWhile (p := fun cell => decide (cell ∈ set)) (l := text)
  have parts := holds
  rw [← split] at parts
  refine ⟨_, ?_, parts.later⟩
  cases after : text.dropWhile (fun cell => decide (cell ∈ set)) with
  | nil =>
    rw [after, List.append_nil] at parts
    exact parts.scan_whole passed (by simpa using proper)
  | cons stop rest =>
    have stops := List.head?_dropWhile_not (fun cell => decide (cell ∈ set)) text
    rw [after] at stops parts
    exact parts.scan_run passed (by simpa using stops)

/-- `strcspn` without a cell of the set. -/
theorem Holds.strcspn_none {set : List α} (holds : Holds cells p text)
    (free : ∀ cell ∈ text, cell ∉ set) : strcspn p set cells = some (text.length, cells) :=
  holds.scan_whole (fun cell member => by simpa using ⟨holds.string cell member, free cell member⟩)
    (by simp)

/-- `strcspn` up to the first cell of the set. -/
theorem Holds.strcspn_some {set : List α} {stop : α} (holds : Holds cells p (word ++ stop :: rest))
    (free : ∀ cell ∈ word, cell ∉ set) (found : stop ∈ set) :
    strcspn p set cells = some (word.length, cells) :=
  holds.scan_run
    (fun cell member => by simpa using ⟨holds.string cell (by simp [member]), free cell member⟩)
    (by simpa using fun _ => found)

/-- `strpbrk` without a cell of the set. -/
theorem Holds.strpbrk_none {set : List α} (holds : Holds cells p text)
    (free : ∀ cell ∈ text, cell ∉ set) : strpbrk p set cells = some (none, cells) := by
  rw [strpbrk, bind_run (holds.strcspn_none free), bind_run holds.last.fetch_end, if_pos rfl]
  rfl

/-- `strpbrk` up to the first cell of the set. -/
theorem Holds.strpbrk_some {set : List α} {stop : α} (holds : Holds cells p (word ++ stop :: rest))
    (free : ∀ cell ∈ word, cell ∉ set) (found : stop ∈ set) :
    strpbrk p set cells = some (some (p + word.length), cells) := by
  have nonNull : stop ≠ 0 := holds.string stop (by simp)
  rw [strpbrk, bind_run (holds.strcspn_some free found), bind_run holds.later.fetch_first,
    if_neg nonNull]
  rfl

/-- The string can be read. -/
theorem Holds.stringAt_run (holds : Holds cells p text) :
    stringAt p cells = some (text, cells) := by
  have taken : (cells.drop p).take text.length = text := by
    obtain ⟨_, front, after, place, split⟩ := holds
    rw [split, ← place, List.drop_left, List.take_left]
  rw [stringAt, bind_run holds.strlen_run]
  change some ((cells.drop p).take text.length, cells) = _
  rw [taken]

end Strings

end OnCells
