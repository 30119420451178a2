import Mdp.Library.FirstMaximum
import Mdp.Profile

/-!
# Passwords in memory

`generate_password_from_set` and `profile_generate_password` on the cells that they allocate: a
pointer is an index, and an access outside the cells of an array stops the program. None of them is
ever made, and the cells come to hold the password that `Mdp.Profile` computes.
-/

namespace Mdp

open Interaction CStrings FirstMaximum

/-- A program that works on cells. -/
abbrev InPlace (α : Type) := Program posix Stop α

/-- A program that touches no cells. -/
def inPlace {α : Type} (p : Prog α) : InPlace α := p.mapHalt .ending

/-- Read a cell. -/
def readCell {α : Type} (cells : List α) (index : Int) : InPlace α :=
  match cells[index.toNat]? with
  | none => .halt .outside
  | some value => if 0 ≤ index then .done value else .halt .outside

/-- Write a cell. -/
def writeCell {α : Type} (cells : List α) (index : Int) (value : α) : InPlace (List α) :=
  if 0 ≤ index ∧ index < cells.length then .done (cells.set index.toNat value) else .halt .outside

/-- A `size_t` assigned to an `int`. -/
def sizeAsInt (size : Nat) : Int := asInt (UInt32.ofNat size)

/-- The local variables of `generate_password_from_set`, and the cells they point to. -/
structure Locals where
  /-- The cells of `password_string`. -/
  passwordString : List WChar
  /-- The cell that `str_pointer` points to. -/
  strPointer : Nat
  /-- The cells of `random_weight`. -/
  randomWeight : List Nat
  maxWeight : Nat
  maxWeightElementNumber : Int

/-- The loop that assigns random weights, from `j` on. -/
def assignWeights (j : Nat) (randomWeight : List Nat) : Nat → InPlace (List Nat)
  | 0 => .done randomWeight
  | left + 1 => do
    let drawn ← inPlace (ask (.arc4randomUniform 20000))
    let randomWeight ← writeCell randomWeight j (1 + drawn.toNat)
    assignWeights (j + 1) randomWeight left

/-- The loop that finds an element with maximum weight, from `j` on: what `max_weight` and
`max_weight_element_number` become. -/
def findMaximum (randomWeight : List Nat) (j maxWeight : Nat) (maxWeightElementNumber : Int) :
    Nat → InPlace (Nat × Int)
  | 0 => .done (maxWeight, maxWeightElementNumber)
  | left + 1 => do
    let weight ← readCell randomWeight j
    if weight > maxWeight then findMaximum randomWeight (j + 1) weight (sizeAsInt j) left
    else findMaximum randomWeight (j + 1) maxWeight maxWeightElementNumber left

/-- The loop that sets the weights to zero, from `j` on. -/
def clearWeights (j : Nat) (randomWeight : List Nat) : Nat → InPlace (List Nat)
  | 0 => .done randomWeight
  | left + 1 => do
    let randomWeight ← writeCell randomWeight j 0
    clearWeights (j + 1) randomWeight left

/-- The body of the loop of `generate_password_from_set`. -/
def passwordRound (set : List WChar) (vars : Locals) : InPlace Locals := do
  let randomWeight ← assignWeights 0 vars.randomWeight set.length
  let found ← findMaximum randomWeight 0 vars.maxWeight vars.maxWeightElementNumber set.length
  let symbol ← readCell (set ++ [0]) found.2
  let passwordString ← writeCell vars.passwordString vars.strPointer symbol
  let randomWeight ← clearWeights 0 randomWeight set.length
  pure
    { passwordString
      strPointer := vars.strPointer + 1
      randomWeight
      maxWeight := 0
      maxWeightElementNumber := 0 }

/-- The loop of `generate_password_from_set`. -/
def passwordRounds (set : List WChar) (vars : Locals) : Nat → InPlace Locals
  | 0 => .done vars
  | left + 1 => do
    let vars ← passwordRound set vars
    passwordRounds set vars left

/-- `generate_password_from_set` on the cells of `password_string`; `none` is its return value
-1. -/
def generateInPlace (passwordString : List WChar) (length : Int) (set : Option (List WChar)) :
    InPlace (Option (List WChar)) := do
  let set ← inPlace (readString set)
  if length > maxPasswordLength ∨ length < 1 then pure none
  else do
    inPlace (require (set.length != 0) "zero size")
    inPlace (require (← inPlace (ask .allocate)) "xcalloc failed")
    let randomWeight ← clearWeights 0 (List.replicate set.length 0) set.length
    let vars ← passwordRounds set ⟨passwordString, 0, randomWeight, 0, 0⟩ length.toNat
    let passwordString ← writeCell vars.passwordString vars.strPointer 0
    pure (some passwordString)

/-- The `character_count` of `profile_generate_password`. -/
def characterCountOf (opts : AddOptions) (profile : Profile) : UInt32 :=
  if opts.characterCount > 0 then opts.characterCount else profile.characterCount

/-- `profile_generate_password`, with the cells that it returns. -/
def profileGenerateInPlace (opts : AddOptions) (profile : Profile) : InPlace (List WChar) := do
  let characterCount := characterCountOf opts profile
  inPlace (require (characterCount + 1 != 0) "zero size")
  inPlace (require (← inPlace (ask .allocate)) "xcalloc failed")
  let s := List.replicate (characterCount + 1).toNat 0
  match ← generateInPlace s (asInt characterCount) profile.characterSet with
  | none => inPlace (errx exitFailure "failed to generate password")
  | some s => pure s

/-- A cell that is there can be read. -/
theorem readCell_done {α : Type} {cells : List α} {index : Nat} {value : α}
    (there : cells[index]? = some value) : readCell cells index = .done value := by
  unfold readCell
  rw [Int.toNat_natCast, there]
  exact if_pos (Int.natCast_nonneg index)

/-- A cell that is there can be written. -/
theorem writeCell_done {α : Type} {cells : List α} {index : Nat} (inside : index < cells.length)
    (value : α) : writeCell cells index value = .done (cells.set index value) := by
  unfold writeCell
  rw [if_pos ⟨Int.natCast_nonneg index, Int.ofNat_lt.mpr inside⟩, Int.toNat_natCast]

/-- An index below 2^31 is the same as an `int`. -/
theorem sizeAsInt_eq {size : Nat} (small : size < 2147483648) : sizeAsInt size = size := by
  have same : (UInt32.ofNat size).toNat = size := by
    rw [UInt32.toNat_ofNat']
    omega
  unfold sizeAsInt asInt
  rw [same, if_pos small]

/-- A program that touches no cells, before another one. -/
theorem inPlace_bind {α β : Type} (p : Prog α) (rest : α → Prog β) :
    inPlace (p.bind rest) = (inPlace p).bind fun value => inPlace (rest value) :=
  Program.mapHalt_bind Stop.ending p rest

/-- As many weights are drawn as are asked for. -/
theorem drawWeights_yields (left : Nat) :
    (inPlace (drawWeights left)).Yields fun weights => weights.length = left := by
  induction left with
  | zero => exact (rfl : [].length = 0)
  | succ left ih =>
    intro drawn
    show (inPlace ((drawWeights left).bind fun others =>
      .done ((1 + drawn.toNat) :: others))).Yields _
    rw [inPlace_bind]
    apply ih.bind
    intro others length
    show others.length + 1 = left + 1
    rw [length]

/-- The first loop writes the weights that are drawn to the cells from `j` on. -/
theorem assignWeights_eq {j left : Nat} {cells : List Nat} (inside : j + left ≤ cells.length) :
    assignWeights j cells left = (inPlace (drawWeights left)).bind fun weights =>
      .done (cells.take j ++ weights ++ cells.drop (j + left)) := by
  induction left generalizing j cells with
  | zero =>
    show Program.done cells = .done (cells.take j ++ [] ++ cells.drop (j + 0))
    rw [List.append_nil, Nat.add_zero, List.take_append_drop]
  | succ left ih =>
    show Program.call _ _ = Program.call _ _
    congr 1
    funext drawn
    show (writeCell cells j (1 + drawn.toNat)).bind (fun cells =>
      assignWeights (j + 1) cells left) =
      (inPlace ((drawWeights left).bind fun others => .done ((1 + drawn.toNat) :: others))).bind _
    have here : j < cells.length := by omega
    have later : j + 1 + left ≤ (cells.set j (1 + drawn.toNat)).length := by
      rw [List.length_set]
      omega
    rw [writeCell_done here, Program.done_bind, ih later, inPlace_bind, Program.bind_assoc]
    congr 1
    funext others
    show Program.done _ = Program.done _
    have front : (cells.set j (1 + drawn.toNat)).take (j + 1) = cells.take j ++
        [1 + drawn.toNat] := by
      rw [List.take_add_one, List.take_set_of_le (Nat.le_refl j), List.getElem?_set_self here,
        Option.toList_some]
    have back : (cells.set j (1 + drawn.toNat)).drop (j + 1 + left) =
        cells.drop (j + (left + 1)) := by
      rw [List.drop_set_of_lt (by omega), Nat.add_right_comm, Nat.add_assoc]
    rw [front, back]
    simp

/-- The second loop finds what `heaviest` finds. -/
theorem findMaximum_eq {weights : List Nat} {j maxWeight element left : Nat}
    (small : weights.length < 2147483648) (rest : j + left = weights.length) :
    ∃ weight, findMaximum weights j maxWeight element left =
      .done (weight, (heaviest j maxWeight element (weights.drop j) : Int)) := by
  induction left generalizing j maxWeight element with
  | zero =>
    rw [List.drop_of_length_le (by omega)]
    exact ⟨maxWeight, rfl⟩
  | succ left ih =>
    have here : j < weights.length := by omega
    rw [List.drop_eq_getElem_cons here, heaviest, findMaximum, Program.bind_eq,
      readCell_done (List.getElem?_eq_getElem here), Program.done_bind]
    split
    · rw [sizeAsInt_eq (by omega)]
      exact ih (by omega)
    · exact ih (by omega)

/-- The third loop clears the cells from `j` on. -/
theorem clearWeights_eq {j left : Nat} {cells : List Nat} (rest : j + left = cells.length) :
    clearWeights j cells left = .done (cells.take j ++ List.replicate left 0) := by
  induction left generalizing j cells with
  | zero =>
    rw [List.take_of_length_le (by omega), List.replicate_zero, List.append_nil]
    rfl
  | succ left ih =>
    have here : j < cells.length := by omega
    have later : j + 1 + left = (cells.set j 0).length := by
      rw [List.length_set]
      omega
    rw [clearWeights, Program.bind_eq, writeCell_done here, Program.done_bind, ih later,
      List.take_add_one, List.take_set_of_le (Nat.le_refl j), List.getElem?_set_self here,
      Option.toList_some, List.append_assoc, List.replicate_succ, List.singleton_append]

/-- A round writes the character that its weights choose to the next cell, and leaves its own
variables as it has found them. -/
theorem passwordRound_eq {set cells : List WChar} {pointer : Nat} (small : set.length < 2147483648)
    (inside : pointer < cells.length) :
    passwordRound set ⟨cells, pointer, List.replicate set.length 0, 0, 0⟩ =
      (inPlace (drawWeights set.length)).bind fun weights =>
        .done ⟨cells.set pointer (set.getD (heaviest 0 0 0 weights) 0), pointer + 1,
          List.replicate set.length 0, 0, 0⟩ := by
  have drawn : assignWeights 0 (List.replicate set.length 0) set.length =
      (inPlace (drawWeights set.length)).bind fun weights =>
        .done ([] ++ weights ++ (List.replicate set.length 0).drop (0 + set.length)) :=
    assignWeights_eq (by rw [List.length_replicate, Nat.zero_add])
  unfold passwordRound
  rw [Program.bind_eq, drawn, Program.bind_assoc]
  apply Program.bind_congr (drawWeights_yields set.length)
  intro weights length
  have rest : (List.replicate set.length 0).drop (0 + set.length) = ([] : List Nat) :=
    List.drop_of_length_le (by rw [List.length_replicate, Nat.zero_add])
  obtain ⟨weight, found⟩ := @findMaximum_eq weights 0 0 0 set.length (by omega) (by omega)
  have bound : heaviest 0 0 0 weights < set.length + 1 :=
    heaviest_lt (Nat.succ_pos _) (by omega)
  have symbol : (set ++ [0])[heaviest 0 0 0 weights]? =
      some (set.getD (heaviest 0 0 0 weights) 0) := by
    rw [List.getD_eq_getElem?_getD]
    by_cases within : heaviest 0 0 0 weights < set.length
    · rw [List.getElem?_append_left within, List.getElem?_eq_getElem within, Option.getD_some]
    · have last : heaviest 0 0 0 weights = set.length := by omega
      rw [last, List.getElem?_concat_length, List.getElem?_eq_none (Nat.le_refl _),
        Option.getD_none]
  have cleared : clearWeights 0 weights set.length = .done (List.replicate set.length 0) :=
    clearWeights_eq (by omega)
  rw [List.drop_zero] at found
  rw [Program.done_bind, rest, List.nil_append, List.append_nil]
  show (findMaximum weights 0 0 (0 : Nat) set.length).bind _ = _
  rw [found, Program.done_bind]
  show (readCell (set ++ [0]) (heaviest 0 0 0 weights)).bind _ = _
  rw [readCell_done symbol, Program.done_bind, Program.bind_eq, writeCell_done inside,
    Program.done_bind, Program.bind_eq, cleared]
  rfl

/-- The loop and the terminator write a password and a NUL to the cells from the pointer on. -/
theorem passwordRounds_eq {set cells : List WChar} {pointer left : Nat}
    (small : set.length < 2147483648) (inside : pointer + left < cells.length) :
    ((passwordRounds set ⟨cells, pointer, List.replicate set.length 0, 0, 0⟩ left).bind fun vars =>
        writeCell vars.passwordString vars.strPointer 0) =
      (inPlace (drawCharacters set left)).bind fun password =>
        .done (cells.take pointer ++ password ++ 0 :: cells.drop (pointer + left + 1)) := by
  induction left generalizing pointer cells with
  | zero =>
    have here : pointer < cells.length := by omega
    show writeCell cells pointer 0 =
      .done (cells.take pointer ++ [] ++ 0 :: cells.drop (pointer + 1))
    rw [writeCell_done here, List.set_eq_take_append_cons_drop, if_pos here, List.append_nil]
  | succ left ih =>
    have here : pointer < cells.length := by omega
    rw [passwordRounds, Program.bind_eq, passwordRound_eq small here, Program.bind_assoc,
      Program.bind_assoc, drawCharacters, Program.bind_eq, inPlace_bind, Program.bind_assoc]
    congr 1
    funext weights
    have later : pointer + 1 + left <
        (cells.set pointer (set.getD (heaviest 0 0 0 weights) 0)).length := by
      rw [List.length_set]
      omega
    rw [Program.done_bind, ih later, Program.bind_eq, inPlace_bind, Program.bind_assoc]
    congr 1
    funext others
    show Program.done _ = Program.done _
    rw [List.take_add_one, List.take_set_of_le (Nat.le_refl pointer), List.getElem?_set_self here,
      Option.toList_some, List.drop_set_of_lt (by omega), Nat.add_right_comm pointer 1 left]
    simp [Nat.add_assoc]

/-- A string that is read is the one that the pointer points to. -/
theorem readString_bind_congr {α β : Type} {pointer : Option (List α)}
    {first second : List α → InPlace β}
    (same : first (pointer.getD []) = second (pointer.getD [])) :
    (inPlace (readString pointer)).bind first = (inPlace (readString pointer)).bind second := by
  show Program.call _ _ = Program.call _ _
  congr 1
  funext present
  cases present with
  | true => exact same
  | false => rfl

/-- `generate_password_from_set` keeps to cells that a positive length and its terminator fit in,
and leaves the password in them. -/
theorem generateInPlace_eq {pointer : Option (List WChar)} {cells : List WChar} {length : Int}
    (small : (pointer.getD []).length < 2147483648)
    (room : 1 ≤ length → cells.length = length.toNat + 1) :
    generateInPlace cells length pointer =
      (inPlace (generatePasswordFromSet length pointer)).bind fun found =>
        .done (found.map fun password => password ++ [0]) := by
  unfold generateInPlace generatePasswordFromSet
  rw [Program.bind_eq, Program.bind_eq, inPlace_bind, Program.bind_assoc]
  apply readString_bind_congr
  generalize pointer.getD [] = set at small
  split
  · rfl
  · rename_i within
    have exact : cells.length = length.toNat + 1 := room (by omega)
    have cleared : clearWeights 0 (List.replicate set.length 0) set.length =
        .done (List.replicate set.length 0) :=
      clearWeights_eq (by rw [List.length_replicate, Nat.zero_add])
    have written := @passwordRounds_eq set cells 0 length.toNat small (by omega)
    have rest : cells.drop (0 + length.toNat + 1) = [] := List.drop_of_length_le (by omega)
    rw [rest] at written
    simp only [Program.bind_eq, inPlace_bind, Program.bind_assoc]
    congr 1
    funext _
    congr 1
    funext _
    congr 1
    funext _
    rw [cleared, Program.done_bind, ← Program.bind_assoc, written, Program.bind_assoc]
    rfl

/-- `profile_generate_password` keeps to the cells that it allocates, and returns the password and
its terminator in them. -/
theorem profileGenerateInPlace_eq (opts : AddOptions) {profile : Profile}
    (small : profile.letters.length < 2147483648) :
    profileGenerateInPlace opts profile =
      (inPlace (profileGeneratePassword opts profile)).bind fun password =>
        .done (password ++ [0]) := by
  have room : 1 ≤ asInt (characterCountOf opts profile) →
      (List.replicate (characterCountOf opts profile + 1).toNat (0 : WChar)).length =
        (asInt (characterCountOf opts profile)).toNat + 1 := by
    intro positive
    have bound := (characterCountOf opts profile).toNat_lt
    rw [List.length_replicate, UInt32.toNat_add]
    unfold asInt at positive ⊢
    split at positive
    · rename_i low
      rw [if_pos low, Int.toNat_natCast]
      show ((characterCountOf opts profile).toNat + 1) % 4294967296 = _
      omega
    · omega
  unfold profileGenerateInPlace profileGeneratePassword
  simp only [Program.bind_eq, inPlace_bind, Program.bind_assoc]
  congr 1
  funext _
  congr 1
  funext _
  congr 1
  funext _
  rw [generateInPlace_eq small room, Program.bind_assoc]
  congr 1
  funext found
  cases found with
  | none => rfl
  | some password => rfl

end Mdp
