import Mathlib.Algebra.Group.Nat.Defs
import Mdp.Arrays

/-!
# The growing arrays are lists

Whatever is done to an array of `array.h` within its bounds, it holds the items that the same
operations make of a list; no access leaves its block, its block is never more than twice as large
as it has to be, and the program exits only for want of memory or of an `unsigned int` for the
number of items.
-/

namespace Mdp.GrowingArrays

open OnCells Stopping

variable {α : Type} {memory : Nat → Option (Nat → α)} {itemsize : UInt64} {limit : Nat}
  {a : GrowingArray α} {items cells spare : List α} {num : UInt32} {space : UInt64} {requests : Nat}

/-- A block of cells has a size in bytes, and not more cells than a limit. -/
structure Sized (itemsize : UInt64) (limit : Nat) (cells : List α) (space : UInt64) : Prop where
  size : space.toNat = cells.length * itemsize.toNat
  nonempty : 0 < cells.length
  bound : cells.length ≤ limit

/-- An array holds some items, at the front of its block. -/
inductive Represents (itemsize : UInt64) (limit : Nat) : GrowingArray α → List α → Prop where
  | empty : Represents itemsize limit ⟨none, 0, 0⟩ []
  | block {items spare : List α} {num : UInt32} {space : UInt64} (count : num.toNat = items.length)
    (sized : Sized itemsize limit (items ++ spare) space) :
    Represents itemsize limit ⟨some (items ++ spare), num, space⟩ items

/-- The items can be read. -/
theorem Represents.item (represents : Represents itemsize limit a items) {i : UInt32}
    (inside : i.toNat < items.length) : arrayItem a i = .ok items[i.toNat] := by
  cases represents with
  | empty => simp at inside
  | @block items spare num space count sized =>
    have first : (items ++ spare)[i.toNat]? = some items[i.toNat] := by
      rw [List.getElem?_append_left inside, List.getElem?_eq_getElem inside]
    simp only [arrayItem, first]

/-- The exits for want of memory, and the one for too many items. -/
inductive Refused (memory : Nat → Option (Nat → α)) (most : Nat) : ArrayStop → Prop where
  | memory {request : Nat} (none : memory request = none) :
    Refused memory most (.ending (.exit exitFailure "xrealloc failed"))
  | number (many : 4294967296 ≤ most) :
    Refused memory most (.ending (.exit exitFailure "number too big"))

/-- What is refused to fewer items is refused to more of them. -/
theorem Refused.mono {most more : Nat} {stop : ArrayStop} (refused : Refused memory most stop)
    (le : most ≤ more) : Refused memory more stop := by
  cases refused with
  | memory none => exact .memory none
  | number many => exact .number (many.trans le)

/-- A request for `n` bytes that are whole items keeps the items there are. -/
theorem arrayRealloc_meets (memory : Nat → Option (Nat → α)) (requests most count : Nat)
    (oldptr : Option (List α)) (nmemb size : UInt64) (positive : 0 < itemsize.toNat)
    (fits : nmemb.toNat * size.toNat < 18446744073709551616)
    (whole : nmemb.toNat * size.toNat = count * itemsize.toNat) (some_bytes : 0 < count)
    (grows : (oldptr.getD []).length ≤ count) :
    Meets (arrayRealloc memory itemsize oldptr nmemb size) requests
      (fun list _ => ∃ new, list = oldptr.getD [] ++ new ∧ list.length = count)
      (Refused memory most) := by
  have bytes : (nmemb * size).toNat = count * itemsize.toNat := by
    rw [UInt64.toNat_mul, Nat.mod_eq_of_lt fits, whole]
  have positive_bytes : 0 < count * itemsize.toNat := Nat.mul_pos some_bytes positive
  have nonzero : nmemb * size ≠ 0 := by
    intro zero
    rw [zero] at bytes
    simp only [UInt64.toNat_zero] at bytes
    omega
  have members : 0 < nmemb.toNat := by
    rcases Nat.eq_zero_or_pos nmemb.toNat with zero | positive
    · rw [zero, Nat.zero_mul] at whole
      omega
    · exact positive
  have inside : ¬ 18446744073709551615 / nmemb < size := by
    rw [UInt64.not_lt, UInt64.le_iff_toNat_le, UInt64.toNat_div, Nat.le_div_iff_mul_le members,
      Nat.mul_comm]
    exact Nat.le_of_lt_succ fits
  have count_eq : (nmemb * size).toNat / itemsize.toNat = count := by
    rw [bytes, Nat.mul_div_cancel _ positive]
  rw [arrayRealloc]
  simp only [if_neg nonzero, if_neg inside, count_eq]
  refine Meets.bind (P := fun _ _ => True) (.of_ok rfl trivial) fun request _ _ => ?_
  cases answer : memory request with
  | none => exact meets_halt (.memory answer)
  | some fresh =>
    apply meets_pure
    rw [List.take_of_length_le grows]
    refine ⟨_, rfl, ?_⟩
    rw [List.length_append, List.length_map, List.length_range']
    omega

/-- An array with its items at the front of a block that has room for `most` items and one more. -/
structure Ready (itemsize : UInt64) (limit most : Nat) (items : List α) (num : UInt32)
    (a : GrowingArray α) : Prop where
  block : ∃ spare, a.list = some (items ++ spare) ∧ most < (items ++ spare).length ∧
    Sized itemsize limit (items ++ spare) a.space
  num : a.num = num
  few : most < 4294967296

/-- The loop doubles the block until it has room, and not once more. -/
theorem arrayDouble_meets (memory : Nat → Option (Nat → α)) (requests : Nat) (num : UInt32)
    {need : UInt64} {most : Nat} (left : Nat) (positive : 0 < itemsize.toNat)
    (small : itemsize.toNat < 2147483648) (few : most < 4294967296)
    (bytes : need.toNat = most * itemsize.toNat)
    (sized : Sized itemsize limit (items ++ spare) space)
    (enough : most < (items ++ spare).length * 2 ^ left) :
    Meets (arrayDouble memory itemsize need left ⟨some (items ++ spare), num, space⟩) requests
      (fun a _ => Ready itemsize (max limit (2 * most)) most items num a)
          (Refused memory most) := by
  induction left generalizing spare space requests limit with
  | zero =>
    apply meets_pure
    rw [Nat.pow_zero, Nat.mul_one] at enough
    exact ⟨⟨spare, rfl, enough, sized.size,
      sized.nonempty, by have := sized.bound; omega⟩, rfl, few⟩
  | succ left ih =>
    have full_iff : space ≤ need ↔ (items ++ spare).length ≤ most := by
      rw [UInt64.le_iff_toNat_le, sized.size, bytes]
      exact Nat.mul_le_mul_right_iff positive
    rw [arrayDouble]
    by_cases full : space ≤ need
    · have cells_le := full_iff.mp full
      have bound : 2 * (space.toNat) < 18446744073709551616 := by
        have most_bytes : most * itemsize.toNat ≤ 4294967295 * 2147483647 :=
          Nat.mul_le_mul (by omega) (by omega)
        rw [UInt64.le_iff_toNat_le, bytes] at full
        omega
      have double : (space * 2).toNat = 2 * space.toNat := by
        rw [UInt64.toNat_mul, show (2 : UInt64).toNat = 2 from rfl, Nat.mul_comm,
          Nat.mod_eq_of_lt bound]
      have whole : (2 : UInt64).toNat * space.toNat =
          2 * (items ++ spare).length * itemsize.toNat := by
        rw [sized.size, show (2 : UInt64).toNat = 2 from rfl, Nat.mul_assoc]
      have grown := arrayRealloc_meets memory requests most (2 * (items ++ spare).length)
        (some (items ++ spare)) 2 space positive bound whole
        (by have := sized.nonempty; omega) (by rw [Option.getD_some]; omega)
      rw [if_pos full]
      refine grown.bind fun list later grows => ?_
      obtain ⟨new, same, length⟩ := grows
      rw [Option.getD_some, List.append_assoc] at same
      subst same
      have larger : Sized itemsize (max limit (2 * most)) (items ++ (spare ++ new))
          (space * 2) := by
        refine ⟨?_, ?_, ?_⟩
        · rw [double, length, sized.size, Nat.mul_assoc]
        · have := sized.nonempty
          omega
        · omega
      have next := ih later larger (by
        rw [length, Nat.mul_comm 2, Nat.mul_assoc, ← Nat.pow_succ']
        exact enough)
      rw [Nat.max_assoc, Nat.max_self] at next
      exact next
    · rw [if_neg full]
      apply meets_pure
      have room : most < (items ++ spare).length := by
        by_contra small
        exact full (full_iff.mpr (by omega))
      exact ⟨⟨spare, rfl, room, sized.size,
        sized.nonempty, by have := sized.bound; omega⟩, rfl, few⟩

/-- What the blocks may grow to when there have to be `most` items. -/
def grown (limit most : Nat) : Nat := max limit (max 10 (2 * most))

/-- An array has a block with its items in front, of no more than ten items where it had none. -/
def Begun (itemsize : UInt64) (limit : Nat) (items : List α) (num : UInt32) (a : GrowingArray α) :
    Prop :=
  ∃ spare space, a = ⟨some (items ++ spare), num, space⟩ ∧
    Sized itemsize (max limit 10) (items ++ spare) space

/-- The first block has room for ten items. -/
theorem arrayFirst_meets (positive : 0 < itemsize.toNat) (small : itemsize.toNat < 2147483648)
    (represents : Represents itemsize limit a items) {most : Nat} :
    Meets (arrayFirst memory itemsize a) requests (fun b _ => Begun itemsize limit items a.num b)
        (Refused memory most) := by
  have ten : (10 * itemsize).toNat = 10 * itemsize.toNat := by
    rw [UInt64.toNat_mul, show (10 : UInt64).toNat = 10 from rfl, Nat.mod_eq_of_lt (by omega)]
  rw [arrayFirst]
  cases represents with
  | empty =>
    have first := arrayRealloc_meets memory requests most 10 none 1 (10 * itemsize) positive
      (by rw [ten]; simp; omega) (by rw [ten]; simp) (by omega) (by simp)
    rw [if_pos rfl]
    refine first.bind fun list later made => meets_pure ?_
    obtain ⟨-, -, length⟩ := made
    exact ⟨list, 10 * itemsize, rfl, by rw [ten]; exact congrArg (· * itemsize.toNat) length.symm,
      by rw [List.nil_append]; omega, by rw [List.nil_append]; omega⟩
  | @block items spare num space count sized =>
    have occupied : ¬ space = 0 := by
      intro zero
      have size := sized.size
      rw [zero, UInt64.toNat_zero] at size
      have := Nat.mul_pos sized.nonempty positive
      omega
    rw [if_neg occupied]
    exact meets_pure ⟨spare, space, rfl, sized.size, sized.nonempty, by have := sized.bound; omega⟩

/-- `ARRAY_ENSURE` makes room, unless there is nothing to make room for. -/
theorem arrayEnsure_meets (memory : Nat → Option (Nat → α)) (requests : Nat) (n : UInt32)
    (most : Nat) (positive : 0 < itemsize.toNat) (small : itemsize.toNat < 2147483648)
    (represents : Represents itemsize limit a items) (sum : most = items.length + n.toNat)
    (some_items : 0 < most) :
    Meets (arrayEnsure memory itemsize a n) requests
      (fun b _ => Ready itemsize (grown limit most) most items a.num b) (Refused memory most) := by
  have count : a.num.toNat = items.length := by
    cases represents with
    | empty => rfl
    | block count => exact count
  have most_n : (4294967295 - n).toNat = 4294967295 - n.toNat := by
    have bound := n.toNat_lt
    rw [UInt32.toNat_sub_of_le _ _ (by rw [UInt32.le_iff_toNat_le]; simp; omega)]
    rfl
  rw [arrayEnsure]
  by_cases many : 4294967295 - n < a.num
  · rw [if_pos many]
    rw [UInt32.lt_iff_toNat_lt, most_n, count] at many
    exact meets_halt (.number (by omega))
  rw [if_neg many]
  rw [UInt32.lt_iff_toNat_lt, most_n, count] at many
  have few : most < 4294967296 := by
    have bound := n.toNat_lt
    omega
  have total : (a.num + n).toNat = most := by
    rw [UInt32.toNat_add, count, ← sum, Nat.mod_eq_of_lt few]
  have nonzero : ¬ a.num + n = 0 := by
    intro zero
    rw [zero, UInt32.toNat_zero] at total
    omega
  have most_bytes : most * itemsize.toNat ≤ 4294967295 * 2147483647 :=
    Nat.mul_le_mul (by omega) (by omega)
  have fits : ¬ 18446744073709551615 / (a.num + n).toUInt64 < itemsize := by
    rw [UInt64.not_lt, UInt64.le_iff_toNat_le, UInt64.toNat_div, UInt32.toNat_toUInt64, total,
      Nat.le_div_iff_mul_le some_items, Nat.mul_comm]
    exact most_bytes.trans (by decide)
  have bytes : ((a.num + n).toUInt64 * itemsize).toNat = most * itemsize.toNat := by
    rw [UInt64.toNat_mul, UInt32.toNat_toUInt64, total, Nat.mod_eq_of_lt (by omega)]
  rw [if_neg nonzero, if_neg fits]
  refine (arrayFirst_meets positive small represents).bind fun b later begun => ?_
  obtain ⟨spare, space, rfl, sized⟩ := begun
  have nonempty := sized.nonempty
  have doubled := arrayDouble_meets memory later a.num 64 positive small few bytes sized (by omega)
  have limits : max (max limit 10) (2 * most) = grown limit most := Nat.max_assoc ..
  rwa [limits] at doubled

/-- The number of items is the one that the array counts. -/
theorem Represents.count (represents : Represents itemsize limit a items) :
    a.num.toNat = items.length := by
  cases represents with
  | empty => rfl
  | block count => exact count

/-- The number of items after some more have come. -/
theorem count_add {n : UInt32} {most : Nat} (count : num.toNat = items.length)
    (sum : most = items.length + n.toNat) (few : most < 4294967296) : (num + n).toNat = most := by
  rw [UInt32.toNat_add, count, ← sum, Nat.mod_eq_of_lt few]

/-- An array that is ready for one item more has a cell for it. -/
theorem Ready.cell {most : Nat} (ready : Ready itemsize limit most items num a)
    (more : items.length < most) : ∃ cell spare, a.list = some (items ++ cell :: spare) ∧
      Sized itemsize limit (items ++ cell :: spare) a.space := by
  obtain ⟨⟨spare, list, room, sized⟩, -, -⟩ := ready
  cases spare with
  | nil =>
    rw [List.append_nil] at room
    omega
  | cons cell spare => exact ⟨cell, spare, list, sized⟩

/-- An array is given a new block of the same size. -/
theorem Sized.replace {cells' : List α} (sized : Sized itemsize limit cells space)
    (length : cells'.length = cells.length) : Sized itemsize limit cells' space :=
  ⟨by rw [length]; exact sized.size, by rw [length]; exact sized.nonempty,
    by rw [length]; exact sized.bound⟩

/-- A cell inside the block can be written. -/
theorem arraySet_meets {i : UInt32} {s : α} {E : ArrayStop → Prop} (list : a.list = some cells)
    (inside : i.toNat < cells.length) :
    Meets (arraySet a i s) requests
      (fun b _ => b = { a with list := some (cells.set i.toNat s) }) E := by
  rw [arraySet, list, Option.getD_some, store, if_pos inside]
  exact meets_pure rfl

/-- The items in front of the spare cells of a block are those of an array. -/
theorem represents_block (list : a.list = some (items ++ spare))
    (count : a.num.toNat = items.length)
    (sized : Sized itemsize limit (items ++ spare) a.space) :
    Represents itemsize limit a items := by
  obtain ⟨_, num, space⟩ := a
  cases list
  exact .block count sized

/-- The item after those there are. -/
theorem Ready.append_meets {E : ArrayStop → Prop} (count : num.toNat = items.length)
    (ready : Ready itemsize limit (items.length + 1) items num a) (requests : Nat) (s : α) :
    Meets (arrayAppend a s) requests (fun b _ => Represents itemsize limit b (items ++ [s])) E := by
  obtain ⟨cell, spare, list, sized⟩ := ready.cell (Nat.lt_succ_self _)
  rw [← ready.num] at count
  have inside : a.num.toNat < (items ++ cell :: spare).length := by
    rw [count, List.length_append, List.length_cons]
    omega
  refine (arraySet_meets (s := s) list inside).bind fun c later same => meets_pure ?_
  have written : (items ++ cell :: spare).set a.num.toNat s = (items ++ [s]) ++ spare := by
    rw [count, List.set_append_right _ _ (Nat.le_refl _), Nat.sub_self, List.set_cons_zero]
    simp
  rw [written] at same
  subst same
  refine represents_block rfl ?_ (sized.replace ?_)
  · rw [count_add (n := 1) count rfl ready.few, List.length_append]
    rfl
  · simp

/-- `ARRAY_ADD` adds an item at the end. -/
theorem arrayAddItem_meets (positive : 0 < itemsize.toNat) (small : itemsize.toNat < 2147483648)
    (represents : Represents itemsize limit a items) (s : α) :
    Meets (arrayAddItem memory itemsize a s) requests
      (fun b _ => Represents itemsize (grown limit (items.length + 1)) b (items ++ [s]))
      (Refused memory (items.length + 1)) := by
  have ensured :=
    arrayEnsure_meets memory requests 1 (items.length + 1) positive small represents rfl
    (Nat.succ_pos _)
  exact ensured.bind fun b later ready => ready.append_meets represents.count later s

/-- The cells behind an index move one up. -/
theorem arrayOpen_meets (requests : Nat) {front back : List α} {cell : α} {i : UInt32}
    {E : ArrayStop → Prop}
    (list : a.list = some (front ++ back ++ cell :: spare)) (place : i.toNat = front.length)
    (count : a.num.toNat = (front ++ back).length) :
    Meets (arrayOpen a i) requests
      (fun b _ => ∃ gap, b = { a with list := some (front ++ gap :: (back ++ spare)) }) E := by
  rw [List.length_append] at count
  rw [arrayOpen]
  by_cases inner : i < a.num
  · have below := UInt32.lt_iff_toNat_lt.mp inner
    have left : (a.num - i).toNat = back.length := by
      rw [UInt32.toNat_sub_of_le _ _ (UInt32.le_iff_toNat_le.mpr below.le)]
      omega
    cases back with
    | nil =>
      rw [List.length_nil] at count
      omega
    | cons first back =>
      have moved : memmove (front.length + 1) front.length (first :: back).length
          (front ++ first :: back ++ cell :: spare) =
          some ((), front ++ first :: (first :: back ++ spare)) := by
        have early : (front ++ first :: back ++ cell :: spare).take (front.length + 1) =
            front ++ [first] := by
          rw [List.append_assoc, List.cons_append, List.take_length_add_append]
          rfl
        have middle : ((front ++ first :: back ++ cell :: spare).drop front.length).take
            (first :: back).length = first :: back := by
          rw [List.append_assoc, List.drop_left, List.take_left]
        have late : (front ++ first :: back ++ cell :: spare).drop
            (front.length + 1 + (first :: back).length) = spare := by
          have whole : front ++ first :: back ++ cell :: spare =
              (front ++ first :: back ++ [cell]) ++ spare := by simp
          have length : front.length + 1 + (first :: back).length =
              (front ++ first :: back ++ [cell]).length := by
            simp only [List.length_append, List.length_cons, List.length_nil]
            omega
          rw [whole, length, List.drop_left]
        rw [memmove, if_pos (by simp only [List.length_append, List.length_cons]; omega), early,
          middle, late]
        simp
      rw [if_pos inner, arrayMove, list, Option.getD_some, place, left, moved]
      exact meets_pure ⟨first, rfl⟩
  · rw [UInt32.lt_iff_toNat_lt] at inner
    have nothing : back = [] := List.eq_nil_of_length_eq_zero (by omega)
    rw [if_neg (by rw [UInt32.lt_iff_toNat_lt]; exact inner)]
    refine meets_pure ⟨cell, ?_⟩
    obtain ⟨_, num, space⟩ := a
    cases list
    simp [nothing]

/-- `ARRAY_INSERT` adds an item at its place. -/
theorem arrayInsert_meets (positive : 0 < itemsize.toNat) (small : itemsize.toNat < 2147483648)
    (represents : Represents itemsize limit a items) {i : UInt32} (inside : i.toNat ≤ items.length)
    (s : α) :
    Meets (arrayInsert memory itemsize a i s) requests
      (fun b _ => Represents itemsize (grown limit (items.length + 1)) b
        (items.take i.toNat ++ s :: items.drop i.toNat))
      (Refused memory (items.length + 1)) := by
  have ensured :=
    arrayEnsure_meets memory requests 1 (items.length + 1) positive small represents rfl
    (Nat.succ_pos _)
  refine ensured.bind fun b later ready => ?_
  obtain ⟨cell, spare, list, sized⟩ := ready.cell (Nat.lt_succ_self _)
  have count : b.num.toNat = items.length := by rw [ready.num, represents.count]
  have place : i.toNat = (items.take i.toNat).length := by
    rw [List.length_take]
    omega
  have halves := List.take_append_drop i.toNat items
  rw [← halves] at list
  have opened := arrayOpen_meets (E := Refused memory (items.length + 1)) later list place
    (by rw [halves]; exact count)
  refine opened.bind fun c later gap => ?_
  obtain ⟨gap, rfl⟩ := gap
  refine (arraySet_meets (s := s) rfl (by
    rw [List.length_append, List.length_cons]
    omega)).bind fun d later same => meets_pure ?_
  have written : (items.take i.toNat ++ gap :: (items.drop i.toNat ++ spare)).set i.toNat s =
      (items.take i.toNat ++ s :: items.drop i.toNat) ++ spare := by
    rw [List.set_append_right _ _ (by omega), ← place, Nat.sub_self, List.set_cons_zero]
    simp
  rw [written] at same
  subst same
  have length : (items.take i.toNat ++ s :: items.drop i.toNat).length = items.length + 1 := by
    rw [List.length_append, List.length_cons, ← Nat.add_assoc, ← List.length_append, halves]
  refine represents_block rfl ?_ (sized.replace ?_)
  · rw [count_add (n := 1) count rfl ready.few, length]
    rfl
  · rw [List.length_append, length]
    simp only [List.length_append, List.length_cons]
    omega

/-- The cells behind an item move one down. -/
theorem arrayClose_meets (requests : Nat) {front back : List α} {item : α} {i : UInt32}
    {E : ArrayStop → Prop}
    (list : a.list = some (front ++ item :: back ++ spare)) (place : i.toNat = front.length)
    (count : a.num.toNat = (front ++ item :: back).length) :
    Meets (arrayClose a i) requests
      (fun b _ => ∃ last, b = { a with list := some (front ++ back ++ last :: spare) }) E := by
  rw [List.length_append, List.length_cons] at count
  have before : (a.num - 1).toNat = a.num.toNat - 1 := by
    rw [UInt32.toNat_sub_of_le _ _ (UInt32.le_iff_toNat_le.mpr (by simp; omega))]
    rfl
  rw [arrayClose]
  by_cases inner : i < a.num - 1
  · have below := UInt32.lt_iff_toNat_lt.mp inner
    have left : (a.num - i - 1).toNat = back.length := by
      rw [UInt32.toNat_sub_of_le _ _ (by
        rw [UInt32.le_iff_toNat_le, UInt32.toNat_sub_of_le _ _ (by
          rw [UInt32.le_iff_toNat_le]; omega)]
        simp only [UInt32.toNat_one]
        omega), UInt32.toNat_sub_of_le _ _ (by rw [UInt32.le_iff_toNat_le]; omega)]
      simp only [UInt32.toNat_one]
      omega
    have nonempty : back ≠ [] := by
      intro nothing
      rw [nothing, List.length_nil] at count
      omega
    obtain ⟨init, last, split⟩ := (List.eq_nil_or_concat back).resolve_left nonempty
    rw [List.concat_eq_append] at split
    subst split
    have moved : memmove front.length (front.length + 1) (init ++ [last]).length
        (front ++ item :: (init ++ [last]) ++ spare) =
        some ((), front ++ (init ++ [last]) ++ last :: spare) := by
      have early : (front ++ item :: (init ++ [last]) ++ spare).take front.length = front := by
        rw [List.append_assoc, List.take_left]
      have middle : ((front ++ item :: (init ++ [last]) ++ spare).drop (front.length + 1)).take
          (init ++ [last]).length = init ++ [last] := by
        rw [List.append_assoc, ← List.drop_drop, List.drop_left, List.cons_append,
          List.drop_succ_cons, List.drop_zero, List.take_left]
      have late : (front ++ item :: (init ++ [last]) ++ spare).drop
          (front.length + (init ++ [last]).length) = last :: spare := by
        have whole : front ++ item :: (init ++ [last]) ++ spare =
            (front ++ item :: init) ++ last :: spare := by simp
        have length : front.length + (init ++ [last]).length = (front ++ item :: init).length := by
          simp only [List.length_append, List.length_cons, List.length_nil]
        rw [whole, length, List.drop_left]
      rw [memmove, if_pos (by simp only [List.length_append, List.length_cons]; omega), early,
        middle, late, List.append_assoc front (init ++ [last])]
    rw [if_pos inner, arrayMove, list, Option.getD_some, place, left, moved]
    exact meets_pure ⟨last, rfl⟩
  · rw [UInt32.lt_iff_toNat_lt, before] at inner
    have nothing : back = [] := List.eq_nil_of_length_eq_zero (by omega)
    rw [if_neg (by rw [UInt32.lt_iff_toNat_lt, before]; exact inner)]
    refine meets_pure ⟨item, ?_⟩
    obtain ⟨_, num, space⟩ := a
    cases list
    simp [nothing]

/-- `ARRAY_REMOVE` takes out the item at its place. -/
theorem arrayRemove_meets {E : ArrayStop → Prop} (represents : Represents itemsize limit a items)
    {i : UInt32} (inside : i.toNat < items.length) :
    Meets (arrayRemove a i) requests
      (fun b _ => Represents itemsize limit b (items.take i.toNat ++ items.drop (i.toNat + 1)))
          E := by
  cases represents with
  | empty => simp at inside
  | @block items spare num space count sized =>
    have halves : items.take i.toNat ++ items[i.toNat] :: items.drop (i.toNat + 1) = items := by
      rw [← List.drop_eq_getElem_cons inside, List.take_append_drop]
    have place : i.toNat = (items.take i.toNat).length := by
      rw [List.length_take]
      omega
    have closed := arrayClose_meets (E := E) (a := ⟨some (items ++ spare), num, space⟩) requests
      (by rw [halves]) place (by rw [halves]; exact count)
    refine closed.bind fun b later removed => meets_pure ?_
    obtain ⟨last, rfl⟩ := removed
    have length : (items.take i.toNat ++ items.drop (i.toNat + 1)).length + 1 = items.length := by
      rw [List.length_append, List.length_take, List.length_drop]
      omega
    have fewer : (num - 1).toNat = (items.take i.toNat ++ items.drop (i.toNat + 1)).length := by
      rw [UInt32.toNat_sub_of_le _ _ (UInt32.le_iff_toNat_le.mpr (by simp; omega)), count,
        UInt32.toNat_one]
      omega
    by_cases gone : num - 1 = 0
    · rw [gone, UInt32.toNat_zero] at fewer
      rw [List.eq_nil_of_length_eq_zero fewer.symm, if_pos gone]
      exact .empty
    · rw [if_neg gone]
      refine represents_block rfl fewer (sized.replace ?_)
      simp only [List.length_append, List.length_cons] at length ⊢
      omega

/-- `ARRAY_SET` replaces the item at its place. -/
theorem arraySet_represents {E : ArrayStop → Prop} (represents : Represents itemsize limit a items)
    {i : UInt32} (inside : i.toNat < items.length) (s : α) :
    Meets (arraySet a i s) requests
      (fun b _ => Represents itemsize limit b (items.set i.toNat s)) E := by
  cases represents with
  | empty => simp at inside
  | @block items spare num space count sized =>
    refine (arraySet_meets (a := ⟨some (items ++ spare), num, space⟩) rfl (by
      rw [List.length_append]
      omega)).mono (fun b later same => ?_) fun _ bad => bad
    rw [List.set_append_left _ _ inside] at same
    subst same
    exact represents_block rfl (by rw [List.length_set]; exact count) (sized.replace (by simp))

/-- `ARRAY_CLEAR` leaves no items. -/
theorem represents_clear (represents : Represents itemsize limit a items) :
    Represents itemsize limit (arrayClear a) [] := by
  cases represents with
  | empty => exact .empty
  | @block items spare num space count sized =>
    exact @represents_block α itemsize limit _ [] (items ++ spare) rfl rfl sized

/-- `ARRAY_TRUNC` takes items off the end. -/
theorem represents_trunc (represents : Represents itemsize limit a items) (n : UInt32) :
    Represents itemsize limit (arrayTrunc a n) (items.take (items.length - n.toNat)) := by
  rw [arrayTrunc]
  by_cases some_left : n < a.num
  · have below := UInt32.lt_iff_toNat_lt.mp some_left
    rw [if_pos some_left]
    cases represents with
    | empty => simp at below
    | @block items spare num space count sized =>
      have block : items ++ spare = items.take (items.length - n.toNat) ++
          (items.drop (items.length - n.toNat) ++ spare) := by
        rw [← List.append_assoc, List.take_append_drop]
      rw [block] at sized
      refine represents_block (congrArg some block) ?_ sized
      rw [UInt32.toNat_sub_of_le _ _ (UInt32.le_iff_toNat_le.mpr below.le), count, List.length_take]
      omega
  · rw [UInt32.lt_iff_toNat_lt, represents.count] at some_left
    rw [if_neg (by rw [UInt32.lt_iff_toNat_lt, represents.count]; exact some_left),
      show items.length - n.toNat = 0 by omega]
    exact .empty

/-- `ARRAY_EXPAND` adds items at the end that nobody has written. -/
theorem arrayExpand_meets (positive : 0 < itemsize.toNat) (small : itemsize.toNat < 2147483648)
    (represents : Represents itemsize limit a items) {n : UInt32}
    (some_items : 0 < items.length + n.toNat) :
    Meets (arrayExpand memory itemsize a n) requests
      (fun b _ => ∃ new, new.length = n.toNat ∧
        Represents itemsize (grown limit (items.length + n.toNat)) b (items ++ new))
      (Refused memory (items.length + n.toNat)) := by
  have ensured := arrayEnsure_meets memory requests n (items.length + n.toNat) positive small
    represents rfl some_items
  refine ensured.bind fun b later ready => meets_pure ?_
  obtain ⟨⟨spare, list, room, sized⟩, num, few⟩ := ready
  have count : b.num.toNat = items.length := by rw [num, represents.count]
  rw [List.length_append] at room
  have length : (spare.take n.toNat).length = n.toNat := by
    rw [List.length_take]
    omega
  have block : items ++ spare = items ++ spare.take n.toNat ++ spare.drop n.toNat := by
    rw [List.append_assoc, List.take_append_drop]
  rw [block] at list sized
  refine ⟨spare.take n.toNat, length, represents_block list ?_ sized⟩
  rw [count_add count rfl few, List.length_append, length]

/-- `ARRAY_CONCAT` adds the items of another array at the end. -/
theorem arrayConcat_meets {b : GrowingArray α} {others : List α} {limit' : Nat}
    (positive : 0 < itemsize.toNat) (small : itemsize.toNat < 2147483648)
    (represents : Represents itemsize limit a items) (second : Represents itemsize limit' b others)
    (some_items : 0 < items.length + others.length) :
    Meets (arrayConcat memory itemsize a b) requests
      (fun c _ => Represents itemsize (grown limit (items.length + others.length)) c
        (items ++ others))
      (Refused memory (items.length + others.length)) := by
  have other_count := second.count
  have ensured :=
    arrayEnsure_meets memory requests b.num (items.length + others.length) positive small
    represents (by rw [other_count]) some_items
  refine ensured.bind fun c later ready => ?_
  obtain ⟨⟨spare, list, room, sized⟩, num, few⟩ := ready
  have count : c.num.toNat = items.length := by rw [num, represents.count]
  have taken : (b.list.getD []).take b.num.toNat = others := by
    rw [other_count]
    cases second with
    | empty => rfl
    | block => exact List.take_left
  rw [List.length_append] at room
  have inside : others.length = b.num.toNat ∧
      c.num.toNat + others.length ≤ (c.list.getD []).length := by
    rw [list, Option.getD_some, List.length_append, count]
    exact ⟨other_count.symm, by omega⟩
  simp only [taken, if_pos inside]
  apply meets_pure
  rw [list, Option.getD_some, count, List.take_left, ← List.drop_drop, List.drop_left]
  refine represents_block rfl ?_ (sized.replace ?_)
  · rw [List.length_append, count_add count (by rw [other_count]) few]
  · simp only [List.length_append, List.length_drop]
    omega

/-- What can be done to an array. -/
inductive Operation (α : Type) where
  | add (s : α)
  | insert (i : UInt32) (s : α)
  | remove (i : UInt32)
  | set (i : UInt32) (s : α)
  | expand (n : UInt32)
  | trunc (n : UInt32)
  | concat (b : GrowingArray α)
  | clear
  | free

namespace Operation

/-- The macro of an operation. -/
def run (memory : Nat → Option (Nat → α)) (itemsize : UInt64) (a : GrowingArray α) :
    Operation α → Arrays (GrowingArray α)
  | add s => arrayAddItem memory itemsize a s
  | insert i s => arrayInsert memory itemsize a i s
  | remove i => arrayRemove a i
  | set i s => arraySet a i s
  | expand n => arrayExpand memory itemsize a n
  | trunc n => pure (arrayTrunc a n)
  | concat b => arrayConcat memory itemsize a b
  | clear => pure (arrayClear a)
  | free => pure (arrayFree a)

/-- What an operation makes of a list. -/
inductive Makes (itemsize : UInt64) : Operation α → List α → List α → Prop where
  | add {items : List α} {s : α} : Makes itemsize (.add s) items (items ++ [s])
  | insert {items : List α} {i : UInt32} {s : α} :
    Makes itemsize (.insert i s) items (items.take i.toNat ++ s :: items.drop i.toNat)
  | remove {items : List α} {i : UInt32} :
    Makes itemsize (.remove i) items (items.take i.toNat ++ items.drop (i.toNat + 1))
  | set {items : List α} {i : UInt32} {s : α} :
      Makes itemsize (.set i s) items (items.set i.toNat s)
  /-- The new items are not initialised. -/
  | expand {items new : List α} {n : UInt32} (length : new.length = n.toNat) :
    Makes itemsize (.expand n) items (items ++ new)
  | trunc {items : List α} {n : UInt32} :
    Makes itemsize (.trunc n) items (items.take (items.length - n.toNat))
  | concat {items others : List α} {b : GrowingArray α} {limit : Nat}
    (second : Represents itemsize limit b others) :
    Makes itemsize (.concat b) items (items ++ others)
  | clear {items : List α} : Makes itemsize .clear items []
  | free {items : List α} : Makes itemsize .free items []

/-- An operation within the bounds of a list, and with no more than `most` items to make room for.
To make room for none at all is a division by zero. -/
inductive Within (itemsize : UInt64) (most : Nat) : Operation α → List α → Prop where
  | add {items : List α} {s : α} (fits : items.length + 1 ≤ most) :
    Within itemsize most (.add s) items
  | insert {items : List α} {i : UInt32} {s : α} (inside : i.toNat ≤ items.length)
    (fits : items.length + 1 ≤ most) : Within itemsize most (.insert i s) items
  | remove {items : List α} {i : UInt32} (inside : i.toNat < items.length) :
    Within itemsize most (.remove i) items
  | set {items : List α} {i : UInt32} {s : α} (inside : i.toNat < items.length) :
    Within itemsize most (.set i s) items
  | expand {items : List α} {n : UInt32} (some_items : 0 < items.length + n.toNat)
    (fits : items.length + n.toNat ≤ most) : Within itemsize most (.expand n) items
  | trunc {items : List α} {n : UInt32} : Within itemsize most (.trunc n) items
  | concat {items others : List α} {b : GrowingArray α} {limit : Nat}
    (second : Represents itemsize limit b others) (some_items : 0 < items.length + others.length)
    (fits : items.length + others.length ≤ most) : Within itemsize most (.concat b) items
  | clear {items : List α} : Within itemsize most .clear items
  | free {items : List α} : Within itemsize most .free items

end Operation

/-- A limit of a block can be raised. -/
theorem Represents.mono {limit' : Nat} (represents : Represents itemsize limit a items)
    (le : limit ≤ limit') : Represents itemsize limit' a items := by
  cases represents with
  | empty => exact .empty
  | block count sized => exact .block count ⟨sized.size, sized.nonempty, sized.bound.trans le⟩

/-- One operation does to the array what it does to the list. -/
theorem Operation.run_meets {op : Operation α} {most : Nat} (positive : 0 < itemsize.toNat)
    (small : itemsize.toNat < 2147483648)
    (represents : Represents itemsize (max 10 (2 * most)) a items)
    (within : op.Within itemsize most items) :
    Meets (op.run memory itemsize a) requests
      (fun b _ => ∃ next, op.Makes itemsize items next ∧
        Represents itemsize (max 10 (2 * most)) b next) (Refused memory most) := by
  have limits : ∀ {need : Nat}, need ≤ most →
      grown (max 10 (2 * most)) need ≤ max 10 (2 * most) := by
    intro need le
    unfold grown
    omega
  cases within with
  | add fits =>
    exact (arrayAddItem_meets positive small represents _).mono
      (fun _ _ next => ⟨_, .add, next.mono (limits fits)⟩) fun _ bad => bad.mono fits
  | insert inside fits =>
    exact (arrayInsert_meets positive small represents inside _).mono
      (fun _ _ next => ⟨_, .insert, next.mono (limits fits)⟩) fun _ bad => bad.mono fits
  | remove inside =>
    exact (arrayRemove_meets represents inside).mono (fun _ _ next => ⟨_, .remove, next⟩)
      fun _ bad => bad
  | set inside =>
    exact (arraySet_represents represents inside _).mono (fun _ _ next => ⟨_, .set, next⟩)
      fun _ bad => bad
  | expand some_items fits =>
    refine (arrayExpand_meets positive small represents some_items).mono (fun _ _ next => ?_)
      fun _ bad => bad.mono fits
    obtain ⟨new, length, next⟩ := next
    exact ⟨_, .expand length, next.mono (limits fits)⟩
  | trunc => exact meets_pure ⟨_, .trunc, represents_trunc represents _⟩
  | concat second some_items fits =>
    exact (arrayConcat_meets positive small represents second some_items).mono
      (fun _ _ next => ⟨_, .concat second, next.mono (limits fits)⟩) fun _ bad => bad.mono fits
  | clear => exact meets_pure ⟨_, .clear, represents_clear represents⟩
  | free => exact meets_pure ⟨_, .free, .empty⟩

/-- Operations on an array, one after the other. -/
def runOperations (memory : Nat → Option (Nat → α)) (itemsize : UInt64) :
    List (Operation α) → GrowingArray α → Arrays (GrowingArray α)
  | [], a => pure a
  | op :: ops, a => do
    let a ← op.run memory itemsize a
    runOperations memory itemsize ops a

/-- What operations make of a list, one after the other. -/
inductive MakesAll (itemsize : UInt64) : List (Operation α) → List α → List α → Prop where
  | nil {items : List α} : MakesAll itemsize [] items items
  | cons {op : Operation α} {ops : List (Operation α)} {items next final : List α}
    (first : op.Makes itemsize items next) (later : MakesAll itemsize ops next final) :
    MakesAll itemsize (op :: ops) items final

/-- Operations that are within the bounds of the list, wherever they get to. -/
def AllWithin (itemsize : UInt64) (most : Nat) : List (Operation α) → List α → Prop
  | [], _ => True
  | op :: ops, items =>
    op.Within itemsize most items ∧ ∀ next, op.Makes itemsize items next →
      AllWithin itemsize most ops next

/-- Any operations do to the array what they do to the list. -/
theorem runOperations_meets {ops : List (Operation α)} {most : Nat} (positive : 0 < itemsize.toNat)
    (small : itemsize.toNat < 2147483648)
    (represents : Represents itemsize (max 10 (2 * most)) a items)
    (within : AllWithin itemsize most ops items) :
    Meets (runOperations memory itemsize ops a) requests
      (fun b _ => ∃ final, MakesAll itemsize ops items final ∧
        Represents itemsize (max 10 (2 * most)) b final) (Refused memory most) := by
  induction ops generalizing a items requests with
  | nil => exact meets_pure ⟨items, .nil, represents⟩
  | cons op ops ih =>
    refine (op.run_meets positive small represents within.1).bind fun b later made => ?_
    obtain ⟨next, makes, represents⟩ := made
    refine (ih represents (within.2 next makes)).mono (fun c final made => ?_) fun _ bad => bad
    obtain ⟨final, all, represents⟩ := made
    exact ⟨final, .cons makes all, represents⟩

/-- In every run of operations on an array from `ARRAY_INITIALIZER` on, within its bounds, all
accesses stay in its block, the items are those of the list, and the block has room for ten items or
for no more than twice as many as it had to hold. The program exits only where a request for memory
fails or the number of items does not fit an `unsigned int`. -/
theorem array_is_list (memory : Nat → Option (Nat → α)) {itemsize : UInt64} {most : Nat}
    {ops : List (Operation α)} (positive : 0 < itemsize.toNat) (small : itemsize.toNat < 2147483648)
    (within : AllWithin itemsize most ops []) :
    Meets (runOperations memory itemsize ops .initializer) 0
      (fun a _ => ∃ items, MakesAll itemsize ops [] items ∧ a.num.toNat = items.length ∧
        (∀ (i : UInt32) (inside : i.toNat < items.length), arrayItem a i = .ok items[i.toNat]) ∧
        a.space.toNat ≤ max 10 (2 * most) * itemsize.toNat)
      (Refused memory most) := by
  refine (runOperations_meets positive small .empty within).mono (fun a later made => ?_)
    fun _ bad => bad
  obtain ⟨items, all, represents⟩ := made
  refine ⟨items, all, represents.count, fun i inside => represents.item inside, ?_⟩
  cases represents with
  | empty => simp
  | block count sized =>
    rw [sized.size]
    exact Nat.mul_le_mul_right _ sized.bound

/-- Two items, one more in front of them, and one less. -/
theorem array_is_list_three : ∃ (a : GrowingArray Nat) (requests : Nat),
    runOperations (fun _ => some fun _ => 0) 8 [.add 5, .add 6, .insert 0 7, .remove 1] .initializer
      0 =
      .ok (a, requests) ∧ a.num = 2 ∧ arrayItem a 0 = .ok 7 ∧ arrayItem a 1 = .ok 6 := by
  have list := @array_is_list Nat (fun _ => some fun _ => 0) 8 3
    [.add 5, .add 6, .insert 0 7, .remove 1] (by decide) (by decide) (by
      refine ⟨.add (by decide), fun next made => ?_⟩
      cases made
      refine ⟨.add (by decide), fun next made => ?_⟩
      cases made
      refine ⟨.insert (by decide) (by decide), fun next made => ?_⟩
      cases made
      exact ⟨.remove (by decide), fun next made => trivial⟩)
  have never : ∀ stop, ¬ Refused (fun _ => some fun _ => (0 : Nat)) 3 stop := by
    rintro stop (none | many)
    · cases none
    · omega
  obtain ⟨a, requests, ran, items, all, count, item, -⟩ := list.ends never
  cases all with
  | cons first all => cases first; cases all with
    | cons first all => cases first; cases all with
      | cons first all => cases first; cases all with
        | cons first all => cases first; cases all with
          | nil => exact ⟨a, requests, ran, UInt32.toNat_inj.mp count, item 0 (by decide),
              item 1 (by decide)⟩

end Mdp.GrowingArrays
