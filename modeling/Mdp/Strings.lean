import Mdp.Matching
import Mdp.Randpass

/-!
# Strings in memory

`wcscasestr` and `join_list` of `str.c`, with `wcsncasecmp` and `strlcat` under them, on the cells
of their arrays. A pointer into an array is the cells from there on, or the index of a cell. An
access past the last cell ends a run, so a string whose terminator is the last cell is not read past
its terminator.
-/

namespace Mdp

open CStrings

/-- `wcsncasecmp`; `none` where it reads past a last cell. -/
def wcsncasecmpCells (towlower : WChar → WChar) : List WChar → List WChar → Nat → Option Int
  | _, _, 0 => some 0
  | [], _, _ + 1 => none
  | _, [], _ + 1 => none
  | c1 :: s1, c2 :: s2, n + 1 =>
    if c1 = 0 then some (-c2.toNat)
    else if towlower c1 = towlower c2 then wcsncasecmpCells towlower s1 s2 n
    else some ((towlower c1).toNat - (towlower c2).toNat)

/-- The loops of `wcscasestr`. What they return is the cell before the one that `s` points to. -/
def wcscasestrScan (towlower : WChar → WChar) (c : WChar) (find : List WChar) (len : Nat) :
    List WChar → Option (Option (List WChar))
  | [] => none
  | sc :: s =>
    if sc = 0 then some none
    else if towlower sc ≠ c then wcscasestrScan towlower c find len s
    else
      match wcsncasecmpCells towlower s find len with
      | none => none
      | some order =>
        if order ≠ 0 then wcscasestrScan towlower c find len s else some (some (sc :: s))

/-- `wcscasestr`; `none` where it reads past a last cell, and `some none` is `NULL`. -/
def wcscasestrCells (towlower : WChar → WChar) (s : List WChar) :
    List WChar → Option (Option (List WChar))
  | [] => none
  | c :: find =>
    if c ≠ 0 then
      match wcslenIn find with
      | none => none
      | some len => wcscasestrScan towlower (towlower c) find len s
    else some (some s)

section Searching

variable {towlower : WChar → WChar} {s find : List WChar}

/-- A comparison of a whole string keeps to the cells of both. -/
theorem wcsncasecmpCells_append (string : ∀ wide ∈ s, wide ≠ 0) (after cells : List WChar) :
    wcsncasecmpCells towlower (s ++ 0 :: after) (find ++ cells) find.length =
      some (wcsncasecmp towlower s find find.length) := by
  induction find generalizing s with
  | nil =>
    cases s with
    | nil => rfl
    | cons c1 s => rfl
  | cons c2 find ih =>
    cases s with
    | nil => rfl
    | cons c1 s =>
      rw [List.forall_mem_cons] at string
      rw [List.cons_append, List.cons_append, List.length_cons, wcsncasecmpCells, if_neg string.1,
        wcsncasecmp_cons]
      by_cases same : towlower c1 = towlower c2
      · rw [if_pos same, if_pos same]
        exact ih string.2
      · rw [if_neg same, if_neg same]

/-- The loops return a place in the string, with its terminator, or `NULL`. -/
theorem wcscasestrScan_append (string : ∀ wide ∈ s, wide ≠ 0) (c : WChar)
    (after cells : List WChar) :
    wcscasestrScan towlower c (find ++ cells) find.length (s ++ 0 :: after) =
      some ((wcscasestrLoop towlower c find s).map (· ++ 0 :: after)) := by
  induction s with
  | nil => rfl
  | cons sc s ih =>
    rw [List.forall_mem_cons] at string
    rw [List.cons_append, wcscasestrScan, wcscasestrLoop, if_neg string.1,
      wcsncasecmpCells_append string.2, ih string.2]
    by_cases first : towlower sc ≠ c
    · rw [if_pos first, if_pos first]
    · rw [if_neg first, if_neg first]
      by_cases others : wcsncasecmp towlower s find find.length ≠ 0
      · simp only [if_pos others]
      · simp only [if_neg others]
        rfl

/-- `wcscasestr` keeps to the cells of both strings, and returns what `Mdp.Search` computes. -/
theorem wcscasestrCells_append (string : ∀ wide ∈ s, wide ≠ 0) (wanted : ∀ wide ∈ find, wide ≠ 0)
    (after cells : List WChar) :
    wcscasestrCells towlower (s ++ 0 :: after) (find ++ 0 :: cells) =
      some ((wcscasestr towlower s find).map (· ++ 0 :: after)) := by
  cases find with
  | nil => rfl
  | cons c find =>
    rw [List.forall_mem_cons] at wanted
    rw [List.cons_append, wcscasestrCells, if_pos wanted.1, wcslenIn_append wanted.2]
    exact wcscasestrScan_append string (towlower c) after (0 :: cells)

end Searching

/-- The first loop of `strlcat`: where `d` stops, `n` cells on at most. -/
def strlcatEnd (dst : Bytes) (d : Nat) : Nat → Option Nat
  | 0 => some d
  | n + 1 =>
    match dst[d]? with
    | none => none
    | some byte => if byte ≠ 0 then strlcatEnd dst (d + 1) n else some d

/-- The second loop of `strlcat`: what is in `dst`, and where `d` stops. -/
def strlcatCopy (dst : Bytes) (d n : Nat) : Bytes → Option (Bytes × Nat)
  | [] => some (dst, d)
  | byte :: s =>
    if n ≠ 1 then
      if d < dst.length then strlcatCopy (dst.set d byte) (d + 1) (n - 1) s else none
    else strlcatCopy dst d n s

/-- `strlcat`: what is in `dst`, and what it returns; `none` where it leaves the cells of `dst`. -/
def strlcat (dst src : Bytes) (siz : Nat) : Option (Bytes × Nat) :=
  match strlcatEnd dst 0 siz with
  | none => none
  | some dlen =>
    let n := siz - dlen
    if n = 0 then some (dst, dlen + src.length)
    else
      match strlcatCopy dst dlen n src with
      | none => none
      | some (dst, d) => if d < dst.length then some (dst.set d 0, dlen + src.length) else none

/-- A call of `strlcat`: the size that it is passed, the cells that its array then has, and what it
returns unless it leaves them. -/
structure StrlcatCall where
  siz : Nat
  allocated : Nat
  returned : Option Nat
  deriving DecidableEq, Repr

/-- A run of `join_list`: the calls of `strlcat`, and the cells that it returns, or `NULL`. -/
structure Joining where
  calls : List StrlcatCall
  result : Except Stop (Option Bytes)

/-- A call of `strlcat`, and what follows it. -/
def Joining.append (o src : Bytes) (len : UInt64) (next : Bytes → Joining) : Joining :=
  match strlcat o src len.toNat with
  | none => ⟨[⟨len.toNat, o.length, none⟩], .error .outside⟩
  | some (o', returned) =>
    ⟨⟨len.toNat, o.length, some returned⟩ :: (next o').calls, (next o').result⟩

/-- What the requests for memory are answered, and what new cells hold. -/
structure Heap where
  /-- Whether a request succeeds, by its number. -/
  succeeds : Nat → Bool
  /-- What a new cell holds, by its index. -/
  fresh : Nat → UInt8

/-- The new cells of an array. -/
def Heap.cells (heap : Heap) (first last : Nat) : Bytes :=
  (List.range' first (last - first)).map heap.fresh

/-- `xmalloc`, with the cells that it returns. -/
def Heap.malloc (heap : Heap) (request : Nat) (size : UInt64) : Except Ending Bytes :=
  if size = 0 then .error (.exit exitFailure "zero size")
  else if heap.succeeds request then .ok (heap.cells 0 size.toNat)
  else .error (.exit exitFailure "xmalloc failed")

/-- `xrealloc`, with the cells that it returns. -/
def Heap.realloc (heap : Heap) (request : Nat) (oldptr : Bytes) (nmemb size : UInt64) :
    Except Ending Bytes :=
  let newsize := nmemb * size
  if newsize = 0 then .error (.exit exitFailure "zero size")
  else if 18446744073709551615 / nmemb < size then
    .error (.exit exitFailure "nmemb * size > SIZE_MAX")
  else if heap.succeeds request then
    .ok (oldptr.take newsize.toNat ++ heap.cells oldptr.length newsize.toNat)
  else .error (.exit exitFailure "xrealloc failed")

/-- The loop of `join_list` after the first token, from its variables `len` and `o` on. -/
def joinTokens (heap : Heap) (csep : Bytes) (request : Nat) (len : UInt64) (o : Bytes) :
    List Bytes → Joining
  | [] => ⟨[], .ok (some o)⟩
  | c :: tokens =>
    let len := len + UInt64.ofNat c.length
    let len := len + 1
    match heap.realloc request o len 1 with
    | .error ending => ⟨[], .error (.ending ending)⟩
    | .ok o => .append o csep len fun o => .append o c len fun o =>
        joinTokens heap csep (request + 1) len o tokens

/-- `join_list`. -/
def joinListCells (heap : Heap) (sep : UInt8) : List Bytes → Joining
  | [] => ⟨[], .ok none⟩
  | c :: tokens =>
    let csep := upToNul [sep, 0]
    let separatorCount := tokens.length
    let len := UInt64.ofNat (separatorCount + 1)
    let len := len + UInt64.ofNat c.length
    match heap.malloc 0 len with
    | .error ending => ⟨[], .error (.ending ending)⟩
    | .ok [] => ⟨[], .error .outside⟩
    | .ok (_ :: cells) => .append (0 :: cells) c len fun o => joinTokens heap csep 1 len o tokens

section Joining

variable {front text rest src csep o : Bytes} {heap : Heap} {len : UInt64} {request : Nat}

/-- The first loop stops at the terminator. -/
theorem strlcatEnd_append (string : ∀ byte ∈ text, byte ≠ 0) {n : Nat} (room : text.length < n) :
    strlcatEnd (front ++ (text ++ 0 :: rest)) front.length n =
        some (front.length + text.length) := by
  induction text generalizing front n with
  | nil =>
    cases n with
    | zero => simp at room
    | succ n => simp [strlcatEnd]
  | cons byte text ih =>
    rw [List.forall_mem_cons] at string
    cases n with
    | zero => simp at room
    | succ n =>
      have next := @ih (front ++ [byte]) string.2 n (by simpa using room)
      rw [List.length_append, List.length_singleton, List.append_assoc] at next
      have here : (front ++ (byte :: text ++ 0 :: rest))[front.length]? = some byte := by simp
      rw [strlcatEnd, here]
      simp only [ne_eq, string.1, not_false_eq_true, if_true]
      rw [List.cons_append, ← List.singleton_append, next, List.length_cons]
      congr 1
      omega

/-- The second loop copies a string for which there is room. -/
theorem strlcatCopy_append {n : Nat} (room : src.length < n) (cells : src.length ≤ rest.length) :
    strlcatCopy (front ++ rest) front.length n src =
      some (front ++ src ++ rest.drop src.length, front.length + src.length) := by
  induction src generalizing front rest n with
  | nil => simp [strlcatCopy]
  | cons byte src ih =>
    cases rest with
    | nil => simp at cells
    | cons cell rest =>
      rw [List.length_cons] at room cells
      have inside : front.length < (front ++ cell :: rest).length := by simp
      have written : (front ++ cell :: rest).set front.length byte = front ++ [byte] ++
        rest := by simp
      have next := @ih (front ++ [byte]) rest (n - 1) (by omega) (by
        rw [List.length_cons] at cells
        omega)
      rw [List.length_append, List.length_singleton] at next
      rw [strlcatCopy, if_pos (by omega), if_pos inside, written, next, List.length_cons,
        List.drop_succ_cons, List.append_assoc front, List.singleton_append]
      congr 2
      omega

/-- `strlcat` appends a string for which there is room with its terminator. -/
theorem strlcat_append (string : ∀ byte ∈ text, byte ≠ 0) {siz : Nat}
    (exact : siz = (text ++ 0 :: rest).length) (room : text.length + src.length < siz) :
    strlcat (text ++ 0 :: rest) src siz =
      some (text ++ src ++ 0 :: rest.drop src.length, text.length + src.length) := by
  rw [List.length_append, List.length_cons] at exact
  have found := @strlcatEnd_append [] text rest string siz (by omega)
  have copied := @strlcatCopy_append text (0 :: rest) src (siz - text.length) (by omega) (by
    rw [List.length_cons]
    omega)
  simp only [List.nil_append, List.length_nil, Nat.zero_add] at found
  have here : src.length < (0 :: rest).length := by
    rw [List.length_cons]
    omega
  rw [List.drop_eq_getElem_cons here, List.drop_succ_cons] at copied
  unfold strlcat
  simp only [found, copied]
  rw [if_neg (by omega), if_pos (by simp)]
  simp

/-- `xmalloc` of some bytes fails only where there is no memory. -/
theorem Heap.malloc_eq (positive : 0 < len.toNat) : heap.malloc request len =
    if heap.succeeds request then .ok (heap.cells 0 len.toNat)
    else .error (.exit exitFailure "xmalloc failed") := by
  have nonzero : len ≠ 0 := fun zero => by simp [zero] at positive
  rw [Heap.malloc, if_neg nonzero]

/-- `xrealloc` keeps the cells of an array that grows. -/
theorem Heap.realloc_eq (positive : 0 < len.toNat) (grows : o.length ≤ len.toNat) :
    heap.realloc request o len 1 =
      if heap.succeeds request then .ok (o ++ heap.cells o.length len.toNat)
      else .error (.exit exitFailure "xrealloc failed") := by
  have nonzero : len ≠ 0 := fun zero => by simp [zero] at positive
  have fits : ¬ 18446744073709551615 / len < 1 := by
    rw [UInt64.not_lt, UInt64.le_iff_toNat_le, UInt64.toNat_div]
    have bound := len.toNat_lt
    exact (Nat.one_le_div_iff positive).mpr (Nat.le_of_lt_succ bound)
  unfold Heap.realloc
  rw [UInt64.mul_one, if_neg nonzero, if_neg fits, List.take_of_length_le grows]

/-- A range of cells is as long as it says. -/
theorem Heap.length_cells (heap : Heap) (first last : Nat) :
    (heap.cells first last).length = last - first := by
  rw [Heap.cells, List.length_map, List.length_range']

end Joining

end Mdp
