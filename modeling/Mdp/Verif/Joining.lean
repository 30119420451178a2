import Mathlib.Algebra.GroupWithZero.Nat
import Mdp.Strings
import Mdp.CommandLine

/-!
# Joined tokens

`join_list` returns its tokens with one separator between neighbours. Each `strlcat` is passed the
number of cells that are allocated when it is called, and has room for what it appends.
-/

namespace Mdp.JoinedTokens

open Mdp CStrings

/-- What stands between two tokens: the string of one separator, which is empty for a NUL. -/
def separatorText (sep : UInt8) : Bytes := upToNul [sep, 0]

/-- A separator that is no NUL is one byte. -/
theorem separatorText_of_ne {sep : UInt8} (character : sep ≠ 0) : separatorText sep = [sep] :=
  @upToNul_append_zero UInt8 _ _ [sep] [] (by simpa using character)

/-- The size that `join_list` has allocated in the end. -/
def totalSize (tokens : List Bytes) : Nat :=
  (tokens.map List.length).sum + (tokens.length - 1) + tokens.length

/-- A call of `strlcat` is passed the size that is allocated, and does not truncate. -/
def Exact (call : StrlcatCall) : Prop :=
  call.siz = call.allocated ∧ ∃ returned, call.returned = some returned ∧ returned < call.siz

/-- A run of `join_list` whose appends are exact, and which returns a text and its terminator
provided that the requests for memory succeed. -/
structure Joins (run : Joining) (text : Bytes) (provided : Prop) : Prop where
  exact : ∀ call ∈ run.calls, Exact call
  inside : run.result ≠ .error .outside
  whole : ∀ o, run.result = .ok o → ∃ after, o = some (text ++ 0 :: after)
  returns : (∃ o, run.result = .ok o) ↔ provided

variable {heap : Heap}

/-- A run that ends at a request for memory. -/
theorem Joins.ended {ending : Ending} {text : Bytes} {provided : Prop} (failed : ¬ provided) :
    Joins ⟨[], .error (.ending ending)⟩ text provided where
  exact := by simp
  inside := by simp
  whole := by simp
  returns := by simpa using failed

/-- The text and what it needs can be written otherwise. -/
theorem Joins.congr {run : Joining} {text text' : Bytes} {provided provided' : Prop}
    (joins : Joins run text provided) (same : text = text') (needs : provided ↔ provided') :
    Joins run text' provided' := by
  rw [← same, ← propext needs]
  exact joins

/-- The requests from a number on, if the first of them succeeds. -/
theorem succeeds_iff {request : Nat} (given : heap.succeeds request = true) (count : Nat) :
    (∀ k < count, heap.succeeds (request + 1 + k) = true) ↔
      ∀ k < count + 1, heap.succeeds (request + k) = true := by
  constructor
  · intro later k bound
    cases k with
    | zero => exact given
    | succ k =>
      rw [Nat.add_comm k 1, ← Nat.add_assoc]
      exact later k (Nat.lt_of_succ_lt_succ bound)
  · intro all k bound
    rw [Nat.add_assoc, Nat.add_comm 1 k]
    exact all (k + 1) (Nat.succ_lt_succ bound)

/-- A `strlcat` that has room, before the rest of a run. -/
theorem Joins.append {text rest src whole : Bytes} {len : UInt64} {next : Bytes → Joining}
    {provided : Prop} (string : ∀ byte ∈ text, byte ≠ 0)
    (cells : len.toNat = (text ++ 0 :: rest).length) (room : text.length + src.length < len.toNat)
    (later : ∀ after, len.toNat = (text ++ src ++ 0 :: after).length →
      Joins (next (text ++ src ++ 0 :: after)) whole provided) :
    Joins (.append (text ++ 0 :: rest) src len next) whole provided := by
  have appended := @strlcat_append text rest src string len.toNat cells room
  have kept : len.toNat = (text ++ src ++ 0 :: rest.drop src.length).length := by
    rw [List.length_append, List.length_cons] at cells
    rw [List.length_append, List.length_append, List.length_cons, List.length_drop]
    omega
  have others := later _ kept
  unfold Joining.append
  rw [appended]
  have first : Exact ⟨len.toNat, (text ++ 0 :: rest).length, some (text.length + src.length)⟩ :=
    ⟨cells, _, rfl, room⟩
  exact ⟨List.forall_mem_cons.mpr ⟨first, others.exact⟩, others.inside, others.whole,
    others.returns⟩

/-- The loop appends each token after a separator. -/
theorem joinTokens_joins {csep : Bytes} (short : csep.length ≤ 1) (plain : ∀ byte ∈ csep, byte ≠ 0)
    {tokens : List Bytes} {text rest : Bytes} {len : UInt64} {request : Nat}
    (strings : ∀ token ∈ tokens, ∀ byte ∈ token, byte ≠ 0) (string : ∀ byte ∈ text, byte ≠ 0)
    (cells : len.toNat = (text ++ 0 :: rest).length)
    (fits : len.toNat + (tokens.map List.length).sum + tokens.length < 18446744073709551616) :
    Joins (joinTokens heap csep request len (text ++ 0 :: rest) tokens)
      (text ++ tokens.flatMap (csep ++ ·))
      (∀ k < tokens.length, heap.succeeds (request + k) = true) := by
  induction tokens generalizing text rest len request with
  | nil =>
    refine ⟨by simp [joinTokens], by simp [joinTokens], ?_, by simp [joinTokens]⟩
    rintro o same
    cases same
    exact ⟨rest, by simp⟩
  | cons token tokens ih =>
    rw [List.forall_mem_cons] at strings
    rw [List.map_cons, List.sum_cons, List.length_cons] at fits
    have grown : (len + UInt64.ofNat token.length + 1).toNat = len.toNat + token.length + 1 := by
      have size : (UInt64.ofNat token.length).toNat = token.length := by
        rw [UInt64.toNat_ofNat']
        omega
      rw [UInt64.toNat_add, UInt64.toNat_add, size, UInt64.toNat_one]
      omega
    have enough : (text ++ 0 :: rest).length ≤
      (len + UInt64.ofNat token.length + 1).toNat := by omega
    have held : text.length + 1 ≤ len.toNat := by
      rw [cells, List.length_append, List.length_cons]
      omega
    rw [joinTokens, Heap.realloc_eq (by omega) enough]
    by_cases given : heap.succeeds request = true
    · rw [if_pos given, List.append_assoc, List.cons_append]
      have size : (text ++ 0 :: (rest ++ heap.cells (text ++ 0 :: rest).length
          (len + UInt64.ofNat token.length + 1).toNat)).length =
          (len + UInt64.ofNat token.length + 1).toNat := by
        rw [List.length_append, List.length_cons, List.length_append, Heap.length_cells]
        rw [List.length_append, List.length_cons] at cells ⊢
        omega
      generalize heap.cells (text ++ 0 :: rest).length
        (len + UInt64.ofNat token.length + 1).toNat = fresh at size ⊢
      refine .append string size.symm (by omega) fun after size => ?_
      have joined : ∀ byte ∈ text ++ csep, byte ≠ 0 := List.forall_mem_append.mpr ⟨string, plain⟩
      refine .append joined size (by rw [List.length_append]; omega) fun after size => ?_
      have appended := List.forall_mem_append.mpr ⟨joined, strings.1⟩
      have others : Joins (joinTokens heap csep (request + 1) (len + UInt64.ofNat token.length + 1)
          (text ++ csep ++ token ++ 0 :: after) tokens) _ _ := ih strings.2 appended size (by omega)
      refine others.congr ?_ (succeeds_iff given tokens.length)
      rw [List.flatMap_cons, ← List.append_assoc, ← List.append_assoc]
    · rw [if_neg given]
      exact .ended fun all => given (by simpa using all 0 (Nat.succ_pos _))

/-- Tokens with a separator in front of each, after the first one. -/
theorem intercalate_cons (csep first : Bytes) (tokens : List Bytes) :
    csep.intercalate (first :: tokens) = first ++ tokens.flatMap (csep ++ ·) := by
  induction tokens generalizing first with
  | nil => simp
  | cons token tokens ih =>
    rw [List.intercalate_cons_cons, ih, List.flatMap_cons]
    simp

/-- `join_list` joins its tokens, with separators that are empty for a NUL. -/
theorem joinListCells_joins (heap : Heap) (sep : UInt8) {tokens : List Bytes}
    (nonempty : tokens ≠ [])
    (strings : ∀ token ∈ tokens, ∀ byte ∈ token, byte ≠ 0)
    (fits : totalSize tokens < 18446744073709551616) :
    Joins (joinListCells heap sep tokens) ((separatorText sep).intercalate tokens)
      (∀ k < tokens.length, heap.succeeds k = true) := by
  cases tokens with
  | nil => exact absurd rfl nonempty
  | cons token tokens =>
    rw [List.forall_mem_cons] at strings
    rw [totalSize, List.map_cons, List.sum_cons, List.length_cons] at fits
    have size : (UInt64.ofNat (tokens.length + 1) + UInt64.ofNat token.length).toNat =
        token.length + tokens.length + 1 := by
      rw [UInt64.toNat_add, UInt64.toNat_ofNat', UInt64.toNat_ofNat']
      omega
    have short : (separatorText sep).length ≤ 1 := by
      unfold separatorText upToNul
      by_cases null : sep = 0 <;> simp [null]
    have plain : ∀ byte ∈ separatorText sep, byte ≠ 0 := fun byte => ne_zero_of_mem_upToNul
    rw [joinListCells, Heap.malloc_eq (by omega), intercalate_cons]
    by_cases given : heap.succeeds 0 = true
    · rw [if_pos given]
      have length := heap.length_cells 0
        (UInt64.ofNat (tokens.length + 1) + UInt64.ofNat token.length).toNat
      generalize heap.cells 0 (UInt64.ofNat (tokens.length + 1) + UInt64.ofNat token.length).toNat =
        cells
        at length ⊢
      cases cells with
      | nil =>
        rw [List.length_nil] at length
        omega
      | cons cell cells =>
        have exact : (UInt64.ofNat (tokens.length + 1) + UInt64.ofNat token.length).toNat =
            (([] : Bytes) ++ 0 :: cells).length := by
          rw [List.length_cons] at length
          rw [List.nil_append, List.length_cons]
          omega
        show Joins (.append ([] ++ 0 :: cells) token _ _) _ _
        refine .append (by simp) exact (by rw [List.length_nil]; omega) fun after size => ?_
        have others :
          Joins (joinTokens heap (separatorText sep) (0 + 1) _ (token ++ 0 :: after) tokens)
          _ _ := joinTokens_joins short plain strings.2 strings.1 size (by omega)
        refine others.congr rfl ((succeeds_iff given tokens.length).trans ?_)
        simp only [Nat.zero_add, List.length_cons]
    · rw [if_neg given]
      exact .ended fun all => given (all 0 (Nat.succ_pos _))

/-- The prefix of `mdp add` is what `Mdp.CommandLine` makes of its words. -/
theorem joinListCells_space (heap : Heap) {tokens : List Bytes} (nonempty : tokens ≠ [])
    (strings : ∀ token ∈ tokens, ∀ byte ∈ token, byte ≠ 0)
    (fits : totalSize tokens < 18446744073709551616) :
    Joins (joinListCells heap 0x20 tokens) (joinList tokens)
      (∀ k < tokens.length, heap.succeeds k = true) :=
  joinListCells_joins heap 0x20 nonempty strings fits

/-- `join_list` returns the tokens joined by one separator between neighbours, and a terminator,
where its requests for memory succeed; with a NUL for the separator nothing stands between them.
Every `strlcat` is passed the size that is then allocated, does not truncate and stays inside. -/
theorem joins_tokens (heap : Heap) (sep : UInt8) (tokens : List Bytes) (nonempty : tokens ≠ [])
    (strings : ∀ token ∈ tokens, ∀ byte ∈ token, byte ≠ 0)
    (fits : totalSize tokens < 18446744073709551616) :
    (sep ≠ 0 → Joins (joinListCells heap sep tokens) ([sep].intercalate tokens)
        (∀ k < tokens.length, heap.succeeds k = true)) ∧
      (sep = 0 → Joins (joinListCells heap sep tokens) tokens.flatten
        (∀ k < tokens.length, heap.succeeds k = true)) := by
  have joins := joinListCells_joins heap sep nonempty strings fits
  constructor
  · intro character
    rw [separatorText_of_ne character] at joins
    exact joins
  · rintro rfl
    refine joins.congr ?_ Iff.rfl
    cases tokens with
    | nil => rfl
    | cons token tokens => simp [intercalate_cons, separatorText, upToNul, List.flatMap]

/-- Memory that is always there, and full of letters. -/
def plentiful : Heap := ⟨fun _ => true, fun _ => 0x78⟩

/-- Three tokens, one of them empty, with a space between. -/
theorem joins_tokens_two :
    (0x20 ≠ (0 : UInt8) → Joins (joinListCells plentiful 0x20 [ascii "ab", [], ascii "c"])
        ([0x20].intercalate [ascii "ab", [], ascii "c"]) (∀ k < 3, plentiful.succeeds k = true)) ∧
      ((0x20 : UInt8) = 0 → Joins (joinListCells plentiful 0x20 [ascii "ab", [], ascii "c"])
        [ascii "ab", [], ascii "c"].flatten (∀ k < 3, plentiful.succeeds k = true)) :=
  joins_tokens plentiful 0x20 [ascii "ab", [], ascii "c"] (by decide)
    (fun _ member => List.forall_iff_forall_mem.mp
      (List.forall_iff_forall_mem.mp (by decide) _ member)) (by decide)

/-- With a NUL for the separator two tokens stand next to each other. -/
theorem not_joins_nul : (∀ token ∈ [ascii "a", ascii "b"], ∀ byte ∈ token, byte ≠ 0) ∧
    totalSize [ascii "a", ascii "b"] < 18446744073709551616 ∧
      ¬ Joins (joinListCells plentiful 0 [ascii "a", ascii "b"])
        ([0].intercalate [ascii "a", ascii "b"])
        (∀ k < 2, plentiful.succeeds k = true) := by
  refine ⟨fun _ member => List.forall_iff_forall_mem.mp
    (List.forall_iff_forall_mem.mp (by decide) _ member), by decide, fun joins => ?_⟩
  have ran : (joinListCells plentiful 0 [ascii "a", ascii "b"]).result =
      .ok (some [0x61, 0x62, 0, 0x78, 0x78]) := by rfl
  obtain ⟨after, same⟩ := joins.whole _ ran
  cases same

end Mdp.JoinedTokens
