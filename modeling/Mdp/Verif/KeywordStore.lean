import Mathlib.Data.List.Forall2
import Mdp.KeywordMemory
import Mdp.Tokens
import Mdp.Verif.GrowingArrays

/-!
# Whose the keywords are

After any loads of keywords, from arguments or from prompts, the array points to copies of the words
of the last one, in their order, and to nothing else; every copy that is not freed is pointed to,
once. No copy is freed twice and no memory is used that is not there, except by a prompt at which
fifty bytes or more are typed: `getnstr` then writes its NUL behind the buffer.
-/

namespace Mdp.KeywordStore

open CStrings OnCells Stopping GrowingArrays

variable {memory : Nat → Option (Nat → Option Nat)} {most : Nat} {m t : KeywordMemory}
  {pointers : List (Option Nat)} {words : List Bytes}

/-- The request of a `strdup` was answered with a pointer: a null one where there was no memory. -/
def Answered (memory : Nat → Option (Nat → Option Nat)) (ptr : Option Nat) (request : Nat) : Prop :=
  ptr = none ↔ memory request = none

/-- The strings that are not freed are those pointed to, each by one pointer. The pointers are what
the last calls of `strdup` returned, in their order: one is null exactly where its own call found no
memory. -/
structure Owns (memory : Nat → Option (Nat → Option Nat)) (m : KeywordMemory)
    (pointers : List (Option Nat)) : Prop where
  live : ∀ block, m.blocks block ≠ none ↔ some block ∈ pointers
  once : (pointers.filterMap id).Nodup
  old : ∀ block, some block ∈ pointers → block < m.made
  null : ∃ earlier asked, m.asked = earlier ++ asked ∧
    List.Forall₂ (Answered memory) pointers asked

/-- What a pointer points to. -/
def Reads (m : KeywordMemory) (ptr : Option Nat) (word : Bytes) : Prop :=
  ∀ block, ptr = some block → m.blocks block = some word

/-- The keywords are some words. -/
def Stored (memory : Nat → Option (Nat → Option Nat)) (most : Nat) (m : KeywordMemory)
    (words : List Bytes) : Prop :=
  ∃ pointers, Represents 8 (max 10 (2 * most)) m.keywords pointers ∧ Owns memory m pointers ∧
    List.Forall₂ (Reads m) pointers words

/-- A load of keywords. -/
inductive Load where
  /-- The arguments of `mdp get`. -/
  | argv (av : List Bytes)
  /-- A line at a prompt. -/
  | prompt (text : Bytes)

/-- The words of a load. -/
def Load.wanted : Load → List Bytes
  | argv av => av
  | prompt text => keywordsLoadFromChar (upToNul (text.take promptLength))

/-- The function of a load. -/
def Load.run (memory : Nat → Option (Nat → Option Nat)) : Load → KeywordRun Unit
  | argv av => keywordsLoadFromArgv memory av
  | prompt text => keywordPromptIn memory text

/-- How a run of loads can stop. -/
inductive Failed (memory : Nat → Option (Nat → Option Nat)) (most : Nat) (loads : List Load) :
    ArrayStop → Prop where
  | refused {stop : ArrayStop} (refused : Refused memory most stop) : Failed memory most loads stop
  | null {request : Nat} (none : memory request = none) :
    Failed memory most loads (.ending (.exit exitFailure "null pointer"))
  | typed {text : Bytes} (member : .prompt text ∈ loads) (long : promptLength ≤ text.length) :
    Failed memory most loads .outside

variable {loads : List Load}

/-- The words of a line without NUL are those that the pager searches for. -/
theorem wanted_prompt {turn : Turn} (string : ∀ byte ∈ turn.text, byte ≠ 0)
    (short : turn.text.length < promptLength) :
    keywordPrompt turn = .ok (Load.prompt turn.text).wanted := by
  rw [Load.wanted, keywordPrompt, if_pos short, List.take_of_length_le (Nat.le_of_lt short),
    upToNul_of_forall string]

/-- A string that is freed is not owned any more. -/
theorem Owns.free {block : Nat} (owns : Owns memory m (some block :: pointers)) :
    Owns memory { m with blocks := Function.update m.blocks block none } pointers := by
  have once := owns.once
  rw [List.filterMap_cons_some (f := id) rfl, List.nodup_cons, List.mem_filterMap] at once
  have other : some block ∉ pointers := fun member => once.1 ⟨some block, member, rfl⟩
  refine ⟨fun found => ?_, once.2, fun found member =>
    owns.old found (List.mem_cons_of_mem _ member), ?_⟩
  swap
  · obtain ⟨earlier, asked, split, answered⟩ := owns.null
    cases answered with
    | @cons ptr request pointers asked _ later =>
      exact ⟨earlier ++ [request], asked, by rw [List.append_assoc]; exact split, later⟩
  change Function.update m.blocks block none found ≠ none ↔ _
  by_cases same : found = block
  · rw [same, Function.update_self]
    exact ⟨fun freed => absurd rfl freed, fun member => absurd member other⟩
  · rw [Function.update_of_ne same, owns.live found, List.mem_cons, Option.some_inj,
      or_iff_right same]

/-- `xfree` takes a keyword out of what is owned, and exits for a null pointer. -/
theorem xfree_meets {ptr : Option Nat} (owns : Owns memory m (ptr :: pointers)) :
    Meets (xfree ptr) m (fun _ t => Owns memory t pointers ∧ t.keywords = m.keywords ∧ t.kw = m.kw)
      (Failed memory most loads) := by
  cases ptr with
  | none =>
    obtain ⟨_, _, -, answered⟩ := owns.null
    cases answered with
    | cons first => exact .of_error rfl (.null (first.mp rfl))
  | some block =>
    have live := (owns.live block).mpr (List.mem_cons_self ..)
    cases held : m.blocks block with
    | none => exact absurd held live
    | some word =>
      have freed : xfree (some block) m =
          .ok ((), { m with blocks := Function.update m.blocks block none }) := by
        simp only [xfree, held]
      exact .of_ok freed ⟨owns.free, rfl, rfl⟩

/-- An entry of the array can be read. -/
theorem keywordAt_run {limit : Nat} {i : UInt32} {E : ArrayStop → Prop}
    (represents : Represents 8 limit m.keywords pointers) (inside : i.toNat < pointers.length) :
    Meets (keywordAt i) m (fun ptr t => t = m ∧ ptr = pointers[i.toNat]) E := by
  have read : keywordAt i m = .ok (pointers[i.toNat], m) := by
    simp only [keywordAt, represents.item inside]
  exact .of_ok read ⟨rfl, rfl⟩

/-- The loop of `keywords_clear` frees the entries that are left. -/
theorem clearLoop_meets {limit left : Nat} {i : UInt32}
    (represents : Represents 8 limit m.keywords pointers) (count : i.toNat + left = pointers.length)
    (owns : Owns memory m (pointers.drop i.toNat)) :
    Meets (clearLoop i left) m
      (fun _ t => Owns memory t [] ∧ t.keywords = m.keywords ∧ t.kw = m.kw)
      (Failed memory most loads) := by
  induction left generalizing i m with
  | zero =>
    rw [List.drop_of_length_le (by omega)] at owns
    exact meets_pure ⟨owns, rfl, rfl⟩
  | succ left ih =>
    have inside : i.toNat < pointers.length := by omega
    have next : (i + 1).toNat = i.toNat + 1 := by
      have bound := m.keywords.num.toNat_lt
      rw [represents.count] at bound
      rw [UInt32.toNat_add, UInt32.toNat_one, Nat.mod_eq_of_lt (by omega)]
    rw [List.drop_eq_getElem_cons inside] at owns
    refine (keywordAt_run represents inside).bind fun ptr _ read => ?_
    obtain ⟨rfl, rfl⟩ := read
    refine (xfree_meets owns).bind fun _ between freed => ?_
    obtain ⟨owns, same, kw⟩ := freed
    rw [← next] at owns
    refine (ih (m := between) (i := i + 1) (by rw [same]; exact represents) (by omega) owns).mono
      (fun _ t cleared => ?_) fun _ bad => bad
    exact ⟨cleared.1, cleared.2.1.trans same, cleared.2.2.trans kw⟩

/-- `keywords_clear` frees every keyword. -/
theorem keywordsClear_meets (stored : Stored memory most m words) :
    Meets keywordsClear m (fun _ t => Stored memory most t [] ∧ t.kw = m.kw)
      (Failed memory most loads) := by
  obtain ⟨pointers, represents, owns, -⟩ := stored
  refine meets_get.bind fun found t same => ?_
  obtain ⟨rfl, rfl⟩ := same
  refine (clearLoop_meets (i := 0) represents (by rw [UInt32.toNat_zero, Nat.zero_add,
    represents.count]) owns).bind fun _ t cleared => ?_
  obtain ⟨owns, same, kw⟩ := cleared
  refine .of_ok rfl ⟨⟨[], ?_, ⟨owns.live, owns.once, owns.old, owns.null⟩, .nil⟩, kw⟩
  change Represents 8 _ (arrayClear t.keywords) []
  rw [same]
  exact represents_clear represents

/-- A computation on the arrays leaves the strings and the buffer alone. -/
theorem onArrays_meets {α : Type} {x : Arrays α} {P : α → Prop} {E : ArrayStop → Prop}
    (meets : Meets x m.requests (fun value _ => P value) E) :
    Meets (onArrays x) m
      (fun value t => P value ∧ ∃ requests, t = { m with requests }) E := by
  cases ran : x m.requests with
  | error stop =>
    refine .of_error (r := stop) ?_ (meets.error ran)
    simp only [onArrays, ran]
  | ok found =>
    refine .of_ok (v := found.1) (t := { m with requests := found.2 }) ?_
      ⟨meets.ok ran, found.2, rfl⟩
    simp only [onArrays, ran]

/-- A pointer that is added answers the last request. -/
theorem Owns.answered {ptr : Option Nat} (owns : Owns memory m pointers) {request : Nat}
    (answer : Answered memory ptr request) :
    ∃ earlier asked, m.asked ++ [request] = earlier ++ asked ∧
      List.Forall₂ (Answered memory) (pointers ++ [ptr]) asked := by
  obtain ⟨earlier, asked, split, answered⟩ := owns.null
  refine ⟨earlier, asked ++ [request], ?_, List.rel_append answered (.cons answer .nil)⟩
  rw [split, List.append_assoc]

/-- A copy that is made is owned by the pointer to it. -/
theorem Owns.dup (owns : Owns memory m pointers) (word : Bytes) {request : Nat}
    {fresh : Nat → Option Nat} (answer : memory request = some fresh) {requests : Nat} :
    Owns memory { m with
      requests, asked := m.asked ++ [request], made := m.made + 1
      blocks := Function.update m.blocks m.made (some word) }
      (pointers ++ [some m.made]) := by
  have fresh : some m.made ∉ pointers := fun member => Nat.lt_irrefl _ (owns.old _ member)
  have served : Answered memory (some m.made) request := by simp [Answered, answer]
  refine ⟨fun block => ?_, ?_, fun block member => ?_, owns.answered served⟩
  · change Function.update m.blocks m.made (some word) block ≠ none ↔ _
    rw [List.mem_append, List.mem_singleton]
    by_cases same : block = m.made
    · rw [same, Function.update_self]
      simp
    · rw [Function.update_of_ne same, owns.live block, Option.some_inj, or_iff_left same]
  · rw [List.filterMap_append, List.nodup_append]
    refine ⟨owns.once, by simp, fun first member second last => ?_⟩
    rintro rfl
    rw [List.mem_filterMap] at member
    obtain ⟨ptr, member, rfl⟩ := member
    simp only [List.filterMap_cons, id_eq, List.filterMap_nil, List.mem_singleton] at last
    rw [last] at member
    exact fresh member
  · rw [List.mem_append, List.mem_singleton] at member
    rcases member with early | last
    · exact Nat.lt_succ_of_lt (owns.old block early)
    · rw [Option.some.inj last]
      exact Nat.lt_succ_self _

/-- `strdup` adds a pointer, and a copy behind it unless it is null. -/
theorem strdup_meets (word : Bytes) {E : ArrayStop → Prop} (owns : Owns memory m pointers)
    (reads : List.Forall₂ (Reads m) pointers words) :
    Meets (strdup memory word) m
      (fun ptr t => Owns memory t (pointers ++ [ptr]) ∧
        List.Forall₂ (Reads t) (pointers ++ [ptr]) (words ++ [word]) ∧ t.kw = m.kw) E := by
  cases answer : memory m.requests with
  | none =>
    have served : Answered memory none m.requests := by simp [Answered, answer]
    refine .of_ok (v := none)
      (t := { m with requests := m.requests + 1, asked := m.asked ++ [m.requests] })
      (by simp only [strdup, answer])
      ⟨⟨fun block => ?_, ?_, fun block member => ?_, owns.answered served⟩, ?_, rfl⟩
    · change m.blocks block ≠ none ↔ _
      rw [owns.live block]
      simp
    · simpa using owns.once
    · exact owns.old block (by simpa using member)
    · exact List.rel_append reads (.cons (fun _ null => nomatch null) .nil)
  | some fresh =>
    refine .of_ok (v := some m.made) (t := { m with
        requests := m.requests + 1, asked := m.asked ++ [m.requests], made := m.made + 1
        blocks := Function.update m.blocks m.made (some word) })
      (by simp only [strdup, answer]) ⟨owns.dup word answer, ?_, rfl⟩
    have kept : ∀ ptr ∈ pointers, ∀ word', Reads m ptr word' → Reads { m with
        requests := m.requests + 1, asked := m.asked ++ [m.requests], made := m.made + 1
        blocks := Function.update m.blocks m.made (some word) } ptr word' := by
      intro ptr member word' reads block same
      have older := owns.old block (same ▸ member)
      change Function.update m.blocks m.made (some word) block = _
      rw [Function.update_of_ne (Nat.ne_of_lt older)]
      exact reads block same
    have before := (List.forall₂_and_left (p := (· ∈ pointers)) pointers words).mpr
      ⟨fun ptr member => member, reads⟩
    refine List.rel_append (before.imp fun ptr word' both => kept ptr both.1 word' both.2)
      (.cons (fun block same => ?_) .nil)
    rw [← Option.some.inj same]
    exact Function.update_self ..

/-- What is owned does not depend on the array and the buffer. -/
theorem Owns.elsewhere (owns : Owns memory m pointers) (asked : t.asked = m.asked)
    (made : t.made = m.made) (blocks : t.blocks = m.blocks) : Owns memory t pointers :=
  ⟨by rw [blocks]; exact owns.live, owns.once, by rw [made]; exact owns.old,
    by rw [asked]; exact owns.null⟩

/-- What a pointer reads as does not depend on the array and the buffer. -/
theorem Reads.elsewhere {ptr : Option Nat} {word : Bytes} (reads : Reads m ptr word)
    (blocks : t.blocks = m.blocks) : Reads t ptr word := by
  intro block same
  rw [blocks]
  exact reads block same

/-- `ARRAY_ADD` of a copy stores one more word. -/
theorem keywordsAdd_meets {word : Bytes} (stored : Stored memory most m words)
    (fits : words.length + 1 ≤ most) :
    Meets (keywordsAdd memory word) m
      (fun _ t => Stored memory most t (words ++ [word]) ∧ t.kw = m.kw)
      (Failed memory most loads) := by
  obtain ⟨pointers, represents, owns, reads⟩ := stored
  have length := reads.length_eq
  have ensured := arrayEnsure_meets memory m.requests 1 (pointers.length + 1)
    (by decide) (by decide)
    represents rfl (Nat.succ_pos _)
  refine meets_get.bind fun found t same => ?_
  rw [same.1, same.2]
  have failed : ∀ stop, Refused memory (pointers.length + 1) stop → Failed memory most loads stop :=
    fun stop bad => .refused (bad.mono (by rw [length]; exact fits))
  refine (onArrays_meets (ensured.mono (fun _ _ ready => ready) failed)).bind
    fun keywords t found => ?_
  obtain ⟨ready, requests, rfl⟩ := found
  refine (meets_modify _).bind fun _ u same => ?_
  have asked : u.asked = m.asked := by rw [same]
  have made : u.made = m.made := by rw [same]
  have blocks : u.blocks = m.blocks := by rw [same]
  have kw : u.kw = m.kw := by rw [same]
  have copied :=
    strdup_meets word (E := Failed memory most loads) (owns.elsewhere asked made blocks)
    (reads.imp fun _ _ reads => reads.elsewhere blocks)
  refine copied.bind fun ptr v held => ?_
  obtain ⟨owns', reads', kw'⟩ := held
  have appended :=
    ready.append_meets (E := Failed memory most loads) represents.count v.requests ptr
  refine (onArrays_meets (appended.mono (fun _ _ stands => stands) fun _ bad => bad)).bind
    fun keywords' w found => ?_
  obtain ⟨stands, requests', rfl⟩ := found
  refine .of_ok rfl ⟨⟨pointers ++ [ptr], stands.mono ?_, owns'.elsewhere rfl rfl rfl,
    reads'.imp fun _ _ reads => reads.elsewhere rfl⟩, kw'.trans kw⟩
  rw [length]
  unfold grown
  omega

/-- The loop of `keywords_load_from_argv` stores the arguments that are left. -/
theorem addAll_meets {av : List Bytes} (stored : Stored memory most m words)
    (fits : words.length + av.length ≤ most) :
    Meets (addAll memory av) m (fun _ t => Stored memory most t (words ++ av))
      (Failed memory most loads) := by
  induction av generalizing words m with
  | nil =>
    rw [List.append_nil]
    exact meets_pure stored
  | cons word av ih =>
    rw [List.length_cons] at fits
    refine (keywordsAdd_meets stored (by omega)).bind fun _ t added => ?_
    have rest := ih added.1 (by
      rw [List.length_append, List.length_singleton]
      omega)
    rw [List.append_assoc] at rest
    exact rest

/-- `keywords_load_from_argv` stores its arguments and nothing else. -/
theorem keywordsLoadFromArgv_meets {av : List Bytes} (stored : Stored memory most m words)
    (fits : av.length ≤ most) :
    Meets (keywordsLoadFromArgv memory av) m (fun _ t => Stored memory most t av)
      (Failed memory most loads) :=
  (keywordsClear_meets stored).bind fun _ _ cleared =>
    addAll_meets cleared.1 (by rw [List.length_nil]; omega)

/-- A space in front does not count. -/
theorem keywordsLoadFromChar_space (text : Bytes) :
    keywordsLoadFromChar (0x20 :: text) = keywordsLoadFromChar text := by
  simp [keywordsLoadFromChar, List.splitOn_cons_eq_if_modifyHead]

/-- The spaces in front do not count. -/
theorem keywordsLoadFromChar_dropWhile (text : Bytes) :
    keywordsLoadFromChar (text.dropWhile fun byte => decide (byte ∈ [(0x20 : UInt8)])) =
      keywordsLoadFromChar text := by
  induction text with
  | nil => rfl
  | cons byte text ih =>
    by_cases space : byte = 0x20
    · rw [List.dropWhile_cons_of_pos (by simpa using space), ih, space, keywordsLoadFromChar_space]
    · rw [List.dropWhile_cons_of_neg (by simpa using space)]

/-- A text without a space is one word. -/
theorem keywordsLoadFromChar_word {word : Bytes} (free : 0x20 ∉ word) (full : word ≠ []) :
    keywordsLoadFromChar word = [word] := by
  simp [keywordsLoadFromChar, List.splitOn_eq_singleton free, full]

/-- The first space ends the first word. -/
theorem keywordsLoadFromChar_words {word : Bytes} (free : 0x20 ∉ word) (full : word ≠ [])
    (rest : Bytes) :
    keywordsLoadFromChar (word ++ 0x20 :: rest) = word :: keywordsLoadFromChar rest := by
  simp [keywordsLoadFromChar, List.splitOn_append_cons_self_of_not_mem free, full]

/-- What `strtok_r` finds in a string: no word, or one and what is left behind it. -/
inductive Found (cells : Bytes) (text : Bytes) : Option Nat × Option Nat → Prop where
  | nothing {last : Option Nat} (empty : keywordsLoadFromChar text = []) :
    Found cells text (none, last)
  | word {p last : Nat} {word rest : Bytes} (here : Holds cells p word)
      (there : Holds cells last rest)
    (shorter : rest.length < text.length)
    (words : keywordsLoadFromChar text = word :: keywordsLoadFromChar rest) :
    Found cells text (some p, some last)

variable {cells text : Bytes} {p : Nat}

/-- `strtok_r` finds the first word of what it is given, or of what is left. -/
theorem strtokR_run (s last : Option Nat) (from_here : s.or last = some p)
    (holds : Holds cells p text) :
    ∃ found after, strtokR s last cells = some (found, after) ∧ after.length = cells.length ∧
      Found after text found := by
  obtain ⟨n, spanned, here⟩ := holds.strspn_run [0x20] (by decide)
  have words := keywordsLoadFromChar_dropWhile text
  have shrinks := List.length_dropWhile_le (fun byte => decide (byte ∈ [(0x20 : UInt8)])) text
  have first := List.head?_dropWhile_not (fun byte => decide (byte ∈ [(0x20 : UInt8)])) text
  rw [strtokR, from_here]
  simp only [bind_run spanned]
  generalize text.dropWhile (fun byte => decide (byte ∈ [(0x20 : UInt8)])) = left at *
  cases left with
  | nil =>
    rw [bind_run here.fetch_end, if_pos rfl]
    exact ⟨_, cells, rfl, rfl, .nothing words.symm⟩
  | cons byte tail =>
    have nonNull : byte ≠ 0 := here.string byte (List.mem_cons_self ..)
    have begins : byte ≠ 0x20 := by simpa using first
    rw [bind_run here.fetch_first, if_neg nonNull]
    by_cases last : 0x20 ∈ byte :: tail
    · obtain ⟨word, rest, split, free⟩ := List.eq_append_cons_of_mem last
      rw [split] at here words shrinks
      have full : word ≠ [] := by
        rintro rfl
        exact begins (List.cons.inj split).1
      have free' : ∀ cell ∈ word, cell ∉ [(0x20 : UInt8)] := by
        intro cell member same
        rw [List.mem_singleton] at same
        exact free (same ▸ member)
      rw [keywordsLoadFromChar_words free full] at words
      obtain ⟨after, written, keeps, stands, later⟩ := here.cut
      simp only [bind_run (here.strcspn_some free' (List.mem_singleton.mpr rfl)),
        bind_run here.later.fetch_first, if_neg (show ¬ (0x20 : UInt8) = 0 by decide),
        bind_run written]
      refine ⟨_, after, rfl, keeps.length, .word stands later ?_ words.symm⟩
      rw [List.length_append, List.length_cons] at shrinks
      omega
    · have free : ∀ cell ∈ byte :: tail, cell ∉ [(0x20 : UInt8)] := by
        intro cell member same
        rw [List.mem_singleton] at same
        exact last (same ▸ member)
      rw [keywordsLoadFromChar_word last (List.cons_ne_nil _ _)] at words
      simp only [bind_run (here.strcspn_none free), bind_run here.last.fetch_end, if_pos]
      refine ⟨_, cells, rfl, rfl, .word here here.last ?_ words.symm⟩
      rw [List.length_cons] at shrinks
      rw [List.length_nil]
      omega

/-- A computation on the buffer leaves the rest of the memory alone. -/
theorem onKw_meets {α : Type} {x : OnCells UInt8 α} {value : α} {after : Bytes}
    {E : ArrayStop → Prop} (ran : x m.kw = some (value, after)) :
    Meets (onKw x) m (fun found t => found = value ∧ t = { m with kw := after }) E := by
  refine .of_ok (v := value) (t := { m with kw := after }) ?_ ⟨rfl, rfl⟩
  simp only [onKw, ran]

/-- What is stored does not depend on the buffer. -/
theorem Stored.elsewhere (stored : Stored memory most m words) (kw : Bytes) :
    Stored memory most { m with kw } words := by
  obtain ⟨pointers, represents, owns, reads⟩ := stored
  exact ⟨pointers, represents, owns.elsewhere rfl rfl rfl, reads.imp fun _ _ reads =>
    reads.elsewhere rfl⟩

/-- The loop adds the words that are left. -/
theorem addTokens_meets {found : Option Nat × Option Nat} {left : Nat}
    (stored : Stored memory most m words)
    (fits : words.length + (keywordsLoadFromChar text).length ≤ most)
    (next : Found m.kw text found) (enough : text.length < left) :
    Meets (addTokens memory found.1 found.2 left) m
      (fun _ t => Stored memory most t (words ++ keywordsLoadFromChar text))
      (Failed memory most loads) := by
  induction left generalizing words text found m with
  | zero => omega
  | succ left ih =>
    cases next with
    | nothing empty =>
      rw [empty, List.append_nil]
      exact meets_pure stored
    | @word p last word rest here there shorter same =>
      rw [same, List.length_cons] at fits
      rw [same]
      refine (onKw_meets here.stringAt_run).bind fun text' t read => ?_
      rw [read.1, read.2]
      refine (keywordsAdd_meets (stored.elsewhere m.kw) (by omega)).bind fun _ u added => ?_
      rw [← show u.kw = m.kw from added.2] at there
      obtain ⟨found, after, ran, -, later⟩ := strtokR_run none (some last) rfl there
      refine (onKw_meets ran).bind fun found' v cut => ?_
      rw [cut.1, cut.2]
      have rest := ih (added.1.elsewhere after) (by
        rw [List.length_append, List.length_singleton]
        omega) later (by omega)
      rw [List.append_assoc] at rest
      exact rest

/-- `keywords_load_from_char` stores the words of the buffer and nothing else. -/
theorem keywordsLoadFromKw_meets (stored : Stored memory most m words) (holds : Holds m.kw 0 text)
    (fits : (keywordsLoadFromChar text).length ≤ most) :
    Meets (keywordsLoadFromKw memory) m
      (fun _ t => Stored memory most t (keywordsLoadFromChar text)) (Failed memory most loads) := by
  refine (keywordsClear_meets stored).bind fun _ t cleared => ?_
  rw [← show t.kw = m.kw from cleared.2] at holds
  obtain ⟨found, after, ran, length, first⟩ := strtokR_run (some 0) none rfl holds
  refine (onKw_meets ran).bind fun found' u cut => ?_
  rw [cut.1, cut.2]
  refine meets_get.bind fun now v same => ?_
  rw [same.1, same.2]
  have inside := holds.inside
  exact addTokens_meets (cleared.1.elsewhere after) (by rw [List.length_nil]; omega) first (by
    change text.length < after.length + 1
    omega)

/-- `keyword_prompt` stores the words of a line that the buffer holds. -/
theorem keywordPromptIn_meets {line : Bytes} (stored : Stored memory most m words)
    (member : .prompt line ∈ loads) (fits : (Load.wanted (.prompt line)).length ≤ most) :
    Meets (keywordPromptIn memory line) m
      (fun _ t => Stored memory most t (Load.wanted (.prompt line)))
          (Failed memory most loads) := by
  refine (meets_modify _).bind fun _ t same => ?_
  rw [same]
  by_cases long : promptLength ≤ line.length
  · have outside : getnstr line { m with kw := List.replicate promptLength 0 } =
        .error .outside := by
      have full : ¬ (line.take promptLength).length <
          (List.replicate promptLength (0 : UInt8)).length := by
        rw [List.length_take, List.length_replicate]
        omega
      simp only [getnstr, onKw, if_neg full]
    exact Meets.bind (P := fun _ _ => False) (.of_error outside (.typed member long))
      fun _ _ never => never.elim
  · have room : (line.take promptLength).length <
        (List.replicate promptLength (0 : UInt8)).length := by
      rw [List.length_take, List.length_replicate]
      omega
    refine (onKw_meets (if_pos room)).bind fun _ t typed => ?_
    rw [typed.2]
    exact keywordsLoadFromKw_meets ((stored.elsewhere _).elsewhere _)
      (holds_written (line.take promptLength) _) fits

/-- Loads one after the other. -/
def runLoads (memory : Nat → Option (Nat → Option Nat)) : List Load → KeywordRun Unit
  | [] => pure ()
  | load :: loads => do
    load.run memory
    runLoads memory loads

/-- A load stores its words and nothing else. -/
theorem Load.run_meets {load : Load} (stored : Stored memory most m words) (member : load ∈ loads)
    (fits : load.wanted.length ≤ most) :
    Meets (load.run memory) m (fun _ t => Stored memory most t load.wanted)
      (Failed memory most loads) := by
  cases load with
  | argv av => exact keywordsLoadFromArgv_meets stored fits
  | prompt text => exact keywordPromptIn_meets stored member fits

/-- The last of several loads is the one whose words are stored. -/
theorem runLoads_meets {later : List Load} (stored : Stored memory most m words)
    (part : ∀ load ∈ later, load ∈ loads) (fits : ∀ load ∈ later, load.wanted.length ≤ most) :
    Meets (runLoads memory later) m
      (fun _ t => Stored memory most t (later.foldl (fun _ load => load.wanted) words))
      (Failed memory most loads) := by
  induction later generalizing words m with
  | nil => exact meets_pure stored
  | cons load later ih =>
    rw [List.forall_mem_cons] at part fits
    exact (Load.run_meets stored part.1 fits.1).bind fun _ _ stored => ih stored part.2 fits.2

/-- After every sequence of loads `keywords` points to copies of the words of the last one, in their
order, each copy that is not freed has one pointer to it, a pointer is null only where its own
`strdup` found no memory, and an access to other memory is made only by a prompt at which fifty
bytes or more are typed. The loads stop early only so, or where a request for memory fails, or for
more keywords than an `unsigned int` counts. -/
theorem keywords_are_owned (memory : Nat → Option (Nat → Option Nat)) {loads : List Load}
    {most : Nat}
    (fits : ∀ load ∈ loads, load.wanted.length ≤ most) :
    Meets (runLoads memory loads) .initial
      (fun _ m => Stored memory most m (loads.foldl (fun _ load => load.wanted) []))
      (Failed memory most loads) := by
  have start : Stored memory most .initial [] := by
    refine ⟨[], .empty, ⟨fun block => ?_, List.nodup_nil, fun _ member => ?_, [], [], rfl, .nil⟩,
      .nil⟩
    · change (none : Option Bytes) ≠ none ↔ _
      simp
    · cases member
  exact runLoads_meets start (fun _ member => member) fits

/-- An argument, and then two words at a prompt. -/
theorem keywords_are_owned_two : ∃ m : KeywordMemory,
    runLoads (fun _ => some fun _ => none) [.argv [ascii "a"], .prompt (ascii "b  c")] .initial =
      .ok ((), m) ∧ Stored (fun _ => some fun _ => none) 2 m [ascii "b", ascii "c"] := by
  have few : ∀ load ∈ [Load.argv [ascii "a"], .prompt (ascii "b  c")], load.wanted.length ≤ 2 := by
    rw [List.forall_mem_cons, List.forall_mem_singleton]
    decide +kernel
  have never : ∀ stop, ¬ Failed (fun _ => some fun _ => none) 2
      [.argv [ascii "a"], .prompt (ascii "b  c")] stop := by
    rintro stop (refused | none | ⟨member, long⟩)
    · cases refused with
      | memory none => cases none
      | number many => omega
    · cases none
    · rw [List.mem_cons, List.mem_singleton] at member
      rcases member with other | same
      · cases other
      · rw [Load.prompt.inj same] at long
        revert long
        decide +kernel
  obtain ⟨_, m, ran, stored⟩ := (keywords_are_owned (fun _ => some fun _ => none) few).ends never
  have words : List.foldl (fun _ load => Load.wanted load) []
      [.argv [ascii "a"], .prompt (ascii "b  c")] = [ascii "b", ascii "c"] := by decide +kernel
  rw [words] at stored
  exact ⟨m, ran, stored⟩

end Mdp.KeywordStore
