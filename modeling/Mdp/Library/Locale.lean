import Mdp.Library.Lines

/-!
# Multibyte strings of a locale

A locale reads one multibyte character off the front of a byte string and writes one wide
character. Its laws are those of every locale without shift states: a character takes at least a
byte, only NUL is the null wide character, and every wide character that was read can be written.
`mbstowcs` and `wcstombs` are built from the two, with the buffer that the first writes into.

`CLocale.Exact` is what more is known of the locales in use: writing undoes reading, reading undoes
writing, and a control character, a blank or an ASCII sign below the digits stands for itself and
its byte occurs in no other character.
-/

namespace CStrings

/-- `wchar_t`. -/
abbrev WChar := UInt32

/-- A locale's encoding. -/
structure CLocale where
  /-- `mbrtowc`: the first character and the bytes after it, or `none` for an invalid or
  incomplete one. -/
  decodeChar : Bytes → Option (WChar × Bytes)
  /-- `wcrtomb`: the bytes of a character, or `none` for one that is not in the locale. -/
  encodeChar : WChar → Option Bytes
  /-- A character takes at least one byte. -/
  consumes : ∀ bytes wide rest, decodeChar bytes = some (wide, rest) →
    ∃ code, code ≠ [] ∧ bytes = code ++ rest
  /-- Only a NUL byte is the null wide character. -/
  nonNull : ∀ byte bytes wide rest, decodeChar (byte :: bytes) = some (wide, rest) →
    byte ≠ 0 → wide ≠ 0
  /-- A character that was read can be written. -/
  encodes : ∀ bytes wide rest, decodeChar bytes = some (wide, rest) → (encodeChar wide).isSome

namespace CLocale

variable (L : CLocale)

/-- The bytes after a character are fewer than those before it. -/
theorem shorter {bytes : Bytes} {wide : WChar} {rest : Bytes}
    (read : L.decodeChar bytes = some (wide, rest)) : rest.length < bytes.length := by
  obtain ⟨code, nonempty, split⟩ := L.consumes _ _ _ read
  have positive := List.length_pos_of_ne_nil nonempty
  have lengths := congrArg List.length split
  rw [List.length_append] at lengths
  omega

/-- Read at most `limit` characters of a string: the characters before the first invalid one, and
whether there was none. -/
def decodeWithin : Nat → Bytes → List WChar × Bool
  | 0, _ => ([], true)
  | _ + 1, [] => ([], true)
  | limit + 1, byte :: bytes =>
    match L.decodeChar (byte :: bytes) with
    | none => ([], false)
    | some (wide, rest) => (wide :: (decodeWithin limit rest).1, (decodeWithin limit rest).2)

/-- The characters of a whole string, if it is valid. -/
def decode (bytes : Bytes) : Option (List WChar) :=
  if (L.decodeWithin bytes.length bytes).2 then some (L.decodeWithin bytes.length bytes).1
  else none

/-- The bytes of a wide string, if all its characters can be written. -/
def encode : List WChar → Option Bytes
  | [] => some []
  | wide :: rest =>
    match L.encodeChar wide, encode rest with
    | some code, some codes => some (code ++ codes)
    | _, _ => none

/-- The limit does not matter once it covers the string. -/
theorem decodeWithin_enough {limit : Nat} {bytes : Bytes} (enough : bytes.length ≤ limit) :
    L.decodeWithin limit bytes = L.decodeWithin bytes.length bytes := by
  induction limit using Nat.strongRecOn generalizing bytes with
  | ind limit ih =>
    cases bytes with
    | nil => cases limit <;> rfl
    | cons byte bytes =>
      cases limit with
      | zero => simp at enough
      | succ limit =>
        simp only [List.length_cons] at enough
        simp only [List.length_cons, decodeWithin]
        cases read : L.decodeChar (byte :: bytes) with
        | none => rfl
        | some found =>
          obtain ⟨wide, rest⟩ := found
          have shorter := L.shorter read
          simp only [List.length_cons] at shorter
          have left : L.decodeWithin limit rest = L.decodeWithin rest.length rest :=
            ih limit (Nat.lt_succ_self _) (by omega)
          have right : L.decodeWithin bytes.length rest = L.decodeWithin rest.length rest := by
            by_cases same : bytes.length = limit
            · rw [same, left]
            · exact ih bytes.length (by omega) (by omega)
          simp only [left, right]

/-- The empty string has no characters. -/
@[simp] theorem decode_nil : L.decode [] = some [] := rfl

/-- A valid string begins with a valid character and goes on with a valid string. -/
theorem decode_eq_some_iff {bytes : Bytes} {wides : List WChar} (nonempty : bytes ≠ []) :
    L.decode bytes = some wides ↔ ∃ wide rest others, L.decodeChar bytes = some (wide, rest) ∧
      L.decode rest = some others ∧ wides = wide :: others := by
  cases bytes with
  | nil => contradiction
  | cons byte bytes =>
    simp only [decode, List.length_cons, decodeWithin]
    cases read : L.decodeChar (byte :: bytes) with
    | none => simp
    | some found =>
      obtain ⟨wide, rest⟩ := found
      have shorter := L.shorter read
      simp only [List.length_cons] at shorter
      simp only [L.decodeWithin_enough (by omega : rest.length ≤ bytes.length)]
      constructor
      · intro taken
        split at taken
        · rename_i valid
          simp only [Option.some.injEq] at taken
          exact ⟨wide, rest, _, rfl, if_pos valid, taken.symm⟩
        · contradiction
      · rintro ⟨wide', rest', others, same, valid, rfl⟩
        simp only [Option.some.injEq, Prod.mk.injEq] at same
        obtain ⟨rfl, rfl⟩ := same
        split at valid
        · rename_i ok
          simp only [Option.some.injEq] at valid
          simp [ok, valid]
        · contradiction

/-- Induction along the characters of a valid string. -/
theorem decode_induction {motive : Bytes → List WChar → Prop} (nil : motive [] [])
    (char : ∀ bytes wide rest others, bytes ≠ [] → L.decodeChar bytes = some (wide, rest) →
      L.decode rest = some others → motive rest others → motive bytes (wide :: others))
    {bytes : Bytes} {wides : List WChar} (valid : L.decode bytes = some wides) :
    motive bytes wides := by
  induction hlen : bytes.length using Nat.strongRecOn generalizing bytes wides with
  | ind length ih =>
    by_cases empty : bytes = []
    · subst empty
      simp only [decode_nil, Option.some.injEq] at valid
      rw [← valid]
      exact nil
    · obtain ⟨wide, rest, others, read, tail, rfl⟩ := (L.decode_eq_some_iff empty).mp valid
      have shorter := L.shorter read
      exact char bytes wide rest others empty read tail (ih _ (by omega) tail rfl)

/-- The characters read before a failure can be written. -/
theorem decodeWithin_encodes {limit : Nat} {bytes : Bytes} :
    ∀ wide ∈ (L.decodeWithin limit bytes).1, (L.encodeChar wide).isSome := by
  induction limit generalizing bytes with
  | zero => simp [decodeWithin]
  | succ limit ih =>
    cases bytes with
    | nil => simp [decodeWithin]
    | cons byte bytes =>
      simp only [decodeWithin]
      cases read : L.decodeChar (byte :: bytes) with
      | none => simp
      | some found =>
        obtain ⟨wide, rest⟩ := found
        simp only [List.mem_cons, forall_eq_or_imp]
        exact ⟨L.encodes _ _ _ read, ih⟩

/-- A wide string can be written exactly when all its characters can. -/
theorem encode_isSome {wides : List WChar} :
    (L.encode wides).isSome ↔ ∀ wide ∈ wides, (L.encodeChar wide).isSome := by
  induction wides with
  | nil => simp [encode]
  | cons wide wides ih =>
    simp only [encode, List.mem_cons, forall_eq_or_imp, ← ih]
    cases L.encodeChar wide <;> cases L.encode wides <;> simp

/-- Writing is character by character. -/
theorem encode_append {left right : List WChar} {first second : Bytes}
    (hl : L.encode left = some first) (hr : L.encode right = some second) :
    L.encode (left ++ right) = some (first ++ second) := by
  induction left generalizing first with
  | nil =>
    simp only [encode, Option.some.injEq] at hl
    rw [← hl]
    exact hr
  | cons wide left ih =>
    simp only [List.cons_append, encode] at hl ⊢
    cases code : L.encodeChar wide with
    | none => simp [code] at hl
    | some bytes =>
      cases tail : L.encode left with
      | none => simp [code, tail] at hl
      | some others =>
        simp only [code, tail, Option.some.injEq] at hl
        rw [ih tail, ← hl, List.append_assoc]

/-- A written string is written part by part. -/
theorem encode_append_inv {left right : List WChar} {bytes : Bytes}
    (written : L.encode (left ++ right) = some bytes) :
    ∃ first second, L.encode left = some first ∧ L.encode right = some second ∧
      bytes = first ++ second := by
  induction left generalizing bytes with
  | nil => exact ⟨[], bytes, rfl, written, rfl⟩
  | cons wide left ih =>
    simp only [List.cons_append, encode] at written
    split at written
    · rename_i code codes head tail
      obtain ⟨first, second, early, late, rfl⟩ := ih tail
      simp only [Option.some.injEq] at written
      exact ⟨code ++ first, second, by simp [encode, head, early], late, by simp [← written]⟩
    · contradiction

/-- Write cells over the front of a buffer. -/
def overwrite (cells buffer : List WChar) : List WChar := cells ++ buffer.drop cells.length

/-- `mbstowcs(buffer, src, limit)` for a string `src` without NUL: the buffer afterwards, and
whether the conversion succeeded. A failed conversion leaves what it had stored, unterminated. -/
def mbstowcs (limit : Nat) (src : Bytes) (buffer : List WChar) : List WChar × Bool :=
  let read := L.decodeWithin limit src
  if read.2 ∧ read.1.length < limit then (overwrite (read.1 ++ [0]) buffer, true)
  else (overwrite read.1 buffer, read.2)

/-- The string in a buffer after `wcstombs(buffer, src, room)`, for a string `src` and where
`behind` is what stands behind the bytes it stores. It stores whole characters as long as there is
room for them, and a terminator if there is room left. -/
def wcstombs (behind : Bytes) : Nat → List WChar → Bytes
  | room, [] => if 0 < room then [] else behind
  | room, wide :: rest =>
    match L.encodeChar wide with
    | none => behind
    | some code =>
      if code.length ≤ room then code ++ wcstombs behind (room - code.length) rest else behind

/-- A string that fits is stored whole. -/
theorem wcstombs_fits {behind : Bytes} {room : Nat} {src : List WChar} {mbs : Bytes}
    (written : L.encode src = some mbs) (fits : mbs.length < room) :
    L.wcstombs behind room src = mbs := by
  induction src generalizing room mbs with
  | nil =>
    cases written
    exact if_pos fits
  | cons wide rest ih =>
    rw [encode] at written
    split at written
    · rename_i code codes head tail
      cases written
      rw [List.length_append] at fits
      rw [wcstombs, head]
      simp only
      rw [if_pos (by omega), ih tail (by omega)]
    · cases written

/-- At most as many characters are stored as there are bytes. -/
theorem decodeWithin_length (limit : Nat) (bytes : Bytes) :
    (L.decodeWithin limit bytes).1.length ≤ bytes.length := by
  induction limit generalizing bytes with
  | zero => simp [decodeWithin]
  | succ limit ih =>
    cases bytes with
    | nil => simp [decodeWithin]
    | cons byte bytes =>
      simp only [decodeWithin]
      cases read : L.decodeChar (byte :: bytes) with
      | none => simp
      | some found =>
        obtain ⟨wide, rest⟩ := found
        have shorter := L.shorter read
        have tail := ih rest
        simp only [List.length_cons] at shorter ⊢
        omega

/-- A string without NUL has no null wide character among those read from it. -/
theorem decodeWithin_nonNull (limit : Nat) {bytes : Bytes} (nonNull : ∀ byte ∈ bytes, byte ≠ 0) :
    ∀ wide ∈ (L.decodeWithin limit bytes).1, wide ≠ 0 := by
  induction limit generalizing bytes with
  | zero => simp [decodeWithin]
  | succ limit ih =>
    cases bytes with
    | nil => simp [decodeWithin]
    | cons byte bytes =>
      simp only [decodeWithin]
      cases read : L.decodeChar (byte :: bytes) with
      | none => simp
      | some found =>
        obtain ⟨wide, rest⟩ := found
        obtain ⟨code, _, split⟩ := L.consumes _ _ _ read
        simp only [List.mem_cons, forall_eq_or_imp]
        refine ⟨L.nonNull _ _ _ _ read (nonNull byte (by simp)), ih ?_⟩
        intro later member
        exact nonNull later (by rw [split]; exact List.mem_append_right _ member)

/-- A valid string is read whole within a limit that covers its characters. -/
theorem decodeWithin_of_decode {bytes : Bytes} {wides : List WChar}
    (valid : L.decode bytes = some wides) {limit : Nat} (fits : wides.length ≤ limit) :
    L.decodeWithin limit bytes = (wides, true) := by
  refine L.decode_induction (motive := fun bytes wides => ∀ limit, wides.length ≤ limit →
    L.decodeWithin limit bytes = (wides, true)) ?_ ?_ valid limit fits
  · rintro (_ | limit) _ <;> rfl
  · intro bytes wide rest others nonempty read _ ih limit fits
    cases limit with
    | zero => simp at fits
    | succ limit =>
      cases bytes with
      | nil => contradiction
      | cons byte bytes =>
        rw [List.length_cons] at fits
        simp only [decodeWithin, read, ih limit (by omega)]

/-- A valid string is read up to a limit that does not cover its characters. -/
theorem decodeWithin_take {bytes : Bytes} {wides : List WChar} (valid : L.decode bytes = some wides)
    {limit : Nat} (long : limit ≤ wides.length) :
    L.decodeWithin limit bytes = (wides.take limit, true) := by
  refine L.decode_induction (motive := fun bytes wides => ∀ limit, limit ≤ wides.length →
    L.decodeWithin limit bytes = (wides.take limit, true)) ?_ ?_ valid limit long
  · intro limit long
    have zero : limit = 0 := by simpa using long
    rw [zero]
    rfl
  · intro bytes wide rest others nonempty read _ ih limit long
    cases limit with
    | zero => rfl
    | succ limit =>
      cases bytes with
      | nil => contradiction
      | cons byte bytes =>
        rw [List.length_cons] at long
        simp only [decodeWithin, read, ih limit (by omega), List.take_succ_cons]

/-- It has at most as many characters as bytes. -/
theorem decode_length {bytes : Bytes} {wides : List WChar} (valid : L.decode bytes = some wides) :
    wides.length ≤ bytes.length := by
  have whole := L.decodeWithin_length (max wides.length bytes.length) bytes
  rw [L.decodeWithin_of_decode valid (Nat.le_max_left _ _)] at whole
  exact whole

/-- It has no null wide character if it has no NUL. -/
theorem decode_nonNull {bytes : Bytes} {wides : List WChar} (valid : L.decode bytes = some wides)
    (nonNull : ∀ byte ∈ bytes, byte ≠ 0) : ∀ wide ∈ wides, wide ≠ 0 := by
  have clean := L.decodeWithin_nonNull wides.length nonNull
  rw [L.decodeWithin_of_decode valid (Nat.le_refl _)] at clean
  exact clean

/-- A valid string that fits the limit is stored in front, with its terminator. -/
theorem mbstowcs_fits {limit : Nat} {src : Bytes} {wides : List WChar} (buffer : List WChar)
    (valid : L.decode src = some wides) (fits : wides.length < limit) :
    (L.mbstowcs limit src buffer).1 = wides ++ 0 :: buffer.drop (wides.length + 1) := by
  have read := L.decodeWithin_of_decode valid (Nat.le_of_lt fits)
  simp only [mbstowcs, read, true_and]
  rw [if_pos fits, overwrite, List.append_assoc, List.length_append]
  rfl

/-- Without NUL it becomes the string in the buffer. -/
theorem upToNul_mbstowcs {limit : Nat} {src : Bytes} {wides buffer : List WChar}
    (valid : L.decode src = some wides) (nonNull : ∀ byte ∈ src, byte ≠ 0)
    (fits : wides.length < limit) : upToNul (L.mbstowcs limit src buffer).1 = wides := by
  rw [L.mbstowcs_fits buffer valid fits]
  exact upToNul_append_zero (L.decode_nonNull valid nonNull)

/-- A valid string with as many characters as a buffer has cells, or more, fills it. -/
theorem mbstowcs_fills {limit : Nat} {src : Bytes} {wides buffer : List WChar}
    (valid : L.decode src = some wides) (long : limit ≤ wides.length)
    (cells : buffer.length = limit) :
    (L.mbstowcs limit src buffer).1 = wides.take limit := by
  have read := L.decodeWithin_take valid long
  have full : (wides.take limit).length = limit := by rw [List.length_take, Nat.min_eq_left long]
  simp only [mbstowcs, read, true_and]
  rw [if_neg (by omega), overwrite, full, List.drop_eq_nil_of_le (by omega), List.append_nil]

/-- A conversion keeps what holds of all cells of the buffer, of the characters it can read and of
the terminator. -/
theorem forall_mbstowcs {P : WChar → Prop} {limit : Nat} {src : Bytes} {buffer : List WChar}
    (zero : P 0) (read : ∀ wide ∈ (L.decodeWithin limit src).1, P wide)
    (held : ∀ wide ∈ buffer, P wide) : ∀ wide ∈ (L.mbstowcs limit src buffer).1, P wide := by
  intro wide member
  simp only [mbstowcs] at member
  split at member
  · simp only [overwrite, List.mem_append, List.mem_singleton] at member
    rcases member with (stored | rfl) | kept
    · exact read wide stored
    · exact zero
    · exact held wide (List.mem_of_mem_drop kept)
  · simp only [overwrite, List.mem_append] at member
    rcases member with stored | kept
    · exact read wide stored
    · exact held wide (List.mem_of_mem_drop kept)

/-- Bytes that stand for themselves in every ASCII-compatible encoding and are no part of another
character: the control characters, the blank and the signs below the digits. -/
def Plain (byte : UInt8) : Prop := byte < 0x30

/-- Whether a byte is plain can be decided. -/
instance (byte : UInt8) : Decidable (Plain byte) := inferInstanceAs (Decidable (byte < 0x30))

/-- A locale whose encoding is undone by its decoding, and in which the bytes newline and NUL stand
for these characters only. -/
structure Invertible : Prop where
  /-- Reading undoes writing. -/
  readBack : ∀ wide code rest, L.encodeChar wide = some code →
    L.decodeChar (code ++ rest) = some (wide, rest)
  /-- A newline is a character. -/
  newline : L.encodeChar newline.toUInt32 = some [newline]
  /-- A newline is no part of another character. -/
  onlyNewline : ∀ wide code, L.encodeChar wide = some code → CStrings.newline ∈ code →
    wide = CStrings.newline.toUInt32
  /-- NUL is no part of another character. -/
  onlyNul : ∀ wide code, L.encodeChar wide = some code → 0 ∈ code → wide = 0

/-- A locale that loses nothing. -/
structure Exact : Prop where
  /-- Writing undoes reading. -/
  written : ∀ bytes wide rest, L.decodeChar bytes = some (wide, rest) →
    ∃ code, L.encodeChar wide = some code ∧ bytes = code ++ rest
  /-- Reading undoes writing. -/
  readBack : ∀ wide code rest, L.encodeChar wide = some code →
    L.decodeChar (code ++ rest) = some (wide, rest)
  /-- A plain byte is a character. -/
  plain : ∀ byte, Plain byte → L.encodeChar byte.toUInt32 = some [byte]
  /-- A plain byte is no part of another character. -/
  alone : ∀ wide code byte, L.encodeChar wide = some code → byte ∈ code → Plain byte →
    code = [byte]

variable {L}

namespace Invertible

/-- The code of a character is not empty. -/
theorem code_ne_nil (invertible : L.Invertible) {wide : WChar} {code : Bytes}
    (written : L.encodeChar wide = some code) : code ≠ [] := by
  obtain ⟨consumed, nonempty, split⟩ := L.consumes _ _ _ (invertible.readBack wide code [] written)
  rw [List.append_nil, List.append_nil] at split
  rw [split]
  exact nonempty

/-- Writing and then reading gives the characters back. -/
theorem decode_of_encode (invertible : L.Invertible) {wides : List WChar} {bytes : Bytes}
    (written : L.encode wides = some bytes) : L.decode bytes = some wides := by
  induction wides generalizing bytes with
  | nil =>
    simp only [encode, Option.some.injEq] at written
    rw [← written]
    rfl
  | cons wide wides ih =>
    simp only [encode] at written
    split at written
    · rename_i code codes first later
      simp only [Option.some.injEq] at written
      have nonempty : code ++ codes ≠ [] := by simp [invertible.code_ne_nil first]
      rw [← written, L.decode_eq_some_iff nonempty]
      exact ⟨wide, codes, wides, invertible.readBack _ _ _ first, ih later, rfl⟩
    · contradiction

/-- A byte that is no part of any character of a string is no part of what is written for it. -/
theorem notMem_of_encode {mark : UInt8} {wides : List WChar} {bytes : Bytes}
    (apart : ∀ wide ∈ wides, ∀ code, L.encodeChar wide = some code → mark ∉ code)
    (written : L.encode wides = some bytes) : mark ∉ bytes := by
  induction wides generalizing bytes with
  | nil =>
    simp only [encode, Option.some.injEq] at written
    simp [← written]
  | cons wide wides ih =>
    simp only [encode] at written
    split at written
    · rename_i code codes first later
      rw [List.forall_mem_cons] at apart
      simp only [Option.some.injEq] at written
      rw [← written, List.mem_append, not_or]
      exact ⟨apart.1 code first, ih apart.2 later⟩
    · contradiction

/-- A string without the null wide character is written without NUL. -/
theorem nonNull_of_encode (invertible : L.Invertible) {wides : List WChar} {bytes : Bytes}
    (written : L.encode wides = some bytes) (nonNull : ∀ wide ∈ wides, wide ≠ 0) :
    ∀ byte ∈ bytes, byte ≠ 0 := by
  rintro byte member rfl
  refine notMem_of_encode ?_ written member
  intro wide inside code first null
  exact nonNull wide inside (invertible.onlyNul wide code first null)

/-- A string without newline is written without newline. -/
theorem newlineFree_of_encode (invertible : L.Invertible) {wides : List WChar} {bytes : Bytes}
    (written : L.encode wides = some bytes) (free : CStrings.newline.toUInt32 ∉ wides) :
    CStrings.newline ∉ bytes := by
  refine notMem_of_encode ?_ written
  intro wide inside code first last
  exact free (invertible.onlyNewline wide code first last ▸ inside)

/-- A line is written as its text and a newline. -/
theorem encode_line (invertible : L.Invertible) {wides : List WChar} {bytes : Bytes}
    (written : L.encode wides = some bytes) :
    L.encode (wides ++ [CStrings.newline.toUInt32]) = some (bytes ++ [CStrings.newline]) := by
  apply L.encode_append written
  rw [encode, invertible.newline]
  rfl

end Invertible

namespace Exact

/-- Reading and then writing gives the bytes back. -/
theorem encode_of_decode (exact : L.Exact) {bytes : Bytes} {wides : List WChar}
    (valid : L.decode bytes = some wides) : L.encode wides = some bytes := by
  refine L.decode_induction (motive := fun bytes wides => L.encode wides = some bytes) rfl ?_ valid
  intro bytes wide rest others _ read _ ih
  obtain ⟨code, written, split⟩ := exact.written _ _ _ read
  simp only [encode, written, ih, split]

/-- What loses nothing is undone by reading. -/
theorem invertible (exact : L.Exact) : L.Invertible where
  readBack := exact.readBack
  newline := exact.plain newline (by decide)
  onlyNewline := by
    intro wide code written member
    have single := exact.alone wide code newline written member (by decide)
    rw [single] at written
    have read := exact.readBack _ _ [] written
    rw [exact.readBack _ _ [] (exact.plain newline (by decide)), Option.some.injEq,
      Prod.mk.injEq] at read
    exact read.1.symm
  onlyNul := by
    intro wide code written member
    have single := exact.alone wide code 0 written member (by decide)
    rw [single] at written
    have read := exact.readBack _ _ [] written
    rw [exact.readBack _ _ [] (exact.plain 0 (by decide)), Option.some.injEq,
      Prod.mk.injEq] at read
    exact read.1.symm

/-- The code of a character is not empty. -/
theorem code_ne_nil (exact : L.Exact) {wide : WChar} {code : Bytes}
    (written : L.encodeChar wide = some code) : code ≠ [] :=
  exact.invertible.code_ne_nil written

/-- Writing and then reading gives the characters back. -/
theorem decode_of_encode (exact : L.Exact) {wides : List WChar} {bytes : Bytes}
    (written : L.encode wides = some bytes) : L.decode bytes = some wides :=
  exact.invertible.decode_of_encode written

/-- A plain byte is the code of its own character only. -/
theorem eq_of_plain (exact : L.Exact) {byte : UInt8} (plain : Plain byte) {wide : WChar}
    (written : L.encodeChar wide = some [byte]) : wide = byte.toUInt32 := by
  have read := exact.readBack _ _ [] written
  rw [exact.readBack _ _ [] (exact.plain byte plain), Option.some.injEq, Prod.mk.injEq] at read
  exact read.1.symm

/-- A string without the null wide character is written without NUL. -/
theorem nonNull_of_encode (exact : L.Exact) {wides : List WChar} {bytes : Bytes}
    (written : L.encode wides = some bytes) (nonNull : ∀ wide ∈ wides, wide ≠ 0) :
    ∀ byte ∈ bytes, byte ≠ 0 :=
  exact.invertible.nonNull_of_encode written nonNull

/-- Dropping plain characters from the end of a string drops their bytes from the end of its
code. -/
theorem encode_rdropWhile (exact : L.Exact) {blanks : List UInt8}
    (plain : ∀ byte ∈ blanks, Plain byte) {wides : List WChar} {bytes : Bytes}
    (written : L.encode wides = some bytes) :
    L.encode (wides.rdropWhile fun wide => decide (wide ∈ blanks.map UInt8.toUInt32)) =
      some (bytes.rdropWhile fun byte => decide (byte ∈ blanks)) := by
  induction wides using List.reverseRecOn generalizing bytes with
  | nil =>
    simp only [encode, Option.some.injEq] at written
    simp [← written, encode]
  | append_singleton wides wide ih =>
    obtain ⟨codes, code, early, last, rfl⟩ := L.encode_append_inv written
    have single : L.encodeChar wide = some code := by
      simp only [encode] at last
      split at last
      · rename_i found nothing first empty
        simp only [Option.some.injEq] at empty last
        rw [first, ← last, ← empty, List.append_nil]
      · contradiction
    by_cases blank : wide ∈ blanks.map UInt8.toUInt32
    · obtain ⟨byte, inside, rfl⟩ := List.mem_map.mp blank
      rw [exact.plain byte (plain byte inside), Option.some.injEq] at single
      rw [← single, List.rdropWhile_concat_pos _ _ _ (by simpa using blank),
        List.rdropWhile_concat_pos _ _ _ (by simpa using inside)]
      exact ih early
    · have nonempty := exact.code_ne_nil single
      rw [List.rdropWhile_concat_neg _ _ _ (by simpa using blank)]
      have kept : (codes ++ code).rdropWhile (fun byte => decide (byte ∈ blanks)) =
          codes ++ code := by
        rw [List.rdropWhile_eq_self_iff]
        intro _ ends
        rw [List.getLast_append_of_ne_nil _ nonempty, decide_eq_true_eq] at ends
        have alone := exact.alone _ _ _ single (List.getLast_mem nonempty) (plain _ ends)
        rw [alone] at single
        have same := exact.eq_of_plain (plain _ ends) single
        exact blank (List.mem_map.mpr ⟨_, ends, same.symm⟩)
      rw [kept]
      exact written

/-- A plain byte is no part of a character that is not its own. -/
theorem notMem_code (exact : L.Exact) {mark : UInt8} (plain : Plain mark) {wide : WChar}
    {code : Bytes} (written : L.encodeChar wide = some code) (other : wide ≠ mark.toUInt32) :
    mark ∉ code := by
  intro inside
  have single := exact.alone _ _ _ written inside plain
  rw [single] at written
  exact other (exact.eq_of_plain plain written)

/-- A string is written without a plain byte if its character is not in it. -/
theorem notMem_of_encode (exact : L.Exact) {mark : UInt8} (plain : Plain mark)
    {wides : List WChar} {bytes : Bytes} (written : L.encode wides = some bytes)
    (free : mark.toUInt32 ∉ wides) : mark ∉ bytes := by
  refine Invertible.notMem_of_encode ?_ written
  intro wide inside code first
  exact exact.notMem_code plain first fun same => free (same ▸ inside)

/-- The character of a plain byte is written as this byte. -/
theorem mem_of_encode (exact : L.Exact) {mark : UInt8} (plain : Plain mark) {wides : List WChar}
    {bytes : Bytes} (written : L.encode wides = some bytes) (inside : mark.toUInt32 ∈ wides) :
    mark ∈ bytes := by
  obtain ⟨front, rest, rfl⟩ := List.append_of_mem inside
  obtain ⟨first, second, -, later, rfl⟩ := L.encode_append_inv written
  have here := exact.plain mark plain
  simp only [encode, here] at later
  split at later
  · rename_i code codes same _
    cases same
    cases later
    simp
  · contradiction

/-- The character in front of a plain byte: that byte's own, or one that ends before it. -/
theorem decodeChar_before (exact : L.Exact) {mark : UInt8} (plain : Plain mark)
    {body rest after : Bytes} {wide : WChar} (free : mark ∉ body)
    (read : L.decodeChar (body ++ mark :: rest) = some (wide, after)) :
    (body = [] ∧ wide = mark.toUInt32 ∧ after = rest) ∨
    ∃ code remains, code ≠ [] ∧ L.encodeChar wide = some code ∧ wide ≠ mark.toUInt32 ∧
      body = code ++ remains ∧ after = remains ++ mark :: rest := by
  obtain ⟨code, written, split⟩ := exact.written _ _ _ read
  have nonempty := exact.code_ne_nil written
  by_cases own : wide = mark.toUInt32
  · rw [own, exact.plain mark plain, Option.some.injEq] at written
    rw [← written, List.singleton_append] at split
    cases body with
    | nil =>
      simp only [List.nil_append, List.cons.injEq, true_and] at split
      exact .inl ⟨rfl, own, split.symm⟩
    | cons byte body =>
      simp only [List.cons_append, List.cons.injEq] at split
      simp [split.1] at free
  · have outside := exact.notMem_code plain written own
    obtain ⟨remains, rfl⟩ : ∃ remains, body = code ++ remains := by
      rcases List.append_eq_append_iff.mp split with ⟨extra, whole, others⟩ | ⟨extra, whole, _⟩
      · cases extra with
        | nil => exact ⟨[], by simpa using whole.symm⟩
        | cons byte extra =>
          simp only [List.cons_append, List.cons.injEq] at others
          exact absurd (by simp [whole, others.1]) outside
      · exact ⟨extra, whole⟩
    simp only [List.append_assoc, List.append_cancel_left_eq] at split
    exact .inr ⟨code, remains, nonempty, written, own, rfl, split.symm⟩

/-- A valid string is valid on both sides of a plain byte that is no part of what is before it. -/
theorem decode_split (exact : L.Exact) {mark : UInt8} (plain : Plain mark) {body rest : Bytes}
    (free : mark ∉ body) (valid : (L.decode (body ++ mark :: rest)).isSome) :
    (L.decode (body ++ [mark])).isSome ∧ (L.decode rest).isSome := by
  induction hlen : body.length using Nat.strongRecOn generalizing body with
  | ind length ih =>
    obtain ⟨wides, decoded⟩ := Option.isSome_iff_exists.mp valid
    obtain ⟨wide, after, others, read, tail, rfl⟩ :=
      (L.decode_eq_some_iff (by simp)).mp decoded
    rcases exact.decodeChar_before plain free read with
      ⟨rfl, rfl, rfl⟩ | ⟨code, remains, nonempty, written, _, rfl, rfl⟩
    · have own : L.decode [mark] = some [mark.toUInt32] :=
        exact.decode_of_encode (by simp [encode, exact.plain mark plain])
      exact ⟨by simp [own], by simp [tail]⟩
    · have positive := List.length_pos_of_ne_nil nonempty
      rw [List.length_append] at hlen
      have later : (L.decode (remains ++ [mark])).isSome ∧ (L.decode rest).isSome :=
        ih remains.length (by omega) (fun member => free (List.mem_append_right _ member))
          (by simp [tail]) rfl
      obtain ⟨chars, early⟩ := Option.isSome_iff_exists.mp later.1
      have whole : L.decode (code ++ (remains ++ [mark])) = some (wide :: chars) :=
        (L.decode_eq_some_iff (by simp [nonempty])).mpr
          ⟨wide, _, chars, exact.readBack _ _ _ written, early, rfl⟩
      exact ⟨by rw [List.append_assoc, whole]; rfl, later.2⟩

/-- Every line of a valid string is valid. -/
theorem decode_lines (exact : L.Exact) {stream : Bytes} (valid : (L.decode stream).isSome) :
    ∀ line ∈ lines stream, (L.decode line).isSome := by
  induction hlen : stream.length using Nat.strongRecOn generalizing stream with
  | ind length ih =>
    by_cases member : newline ∈ stream
    · obtain ⟨body, rest, rfl, free⟩ := List.eq_append_cons_of_mem member
      obtain ⟨first, later⟩ := exact.decode_split (by decide) free valid
      rw [lines_append_newline free, List.forall_mem_cons]
      exact ⟨first, ih rest.length (by simp at hlen; omega) later rfl⟩
    · by_cases empty : stream = []
      · simp [empty, lines]
      · rw [lines_of_notMem member empty, List.forall_mem_singleton]
        exact valid

/-- Reading a string without a plain byte gives no such character, wherever reading stops. -/
theorem notMem_decodeWithin (exact : L.Exact) {mark : UInt8} (plain : Plain mark) (limit : Nat)
    {bytes : Bytes} (free : mark ∉ bytes) : mark.toUInt32 ∉ (L.decodeWithin limit bytes).1 := by
  induction limit generalizing bytes with
  | zero => simp [decodeWithin]
  | succ limit ih =>
    cases bytes with
    | nil => simp [decodeWithin]
    | cons byte bytes =>
      simp only [decodeWithin]
      cases read : L.decodeChar (byte :: bytes) with
      | none => simp
      | some found =>
        obtain ⟨wide, rest⟩ := found
        obtain ⟨code, written, split⟩ := exact.written _ _ _ read
        rw [split, List.mem_append, not_or] at free
        simp only [List.mem_cons, not_or]
        refine ⟨fun own => free.1 ?_, ih free.2⟩
        rw [← own, exact.plain mark plain, Option.some.injEq] at written
        simp [← written]

/-- Reading a string that ends in its only occurrence of a plain byte stops before that byte or
reads it last. -/
theorem decodeWithin_terminated (exact : L.Exact) {mark : UInt8} (plain : Plain mark)
    {limit : Nat} {body : Bytes} (free : mark ∉ body) (enough : body.length < limit) :
    let read := L.decodeWithin limit (body ++ [mark])
    (read.2 = false ∧ mark.toUInt32 ∉ read.1) ∨
      (read.2 = true ∧ ∃ chars, read.1 = chars ++ [mark.toUInt32] ∧ mark.toUInt32 ∉ chars) := by
  induction limit generalizing body with
  | zero => omega
  | succ limit ih =>
    obtain ⟨byte, bytes, split⟩ := List.exists_cons_of_ne_nil (by simp : body ++ [mark] ≠ [])
    simp only [split, decodeWithin]
    rw [← split]
    cases read : L.decodeChar (body ++ [mark]) with
    | none => simp
    | some found =>
      obtain ⟨wide, after⟩ := found
      rcases exact.decodeChar_before plain free read with
        ⟨rfl, rfl, rfl⟩ | ⟨code, remains, nonempty, _, other, rfl, rfl⟩
      · cases limit <;> simp [decodeWithin]
      · have positive := List.length_pos_of_ne_nil nonempty
        rw [List.length_append] at enough
        have tail := ih (fun member => free (List.mem_append_right _ member))
          (by omega : remains.length < limit)
        rcases tail with ⟨stopped, without⟩ | ⟨whole, chars, ends, without⟩
        · exact .inl ⟨stopped, by simp [Ne.symm other, without]⟩
        · exact .inr ⟨whole, wide :: chars, by simp [ends], by simp [Ne.symm other, without]⟩

end Exact

/-- `LC_ALL=C`: a character is a byte below 128. -/
def ascii : CLocale where
  decodeChar
    | [] => none
    | byte :: rest => if byte < 128 then some (byte.toUInt32, rest) else none
  encodeChar wide := if wide < 128 then some [wide.toUInt8] else none
  consumes := by
    intro bytes wide rest read
    cases bytes with
    | nil => simp at read
    | cons byte bytes =>
      simp only [Option.ite_none_right_eq_some, Option.some.injEq, Prod.mk.injEq] at read
      exact ⟨[byte], by simp, by simp [read.2.2]⟩
  nonNull := by
    intro byte bytes wide rest read nonNull null
    simp only [Option.ite_none_right_eq_some, Option.some.injEq, Prod.mk.injEq] at read
    rw [null] at read
    exact nonNull (UInt8.toNat_inj.mp (by simpa using congrArg UInt32.toNat read.2.1))
  encodes := by
    intro bytes wide rest read
    cases bytes with
    | nil => simp at read
    | cons byte bytes =>
      simp only [Option.ite_none_right_eq_some, Option.some.injEq, Prod.mk.injEq] at read
      have small : wide < 128 := by
        rw [← read.2.1, UInt32.lt_iff_toNat_lt]
        simpa [UInt8.lt_iff_toNat_lt] using read.1
      simp [small]

/-- A small byte is the code of its character. -/
theorem ascii_encodeChar {byte : UInt8} (small : byte < 128) :
    ascii.encodeChar byte.toUInt32 = some [byte] := by
  have narrow : byte.toUInt32 < 128 := by
    rw [UInt32.lt_iff_toNat_lt]
    simpa [UInt8.lt_iff_toNat_lt] using small
  simp [ascii, narrow]

/-- The C locale loses nothing. -/
theorem ascii_exact : ascii.Exact where
  written := by
    intro bytes wide rest read
    cases bytes with
    | nil => simp [ascii] at read
    | cons byte bytes =>
      simp only [ascii, Option.ite_none_right_eq_some, Option.some.injEq, Prod.mk.injEq] at read
      rw [← read.2.1]
      exact ⟨[byte], ascii_encodeChar read.1, by simp [read.2.2]⟩
  readBack := by
    intro wide code rest written
    simp only [ascii, Option.ite_none_right_eq_some, Option.some.injEq] at written
    have bound : wide.toNat < 128 := by simpa [UInt32.lt_iff_toNat_lt] using written.1
    have back : wide.toUInt8.toNat = wide.toNat := by simp; omega
    have small : wide.toUInt8 < 128 := by
      rw [UInt8.lt_iff_toNat_lt, back]
      exact bound
    have same : wide.toUInt8.toUInt32 = wide := by
      rw [← UInt32.toNat_inj, UInt8.toNat_toUInt32, back]
    simp [ascii, ← written.2, small, same]
  plain := by
    intro byte plain
    apply ascii_encodeChar
    have bound : byte.toNat < 0x30 := plain
    rw [UInt8.lt_iff_toNat_lt]
    exact Nat.lt_trans bound (by decide)
  alone := by
    intro wide code byte written member _
    simp only [ascii, Option.ite_none_right_eq_some, Option.some.injEq] at written
    rw [← written.2, List.mem_singleton] at member
    rw [← written.2, member]

/-- Every string of small bytes is valid. -/
theorem ascii_decode {bytes : Bytes} (small : ∀ byte ∈ bytes, byte < 128) :
    ascii.decode bytes = some (bytes.map UInt8.toUInt32) := by
  apply ascii_exact.decode_of_encode
  induction bytes with
  | nil => rfl
  | cons byte bytes ih =>
    rw [List.forall_mem_cons] at small
    simp only [List.map_cons, encode, ascii_encodeChar small.1, ih small.2, List.singleton_append]

end CLocale

end CStrings
