import Mdp.Randpass
import Mdp.Scenario

/-!
# The password that a stream of random numbers draws

Where memory is available, `profile_generate_password` ends with an error exactly for the lengths
that it refuses. Otherwise each round of random numbers selects one character, at the first of the
largest weights, and the cells that were allocated hold these characters and a NUL.
-/

namespace Mdp.Drawing

open Mdp Interaction CStrings FirstMaximum

/-- The position that the weights of one round select. -/
def selectedPosition {k : Nat} (weights : Fin k → Nat) : Nat := heaviest 0 0 0 (List.ofFn weights)

/-- A search keeps what it has if nothing is larger, and selects the first of the largest
otherwise. -/
theorem heaviest_cases {k : Nat} (weights : Fin k → Nat) (j maxWeight element : Nat) :
    (heaviest j maxWeight element (List.ofFn weights) = element ∧ ∀ i, weights i ≤ maxWeight) ∨
      ∃ i : Fin k, heaviest j maxWeight element (List.ofFn weights) = j + i ∧
        maxWeight < weights i ∧ IsFirstMax weights i := by
  induction k generalizing j maxWeight element with
  | zero => exact .inl ⟨rfl, fun i => i.elim0⟩
  | succ k ih =>
    rw [List.ofFn_succ, heaviest]
    by_cases larger : weights 0 > maxWeight
    · right
      rw [if_pos larger]
      rcases ih (fun i => weights i.succ) (j + 1) (weights 0) j with
        ⟨kept, below⟩ | ⟨i, found, more, selected⟩
      · exact ⟨0, kept, larger, .zero below⟩
      · refine ⟨i.succ, ?_, larger.trans more, .succ more selected⟩
        rw [found, Fin.val_succ]
        omega
    · rw [if_neg larger]
      rcases ih (fun i => weights i.succ) (j + 1) maxWeight element with
        ⟨kept, below⟩ | ⟨i, found, more, selected⟩
      · left
        exact ⟨kept, Fin.cases (by omega) below⟩
      · right
        refine ⟨i.succ, ?_, more, .succ (by omega) selected⟩
        rw [found, Fin.val_succ]
        omega

/-- A round selects the first of its largest weights. -/
theorem exists_selected {k : Nat} {weights : Fin k → Nat} (full : 0 < k)
    (positive : ∀ i, 0 < weights i) :
    ∃ i : Fin k, selectedPosition weights = i ∧ IsFirstMax weights i := by
  rcases heaviest_cases weights 0 0 0 with ⟨_, below⟩ | ⟨i, found, _, selected⟩
  · have none := below ⟨0, full⟩
    have some := positive ⟨0, full⟩
    omega
  · rw [Nat.zero_add] at found
    exact ⟨i, found, selected⟩

/-- The position that is chosen is the first one with the largest weight. -/
theorem selectedPosition_eq_iff {k : Nat} {weights : Fin k → Nat} (positive : ∀ i, 0 < weights i)
    (i : Fin k) : selectedPosition weights = i ↔ IsFirstMax weights i := by
  obtain ⟨found, same, selected⟩ := exists_selected i.pos positive
  rw [same, Fin.val_inj]
  constructor
  · rintro rfl
    exact selected
  · exact fun other => selected.unique other

/-- The answers where memory is available and the random numbers are those of a stream, from a
position on. The other calls are answered somehow. -/
def supplied (others : (request : Call) → Call.Answer request) (draws : Nat → Fin 20000) :
    (request : Call) → Nat → Call.Answer request × Nat
  | .allocate, position => (true, position)
  | .readString present, position => (present, position)
  | .arc4randomUniform _, position => (UInt32.ofNat (draws position), position + 1)
  | request, position => (others request, position)

/-- The weights of a round whose random numbers begin at a position. -/
def roundWeights (draws : Nat → Fin 20000) (k position : Nat) : Fin k → Nat :=
  fun j => 1 + (draws (position + j)).val

/-- The character that a round chooses. -/
def roundCharacter (draws : Nat → Fin 20000) (set : List WChar) (position : Nat) : WChar :=
  set.getD (selectedPosition (roundWeights draws set.length position)) 0

/-- The characters of some rounds. -/
def roundCharacters (draws : Nat → Fin 20000) (set : List WChar) (position length : Nat) :
    List WChar :=
  List.ofFn fun i : Fin length => roundCharacter draws set (position + i * set.length)

variable {others : (request : Call) → Call.Answer request} {draws : Nat → Fin 20000}

/-- The weights of one character are the next draws. -/
theorem drawWeights_feed (left position : Nat) :
    (drawWeights left).feed (supplied others draws) position =
      (.ok (List.ofFn (roundWeights draws left position)), position + left) := by
  induction left generalizing position with
  | zero => rfl
  | succ left ih =>
    have weight : (UInt32.ofNat (draws position)).toNat = (draws position).val := by
      rw [UInt32.toNat_ofNat']
      omega
    have later : (fun i : Fin left => roundWeights draws (left + 1) position i.succ) =
        roundWeights draws left (position + 1) := by
      funext i
      simp only [roundWeights, Fin.val_succ]
      rw [Nat.add_assoc, Nat.add_comm 1 i.val]
    show ((drawWeights left).bind fun others =>
      .done ((1 + (UInt32.ofNat (draws position)).toNat) :: others)).feed _ (position + 1) = _
    rw [Program.feed_bind (ih (position + 1)), List.ofFn_succ, later, weight, Program.feed,
      Nat.add_assoc, Nat.add_comm 1 left]
    rfl

/-- The characters of a password are those of its rounds. -/
theorem drawCharacters_feed (set : List WChar) (left position : Nat) :
    (drawCharacters set left).feed (supplied others draws) position =
      (.ok (roundCharacters draws set position left), position + left * set.length) := by
  induction left generalizing position with
  | zero => simp [drawCharacters, Program.feed, roundCharacters]
  | succ left ih =>
    have later : (fun i : Fin left => roundCharacter draws set (position + i.succ * set.length)) =
        fun i : Fin left => roundCharacter draws set (position + set.length + i * set.length) := by
      funext i
      rw [Fin.val_succ, Nat.succ_mul, Nat.add_comm (i * set.length), Nat.add_assoc]
    rw [drawCharacters, Program.bind_eq, Program.feed_bind (drawWeights_feed set.length position),
      Program.bind_eq, Program.feed_bind (ih (position + set.length)), roundCharacters,
      roundCharacters, List.ofFn_succ, later, Program.pure_eq, Program.feed, Nat.succ_mul,
      Nat.add_comm (left * set.length), Nat.add_assoc, Fin.val_zero, Nat.zero_mul, Nat.add_zero]
    rfl

/-- An `unsigned int` that is allowed as a length is that length. -/
theorem asInt_within (count : UInt32) :
    ¬ (asInt count > maxPasswordLength ∨ asInt count < 1) ↔ 1 ≤ count.toNat ∧
        count.toNat ≤ 256 := by
  have bound := count.toNat_lt
  unfold asInt maxPasswordLength
  by_cases low : count.toNat < 2147483648
  · rw [if_pos low]
    omega
  · rw [if_neg low]
    omega

/-- The only length whose cells do not count as an `unsigned int`. -/
theorem toNat_of_wrapped {count : UInt32} (wrapped : count + 1 = 0) : count.toNat = 4294967295 := by
  have bound := count.toNat_lt
  have sum := congrArg UInt32.toNat wrapped
  rw [UInt32.toNat_add] at sum
  have zero : (count.toNat + 1) % 4294967296 = 0 := sum
  omega

/-- The lengths that are refused. -/
def Refused (count : UInt32) : Prop := count = 0 ∨ maxPasswordLength < count.toNat

/-- A length is refused outside 1 to 256. -/
theorem refused_iff (count : UInt32) : Refused count ↔ ¬ (1 ≤ count.toNat ∧ count.toNat ≤ 256) := by
  have zero : count = 0 ↔ count.toNat = 0 := by
    rw [← UInt32.toNat_inj]
    rfl
  unfold Refused maxPasswordLength
  rw [zero]
  omega

/-- What `profile_generate_password` makes of what `generate_password_from_set` returns. -/
def passwordOrExit : Option (List WChar) → Prog (List WChar)
  | none => errx exitFailure "failed to generate password"
  | some password => .done password

/-- What `profile_generate_password` does where memory is available. -/
theorem profileGeneratePassword_feed (opts : AddOptions) (profile : Profile)
    (full : profile.letters ≠ []) (position : Nat) :
    let result := (profileGeneratePassword opts profile).feed (supplied others draws) position
    let count := characterCountOf opts profile
    (Refused count → ∃ message, result.1 = .error (.exit exitFailure message)) ∧
    (¬ Refused count → result = (.ok (roundCharacters draws profile.letters position count.toNat),
      position + count.toNat * profile.letters.length)) := by
  intro result count
  have bound := count.toNat_lt
  have nonempty : (profile.letters.length != 0) = true := by simpa using full
  have within := asInt_within count
  have refused := refused_iff count
  have called : result = ((require (count + 1 != 0) "zero size").bind fun _ =>
      (ask .allocate).bind fun given => (require given "xcalloc failed").bind fun _ =>
        (generatePasswordFromSet (asInt count) profile.characterSet).bind passwordOrExit).feed
          (supplied others draws) position := rfl
  by_cases wrapped : count + 1 = 0
  · have last := toNat_of_wrapped wrapped
    constructor
    · intro _
      rw [called]
      exact ⟨"zero size", by simp [wrapped, require, err, Program.feed]⟩
    · intro fine
      rw [refused, last] at fine
      omega
  · have room : (count + 1 != 0) = true := by simpa using wrapped
    have read : result = (((if asInt count > maxPasswordLength ∨ asInt count < 1 then .done none
        else do
          require (profile.letters.length != 0) "zero size"
          require (← ask .allocate) "xcalloc failed"
          let password ← drawCharacters profile.letters (asInt count).toNat
          pure (some password)) : Prog (Option (List WChar))).bind passwordOrExit).feed
            (supplied others draws) position := by
      rw [called, room, Profile.characterSet_of_letters full]
      rfl
    rw [read]
    constructor
    · intro bad
      have outside := mt within.mp (refused.mp bad)
      rw [not_not] at outside
      rw [if_pos outside]
      exact ⟨"failed to generate password", rfl⟩
    · intro fine
      rw [refused, not_not] at fine
      have inside := within.mpr fine
      have same : (asInt count).toNat = count.toNat := by
        unfold asInt
        rw [if_pos (by omega), Int.toNat_natCast]
      rw [if_neg inside, nonempty, same]
      show Program.feed _ (((drawCharacters profile.letters _).bind fun password =>
        .done (some password)).bind _) position = _
      rw [Program.bind_assoc, Program.feed_bind (drawCharacters_feed profile.letters _ position)]
      rfl

/-- What a call on cells comes to for a stream. -/
def generated (others : (request : Call) → Call.Answer request) (draws : Nat → Fin 20000)
    (opts : AddOptions) (profile : Profile) : Except Stop (List WChar) :=
  ((profileGenerateInPlace opts profile).feed (supplied others draws) 0).1

/-- A password whose characters are chosen by the rounds of a stream, each by its own. -/
structure DrawnFrom (draws : Nat → Fin 20000) (set : List WChar) (count : Nat)
    (password : List WChar) : Prop where
  length : password.length = count
  character : ∀ i < count, ∃ j : Fin set.length,
    IsFirstMax (roundWeights draws set.length (i * set.length)) j ∧ password[i]? = some set[j]
  inSet : ∀ wide ∈ password, wide ∈ set

variable {set : List WChar}

/-- A round chooses the character at the first of its largest weights. -/
theorem roundCharacter_eq (full : set ≠ []) (draws : Nat → Fin 20000) (position : Nat) :
    ∃ j : Fin set.length, IsFirstMax (roundWeights draws set.length position) j ∧
      roundCharacter draws set position = set[j] := by
  have positive : ∀ j, 0 < roundWeights draws set.length position j := fun j => by
    unfold roundWeights
    omega
  obtain ⟨j, found, selected⟩ := exists_selected (List.length_pos_of_ne_nil full) positive
  refine ⟨j, selected, ?_⟩
  rw [roundCharacter, found, List.getD_eq_getElem?_getD, List.getElem?_eq_getElem j.isLt,
    Option.getD_some]
  rfl

/-- Each character is that of its own round. -/
theorem roundCharacters_getElem? (draws : Nat → Fin 20000) (set : List WChar) (length i : Nat) :
    (roundCharacters draws set 0 length)[i]? =
      if i < length then some (roundCharacter draws set (i * set.length)) else none := by
  unfold roundCharacters
  split
  · rename_i inside
    rw [List.getElem?_eq_getElem (by rwa [List.length_ofFn]), List.getElem_ofFn, Nat.zero_add]
  · rename_i outside
    rw [List.getElem?_eq_none (by rw [List.length_ofFn]; omega)]

/-- The characters of the rounds are such a password. -/
theorem drawnFrom_roundCharacters (full : set ≠ []) (draws : Nat → Fin 20000) (count : Nat) :
    DrawnFrom draws set count (roundCharacters draws set 0 count) := by
  refine ⟨List.length_ofFn, fun i inside => ?_, fun wide member => ?_⟩
  · obtain ⟨j, selected, same⟩ := roundCharacter_eq full draws (i * set.length)
    refine ⟨j, selected, ?_⟩
    rw [roundCharacters_getElem?, if_pos inside, same]
  · obtain ⟨i, same⟩ := List.mem_ofFn.mp member
    obtain ⟨j, _, chosen⟩ := roundCharacter_eq full draws (0 + i * set.length)
    rw [← same, chosen]
    exact List.getElem_mem j.isLt

/-- A character is chosen by the random numbers of its round. -/
theorem roundCharacter_congr {draws draws' : Nat → Fin 20000} {position : Nat}
    (same : ∀ j < set.length, draws' (position + j) = draws (position + j)) :
    roundCharacter draws' set position = roundCharacter draws set position := by
  have weights : roundWeights draws' set.length position =
      roundWeights draws set.length position := by
    funext j
    rw [roundWeights, roundWeights, same j j.isLt]
  rw [roundCharacter, roundCharacter, weights]

/-- What a call comes to: an error, or cells that hold the characters of the rounds and a NUL. -/
theorem generated_eq (others : (request : Call) → Call.Answer request) (draws : Nat → Fin 20000)
    (opts : AddOptions) {profile : Profile} (full : profile.letters ≠ [])
    (small : profile.letters.length < 2147483648) :
    (Refused (characterCountOf opts profile) → ∃ message,
      generated others draws opts profile = .error (.ending (.exit exitFailure message))) ∧
    (¬ Refused (characterCountOf opts profile) → generated others draws opts profile =
      .ok (roundCharacters draws profile.letters 0 (characterCountOf opts profile).toNat ++
          [0])) := by
  have called := @profileGeneratePassword_feed others draws opts profile full 0
  have lifted : (inPlace (profileGeneratePassword opts profile)).feed (supplied others draws) 0 =
      _ :=
    Program.feed_mapHalt Stop.ending (profileGeneratePassword opts profile) 0
  unfold generated
  rw [profileGenerateInPlace_eq opts small]
  constructor
  · intro refused
    obtain ⟨message, stopped⟩ := called.1 refused
    rw [stopped] at lifted
    rw [Program.feed_bind_error lifted]
    exact ⟨message, rfl⟩
  · intro fine
    rw [called.2 fine] at lifted
    rw [Program.feed_bind lifted]
    rfl

/-- For a character set that is a string and a stream of random numbers, where memory is available,
the call ends with an error exactly for a length of zero or above the maximum. Otherwise it returns
the characters at the first of the largest weights of each round, each of which depends on the
random numbers of its round only. It accesses no cell outside its arrays. -/
theorem password_of_draws (opts : AddOptions) (profile : Profile)
    (others : (request : Call) → Call.Answer request) (draws : Nat → Fin 20000)
    (full : profile.letters ≠ []) (small : profile.letters.length < 2147483648)
    (string : (0 : WChar) ∉ profile.letters) :
    ((∃ message, generated others draws opts profile =
        .error (.ending (.exit exitFailure message))) ↔ Refused (characterCountOf opts profile)) ∧
      generated others draws opts profile ≠ .error .outside ∧
      (¬ Refused (characterCountOf opts profile) →
        ∃ cells, generated others draws opts profile = .ok cells ∧
          cells.length = (characterCountOf opts profile).toNat + 1 ∧
          DrawnFrom draws profile.letters (characterCountOf opts profile).toNat (upToNul cells) ∧
          ∀ others' draws' cells' i, generated others' draws' opts profile = .ok cells' →
            (∀ j < profile.letters.length, draws' (i * profile.letters.length + j) =
              draws (i * profile.letters.length + j)) →
            (upToNul cells')[i]? = (upToNul cells)[i]?) := by
  have called := fun others draws => generated_eq others draws opts full small
  have string' : ∀ draws count, upToNul (roundCharacters draws profile.letters 0 count ++ [0]) =
      roundCharacters draws profile.letters 0 count := by
    intro draws count
    apply upToNul_append_zero
    intro wide member zero
    rw [zero] at member
    exact string ((drawnFrom_roundCharacters full draws count).inSet 0 member)
  by_cases refused : Refused (characterCountOf opts profile)
  · obtain ⟨message, stopped⟩ := (called others draws).1 refused
    refine ⟨⟨fun _ => refused, fun _ => ⟨message, stopped⟩⟩, ?_, fun fine => absurd refused fine⟩
    rw [stopped]
    simp
  · have returned := fun others draws => (called others draws).2 refused
    refine ⟨⟨fun ⟨message, stopped⟩ => ?_, fun bad => absurd bad refused⟩, ?_, fun _ => ?_⟩
    · rw [returned] at stopped
      cases stopped
    · rw [returned]
      simp
    · refine ⟨_, returned others draws, ?_, ?_, ?_⟩
      · rw [List.length_append, roundCharacters, List.length_ofFn, List.length_singleton]
      · rw [string']
        exact drawnFrom_roundCharacters full draws _
      · intro others' draws' cells' i other same
        rw [returned, Except.ok.injEq] at other
        rw [← other, string', string', roundCharacters_getElem?, roundCharacters_getElem?,
          roundCharacter_congr same]

/-- A profile for passwords of two of three letters. -/
def threeLetters : Profile := ⟨[0x70], 1, 2, some [0x61, 0x62, 0x63]⟩

/-- Options that give no length. -/
def plainOptions : AddOptions := ⟨none, none, 0, 0, 4, 16, none, []⟩

/-- A stream whose first round has its largest number twice. -/
def sampleDraws (position : Nat) : Fin 20000 := [0, 2, 2, 1, 0, 0].getD position 0

/-- A password of two characters, of a set of three. -/
theorem password_of_draws_two :
    ∃ cells, generated (fun request => succeeding request (sampleState true)) sampleDraws
      plainOptions
        threeLetters = .ok cells ∧
      cells.length = 3 ∧ DrawnFrom sampleDraws [0x61, 0x62, 0x63] 2 (upToNul cells) := by
  have fine : ¬ Refused (characterCountOf plainOptions threeLetters) := by
    rw [refused_iff]
    decide
  obtain ⟨cells, returned, length, drawn, _⟩ := (password_of_draws plainOptions threeLetters
    (fun request => succeeding request (sampleState true)) sampleDraws (by decide) (by decide)
    (by decide)).2.2 fine
  exact ⟨cells, returned, length, drawn⟩

end Mdp.Drawing
