import Mathlib.Data.FinEnum
import Mathlib.Dynamics.PeriodicPts.Lemmas
import Mdp.Arc4random

/-!
# The states of the random number generator

Whatever is called and whatever the device gives, the table is a permutation of the bytes, the
stream is outside the short cycles that a stream of this kind has, and no byte is drawn long after
the last stir.
-/

namespace Mdp.Generator

open Mdp CStrings

/-- Exchanging two entries is renaming their indices. -/
theorem exchange_s (rs : Arc4Stream) :
    (rs.exchange (rs.s rs.i) (rs.s rs.j)).s = rs.s ∘ Equiv.swap rs.i rs.j := by
  funext index
  simp only [Arc4Stream.exchange, Arc4Stream.write, Function.comp_apply]
  by_cases second : index = rs.j
  · subst second
    rw [Function.update_self, Equiv.swap_apply_right]
  · rw [Function.update_of_ne second]
    by_cases first : index = rs.i
    · subst first
      rw [Function.update_self, Equiv.swap_apply_left]
    · rw [Function.update_of_ne first, Equiv.swap_apply_of_ne_of_ne first second]

/-- An exchange keeps the first index. -/
@[simp] theorem exchange_i (rs : Arc4Stream) (si sj : UInt8) : (rs.exchange si sj).i = rs.i := rfl

/-- An exchange keeps the second index. -/
@[simp] theorem exchange_j (rs : Arc4Stream) (si sj : UInt8) : (rs.exchange si sj).j = rs.j := rfl

/-- The stream in front of an exchange: `i` is the next index and `j` moves on by its entry and a
byte. -/
def aim (rs : Arc4Stream) (byte : UInt8) : Arc4Stream :=
  ⟨rs.i + 1, rs.j + rs.s (rs.i + 1) + byte, rs.s⟩

/-- The exchange of the two entries. -/
def trade (rs : Arc4Stream) : Arc4Stream := rs.exchange (rs.s rs.i) (rs.s rs.j)

/-- The exchange at the indices keeps the first one. -/
@[simp] theorem trade_i (rs : Arc4Stream) : (trade rs).i = rs.i := rfl

/-- The exchange at the indices keeps the second one. -/
@[simp] theorem trade_j (rs : Arc4Stream) : (trade rs).j = rs.j := rfl

/-- The exchange at the indices swaps their two entries. -/
theorem trade_s (rs : Arc4Stream) : (trade rs).s = rs.s ∘ Equiv.swap rs.i rs.j := exchange_s rs

/-- Mixing a byte in is one such exchange. -/
theorem arc4Mix_eq (dat : Bytes) (rs : Arc4Stream) (n : Nat) :
    arc4Mix dat rs n = trade (aim rs (dat.getD (n % dat.length) 0)) := rfl

/-- So is drawing a byte. -/
theorem arc4Skip_eq (rs : Arc4Stream) : arc4Skip rs = trade (aim rs 0) := by
  simp [arc4Skip, arc4Getbyte, trade, aim]

/-- An exchange keeps a permutation. -/
theorem trade_bijective {rs : Arc4Stream} (permutes : Function.Bijective rs.s) :
    Function.Bijective (trade rs).s := by
  rw [trade_s]
  exact permutes.comp (Equiv.bijective _)

/-- Mixing bytes in keeps a permutation, and leaves both indices at one place. -/
theorem arc4Addrandom_spec (dat : Bytes) {rs : Arc4Stream} (permutes : Function.Bijective rs.s) :
    Function.Bijective (arc4Addrandom dat rs).s ∧
      (arc4Addrandom dat rs).j = (arc4Addrandom dat rs).i := by
  have loop : ∀ (steps : List Nat) (rs : Arc4Stream), Function.Bijective rs.s →
      Function.Bijective (steps.foldl (arc4Mix dat) rs).s := by
    intro steps
    induction steps with
    | nil => exact fun _ before => before
    | cons n steps ih =>
      intro rs before
      rw [List.foldl_cons, arc4Mix_eq]
      exact ih _ (trade_bijective before)
  unfold arc4Addrandom
  generalize List.range 256 = steps
  exact ⟨loop steps { rs with i := rs.i - 1 } permutes, rfl⟩

/-- The streams that only meet each other: `j` is one ahead of `i` and its entry is one. -/
def Short (rs : Arc4Stream) : Prop := rs.j = rs.i + 1 ∧ rs.s rs.j = 1

/-- A byte drawn neither leads into the short cycles nor out of them. -/
theorem short_arc4Skip_iff (rs : Arc4Stream) : Short (arc4Skip rs) ↔ Short rs := by
  rw [arc4Skip_eq]
  unfold Short
  rw [trade_s, trade_j, trade_i, Function.comp_apply, Equiv.swap_apply_right]
  simp only [aim]
  constructor
  · intro ⟨ahead, one⟩
    have same : rs.j = rs.i + 1 := by grind
    exact ⟨same, by rw [same]; exact one⟩
  · intro ⟨ahead, one⟩
    rw [← ahead, one]
    exact ⟨by grind, rfl⟩

/-- What is true of the stream from the first stir on. -/
structure Sound (rs : Arc4Stream) : Prop where
  permutes : Function.Bijective rs.s
  long : ¬ Short rs

/-- The table of `arc4_init` is sound. -/
theorem sound_arc4Init : Sound arc4Init := by
  refine ⟨Function.bijective_id, fun short => ?_⟩
  have ahead : (0 : UInt8) = 0 + 1 := short.1
  simp at ahead

/-- `arc4_addrandom` keeps a stream sound. -/
theorem Sound.arc4Addrandom {rs : Arc4Stream} (sound : Sound rs) (dat : Bytes) :
    Sound (arc4Addrandom dat rs) := by
  have spec := arc4Addrandom_spec dat sound.permutes
  refine ⟨spec.1, fun short => ?_⟩
  have ahead := short.1
  rw [spec.2] at ahead
  grind

/-- A byte that is thrown away leaves a stream sound. -/
theorem Sound.arc4Skip {rs : Arc4Stream} (sound : Sound rs) : Sound (arc4Skip rs) := by
  refine ⟨?_, fun short => sound.long ((short_arc4Skip_iff rs).mp short)⟩
  rw [arc4Skip_eq]
  exact trade_bijective sound.permutes

/-- So do any number of them. -/
theorem Sound.arc4Skips {rs : Arc4Stream} (sound : Sound rs) (many : Nat) :
    Sound (Mdp.arc4Skip^[many] rs) := by
  induction many generalizing rs with
  | zero => exact sound
  | succ many ih =>
    rw [Function.iterate_succ_apply]
    exact ih sound.arc4Skip

/-- How many bytes were drawn since the last stir. -/
def sinceStir : List Arc4Event → Option Nat
  | [] => none
  | .stirred :: _ => some 0
  | .drew _ :: older => (sinceStir older).map (· + 1)

/-- They are what stands in front of that stir. -/
theorem split_of_sinceStir {record : List Arc4Event} {drawn : Nat}
    (since : sinceStir record = some drawn) :
    ∃ bytes older, record = bytes ++ .stirred :: older ∧ .stirred ∉ bytes ∧
        bytes.length = drawn := by
  induction record generalizing drawn with
  | nil => simp [sinceStir] at since
  | cons event record ih =>
    cases event with
    | stirred =>
      have none : 0 = drawn := Option.some.inj since
      exact ⟨[], record, rfl, by simp, by simpa using none⟩
    | drew byte =>
      obtain ⟨fewer, before, more⟩ := Option.map_eq_some_iff.mp since
      obtain ⟨bytes, older, split, quiet, many⟩ := ih before
      refine ⟨.drew byte :: bytes, older, by rw [split, List.cons_append], by simp [quiet], ?_⟩
      rw [List.length_cons, many]
      exact more

/-- Every byte was drawn with fewer than so many bytes drawn since the last stir before it. -/
def Paced : List Arc4Event → Prop
  | [] => True
  | .stirred :: older => Paced older
  | .drew _ :: older => (∃ drawn, sinceStir older = some drawn ∧ drawn < 1600003) ∧ Paced older

/-- What was recorded first was paced as well. -/
theorem Paced.of_append {newer : List Arc4Event} {older : List Arc4Event}
    (paced : Paced (newer ++ older)) : Paced older := by
  induction newer with
  | nil => exact paced
  | cons event newer ih =>
    cases event with
    | stirred => exact ih paced
    | drew byte => exact ih paced.2

/-- What is true between the calls. -/
structure Kept (a : Arc4) : Prop where
  sound : a.initialized = true → Sound a.rs
  initialized : a.stired = true → a.initialized = true
  counted : a.stired = true →
    ∃ drawn, sinceStir a.record = some drawn ∧ (drawn : Int) + a.count = 1600000
  low : -3 ≤ a.count
  high : a.count ≤ 1600000
  paced : Paced a.record

/-- What is true while bytes are drawn that are not subtracted from the count yet. -/
structure Drawing (owed : Nat) (a : Arc4) : Prop where
  initialized : a.initialized = true
  stired : a.stired = true
  sound : Sound a.rs
  counted : ∃ drawn, sinceStir a.record = some drawn ∧ (drawn : Int) + a.count = 1600000 + owed
  low : 0 < a.count
  high : a.count ≤ 1600000
  paced : Paced a.record

/-- The invariant holds before the first call. -/
theorem kept_fresh : Kept Arc4.fresh := by
  constructor <;> simp [Arc4.fresh, Paced]

/-- After `arc4_check_init` the invariant holds, and the stream is there. -/
theorem Kept.arc4CheckInit {a : Arc4} (kept : Kept a) :
    Kept (arc4CheckInit a) ∧ (arc4CheckInit a).initialized = true := by
  unfold Mdp.arc4CheckInit
  cases initialized : a.initialized with
  | true => exact ⟨kept, initialized⟩
  | false =>
    refine ⟨⟨fun _ => sound_arc4Init, fun _ => rfl, kept.counted, kept.low, kept.high,
      kept.paced⟩, rfl⟩

variable {around : Nat → Entropy}

/-- A stir keeps the stream sound. -/
theorem Sound.arc4Stir {a : Arc4} (sound : Sound a.rs) : Sound (arc4Stir around a).rs := by
  unfold Mdp.arc4Stir arc4Discard
  generalize 1024 = many
  exact (sound.arc4Addrandom _).arc4Skips many

/-- After a stir bytes can be drawn. -/
theorem Kept.stirred (around : Nat → Entropy) {a : Arc4} (kept : Kept a)
    (initialized : a.initialized = true) : Drawing 0 { arc4Stir around a with stired := true } := by
  have sound : Sound (arc4Stir around a).rs := Sound.arc4Stir (kept.sound initialized)
  have since : sinceStir (arc4Stir around a).record = some 0 := rfl
  have count : (arc4Stir around a).count = 1600000 := rfl
  exact ⟨initialized, rfl, sound, ⟨0, since, by simp [count]⟩, by simp [count], by simp [count],
    kept.paced⟩

/-- `arc4_check_stir` stirs where the count is used up. -/
theorem Kept.arc4CheckStir (around : Nat → Entropy) {a : Arc4} (kept : Kept a)
    (initialized : a.initialized = true) : Drawing 0 (arc4CheckStir around a) := by
  unfold Mdp.arc4CheckStir
  split_ifs with due
  · exact kept.stirred around initialized
  · have stired : a.stired = true := by
      cases already : a.stired with
      | true => rfl
      | false => exact absurd (Or.inl already) due
    have left : 0 < a.count := by
      by_contra used
      exact due (Or.inr (by omega))
    exact ⟨initialized, stired, kept.sound initialized, by simpa using kept.counted stired, left,
      kept.high, kept.paced⟩

/-- One byte. -/
theorem Drawing.arc4Draw {owed : Nat} {a : Arc4} (drawing : Drawing owed a) (few : owed < 4) :
    Drawing (owed + 1) (arc4Draw a).2 := by
  obtain ⟨drawn, since, counted⟩ := drawing.counted
  have left := drawing.low
  refine ⟨drawing.initialized, drawing.stired, drawing.sound.arc4Skip, ⟨drawn + 1, ?_, ?_⟩,
    drawing.low, drawing.high, ⟨drawn, since, by omega⟩, drawing.paced⟩
  · simp [Mdp.arc4Draw, sinceStir, since]
  · have same : (Mdp.arc4Draw a).2.count = a.count := rfl
    rw [same]
    push_cast
    omega

/-- Subtracting what was drawn. -/
theorem Drawing.settle {owed : Nat} {a : Arc4} (drawing : Drawing owed a) (few : owed ≤ 4) :
    Kept { a with count := a.count - owed } := by
  obtain ⟨drawn, since, counted⟩ := drawing.counted
  have left := drawing.low
  have most := drawing.high
  exact ⟨fun _ => drawing.sound, fun _ => drawing.initialized,
    fun _ => ⟨drawn, since, by simp only; omega⟩, by simp only; omega, by simp only; omega,
    drawing.paced⟩

/-- Bytes mixed in. -/
theorem Drawing.arc4Addrandom {owed : Nat} {a : Arc4} (drawing : Drawing owed a) (dat : Bytes) :
    Drawing owed { a with rs := arc4Addrandom dat a.rs } :=
  ⟨drawing.initialized, drawing.stired, drawing.sound.arc4Addrandom dat, drawing.counted,
    drawing.low, drawing.high, drawing.paced⟩

/-- The invariant holds again where nothing is owed. -/
theorem Drawing.kept {a : Arc4} (drawing : Drawing 0 a) : Kept a := by
  have settled := drawing.settle (Nat.zero_le 4)
  simpa using settled

/-- `arc4random` keeps the invariant. -/
theorem Kept.arc4random {a : Arc4} (kept : Kept a) : Kept (arc4random around a).2 := by
  have ready := kept.arc4CheckInit
  have first := ready.1.arc4CheckStir around ready.2
  have word := (((first.arc4Draw (by omega)).arc4Draw (by omega)).arc4Draw (by omega)).arc4Draw
    (by omega)
  exact word.settle (by omega)

/-- The loop of `arc4random_buf` keeps the invariant. -/
theorem Kept.arc4randomFill {a : Arc4} (kept : Kept a) (initialized : a.initialized = true)
    (n : Nat) :
    Kept (arc4randomFill around n a).2 := by
  induction n generalizing a with
  | zero => exact kept
  | succ n ih =>
    have byte := (kept.arc4CheckStir around initialized).arc4Draw (by omega)
    exact ih (byte.settle (by omega)) byte.initialized

/-- The loop of `arc4random_uniform` keeps the invariant. -/
theorem Kept.arc4randomRetry {min upperBound : UInt32} {tries : Nat} {a a' : Arc4} {r : UInt32}
    (kept : Kept a) (drawn : arc4randomRetry around min upperBound tries a = some (r, a')) :
    Kept a' := by
  induction tries generalizing a with
  | zero => simp [Mdp.arc4randomRetry] at drawn
  | succ tries ih =>
    simp only [Mdp.arc4randomRetry] at drawn
    split_ifs at drawn with accepted
    · have same : (Mdp.arc4random around a).2 = a' := congrArg Prod.snd (Option.some.inj drawn)
      rw [← same]
      exact kept.arc4random
    · exact ih kept.arc4random drawn

/-- Every call keeps it. -/
theorem Kept.leaves {call : Arc4Call} {a a' : Arc4} (kept : Kept a)
    (left : call.leaves around a = some a') : Kept a' := by
  cases call with
  | stir =>
    have ready := kept.arc4CheckInit
    have stirred := (ready.1.stirred around ready.2).kept
    have same : arc4randomStir around a = a' := Option.some.inj left
    rw [← same]
    unfold arc4randomStir
    exact stirred
  | addrandom dat given =>
    have ready := kept.arc4CheckInit
    have stirred := ready.1.arc4CheckStir around ready.2
    have same : arc4randomAddrandom around dat a = a' := Option.some.inj left
    rw [← same]
    unfold arc4randomAddrandom
    exact (stirred.arc4Addrandom dat).kept
  | random =>
    have same := Option.some.inj left
    rw [← same]
    exact kept.arc4random
  | buf n =>
    have ready := kept.arc4CheckInit
    have same := Option.some.inj left
    rw [← same]
    exact ready.1.arc4randomFill ready.2 n
  | uniform upperBound tries =>
    simp only [Arc4Call.leaves, arc4randomUniform] at left
    split_ifs at left with small
    · have same : a = a' := Option.some.inj left
      rw [← same]
      exact kept
    · obtain ⟨⟨r, after⟩, drawn, same⟩ := Option.map_eq_some_iff.mp left
      have same : after = a' := same
      rw [← same]
      exact kept.arc4randomRetry drawn

/-- So does every sequence of calls. -/
theorem Kept.run {calls : List Arc4Call} {a a' : Arc4} (kept : Kept a)
    (left : arc4Run around calls a = some a') : Kept a' := by
  induction calls generalizing a with
  | nil =>
    have same : a = a' := Option.some.inj left
    rw [← same]
    exact kept
  | cons call calls ih =>
    obtain ⟨between, first, rest⟩ := Option.bind_eq_some_iff.mp left
    exact ih (kept.leaves first) rest

/-- Whatever was called, the table is a permutation of the bytes and the stream is in no short
cycle. -/
theorem stays_mixed (around : Nat → Entropy) (calls : List Arc4Call) (a : Arc4)
    (reached : arc4Run around calls Arc4.fresh = some a) (initialized : a.initialized = true) :
    Function.Bijective a.rs.s ∧ ¬ (a.rs.j = a.rs.i + 1 ∧ a.rs.s a.rs.j = 1) := by
  have kept := kept_fresh.run reached
  have sound := kept.sound initialized
  exact ⟨sound.permutes, sound.long⟩

/-- No device, and nothing on the stack. -/
def bare : Entropy where
  opens := false
  device := []
  atMost := Nat.zero_le _
  tv := Vector.replicate 16 0
  pid := Vector.replicate 4 0
  stack := Vector.replicate 128 0

/-- The stream after the first stir. -/
theorem stays_mixed_stirred :
    Function.Bijective (arc4randomStir (fun _ => bare) Arc4.fresh).rs.s ∧
      ¬ ((arc4randomStir (fun _ => bare) Arc4.fresh).rs.j =
          (arc4randomStir (fun _ => bare) Arc4.fresh).rs.i + 1 ∧
        (arc4randomStir (fun _ => bare) Arc4.fresh).rs.s
          (arc4randomStir (fun _ => bare) Arc4.fresh).rs.j = 1) :=
  stays_mixed (fun _ => bare) [.stir] _ rfl rfl

/-- Every byte drawn was drawn after a stir, with at most 1600002 bytes drawn in between. -/
theorem drawn_after_stir (around : Nat → Entropy) (calls : List Arc4Call) (a : Arc4)
    (reached : arc4Run around calls Arc4.fresh = some a) (newer older : List Arc4Event)
    (byte : UInt8) (drew : a.record = newer ++ .drew byte :: older) :
    ∃ bytes earlier, older = bytes ++ .stirred :: earlier ∧ .stirred ∉ bytes ∧
      bytes.length ≤ 1600002 := by
  have kept := kept_fresh.run reached
  have paced := kept.paced
  rw [drew] at paced
  obtain ⟨⟨drawn, since, few⟩, _⟩ := paced.of_append
  obtain ⟨bytes, earlier, split, quiet, many⟩ := split_of_sinceStir since
  exact ⟨bytes, earlier, split, quiet, by omega⟩

/-- A generator that is asked for one word. -/
def firstWord : UInt32 × Arc4 := arc4random (fun _ => bare) Arc4.fresh

/-- The last byte of the first word was drawn three bytes after the stir. -/
theorem drawn_after_stir_word : ∃ first second third last,
    firstWord.2.record = [.drew last, .drew third, .drew second, .drew first, .stirred] ∧
    ∃ bytes earlier, [.drew third, .drew second, .drew first, .stirred] =
        bytes ++ Arc4Event.stirred :: earlier ∧
      .stirred ∉ bytes ∧ bytes.length ≤ 1600002 :=
  ⟨_, _, _, _, rfl, drawn_after_stir (fun _ => bare) [.random] firstWord.2 rfl [] _ _ rfl⟩

/-- The stream in front of a draw is known from the one after it. -/
theorem arc4Skip_injective : Function.Injective arc4Skip := by
  intro left right same
  rw [arc4Skip_eq, arc4Skip_eq] at same
  have next : left.i + 1 = right.i + 1 := congrArg Arc4Stream.i same
  have target : left.j + left.s (left.i + 1) + 0 = right.j + right.s (right.i + 1) + 0 :=
    congrArg Arc4Stream.j same
  have index : left.i = right.i := by grind
  have tables := congrArg Arc4Stream.s same
  rw [trade_s, trade_s] at tables
  -- Both exchanges name the same two entries, so they are undone alike.
  simp only [aim] at tables
  rw [target, next] at tables
  have table : left.s = right.s := (Equiv.surjective _).injective_comp_right tables
  rw [table, next] at target
  have before : left.j = right.j := by grind
  cases left
  cases right
  simp_all

/-- A stream is its two indices and its table. -/
def fields : Arc4Stream ≃ UInt8 × UInt8 × (UInt8 → UInt8) where
  toFun rs := (rs.i, rs.j, rs.s)
  invFun parts := ⟨parts.1, parts.2.1, parts.2.2⟩
  left_inv _ := rfl
  right_inv _ := rfl

/-- There are finitely many streams. -/
instance : Finite Arc4Stream := Finite.of_equiv _ fields.symm

/-- However many bytes are drawn or thrown away, different streams stay different, and every stream
comes back to itself: without a stir the bytes drawn repeat from the first one on. -/
theorem draws_come_back (many : Nat) (rs : Arc4Stream) :
    Function.Injective arc4Skip^[many] ∧
      ∃ period > 0, arc4Skip^[period] rs = rs ∧
        ∀ n, (arc4Getbyte (arc4Skip^[n + period] rs)).1 = (arc4Getbyte (arc4Skip^[n] rs)).1 := by
  refine ⟨arc4Skip_injective.iterate many, ?_⟩
  have periodic : rs ∈ Function.periodicPts arc4Skip := arc4Skip_injective.mem_periodicPts rs
  obtain ⟨period, positive, back⟩ := Function.mem_periodicPts.mp periodic
  refine ⟨period, positive, back, fun n => ?_⟩
  rw [Function.iterate_add_apply, back.eq]

end Mdp.Generator
