import Mathlib.Logic.Function.Iterate
import Mdp.Library.Lines

/-!
# The random number generator

`arc4random.c`, which is compiled in where the C library has no `arc4random_uniform`: a table of 256
bytes that is mixed with what `/dev/urandom` gives, the bytes drawn from it, and the numbers below a
bound made of them.
-/

namespace Mdp

open CStrings

/-- `struct arc4_stream`. The table has an entry for every value of a `u_int8_t`. -/
structure Arc4Stream where
  i : UInt8
  j : UInt8
  s : UInt8 → UInt8

/-- Write one entry of the table. -/
def Arc4Stream.write (rs : Arc4Stream) (index value : UInt8) : Arc4Stream :=
  { rs with s := Function.update rs.s index value }

/-- `rs.s[rs.i] = rs.s[rs.j]; rs.s[rs.j] = si`, with what the two entries held before. -/
def Arc4Stream.exchange (rs : Arc4Stream) (si sj : UInt8) : Arc4Stream :=
  (rs.write rs.i sj).write rs.j si

/-- `arc4_init`. -/
def arc4Init : Arc4Stream := ⟨0, 0, fun n => n⟩

/-- The body of the loop of `arc4_addrandom`. -/
def arc4Mix (dat : Bytes) (rs : Arc4Stream) (n : Nat) : Arc4Stream :=
  let rs := { rs with i := rs.i + 1 }
  let si := rs.s rs.i
  let rs := { rs with j := rs.j + si + dat.getD (n % dat.length) 0 }
  rs.exchange si (rs.s rs.j)

/-- `arc4_addrandom`, whose callers give at least one byte. -/
def arc4Addrandom (dat : Bytes) (rs : Arc4Stream) : Arc4Stream :=
  let rs := (List.range 256).foldl (arc4Mix dat) { rs with i := rs.i - 1 }
  { rs with j := rs.i }

/-- `arc4_getbyte`. -/
def arc4Getbyte (rs : Arc4Stream) : UInt8 × Arc4Stream :=
  let rs := { rs with i := rs.i + 1 }
  let si := rs.s rs.i
  let rs := { rs with j := rs.j + si }
  let sj := rs.s rs.j
  let rs := rs.exchange si sj
  (rs.s (si + sj), rs)

/-- `KEYSIZE`. -/
def keysize : Nat := 128

/-- What `arc4_stir` finds around it. -/
structure Entropy where
  /-- Whether `open(RANDOMDEV, O_RDONLY, 0)` gives a descriptor. -/
  opens : Bool
  /-- The bytes that `read` puts into `rdat`. -/
  device : Bytes
  /-- It reads no more than it is asked for. -/
  atMost : device.length ≤ keysize
  /-- `rdat.tv`, after `gettimeofday`. -/
  tv : Vector UInt8 16
  /-- `rdat.pid`. -/
  pid : Vector UInt8 4
  /-- What was on the stack. -/
  stack : Vector UInt8 128

/-- The first `KEYSIZE` bytes of `rdat`, which `arc4_stir` mixes in. Its first two fields have 20
bytes. -/
def Entropy.rdat (found : Entropy) : Bytes :=
  let read := if found.opens then found.device else []
  if read.length = keysize then read
  else
    found.tv.toList ++ found.pid.toList ++
      (read ++ found.stack.toList.drop read.length).drop 20

/-- What the generator does, for the record of it. -/
inductive Arc4Event where
  /-- `arc4_stir`. -/
  | stirred
  /-- A byte drawn for the caller. -/
  | drew (byte : UInt8)
  deriving DecidableEq, Repr

/-- The static variables of `arc4random.c`, and the record of what was done, newest first. -/
structure Arc4 where
  rs : Arc4Stream
  initialized : Bool
  stired : Bool
  count : Int
  record : List Arc4Event

/-- The static variables when the program starts. -/
def Arc4.fresh : Arc4 := ⟨⟨0, 0, fun _ => 0⟩, false, false, 0, []⟩

/-- How many times the generator was stirred. -/
def Arc4.stirs (a : Arc4) : Nat := a.record.count .stirred

/-- `arc4_getbyte`, whose byte is thrown away. -/
def arc4Skip (rs : Arc4Stream) : Arc4Stream := (arc4Getbyte rs).2

/-- The first bytes of the output, which `arc4_stir` throws away. -/
@[irreducible] def arc4Discard (rs : Arc4Stream) : Arc4Stream := arc4Skip^[1024] rs

/-- `arc4_stir`. What it finds is given for each time it is called. -/
def arc4Stir (around : Nat → Entropy) (a : Arc4) : Arc4 :=
  { a with
    rs := arc4Discard (arc4Addrandom (around a.stirs).rdat a.rs)
    count := 1600000
    record := .stirred :: a.record }

/-- `arc4_check_init`. -/
def arc4CheckInit (a : Arc4) : Arc4 :=
  if a.initialized then a else { a with rs := arc4Init, initialized := true }

/-- `arc4_check_stir`. -/
def arc4CheckStir (around : Nat → Entropy) (a : Arc4) : Arc4 :=
  if a.stired = false ∨ a.count ≤ 0 then { arc4Stir around a with stired := true } else a

/-- A byte drawn for the caller. -/
def arc4Draw (a : Arc4) : UInt8 × Arc4 :=
  let (byte, rs) := arc4Getbyte a.rs
  (byte, { a with rs, record := .drew byte :: a.record })

/-- `arc4_getword`. -/
def arc4Getword (a : Arc4) : UInt32 × Arc4 :=
  let (first, a) := arc4Draw a
  let (second, a) := arc4Draw a
  let (third, a) := arc4Draw a
  let (fourth, a) := arc4Draw a
  (first.toUInt32 <<< 24 ||| second.toUInt32 <<< 16 ||| third.toUInt32 <<< 8 ||| fourth.toUInt32, a)

/-- `arc4random_stir`. -/
def arc4randomStir (around : Nat → Entropy) (a : Arc4) : Arc4 :=
  { arc4Stir around (arc4CheckInit a) with stired := true }

/-- `arc4random_addrandom`. -/
def arc4randomAddrandom (around : Nat → Entropy) (dat : Bytes) (a : Arc4) : Arc4 :=
  let a := arc4CheckStir around (arc4CheckInit a)
  { a with rs := arc4Addrandom dat a.rs }

/-- `arc4random`. -/
def arc4random (around : Nat → Entropy) (a : Arc4) : UInt32 × Arc4 :=
  let (rnd, a) := arc4Getword (arc4CheckStir around (arc4CheckInit a))
  (rnd, { a with count := a.count - 4 })

/-- The loop of `arc4random_buf`, which fills the buffer from its end. -/
def arc4randomFill (around : Nat → Entropy) : Nat → Arc4 → Bytes × Arc4
  | 0, a => ([], a)
  | n + 1, a =>
    let (byte, a) := arc4Draw (arc4CheckStir around a)
    let (before, a) := arc4randomFill around n { a with count := a.count - 1 }
    (before ++ [byte], a)

/-- `arc4random_buf`. -/
def arc4randomBuf (around : Nat → Entropy) (n : Nat) (a : Arc4) : Bytes × Arc4 :=
  arc4randomFill around n (arc4CheckInit a)

/-- `min` where a `long` has more than 32 bits. -/
def uniformMin (upperBound : UInt32) : UInt32 :=
  ((0x100000000 : UInt64) % upperBound.toUInt64).toUInt32

/-- `min` where it has 32. -/
def uniformMinNarrow (upperBound : UInt32) : UInt32 :=
  if upperBound > 0x80000000 then 1 + ~~~upperBound
  else ((0xffffffff - upperBound * 2) + 1) % upperBound

/-- The loop of `arc4random_uniform`, which may draw this many times. -/
def arc4randomRetry (around : Nat → Entropy) (min upperBound : UInt32) :
    Nat → Arc4 → Option (UInt32 × Arc4)
  | 0, _ => none
  | tries + 1, a =>
    let (r, a) := arc4random around a
    if r ≥ min then some (r % upperBound, a) else arc4randomRetry around min upperBound tries a

/-- `arc4random_uniform`. -/
def arc4randomUniform (around : Nat → Entropy) (upperBound : UInt32) (tries : Nat) (a : Arc4) :
    Option (UInt32 × Arc4) :=
  if upperBound < 2 then some (0, a)
  else arc4randomRetry around (uniformMin upperBound) upperBound tries a

/-- A call of one of the functions of `arc4random.h`. -/
inductive Arc4Call where
  | stir
  | addrandom (dat : Bytes) (given : dat ≠ [])
  | random
  | buf (n : Nat)
  | uniform (upperBound : UInt32) (tries : Nat)

/-- What a call leaves, where it returns. -/
def Arc4Call.leaves (around : Nat → Entropy) : Arc4Call → Arc4 → Option Arc4
  | .stir, a => some (arc4randomStir around a)
  | .addrandom dat _, a => some (arc4randomAddrandom around dat a)
  | .random, a => some (arc4random around a).2
  | .buf n, a => some (arc4randomBuf around n a).2
  | .uniform upperBound tries, a => (arc4randomUniform around upperBound tries a).map Prod.snd

/-- What a sequence of calls leaves. -/
def arc4Run (around : Nat → Entropy) : List Arc4Call → Arc4 → Option Arc4
  | [], a => some a
  | call :: calls, a => (call.leaves around a).bind (arc4Run around calls)

end Mdp
