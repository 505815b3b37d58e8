import Mathlib.Algebra.Group.Nat.Defs

/-! Keys, values, shard ids and the limits of `common`. -/
namespace RsDragonfly

abbrev Bytes := List UInt8

abbrev Key := Bytes

inductive Value where
  | string (bytes : Bytes)
deriving DecidableEq, Repr

def Value.asBytes : Value → Bytes
  | .string bytes => bytes

def Value.sizeBytes : Value → Nat
  | .string bytes => bytes.length

structure ShardId where
  id : UInt16
deriving DecidableEq, Repr

def shardCount : Nat := 64
def maxKeySize : Nat := 512
def maxValueSize : Nat := 512 * 1024 * 1024
def maxKeysPerShard : Nat := 100000000
def maxMemoryPerShard : Nat := 20 * 1024 * 1024 * 1024
def ttlKeysPerCheck : Nat := 20
def snapshotChannelCapacity : Nat := 1

/- Limits of the machine types on a 64-bit target. -/
def i64Max : Nat := 2 ^ 63 - 1
def isizeMax : Nat := 2 ^ 63 - 1
def usizeMax : Nat := 2 ^ 64 - 1

/-- Sizes the compiler chooses. Only what the language promises is assumed. -/
class Layout where
  sizeOfEntry : Nat
  sizeOfRespValue : Nat
  entry_positive : 0 < sizeOfEntry
  entry_fits : sizeOfEntry ≤ isizeMax
  respValue_positive : 0 < sizeOfRespValue

/-- A 64-bit Linux target. -/
@[reducible] def linux64 : Layout where
  sizeOfEntry := 80
  sizeOfRespValue := 32
  entry_positive := by decide
  entry_fits := by decide
  respValue_positive := by decide

/- Plain `+` and `-` on `usize` in a dev build, where `none` is the overflow panic. A release
build wraps instead; in a shard that a run reaches neither happens (`cmdSet_sizes`). -/
def usizeAdd (a b : Nat) : Option Nat :=
  if a + b ≤ usizeMax then some (a + b) else none

def usizeSub (a b : Nat) : Option Nat :=
  if b ≤ a then some (a - b) else none

/-- The bytes of a Rust string literal or `String`. -/
def utf8 (s : String) : Bytes := s.toUTF8.data.toList

end RsDragonfly
