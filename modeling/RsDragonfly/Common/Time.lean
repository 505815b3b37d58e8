import Mathlib.Order.Basic
import Mathlib.Order.Lattice
import RsDragonfly.Common.Types

/-! Clocks and `common/time.rs`.
Both clocks are `timespec` values on Linux: signed 64-bit seconds and a
nanosecond part. Counts from the clock's zero are kept in nanoseconds. -/
namespace RsDragonfly

def nanosPerSec : Nat := 1000000000

abbrev Duration := Nat

def Duration.fromSecs (secs : UInt64) : Duration := nanosPerSec * secs.toNat

def Duration.asSecs (d : Duration) : UInt64 := UInt64.ofNat (d / nanosPerSec)

structure Timespec where
  nanos : Nat
  fits : nanos / nanosPerSec ≤ i64Max
deriving DecidableEq

abbrev Instant := Timespec
abbrev SystemTime := Timespec

namespace Timespec

def unixEpoch : SystemTime := ⟨0, by decide⟩

/-- A small reading in whole seconds. -/
def ofSecs (n : UInt32) : Timespec where
  nanos := nanosPerSec * n.toNat
  fits := by
    rw [Nat.mul_div_cancel_left _ (by decide)]
    exact Nat.le_trans (Nat.le_of_lt n.toNat_lt) (by decide)

def secs (t : Timespec) : Nat := t.nanos / nanosPerSec

theorem nanos_injective : Function.Injective Timespec.nanos := by
  intro a b same
  cases a
  cases b
  cases same
  rfl

instance : LinearOrder Timespec := LinearOrder.lift' Timespec.nanos nanos_injective

theorem le_iff {a b : Timespec} : a ≤ b ↔ a.nanos ≤ b.nanos := Iff.rfl

/-- `Instant + Duration` and `SystemTime + Duration`: `none` is the panic. -/
def add (t : Timespec) (d : Duration) : Option Timespec :=
  if fits : (t.nanos + d) / nanosPerSec ≤ i64Max then some ⟨t.nanos + d, fits⟩ else none

def saturatingDurationSince (t earlier : Timespec) : Duration := t.nanos - earlier.nanos

theorem add_eq_some {t u : Timespec} {d : Duration} :
    t.add d = some u ↔ u.nanos = t.nanos + d := by
  unfold add
  constructor
  · intro h
    split at h
    · cases Option.some.inj h
      rfl
    · cases h
  · intro h
    have fits := u.fits
    rw [h] at fits
    rw [dif_pos fits]
    exact congrArg some (nanos_injective h.symm)

theorem add_eq_none {t : Timespec} {d : Duration} :
    t.add d = none ↔ i64Max < (t.nanos + d) / nanosPerSec := by
  unfold add
  split
  · rename_i fits
    simp only [reduceCtorEq, false_iff]
    exact Nat.not_lt.mpr fits
  · rename_i overflow
    simp only [true_iff]
    exact Nat.lt_of_not_le overflow

theorem add_secs (t : Timespec) (n : UInt64) :
    (t.nanos + Duration.fromSecs n) / nanosPerSec = t.secs + n.toNat :=
  Nat.add_mul_div_left _ _ (by decide)

end Timespec

/-- One reading of the monotonic and of the system clock. -/
structure Clock where
  instant : Instant
  system : SystemTime

def instantToUnixTimestamp (clock : Clock) (instant : Instant) : Option UInt64 := do
  let durationSinceNow := instant.saturatingDurationSince clock.instant
  let systemTime ← clock.system.add durationSinceNow
  return Duration.asSecs (systemTime.saturatingDurationSince Timespec.unixEpoch)

def unixTimestampToInstant (clock : Clock) (timestamp : UInt64) : Option Instant :=
  let nowUnix := Duration.asSecs (clock.system.saturatingDurationSince Timespec.unixEpoch)
  if timestamp > nowUnix then
    clock.instant.add (Duration.fromSecs (timestamp - nowUnix))
  else some clock.instant

theorem nowUnix_toNat (t : SystemTime) :
    (Duration.asSecs (t.saturatingDurationSince Timespec.unixEpoch)).toNat = t.secs := by
  have fits := t.fits
  unfold i64Max at fits
  exact UInt64.toNat_ofNat_of_lt' (show t.nanos / nanosPerSec < UInt64.size by
    simp only [UInt64.size]; omega)

theorem le_nowUnix_iff (t : SystemTime) (timestamp : UInt64) :
    timestamp ≤ Duration.asSecs (t.saturatingDurationSince Timespec.unixEpoch) ↔
      timestamp.toNat ≤ t.secs := by
  rw [UInt64.le_iff_toNat_le, nowUnix_toNat]

/-- Either branch adds what is left of the timestamp, whole seconds, to the monotonic clock. -/
theorem unixTimestampToInstant_eq_add (clock : Clock) (timestamp : UInt64) :
    unixTimestampToInstant clock timestamp =
      clock.instant.add (nanosPerSec * (timestamp.toNat - clock.system.secs)) := by
  simp only [unixTimestampToInstant]
  split
  · rename_i after
    have order : Duration.asSecs (clock.system.saturatingDurationSince Timespec.unixEpoch) ≤
        timestamp := UInt64.le_of_lt after
    rw [Duration.fromSecs, UInt64.toNat_sub_of_le _ _ order, nowUnix_toNat]
  · rename_i before
    have passed := (le_nowUnix_iff clock.system timestamp).mp (UInt64.not_lt.mp before)
    symm
    rw [Timespec.add_eq_some, Nat.sub_eq_zero_of_le passed]
    rfl

theorem unixTimestampToInstant_eq_none {clock : Clock} {timestamp : UInt64} :
    unixTimestampToInstant clock timestamp = none ↔
      i64Max < clock.instant.secs + (timestamp.toNat - clock.system.secs) := by
  rw [unixTimestampToInstant_eq_add, Timespec.add_eq_none, Nat.add_mul_div_left _ _ (by decide)]
  rfl

theorem unixTimestampToInstant_eq_some {clock : Clock} {timestamp : UInt64} {instant : Instant} :
    unixTimestampToInstant clock timestamp = some instant ↔
      instant.nanos =
        clock.instant.nanos + nanosPerSec * (timestamp.toNat - clock.system.secs) := by
  rw [unixTimestampToInstant_eq_add, Timespec.add_eq_some]

end RsDragonfly
