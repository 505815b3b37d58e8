import RsDragonfly.Shard.Panics
import RsDragonfly.Snapshot.Format

/-! `shard/snapshot/serialize.rs`.
One reading of the clocks serves a whole snapshot; the size estimate only picks
a capacity and is left out. A result of `none` is a panic. -/
namespace RsDragonfly
open Library

def encodeEntry (clock : Clock) (key : Key) (entry : Entry) : Option Bytes :=
  let valueBytes := entry.value.asBytes
  let start := writeU32 (UInt32.ofNat key.length) ++ (key ++
    (writeU32 (UInt32.ofNat valueBytes.length) ++ valueBytes))
  match entry.expiry with
  | some expiry => do
    let unixTimestamp ← instantToUnixTimestamp clock expiry
    return start ++ (writeU8 1 ++ writeU64 unixTimestamp)
  | none => some (start ++ writeU8 0)

def encodeEntries (clock : Clock) : List (Sigma fun _ : Key => Entry) → Option Bytes
  | [] => some []
  | ⟨key, entry⟩ :: entries => do
    let first ← encodeEntry clock key entry
    let rest ← encodeEntries clock entries
    return first ++ rest

def overwrite (position : Nat) (bytes buf : Bytes) : Bytes :=
  buf.take position ++ (bytes ++ buf.drop (position + bytes.length))

def placeholderHeader {Q : Type} (clock : Clock) (shard : Shard Q) : SnapshotHeader :=
  .new shard.id.id (UInt64.ofNat (KeyedMap.size shard.data)) clock.system

def serializeShard {Q : Type} (clock : Clock) (shard : Shard Q)
    (order : KeyedMap.Iteration shard.data) : Option Bytes := do
  let header := (placeholderHeader clock shard).write
  let entries ← encodeEntries clock order.entries
  let buf := header ++ entries
  let dataChecksum := crc64 (buf.drop header.length)
  let headerChecksum := crc64 (buf.take 56)
  return overwrite 32 (writeU64 dataChecksum ++ writeU64 headerChecksum) buf

/-- The second a snapshot gives a deadline; one that has passed gets the present. -/
def stampSecond (clock : Clock) (deadline : Instant) : Nat :=
  (clock.system.nanos + (deadline.nanos - clock.instant.nanos)) / nanosPerSec

/-- The deadline, moved to the system clock, is past its last second. -/
def OffScale (clock : Clock) (deadline : Instant) : Prop := i64Max < stampSecond clock deadline

theorem instantToUnixTimestamp_map (clock : Clock) (deadline : Instant) :
    instantToUnixTimestamp clock deadline =
      (clock.system.add (deadline.nanos - clock.instant.nanos)).map fun time =>
        Duration.asSecs (time.saturatingDurationSince Timespec.unixEpoch) :=
  Option.map_eq_bind.symm

theorem instantToUnixTimestamp_isSome_iff (clock : Clock) (deadline : Instant) :
    (instantToUnixTimestamp clock deadline).isSome ↔ ¬ OffScale clock deadline := by
  rw [instantToUnixTimestamp_map, Option.isSome_map, OffScale, stampSecond,
    ← Timespec.add_eq_none, Option.isSome_iff_ne_none]

theorem instantToUnixTimestamp_eq {clock : Clock} {deadline : Instant}
    (on_scale : ¬ OffScale clock deadline) :
    instantToUnixTimestamp clock deadline = some (UInt64.ofNat (stampSecond clock deadline)) := by
  have fits : (clock.system.nanos + (deadline.nanos - clock.instant.nanos)) / nanosPerSec ≤
      i64Max := Nat.not_lt.mp on_scale
  rw [instantToUnixTimestamp_map, Timespec.add, dif_pos fits]
  rfl

theorem encodeEntry_isSome_iff (clock : Clock) (key : Key) (entry : Entry) :
    (encodeEntry clock key entry).isSome ↔
      ∀ deadline, entry.expiry = some deadline → ¬ OffScale clock deadline := by
  unfold encodeEntry
  cases entry.expiry with
  | none => simp
  | some deadline =>
    simp only [Option.some.injEq, forall_eq', ← instantToUnixTimestamp_isSome_iff]
    cases instantToUnixTimestamp clock deadline <;> rfl

theorem encodeEntries_isSome_iff (clock : Clock) (entries : List (Sigma fun _ : Key => Entry)) :
    (encodeEntries clock entries).isSome ↔
      ∀ key entry, ⟨key, entry⟩ ∈ entries → (encodeEntry clock key entry).isSome := by
  induction entries with
  | nil => simp [encodeEntries]
  | cons first entries ih =>
    obtain ⟨key, entry⟩ := first
    have both : (encodeEntries clock (⟨key, entry⟩ :: entries)).isSome ↔
        (encodeEntry clock key entry).isSome ∧ (encodeEntries clock entries).isSome := by
      simp only [encodeEntries]
      cases encodeEntry clock key entry <;> cases encodeEntries clock entries <;> simp
    rw [both, ih]
    constructor
    · rintro ⟨head, tail⟩ k e member
      rcases List.mem_cons.mp member with same | later
      · cases same
        exact head
      · exact tail k e later
    · intro all
      exact ⟨all key entry List.mem_cons_self,
        fun k e member => all k e (List.mem_cons_of_mem _ member)⟩

/-- A snapshot of any shard, at any reading of the clocks and in any order of
its map, returns bytes unless a stored deadline is off the scale of the system clock. -/
theorem serializeShard_returns_iff {Q : Type} (clock : Clock) (shard : Shard Q)
    (order : KeyedMap.Iteration shard.data) :
    (∃ bytes, serializeShard clock shard order = some bytes) ↔
      ∀ key entry deadline, shard.data.lookup key = some entry → entry.expiry = some deadline →
        ¬ OffScale clock deadline := by
  have encoded : (∃ bytes, serializeShard clock shard order = some bytes) ↔
      (encodeEntries clock order.entries).isSome := by
    unfold serializeShard
    cases encodeEntries clock order.entries <;> simp
  rw [encoded, encodeEntries_isSome_iff]
  simp only [encodeEntry_isSome_iff, order.mem_iff]
  constructor
  · intro all key entry deadline found
    exact all key entry found deadline
  · intro all key entry found deadline
    exact all key entry deadline found

/- A TTL that still fits the monotonic clock. -/
def longSet : List Event :=
  [⟨.ofSecs 5, .command (.set (utf8 "k") (.string (utf8 "v")) (some 9223372036854775797)) .ok⟩]

theorem long_ttl_stops_snapshot :
    Command.fromResp String.toUpper (Shard.setWithTtl "9223372036854775797") =
      .ok (.set (utf8 "k") (.string (utf8 "v")) (some 9223372036854775797)) ∧
    ∃ past s, @Shard.Run (SortedQueue Expiry) _ linux64 past s ∧ past.map Prod.snd = longSet ∧
      ∀ order, serializeShard ⟨.ofSecs 6, .ofSecs 1700000000⟩ s order = none := by
  let _ := linux64
  refine ⟨by decide +kernel, ?_⟩
  obtain ⟨past, s, run, same, replayed⟩ :=
    Shard.replay_run (SortedQueue Expiry) ⟨0⟩ (.ofSecs 0) longSet (by decide)
  have stored : ((Shard.replay (.new ⟨0⟩ (.ofSecs 0) : Shard (SortedQueue Expiry)) longSet).map
      fun out => (out.2.data.lookup (utf8 "k")).map fun entry =>
        entry.expiry.map Timespec.nanos) = some (some (some 9223372036854775802000000000)) := by
    decide
  rw [replayed, Option.map_some, Option.some.injEq] at stored
  obtain ⟨entry, found, hexpiry⟩ := Option.map_eq_some_iff.mp stored
  obtain ⟨deadline, hdeadline, late⟩ := Option.map_eq_some_iff.mp hexpiry
  refine ⟨past, s, run, same, fun order => ?_⟩
  have panics : (encodeEntries ⟨.ofSecs 6, .ofSecs 1700000000⟩ order.entries).isSome = false := by
    rw [← Bool.not_eq_true, encodeEntries_isSome_iff]
    intro all
    have entry_fits := all _ entry (order.mem_iff.mpr found)
    rw [encodeEntry_isSome_iff] at entry_fits
    apply entry_fits deadline hdeadline
    unfold OffScale stampSecond
    rw [late]
    decide
  unfold serializeShard
  rw [Option.isSome_eq_false_iff, Option.isNone_iff_eq_none] at panics
  rw [panics]
  rfl

end RsDragonfly
