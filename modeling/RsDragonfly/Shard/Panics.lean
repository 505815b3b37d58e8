import RsDragonfly.Shard.Limits

/-! Which commands panic in a shard that a run reaches.
The counters never go below zero and no index or unwrap fails; only the addition
of a TTL to the clock can. -/
namespace RsDragonfly
open Library

namespace Shard

section
variable {Q : Type}

/-- The command adds a TTL to the clock, and the sum is past the last second. -/
def Overflows (s : Shard Q) (now : Instant) : Command → Prop
  | .set key value (some seconds) =>
    key.length ≤ maxKeySize ∧ value.sizeBytes ≤ maxValueSize ∧
      (key ∈ s.data ∨ KeyedMap.size s.data < s.maxKeys) ∧
      i64Max < now.secs + seconds.toNat
  | .expire key seconds => key ∈ s.data ∧ i64Max < now.secs + seconds.toNat
  | _ => False

theorem add_isSome_iff (now : Instant) (seconds : UInt64) :
    (now.add (Duration.fromSecs seconds)).isSome ↔ ¬ i64Max < now.secs + seconds.toNat := by
  rw [← Timespec.add_secs, ← Timespec.add_eq_none, Option.isSome_iff_ne_none]

theorem setExpiry_isSome_iff (now : Instant) (ttl : Option UInt64) :
    (setExpiry now ttl).isSome ↔
      ∀ seconds, ttl = some seconds → ¬ i64Max < now.secs + seconds.toNat := by
  cases ttl with
  | none => simp [setExpiry]
  | some seconds => simp only [setExpiry, Option.isSome_map, add_isSome_iff, Option.some.injEq,
      forall_eq']

/-- The sizes of a SET that passed its first checks never leave `usize`. -/
theorem cmdSet_sizes [Layout] {s : Shard Q} {leaked : Nat} (accounted : s.Accounted leaked)
    {key : Key} {value : Value} (key_fits : key.length ≤ maxKeySize)
    (value_fits : value.sizeBytes ≤ maxValueSize) :
    ∃ projected, (usizeAdd s.metrics.memoryBytes.toNat (entrySizeBytes key value) >>= fun grown =>
      usizeSub grown (s.oldSize key)) = some projected := by
  have never := accounted.neverWraps
  refine ⟨s.metrics.memoryBytes.toNat + entrySizeBytes key value - s.oldSize key, ?_⟩
  rw [usizeAdd, if_pos (never.sum key value key_fits value_fits), Option.bind_eq_bind,
    Option.bind_some, usizeSub, if_pos (never.difference key value)]

variable [MaxQueue Q Expiry] [Layout]

theorem cmdSet_isSome_iff {s : Shard Q} {leaked : Nat} (accounted : s.Accounted leaked)
    (now : Instant) (key : Key) (value : Value) (ttl : Option UInt64) :
    (s.cmdSet now key value ttl).isSome ↔ ¬ s.Overflows now (.set key value ttl) := by
  unfold cmdSet
  split
  · rename_i long_key
    cases ttl with
    | none => simp [Overflows]
    | some seconds => simp [Overflows, Nat.not_le.mpr long_key]
  · rename_i key_fits
    split
    · rename_i long_value
      cases ttl with
      | none => simp [Overflows]
      | some seconds => simp [Overflows, Nat.not_le.mpr long_value]
    · rename_i value_fits
      split
      · rename_i full
        have no_room : ¬ (key ∈ s.data ∨ KeyedMap.size s.data < s.maxKeys) := by
          rintro (present | below)
          · exact full.1 present
          · exact absurd full.2 (Nat.not_le.mpr below)
        cases ttl with
        | none => simp [Overflows]
        | some seconds => simp only [Overflows, no_room, false_and, and_false, not_false_eq_true,
            Option.isSome_some]
      · rename_i not_full
        have room : key ∈ s.data ∨ KeyedMap.size s.data < s.maxKeys := by
          by_contra no_room
          rw [not_or] at no_room
          exact not_full ⟨no_room.1, Nat.not_lt.mp no_room.2⟩
        obtain ⟨projected, sizes⟩ := cmdSet_sizes accounted (Nat.not_lt.mp key_fits)
          (Nat.not_lt.mp value_fits)
        obtain ⟨grown, hgrown, hprojected⟩ := Option.bind_eq_some_iff.mp sizes
        have returns : (setExpiry now ttl).isSome ↔ ¬ s.Overflows now (.set key value ttl) := by
          rw [setExpiry_isSome_iff]
          cases ttl with
          | none => simp [Overflows]
          | some seconds => simp [Overflows, room, Nat.not_lt.mp key_fits, Nat.not_lt.mp value_fits]
        rw [← returns]
        cases setExpiry now ttl with
        | none => simp
        | some expiry =>
          simp only [Option.bind_eq_bind, Option.bind_some, hgrown, hprojected]
          split <;> simp

/-- A command panics if and only if its TTL overflows the clock. -/
theorem execute_isSome_iff {s : Shard Q} {leaked : Nat} (accounted : s.Accounted leaked)
    (now : Instant) (c : Command) : (s.execute now c).isSome ↔ ¬ s.Overflows now c := by
  have dispatched : (s.execute now c).isSome = (s.dispatch now c).isSome := by
    unfold execute
    cases s.dispatch now c <;> rfl
  rw [dispatched]
  cases c with
  | set key value ttl => exact cmdSet_isSome_iff accounted now key value ttl
  | expire key seconds =>
    simp only [dispatch, cmdExpire, Overflows, KeyedMap.contains_iff]
    cases found : s.data.lookup key with
    | none => simp
    | some entry =>
      simp only [Option.some.injEq, exists_eq', true_and, ← add_isSome_iff]
      cases now.add (Duration.fromSecs seconds) <;> rfl
  | ping message => simp [dispatch, Overflows]
  | get key => simp [dispatch, Overflows]
  | del keys => simp [dispatch, Overflows]
  | ttl key => simp [dispatch, Overflows]
  | info section_ => simp [dispatch, Overflows]

/-- In every state a run reaches, at every clock reading, a decoded command
returns a response unless its TTL overflows the clock. -/
theorem decoded_returns_iff {past : List (Shard Q × Event)} {s : Shard Q} (run : Run Q past s)
    (toUppercase : String → String) (v : RespValue) (now : Instant) :
    ∀ c, Command.fromResp toUppercase v = .ok c →
      ((∃ s' response, s.execute now c = some (s', response)) ↔ ¬ s.Overflows now c) := by
  intro c _
  obtain ⟨leaked, accounted, _⟩ := accounted_run run
  rw [← execute_isSome_iff accounted, Option.isSome_iff_exists, Prod.exists]

end

def setWithTtl (seconds : String) : RespValue :=
  .array (some [.bulkString (some (utf8 "SET")), .bulkString (some (utf8 "k")),
    .bulkString (some (utf8 "v")), .bulkString (some (utf8 "EX")),
    .bulkString (some (utf8 seconds))])

theorem decoded_returns_minute :
    ∃ s' response, @execute _ _ linux64 (new ⟨0⟩ (.ofSecs 1) : Shard (SortedQueue Expiry))
      (.ofSecs 1) (.set (utf8 "k") (.string (utf8 "v")) (some 60)) = some (s', response) := by
  let _ := linux64
  have run : Run (SortedQueue Expiry) [] (new ⟨0⟩ (.ofSecs 1)) := .start ⟨_, _, rfl⟩
  refine (decoded_returns_iff run String.toUpper (setWithTtl "60") (.ofSecs 1) _
    (by decide +kernel)).mpr ?_
  rintro ⟨_, _, _, overflow⟩
  exact absurd overflow (by decide)

theorem longest_ttl_panics :
    Command.fromResp String.toUpper (setWithTtl "9223372036854775807") =
      .ok (.set (utf8 "k") (.string (utf8 "v")) (some 9223372036854775807)) ∧
    @Run (SortedQueue Expiry) _ linux64 [] (new ⟨0⟩ (.ofSecs 1)) ∧
    @execute _ _ linux64 (new ⟨0⟩ (.ofSecs 1) : Shard (SortedQueue Expiry)) (.ofSecs 1)
      (.set (utf8 "k") (.string (utf8 "v")) (some 9223372036854775807)) = none := by
  let _ := linux64
  refine ⟨by decide +kernel, .start ⟨_, _, rfl⟩, ?_⟩
  rfl

end Shard

end RsDragonfly
