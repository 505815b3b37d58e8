import RsDragonfly.Shard.Accounting

/-! The limits of a shard, and the arithmetic on its counters.
The sweep leaves `memory_bytes` above what is stored and never below, so every
subtraction of the size of a stored entry stays within the counter. -/
namespace RsDragonfly
open Library

namespace Shard

section
variable {Q : Type} [Layout]

/-- What is stored is within the counters, and the counters are within their limits. -/
structure WithinLimits (s : Shard Q) : Prop where
  stored : s.storedBytes ≤ s.metrics.memoryBytes.toNat
  memory : s.metrics.memoryBytes.toNat ≤ s.maxMemoryBytes
  room : KeyedMap.size s.data ≤ s.maxKeys
  counted : s.metrics.keyCount.toNat = KeyedMap.size s.data
  key_fits : ∀ key entry, s.data.lookup key = some entry → key.length ≤ maxKeySize
  value_fits : ∀ key entry, s.data.lookup key = some entry → entry.value.sizeBytes ≤ maxValueSize

/-- The unchecked arithmetic on `memory_bytes`: `current_memory + new_size - old_size` of a
SET that passed its size checks, and the `fetch_sub` of a SET and of a removal. -/
structure NeverWraps (s : Shard Q) : Prop where
  sum : ∀ key value, key.length ≤ maxKeySize → value.sizeBytes ≤ maxValueSize →
    s.metrics.memoryBytes.toNat + entrySizeBytes key value ≤ usizeMax
  difference : ∀ key value,
    s.oldSize key ≤ s.metrics.memoryBytes.toNat + entrySizeBytes key value
  overwrite : ∀ key, s.oldSize key ≤ s.metrics.memoryBytes.toNat
  removal : ∀ key entry, s.data.lookup key = some entry →
    entrySizeBytes key entry.value ≤ s.metrics.memoryBytes.toNat

theorem Accounted.neverWraps {s : Shard Q} {leaked : Nat} (h : s.Accounted leaked) :
    s.NeverWraps := by
  have bounded := h.bounded
  have entry_fits := Layout.entry_fits
  constructor
  · intro key value key_fits value_fits
    simp only [entrySizeBytes, maxMemoryPerShard, maxKeySize, maxValueSize, isizeMax, usizeMax] at *
    omega
  · intro key value
    exact Nat.le_trans (h.oldSize_le key) (Nat.le_add_right _ _)
  · exact h.oldSize_le
  · intro key entry found
    have old : s.oldSize key = entrySizeBytes key entry.value := by simp only [oldSize, found]
    rw [← old]
    exact h.oldSize_le key

variable [MaxQueue Q Expiry]

theorem WellFormed.withinLimits {s : Shard Q} (wf : s.WellFormed) {leaked : Nat}
    (accounted : s.Accounted leaked) : s.WithinLimits := by
  have exact := accounted.exact
  constructor
  · omega
  · rw [wf.memory_limit]
    exact accounted.bounded
  · exact wf.room
  · rw [wf.counted]
    apply UInt64.toNat_ofNat_of_lt'
    exact Nat.lt_of_le_of_lt wf.few (by decide)
  · exact wf.key_fits
  · exact wf.value_fits

/-- A DEL removes its keys one by one: the counters hold between any two removals. -/
theorem limits_hold {past : List (Shard Q × Event)} {s : Shard Q} (run : Run Q past s) :
    s.WithinLimits ∧ s.NeverWraps ∧
      ∀ done deleted, (s.delKeys done deleted).1.WithinLimits ∧
        (s.delKeys done deleted).1.NeverWraps := by
  have wf := wellFormed_run run
  obtain ⟨leaked, accounted, _⟩ := accounted_run run
  refine ⟨wf.withinLimits accounted, accounted.neverWraps, ?_⟩
  intro done deleted
  have writes := delKeys_writes s done deleted
  have between := accounted.writes writes wf
  exact ⟨(writes.keep (fun _ _ => WellFormed.write) wf).withinLimits between, between.neverWraps⟩

end

theorem limits_hold_leaked :
    ∃ past s, @Run (SortedQueue Expiry) _ linux64 past s ∧ past.map Prod.snd = droppedBySweep ∧
      @WithinLimits _ linux64 s ∧ @NeverWraps _ linux64 s := by
  let _ := linux64
  obtain ⟨past, s, run, same, _⟩ :=
    replay_run (SortedQueue Expiry) ⟨0⟩ (.ofSecs 0) droppedBySweep (by decide)
  exact ⟨past, s, run, same, (limits_hold run).1, (limits_hold run).2.1⟩

end Shard

end RsDragonfly
