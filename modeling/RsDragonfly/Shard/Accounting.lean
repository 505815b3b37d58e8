import RsDragonfly.Shard.Invariant

/-! The `memory_bytes` counter against the bytes that are stored.
Every command keeps their difference. A sweep does not give back the bytes of
the entries it drops, so the difference only grows. -/
namespace RsDragonfly
open Library

namespace Shard

section
variable {Q : Type} [Layout]

/-- The counter stands `leaked` bytes above what is stored. -/
structure Accounted (leaked : Nat) (s : Shard Q) : Prop where
  exact : s.metrics.memoryBytes.toNat = s.storedBytes + leaked
  bounded : s.metrics.memoryBytes.toNat ≤ maxMemoryPerShard

theorem stored_split (s : Shard Q) (key : Key) : s.storedBytes = s.oldSize key +
    KeyedMap.total (fun k entry => entrySizeBytes k entry.value) (s.data.erase key) := by
  unfold storedBytes oldSize
  cases found : s.data.lookup key with
  | some entry => exact KeyedMap.total_erase _ found
  | none => rw [KeyedMap.erase_absent found, Nat.zero_add]

theorem Accounted.oldSize_le {s : Shard Q} {n : Nat} (h : s.Accounted n) (key : Key) :
    s.oldSize key ≤ s.metrics.memoryBytes.toNat := by
  have split := stored_split s key
  have exact := h.exact
  omega

theorem Accounted.remove {s : Shard Q} {n : Nat} (h : s.Accounted n) {key : Key} {entry : Entry}
    (found : s.data.lookup key = some entry) : (s.removeKeyUpdateMetrics key).1.Accounted n := by
  have old : s.oldSize key = entrySizeBytes key entry.value := by simp only [oldSize, found]
  have split := stored_split s key
  have covered := h.oldSize_le key
  have exact := h.exact
  have bounded := h.bounded
  have memory : (s.removeKeyUpdateMetrics key).1.metrics.memoryBytes.toNat =
      s.metrics.memoryBytes.toNat - s.oldSize key := by
    simp only [removeKeyUpdateMetrics, found]
    rw [← old, toNat_sub_ofNat covered]
  have stored : (s.removeKeyUpdateMetrics key).1.storedBytes =
      KeyedMap.total (fun k e => entrySizeBytes k e.value) (s.data.erase key) := by
    simp only [removeKeyUpdateMetrics, found, storedBytes]
  constructor
  · omega
  · omega

theorem accounted_new [MaxQueue Q Expiry] (id : ShardId) (now : Instant) :
    (new id now : Shard Q).Accounted 0 :=
  ⟨rfl, Nat.zero_le _⟩

variable [MaxQueue Q Expiry]

theorem Accounted.store {s : Shard Q} {n : Nat} (h : s.Accounted n) (wf : s.WellFormed)
    {key : Key} {value : Value} (allowed : s.StoreAllowed key value) (expiry : Option Instant) :
    (s.store key value expiry).Accounted n := by
  have split := stored_split s key
  have covered := h.oldSize_le key
  have exact := h.exact
  have no_wrap := allowed.no_wrap
  have within := allowed.within
  rw [wf.memory_limit] at within
  have freed : (if s.oldSize key > 0 then
      s.metrics.memoryBytes - UInt64.ofNat (s.oldSize key)
      else s.metrics.memoryBytes).toNat = s.metrics.memoryBytes.toNat - s.oldSize key := by
    split_ifs
    · exact toNat_sub_ofNat covered
    · omega
  have memory : (s.store key value expiry).metrics.memoryBytes.toNat =
      s.metrics.memoryBytes.toNat - s.oldSize key + entrySizeBytes key value := by
    simp only [Shard.store]
    rw [toNat_add_ofNat (by rw [freed]; omega), freed]
  have stored : (s.store key value expiry).storedBytes = entrySizeBytes key value +
      KeyedMap.total (fun k e => entrySizeBytes k e.value) (s.data.erase key) :=
    KeyedMap.total_insert _ s.data key _
  constructor
  · omega
  · omega

theorem Accounted.redate {s : Shard Q} {n : Nat} (h : s.Accounted n) {key : Key} {entry : Entry}
    (found : s.data.lookup key = some entry) (t : Instant) :
    (s.redate key entry t).Accounted n := by
  have stored : (s.redate key entry t).storedBytes = s.storedBytes := by
    have split := stored_split s key
    have old : s.oldSize key = entrySizeBytes key entry.value := by simp only [oldSize, found]
    rw [split, old]
    exact KeyedMap.total_insert _ s.data key _
  constructor
  · rw [stored]
    exact h.exact
  · exact h.bounded

theorem Accounted.write {s s' : Shard Q} {n : Nat} (hw : Write s s') (wf : s.WellFormed)
    (h : s.Accounted n) : s'.Accounted n := by
  cases hw with
  | store allowed expiry => exact h.store wf allowed expiry
  | remove found => exact h.remove found
  | redate found t => exact h.redate found t
  | countExpired => exact ⟨h.exact, h.bounded⟩
  | recorded => exact ⟨h.exact, h.bounded⟩

theorem Accounted.writes {s s' : Shard Q} {n : Nat} (hw : Writes s s') (wf : s.WellFormed)
    (h : s.Accounted n) : s'.Accounted n := by
  have both : s'.WellFormed ∧ s'.Accounted n := by
    refine hw.keep (P := fun x => x.WellFormed ∧ x.Accounted n) ?_ ⟨wf, h⟩
    intro a b hab hP
    exact ⟨hP.1.write hab, hP.2.write hab hP.1⟩
  exact both.2

/-- A sweep adds the bytes it drops to the difference. -/
theorem Accounted.sweep {s : Shard Q} {n : Nat} (h : s.Accounted n) (wf : s.WellFormed)
    (now : Instant) :
    ∃ dropped, (s.expireKeys now).Accounted (n + dropped) ∧ (0 < dropped ↔ s.HoldsDue now) := by
  have swept := sweep_swept wf.backed now
  have freed := swept.freed
  have memory : (s.expireKeys now).metrics.memoryBytes = s.metrics.memoryBytes := by
    simp only [expireKeys]
    split <;> rfl
  have stored : (s.expireKeys now).storedBytes =
      KeyedMap.total (fun k e => entrySizeBytes k e.value) (s.sweep now).data := by
    rw [storedBytes, data_expireKeys]
  refine ⟨s.storedBytes - (s.expireKeys now).storedBytes, ⟨?_, ?_⟩, ?_⟩
  · rw [memory, h.exact]
    omega
  · rw [memory]
    exact h.bounded
  · rw [← sweep_expires_iff wf.backed now]
    constructor
    · intro dropped
      by_contra none_expired
      rw [stored, swept.untouched (Nat.eq_zero_of_not_pos none_expired)] at dropped
      unfold storedBytes at dropped
      omega
    · intro expired
      omega

/-- The difference after a run, and when there is none. -/
theorem accounted_run {past : List (Shard Q × Event)} {s : Shard Q} (run : Run Q past s) :
    ∃ leaked, s.Accounted leaked ∧
      (leaked = 0 ↔ ∀ x ∈ past, x.2.action = .sweep → ¬ x.1.HoldsDue x.2.time) := by
  induction run with
  | start h =>
    obtain ⟨id, now, rfl⟩ := h
    refine ⟨0, accounted_new id now, ?_⟩
    simp
  | @step past s s' e before hs ih =>
    obtain ⟨leaked, accounted, exact_iff⟩ := ih
    have wf := wellFormed_run before
    obtain ⟨t, action⟩ := e
    cases action with
    | command c r =>
      refine ⟨leaked, accounted.writes (execute_writes hs) wf, ?_⟩
      rw [exact_iff, List.forall_mem_cons]
      simp
    | sweep =>
      cases hs
      obtain ⟨dropped, grown, dropped_iff⟩ := accounted.sweep wf t
      refine ⟨leaked + dropped, grown, ?_⟩
      rw [List.forall_mem_cons, ← exact_iff, ← dropped_iff]
      constructor
      · intro none_leaked
        exact ⟨fun _ => by omega, by omega⟩
      · rintro ⟨clean, none_before⟩
        have none_dropped := clean rfl
        omega

/-- The counter is exact at the end of a run if and only if no sweep of the run
met an entry whose deadline had passed. -/
theorem memory_exact_iff {past : List (Shard Q × Event)} {s : Shard Q} (run : Run Q past s) :
    s.metrics.memoryBytes.toNat = s.storedBytes ↔
      ∀ x ∈ past, x.2.action = .sweep → ¬ x.1.HoldsDue x.2.time := by
  obtain ⟨leaked, accounted, exact_iff⟩ := accounted_run run
  rw [← exact_iff, accounted.exact]
  omega

end

/- A key that GET drops after its deadline, before the next sweep. -/
def droppedByGet : List Event :=
  [⟨.ofSecs 4, .sweep⟩,
   ⟨.ofSecs 3, .command (.get (utf8 "k")) (.value none)⟩,
   ⟨.ofSecs 1, .command (.set (utf8 "k") (.string (utf8 "v")) (some 1)) .ok⟩]

theorem memory_exact_droppedByGet :
    ∃ past s, @Run (SortedQueue Expiry) _ linux64 past s ∧ past.map Prod.snd = droppedByGet ∧
      s.metrics.memoryBytes.toNat = @storedBytes _ linux64 s := by
  let _ := linux64
  obtain ⟨past, s, run, same, replayed⟩ :=
    replay_run (SortedQueue Expiry) ⟨0⟩ (.ofSecs 0) droppedByGet (by decide)
  refine ⟨past, s, run, same, (memory_exact_iff run).mpr ?_⟩
  have clean : ((replay (new ⟨0⟩ (.ofSecs 0) : Shard (SortedQueue Expiry)) droppedByGet).map
      fun out => out.1.all fun x => decide (x.2.action = .sweep → x.1.data.entries = [])) =
        some true := by decide
  rw [replayed, Option.map_some, Option.some.injEq, List.all_eq_true] at clean
  rintro x hx swept ⟨k, entry, found, _⟩
  have empty := of_decide_eq_true (clean x hx) swept
  have listed := KeyedMap.mem_entries_iff.mpr found
  rw [empty] at listed
  cases listed

/- The same key, dropped by the sweep. -/
def droppedBySweep : List Event :=
  [⟨.ofSecs 3, .sweep⟩,
   ⟨.ofSecs 1, .command (.set (utf8 "k") (.string (utf8 "v")) (some 1)) .ok⟩]

theorem sweep_leaks :
    ∃ past s, @Run (SortedQueue Expiry) _ linux64 past s ∧ past.map Prod.snd = droppedBySweep ∧
      NonDecreasing droppedBySweep ∧
      s.metrics.memoryBytes.toNat = 82 ∧ @storedBytes _ linux64 s = 0 := by
  let _ := linux64
  obtain ⟨past, s, run, same, replayed⟩ :=
    replay_run (SortedQueue Expiry) ⟨0⟩ (.ofSecs 0) droppedBySweep (by decide)
  have counted : ((replay (new ⟨0⟩ (.ofSecs 0) : Shard (SortedQueue Expiry)) droppedBySweep).map
      fun out => (out.2.metrics.memoryBytes.toNat, out.2.storedBytes)) = some (82, 0) := by decide
  rw [replayed, Option.map_some, Option.some.injEq, Prod.mk.injEq] at counted
  exact ⟨past, s, run, same, by unfold NonDecreasing; decide, counted.1, counted.2⟩

end Shard

end RsDragonfly
