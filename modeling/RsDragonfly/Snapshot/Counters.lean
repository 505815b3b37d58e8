import RsDragonfly.Shard.Limits
import RsDragonfly.Snapshot.Acceptance

/-! The counters of a loaded shard.
The loader fills the map directly and sets only the key count, so the memory
counter starts at zero whatever was stored. -/
namespace RsDragonfly
open Library

/-- The loader skips the record. -/
def Record.Expired (clock : Clock) (record : Record) : Prop :=
  ∃ timestamp, record.2.2 = some timestamp ∧ timestamp.toNat ≤ clock.system.secs

theorem Record.entry_eq_none_iff {clock : Clock} {record : Record}
    (datable : ¬ Record.Overflows clock record) :
    Record.entry clock record = none ↔ Record.Expired clock record := by
  obtain ⟨key, value, expiry⟩ := record
  cases expiry with
  | none => simp [Record.entry, Record.Expired]
  | some timestamp =>
    have dated : unixTimestampToInstant clock timestamp ≠ none := by
      intro overflow
      exact datable ⟨timestamp, rfl, unixTimestampToInstant_eq_none.mp overflow⟩
    simp [Record.entry, Record.Expired, dated]

section
variable {Q : Type} [MaxQueue Q Expiry] {clock : Clock}

theorem put_all_expired {records : List Record}
    (expired : ∀ record ∈ records, Record.entry clock record = none) (shard : Shard Q) :
    records.foldl (Shard.put clock) shard = shard := by
  induction records with
  | nil => rfl
  | cons record records ih =>
    obtain ⟨first, rest⟩ := List.forall_mem_cons.mp expired
    have skipped : shard.put clock record = shard := by
      unfold Shard.put
      rw [first]
    rw [List.foldl_cons, skipped, ih rest]

theorem exists_lookup_put_all {records : List Record} {record : Record} (member : record ∈ records)
    (kept : Record.entry clock record ≠ none) (shard : Shard Q) :
    ∃ entry, (records.foldl (Shard.put clock) shard).data.lookup record.1 = some entry := by
  have found : (records.reverse.findSome? fun other =>
      if other.1 = record.1 then Record.entry clock other else none) ≠ none := by
    intro missing
    have given := List.findSome?_eq_none_iff.mp missing record (List.mem_reverse.mpr member)
    rw [if_pos rfl] at given
    exact kept given
  obtain ⟨entry, hentry⟩ := Option.ne_none_iff_exists'.mp found
  exact ⟨entry, by rw [lookup_put_all, hentry, Option.some_or]⟩

theorem loaded_memory (header : SnapshotHeader) (records : List Record) :
    (loadedShard clock header records : Shard Q).metrics.memoryBytes = 0 := by
  simp only [loadedShard, storeKeyCount, put_all_metrics]
  rfl

variable [Layout]

namespace Shard

/-- The counters say what is stored, and no command after that subtracts more than is there. -/
structure WellAccounted (s : Shard Q) : Prop where
  memory : s.metrics.memoryBytes.toNat = s.storedBytes
  counted : s.metrics.keyCount.toNat = KeyedMap.size s.data
  covered : ∀ later s', (runs Q).Path s later s' → s'.NeverWraps

theorem wellAccounted_new (id : ShardId) (now : Instant) : (new id now : Shard Q).WellAccounted := by
  refine ⟨rfl, rfl, fun later s' path => ?_⟩
  have start : Run Q [] (new id now) := .start ⟨id, now, rfl⟩
  obtain ⟨leaked, accounted, _⟩ := accounted_run (start.extend path)
  exact accounted.neverWraps

omit [MaxQueue Q Expiry] in
theorem storedBytes_positive {s : Shard Q} {key : Key} {entry : Entry}
    (found : s.data.lookup key = some entry) : 0 < s.storedBytes := by
  have size := entrySizeBytes_positive key entry.value
  rw [storedBytes, KeyedMap.total_erase _ found]
  omega

end Shard

/-- A loaded shard is accounted for if and only if the file kept nothing for it. -/
theorem loaded_accounted_iff {data : Bytes} {loaded : Shard Q}
    (loads : deserializeSnapshot clock data = some (.ok loaded)) :
    loaded.WellAccounted ↔ ∀ header records, Accepted clock data header records →
      ∀ record ∈ records, Record.Expired clock record := by
  constructor
  · intro accounted header records accepted record member
    have again : deserializeSnapshot clock data =
        some (.ok (loadedShard clock header records : Shard Q)) :=
      deserializeSnapshot_accepts_iff.mpr ⟨header, records, accepted, rfl⟩
    cases loads.symm.trans again
    rw [← Record.entry_eq_none_iff (accepted.datable record member)]
    by_contra kept
    obtain ⟨entry, found⟩ := exists_lookup_put_all member kept
      (.new ⟨header.shardId⟩ clock.instant : Shard Q)
    have stored := Shard.storedBytes_positive
      (found : (loadedShard clock header records : Shard Q).data.lookup record.1 = some entry)
    have memory := accounted.memory
    rw [loaded_memory] at memory
    exact absurd memory.symm (Nat.ne_of_gt stored)
  · intro expired
    obtain ⟨header, records, accepted, rfl⟩ := deserializeSnapshot_accepts_iff.mp loads
    have skipped : ∀ record ∈ records, Record.entry clock record = none := by
      intro record member
      rw [Record.entry_eq_none_iff (accepted.datable record member)]
      exact expired header records accepted record member
    have fresh : (loadedShard clock header records : Shard Q) =
        .new ⟨header.shardId⟩ clock.instant := by
      rw [loadedShard, put_all_expired skipped]
      rfl
    rw [fresh]
    exact Shard.wellAccounted_new _ _

end

/- Its one record expired long ago. -/
def staleFile : Bytes :=
  sampleFile [(utf8 "k", utf8 "v", some 1)] 0x6135f3ebc8fd2f8d
    ⟨[230, 102, 201, 176, 245, 81, 156, 84], rfl⟩

theorem stale_file_accounted :
    ∃ loaded : Shard (SortedQueue Expiry),
      deserializeSnapshot sampleClock staleFile = some (.ok loaded) ∧
      @Shard.WellAccounted _ _ linux64 loaded := by
  let _ := linux64
  have accepted : Accepted sampleClock staleFile (sampleHeader 1 0x6135f3ebc8fd2f8d
      ⟨[230, 102, 201, 176, 245, 81, 156, 84], rfl⟩) [(utf8 "k", utf8 "v", some 1)] := by
    refine sampleFile_accepted (by decide) (by decide) (by decide +kernel) (by decide +kernel) ?_
    rintro record member ⟨timestamp, stamped, beyond⟩
    cases List.mem_singleton.mp member
    cases stamped
    exact absurd beyond (by decide)
  obtain ⟨loaded, loads⟩ : ∃ loaded : Shard (SortedQueue Expiry),
      deserializeSnapshot sampleClock staleFile = some (.ok loaded) :=
    ⟨_, deserializeSnapshot_accepts_iff.mpr ⟨_, _, accepted, rfl⟩⟩
  refine ⟨loaded, loads, (loaded_accounted_iff loads).mpr ?_⟩
  intro header records again record member
  obtain ⟨_, rfl⟩ := accepted.unique again
  cases List.mem_singleton.mp member
  exact ⟨1, rfl, by decide⟩

theorem live_file_unaccounted :
    ∃ loaded : Shard (SortedQueue Expiry),
      deserializeSnapshot sampleClock liveFile = some (.ok loaded) ∧
      loaded.metrics.memoryBytes = 0 ∧ @Shard.storedBytes _ linux64 loaded = 82 ∧
      ∃ deleted, @Shard.execute _ _ linux64 loaded (.ofSecs 6) (.del [utf8 "k"]) =
        some (deleted, .integer 1) ∧ deleted.metrics.memoryBytes = 18446744073709551534 := by
  let _ := linux64
  obtain ⟨loaded, loads, _⟩ := liveFile_loads (SortedQueue Expiry) sampleClock
  have counted : ((deserializeSnapshot sampleClock liveFile :
      Option (Except SnapshotError (Shard (SortedQueue Expiry)))).bind fun result =>
        result.toOption.map fun s => (s.metrics.memoryBytes, s.storedBytes,
          (s.execute (.ofSecs 6) (.del [utf8 "k"])).map fun out =>
            (out.2, out.1.metrics.memoryBytes))) =
      some (0, 82, some (.integer 1, 18446744073709551534)) := by decide +kernel
  rw [loads] at counted
  simp only [Option.bind_some, Except.toOption, Option.map_some, Option.some.injEq,
    Prod.mk.injEq, Option.map_eq_some_iff] at counted
  obtain ⟨memory, stored, ⟨deleted, _⟩, executed, rfl, wrapped⟩ := counted
  exact ⟨loaded, loads, memory, stored, deleted, executed, wrapped⟩

end RsDragonfly
