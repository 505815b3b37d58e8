import RsDragonfly.Snapshot.Records
import RsDragonfly.Snapshot.Serialize

/-! The entry section that is written and read back.
Records of every shape follow each other without separators, so each must be
consumed whole, also when it is skipped. The map that results depends on the
entries only; their order is left behind. -/
namespace RsDragonfly
open Library

namespace Record

def write (record : Record) : Bytes :=
  writeU32 (UInt32.ofNat record.1.length) ++ (record.1 ++
    (writeU32 (UInt32.ofNat record.2.1.length) ++ (record.2.1 ++
      match record.2.2 with
      | none => writeU8 0
      | some timestamp => writeU8 1 ++ writeU64 timestamp)))

/-- The record that a snapshot taken now has for an entry. -/
def ofEntry (save : Clock) (listed : Sigma fun _ : Key => Entry) : Record :=
  (listed.1, listed.2.value.asBytes,
    listed.2.expiry.map fun deadline => UInt64.ofNat (stampSecond save deadline))

theorem reads_write {record : Record} (key_fits : record.1.length < 2 ^ 32)
    (value_fits : record.2.1.length < 2 ^ 32) : Reader.Reads readEntry (write record) record := by
  obtain ⟨key, value, expiry⟩ := record
  cases expiry with
  | none =>
    have read := reads_entry key_fits value_fits 0 [] none (.pure (key, value, none))
    rwa [List.append_nil] at read
  | some timestamp =>
    exact reads_entry key_fits value_fits 1 (writeU64 timestamp) (some timestamp)
      ((reads_u64 timestamp).map fun stamp => (key, value, some stamp))

end Record

theorem reads_records {records : List Record}
    (short : ∀ record ∈ records, record.1.length < 2 ^ 32 ∧ record.2.1.length < 2 ^ 32) :
    Reader.Reads (readEntries records.length) (records.flatMap Record.write) records := by
  have read : Reader.Reads (readEntries records.length) (records.flatMap Record.write)
      (records.map id) :=
    .many records fun record member =>
      Record.reads_write (short record member).1 (short record member).2
  rwa [List.map_id] at read

theorem encodeEntry_eq_write {save : Clock} {key : Key} {entry : Entry}
    (on_scale : ∀ deadline, entry.expiry = some deadline → ¬ OffScale save deadline) :
    encodeEntry save key entry = some (Record.write (Record.ofEntry save ⟨key, entry⟩)) := by
  unfold encodeEntry Record.write Record.ofEntry
  cases hexpiry : entry.expiry with
  | none => simp only [Option.map_none, List.append_assoc]
  | some deadline =>
    have stamped := instantToUnixTimestamp_eq (on_scale deadline hexpiry)
    simp only [stamped, Option.bind_eq_bind, Option.bind_some, Option.pure_def, Option.map_some,
      List.append_assoc]

theorem encodeEntries_eq_write {save : Clock} {entries : List (Sigma fun _ : Key => Entry)}
    (on_scale : ∀ key entry deadline, ⟨key, entry⟩ ∈ entries → entry.expiry = some deadline →
      ¬ OffScale save deadline) :
    encodeEntries save entries =
      some ((entries.map (Record.ofEntry save)).flatMap Record.write) := by
  induction entries with
  | nil => rfl
  | cons first entries ih =>
    obtain ⟨key, entry⟩ := first
    have head : encodeEntry save key entry = _ := encodeEntry_eq_write
      fun deadline => on_scale key entry deadline List.mem_cons_self
    have tail := ih fun k e deadline member =>
      on_scale k e deadline (List.mem_cons_of_mem _ member)
    simp only [encodeEntries, head, tail, Option.bind_eq_bind, Option.bind_some, Option.pure_def,
      List.map_cons, List.flatMap_cons]

/-- No addition of the save or of the load leaves the clocks' types. -/
def EntryInRange (save load : Clock) (entry : Entry) : Prop :=
  ∀ deadline, entry.expiry = some deadline → ¬ OffScale save deadline ∧
    load.instant.secs + (stampSecond save deadline - load.system.secs) ≤ i64Max

/-- What the entry is after a save and a load: the same value, and no deadline or one
that lies the same whole number of seconds after the load as its Unix second. -/
def Reloaded (save load : Clock) (entry loaded : Entry) : Prop :=
  loaded.value = entry.value ∧
    match entry.expiry with
    | none => loaded.expiry = none
    | some deadline =>
      load.system.secs < stampSecond save deadline ∧
        ∃ expTime : Instant, loaded.expiry = some expTime ∧ expTime.nanos =
          load.instant.nanos + nanosPerSec * (stampSecond save deadline - load.system.secs)

theorem stamp_toNat {save : Clock} {deadline : Instant} (on_scale : ¬ OffScale save deadline) :
    (UInt64.ofNat (stampSecond save deadline)).toNat = stampSecond save deadline := by
  have fits : stampSecond save deadline ≤ i64Max := Nat.not_lt.mp on_scale
  unfold i64Max at fits
  exact UInt64.toNat_ofNat_of_lt' (by simp only [UInt64.size]; omega)

theorem entry_ofEntry_iff {save load : Clock} {key : Key} {entry loaded : Entry}
    (on_scale : ∀ deadline, entry.expiry = some deadline → ¬ OffScale save deadline) :
    Record.entry load (Record.ofEntry save ⟨key, entry⟩) = some loaded ↔
      Reloaded save load entry loaded := by
  obtain ⟨⟨value⟩, expiry⟩ := entry
  obtain ⟨loadedValue, loadedExpiry⟩ := loaded
  cases expiry with
  | none =>
    simp only [Record.entry, Record.ofEntry, Reloaded, Option.map_none, Option.some.injEq,
      Entry.mk.injEq, Value.asBytes]
    exact and_congr eq_comm eq_comm
  | some deadline =>
    have stamp := stamp_toNat (on_scale deadline rfl)
    simp only [Record.entry, Record.ofEntry, Reloaded, Option.map_some, Value.asBytes, stamp]
    split
    · rename_i expired
      simp only [reduceCtorEq, false_iff]
      rintro ⟨_, later, _⟩
      omega
    · rename_i later
      simp only [Option.map_eq_some_iff, unixTimestampToInstant_eq_some, stamp, Entry.mk.injEq]
      constructor
      · rintro ⟨expTime, sum, rfl, rfl⟩
        exact ⟨rfl, Nat.not_le.mp later, expTime, rfl, sum⟩
      · rintro ⟨rfl, _, expTime, rfl, sum⟩
        exact ⟨expTime, sum, rfl, rfl⟩

/-- One queued deadline for each entry that has one. -/
def deadlines (data : KeyedMap Key Entry) : Multiset Expiry :=
  ↑(data.entries.filterMap fun listed =>
    listed.2.expiry.map fun expTime => (⟨expTime, listed.1⟩ : Expiry))

theorem deadlines_insert {data : KeyedMap Key Entry} {key : Key} (fresh : data.lookup key = none)
    (entry : Entry) : deadlines (data.insert key entry) = match entry.expiry with
      | none => deadlines data
      | some expTime => ⟨expTime, key⟩ ::ₘ deadlines data := by
  have erased : List.kerase key data.entries = data.entries :=
    List.kerase_of_notMem_keys (AList.lookup_eq_none.mp fresh)
  unfold deadlines
  rw [AList.entries_insert, erased, List.filterMap_cons]
  cases entry.expiry <;> rfl

section
variable {Q : Type} [MaxQueue Q Expiry]

theorem Shard.queue_put {clock : Clock} {shard : Shard Q} {record : Record}
    (mirrored : MaxQueue.items shard.ttlQueue = deadlines shard.data)
    (fresh : shard.data.lookup record.1 = none) :
    MaxQueue.items (shard.put clock record).ttlQueue = deadlines (shard.put clock record).data := by
  unfold put
  split
  · exact mirrored
  · rename_i entry _
    simp only [restore, deadlines_insert fresh]
    cases entry.expiry with
    | none => exact mirrored
    | some expTime => rw [MaxQueue.items_push, mirrored]

theorem queue_put_all {clock : Clock} {records : List Record} {shard : Shard Q}
    (distinct : (records.map Prod.fst).Nodup)
    (fresh : ∀ record ∈ records, shard.data.lookup record.1 = none)
    (mirrored : MaxQueue.items shard.ttlQueue = deadlines shard.data) :
    MaxQueue.items (records.foldl (Shard.put clock) shard).ttlQueue =
      deadlines (records.foldl (Shard.put clock) shard).data := by
  induction records generalizing shard with
  | nil => exact mirrored
  | cons record records ih =>
    obtain ⟨other, distinct⟩ := List.nodup_cons.mp distinct
    obtain ⟨absent, fresh⟩ := List.forall_mem_cons.mp fresh
    rw [List.foldl_cons]
    apply ih distinct
    · intro next member
      have different : next.1 ≠ record.1 := by
        intro same
        exact other (same ▸ List.mem_map_of_mem member)
      have kept : (shard.put clock record).data.lookup next.1 = _ :=
        lookup_put_all [record] shard next.1
      rw [kept, fresh next member]
      simp [Ne.symm different]
    · exact Shard.queue_put mirrored absent

theorem lookup_put_distinct {clock : Clock} {records : List Record}
    (distinct : (records.map Prod.fst).Nodup) (shard : Shard Q) (key : Key)
    (absent : shard.data.lookup key = none) (loaded : Entry) :
    (records.foldl (Shard.put clock) shard).data.lookup key = some loaded ↔
      ∃ record ∈ records, record.1 = key ∧ Record.entry clock record = some loaded := by
  have same (first second : Record) (hfirst : first ∈ records) (hsecond : second ∈ records)
      (keys : first.1 = second.1) : first = second :=
    List.inj_on_of_nodup_map distinct hfirst hsecond keys
  rw [lookup_put_all, absent, Option.or_none]
  constructor
  · intro found
    obtain ⟨record, member, found⟩ := List.exists_of_findSome?_eq_some found
    split at found
    · rename_i hkey
      exact ⟨record, List.mem_reverse.mp member, hkey, found⟩
    · cases found
  · rintro ⟨record, member, rfl, found⟩
    cases result : records.reverse.findSome? fun other =>
        if other.1 = record.1 then Record.entry clock other else none with
    | none =>
      have missed := List.findSome?_eq_none_iff.mp result record (List.mem_reverse.mpr member)
      simp only [if_true] at missed
      rw [found] at missed
      cases missed
    | some entry =>
      obtain ⟨other, listed, given⟩ := List.exists_of_findSome?_eq_some result
      split at given
      · rename_i hkey
        rw [same other record (List.mem_reverse.mp listed) member hkey, found] at given
        exact given.symm
      · cases given

/-- The map that loading the written entries, in this order, fills. -/
def reload (save load : Clock) (id : ShardId) (entries : List (Sigma fun _ : Key => Entry)) :
    Shard Q :=
  (entries.map (Record.ofEntry save)).foldl (Shard.put load) (.new id load.instant)

variable {save load : Clock} {entries : List (Sigma fun _ : Key => Entry)}

theorem distinct_records (distinct : entries.NodupKeys) :
    ((entries.map (Record.ofEntry save)).map Prod.fst).Nodup := by
  rw [List.map_map]
  exact distinct

theorem encodeEntries_loads
    (short : ∀ key entry, ⟨key, entry⟩ ∈ entries →
      key.length < 2 ^ 32 ∧ entry.value.sizeBytes < 2 ^ 32)
    (in_range : ∀ key entry, ⟨key, entry⟩ ∈ entries → EntryInRange save load entry)
    (id : ShardId) :
    ∃ bytes, encodeEntries save entries = some bytes ∧ ∀ suffix,
      restoreLoop load entries.length (.new id load.instant : Shard Q) (bytes ++ suffix) =
        some (.ok (reload save load id entries, suffix)) := by
  refine ⟨_, encodeEntries_eq_write fun key entry deadline member dated =>
    (in_range key entry member deadline dated).1, fun suffix => ?_⟩
  have lengths : ∀ record ∈ entries.map (Record.ofEntry save),
      record.1.length < 2 ^ 32 ∧ record.2.1.length < 2 ^ 32 := by
    intro record member
    obtain ⟨⟨key, entry⟩, listed, rfl⟩ := List.mem_map.mp member
    exact short key entry listed
  have read := reads_records lengths suffix
  rw [List.length_map] at read
  refine restoreLoop_ok_iff.mpr ⟨_, read, ?_, rfl⟩
  rintro record member ⟨timestamp, stamped, beyond⟩
  obtain ⟨⟨key, entry⟩, listed, rfl⟩ := List.mem_map.mp member
  obtain ⟨deadline, dated, rfl⟩ := Option.map_eq_some_iff.mp stamped
  obtain ⟨on_scale, fits⟩ := in_range key entry listed deadline dated
  rw [stamp_toNat on_scale] at beyond
  omega

theorem lookup_reload (distinct : entries.NodupKeys)
    (in_range : ∀ key entry, ⟨key, entry⟩ ∈ entries → EntryInRange save load entry)
    (id : ShardId) (key : Key) (loaded : Entry) :
    (reload save load id entries : Shard Q).data.lookup key = some loaded ↔
      ∃ entry, ⟨key, entry⟩ ∈ entries ∧ Reloaded save load entry loaded := by
  rw [reload, lookup_put_distinct (distinct_records distinct) _ key rfl loaded]
  constructor
  · rintro ⟨record, member, same, given⟩
    obtain ⟨⟨k, entry⟩, listed, rfl⟩ := List.mem_map.mp member
    cases (same : k = key)
    refine ⟨entry, listed, (entry_ofEntry_iff ?_).mp given⟩
    exact fun deadline dated => (in_range k entry listed deadline dated).1
  · rintro ⟨entry, listed, loads⟩
    refine ⟨_, List.mem_map_of_mem listed, rfl, (entry_ofEntry_iff ?_).mpr loads⟩
    exact fun deadline dated => (in_range key entry listed deadline dated).1

theorem queue_reload (distinct : entries.NodupKeys) (id : ShardId) :
    MaxQueue.items (reload save load id entries : Shard Q).ttlQueue =
      deadlines (reload save load id entries : Shard Q).data :=
  queue_put_all (distinct_records distinct) (fun _ _ => rfl) MaxQueue.items_empty

theorem deadlines_perm {a b : KeyedMap Key Entry} (same : ∀ key, a.lookup key = b.lookup key) :
    deadlines a = deadlines b := by
  have listed : a.entries.Perm b.entries :=
    List.lookup_ext a.nodupKeys b.nodupKeys fun key entry => by
      rw [← AList.lookup, ← AList.lookup, same key]
  exact Multiset.coe_eq_coe.mpr (listed.filterMap _)

/-- Whatever the order in which the entries were written, and whatever follows
them, the loop takes just their bytes and builds one and the same map, with one
queued deadline for each that it loads. -/
theorem entries_load_back (distinct : entries.NodupKeys)
    (short : ∀ key entry, ⟨key, entry⟩ ∈ entries →
      key.length < 2 ^ 32 ∧ entry.value.sizeBytes < 2 ^ 32)
    (in_range : ∀ key entry, ⟨key, entry⟩ ∈ entries → EntryInRange save load entry)
    (id : ShardId) :
    ∃ contents : KeyedMap Key Entry,
      (∀ key loaded, contents.lookup key = some loaded ↔
        ∃ entry, ⟨key, entry⟩ ∈ entries ∧ Reloaded save load entry loaded) ∧
      ∀ order, order.Perm entries → ∃ bytes, encodeEntries save order = some bytes ∧
        ∀ suffix, ∃ loaded : Shard Q,
          restoreLoop load order.length (.new id load.instant) (bytes ++ suffix) =
            some (.ok (loaded, suffix)) ∧
          (∀ key, loaded.data.lookup key = contents.lookup key) ∧
          MaxQueue.items loaded.ttlQueue = deadlines contents := by
  refine ⟨(reload save load id entries : Shard Q).data, lookup_reload distinct in_range id, ?_⟩
  intro order perm
  have listed (key : Key) (entry : Entry) : ⟨key, entry⟩ ∈ order ↔ ⟨key, entry⟩ ∈ entries :=
    perm.mem_iff
  have distinct_order := (List.perm_nodupKeys perm).mpr distinct
  have in_range_order (key : Key) (entry : Entry) (member : ⟨key, entry⟩ ∈ order) :=
    in_range key entry ((listed key entry).mp member)
  obtain ⟨bytes, encoded, loads⟩ := encodeEntries_loads (Q := Q)
    (fun key entry member => short key entry ((listed key entry).mp member)) in_range_order id
  have contents (key : Key) : (reload save load id order : Shard Q).data.lookup key =
      (reload save load id entries : Shard Q).data.lookup key := by
    apply Option.ext
    intro loaded
    rw [lookup_reload distinct_order in_range_order, lookup_reload distinct in_range]
    simp only [listed]
  refine ⟨bytes, encoded, fun suffix => ⟨_, loads suffix, contents, ?_⟩⟩
  rw [queue_reload distinct_order, deadlines_perm contents]

end

/- A persistent, a live and an expired entry. -/
def mixedEntries : List (Sigma fun _ : Key => Entry) :=
  [⟨utf8 "p", ⟨.string (utf8 "v"), none⟩⟩,
   ⟨utf8 "l", ⟨.string (utf8 "w"), some (.ofSecs 100)⟩⟩,
   ⟨utf8 "x", ⟨.string [], some (.ofSecs 3)⟩⟩]

def mixedSave : Clock := ⟨.ofSecs 1, .ofSecs 1700000000⟩
def mixedLoad : Clock := ⟨.ofSecs 2, .ofSecs 1700000010⟩

theorem mixed_entries_load_back :
    ∃ contents : KeyedMap Key Entry,
      (∀ key loaded, contents.lookup key = some loaded ↔
        ∃ entry, ⟨key, entry⟩ ∈ mixedEntries ∧ Reloaded mixedSave mixedLoad entry loaded) ∧
      ∃ bytes, encodeEntries mixedSave mixedEntries.reverse = some bytes ∧
        ∃ loaded : Shard (SortedQueue Expiry),
          restoreLoop mixedLoad 3 (.new ⟨7⟩ mixedLoad.instant) (bytes ++ utf8 "rest") =
            some (.ok (loaded, utf8 "rest")) ∧
          (∀ key, loaded.data.lookup key = contents.lookup key) ∧
          MaxQueue.items loaded.ttlQueue = deadlines contents := by
  have short : ∀ listed ∈ mixedEntries,
      listed.1.length < 2 ^ 32 ∧ listed.2.value.sizeBytes < 2 ^ 32 := by decide
  have in_range : ∀ listed ∈ mixedEntries, ∀ deadline ∈ listed.2.expiry,
      stampSecond mixedSave deadline ≤ i64Max ∧ mixedLoad.instant.secs +
        (stampSecond mixedSave deadline - mixedLoad.system.secs) ≤ i64Max := by decide
  have distinct : mixedEntries.NodupKeys := by
    unfold List.NodupKeys
    decide
  have dated (key : Key) (entry : Entry) (member : ⟨key, entry⟩ ∈ mixedEntries) :
      EntryInRange mixedSave mixedLoad entry := by
    intro deadline hdeadline
    obtain ⟨on_scale, fits⟩ := in_range ⟨key, entry⟩ member deadline hdeadline
    exact ⟨Nat.not_lt.mpr on_scale, fits⟩
  obtain ⟨contents, found, loads⟩ := entries_load_back (Q := SortedQueue Expiry) distinct
    (fun key entry member => short ⟨key, entry⟩ member) dated ⟨7⟩
  obtain ⟨bytes, encoded, suffixed⟩ := loads mixedEntries.reverse (List.reverse_perm _)
  exact ⟨contents, found, bytes, encoded, suffixed (utf8 "rest")⟩

end RsDragonfly
