import RsDragonfly.Snapshot.Deserialize

/-! The entry section of a snapshot file as a list of records.
The loading loop reads one record after the other and either stores it, skips it
or panics on its timestamp. What it returns follows from the records alone. -/
namespace RsDragonfly
open Library

/-- A key, its value and the Unix second of its deadline, as they stand in the file. -/
abbrev Record := Key × Bytes × Option UInt64

def readEntries (count : Nat) : SnapshotReader (List Record) := Reader.many readEntry count

/-- A record takes two lengths and a flag at least. -/
theorem consumes_entry : Reader.Consumes readEntry 9 := by
  have u32 : Reader.Consumes readU32 4 :=
    (Reader.consumes_exact _ 4).bind fun _ => .pure _
  have any (n : Nat) : Reader.Consumes (readExact n) 0 :=
    (Reader.consumes_exact _ n).weaken (Nat.zero_le n)
  have flag : Reader.Consumes readU8 1 :=
    (Reader.consumes_exact _ 1).bind fun _ => .pure _
  have u64 : Reader.Consumes readU64 8 :=
    (Reader.consumes_exact _ 8).bind fun _ => .pure _
  unfold readEntry
  change Reader.Consumes _ (4 + (0 + (4 + (0 + (1 + 0)))))
  refine u32.bind fun _ => (any _).bind fun _ => u32.bind fun _ => (any _).bind fun _ =>
    flag.bind fun _ => ?_
  split
  · exact (u64.bind fun _ => .pure _).weaken (Nat.zero_le _)
  · exact .pure _

namespace Record

/-- The timestamp lies too far ahead of the load for the monotonic clock. -/
def Overflows (clock : Clock) (record : Record) : Prop :=
  ∃ timestamp, record.2.2 = some timestamp ∧
    i64Max < clock.instant.secs + (timestamp.toNat - clock.system.secs)

/-- The entry that a record becomes at a load, unless it has expired. -/
def entry (clock : Clock) (record : Record) : Option Entry :=
  match record.2.2 with
  | none => some ⟨.string record.2.1, none⟩
  | some timestamp =>
    if timestamp.toNat ≤ clock.system.secs then none
    else (unixTimestampToInstant clock timestamp).map fun expTime =>
      ⟨.string record.2.1, some expTime⟩

end Record

namespace Shard

section
variable {Q : Type} [MaxQueue Q Expiry] {clock : Clock}

def load (clock : Clock) (shard : Shard Q) : Record → Option (Shard Q)
  | (key, value, none) => some (shard.restore key (.string value) none)
  | (key, value, some expiryTimestamp) =>
    let nowUnix := Duration.asSecs (clock.system.saturatingDurationSince Timespec.unixEpoch)
    if expiryTimestamp ≤ nowUnix then some shard
    else (unixTimestampToInstant clock expiryTimestamp).map fun expTime =>
      shard.restore key (.string value) (some expTime)

def put (clock : Clock) (shard : Shard Q) (record : Record) : Shard Q :=
  match Record.entry clock record with
  | none => shard
  | some entry => shard.restore record.1 entry.value entry.expiry

theorem load_eq_none (shard : Shard Q) (record : Record) :
    load clock shard record = none ↔ Record.Overflows clock record := by
  obtain ⟨key, value, expiry⟩ := record
  cases expiry with
  | none => simp [load, Record.Overflows]
  | some timestamp =>
    simp only [load, Record.Overflows, Option.some.injEq, exists_eq_left', le_nowUnix_iff]
    split
    · rename_i expired
      have fits : clock.instant.secs ≤ i64Max := clock.instant.fits
      simp only [reduceCtorEq, false_iff]
      omega
    · rw [Option.map_eq_none_iff, unixTimestampToInstant_eq_none]

theorem load_eq_put {record : Record} (fits : ¬ Record.Overflows clock record) (shard : Shard Q) :
    load clock shard record = some (put clock shard record) := by
  rw [← load_eq_none shard record] at fits
  obtain ⟨key, value, expiry⟩ := record
  cases expiry with
  | none => rfl
  | some timestamp =>
    simp only [load, put, Record.entry, le_nowUnix_iff] at fits ⊢
    split
    · rfl
    · rename_i later
      rw [if_neg later, Option.map_eq_none_iff] at fits
      obtain ⟨expTime, found⟩ := Option.ne_none_iff_exists'.mp fits
      rw [found]
      rfl

end

end Shard

section
variable {Q : Type} [MaxQueue Q Expiry] {clock : Clock}

/-- The loop over `key_count`, with the bytes it leaves unread. -/
def restoreLoop (clock : Clock) :
    Nat → Shard Q → Bytes → Option (Except SnapshotError (Shard Q × Bytes))
  | 0, shard, rest => some (.ok (shard, rest))
  | count + 1, shard, rest =>
    match readEntry rest with
    | .error e => some (.error e)
    | .ok (record, rest) => do
      let shard ← shard.load clock record
      restoreLoop clock count shard rest

theorem restoreEntries_eq_loop (count : Nat) (shard : Shard Q) (rest : Bytes) :
    restoreEntries clock count shard rest =
      (restoreLoop clock count shard rest).map (Except.map Prod.fst) := by
  induction count generalizing shard rest with
  | zero => rfl
  | succ count ih =>
    unfold restoreEntries restoreLoop
    cases readEntry rest with
    | error e => rfl
    | ok out =>
      obtain ⟨⟨key, value, expiry⟩, rest⟩ := out
      cases expiry with
      | none => exact ih _ rest
      | some timestamp =>
        simp only [Shard.load]
        split
        · exact ih _ rest
        · cases unixTimestampToInstant clock timestamp with
          | none => rfl
          | some expTime => exact ih _ rest

/-- The loop as a read of all records followed by their effects. -/
theorem restoreLoop_ok_iff {count : Nat} {shard loaded : Shard Q} {rest left : Bytes} :
    restoreLoop clock count shard rest = some (.ok (loaded, left)) ↔
      ∃ records, readEntries count rest = .ok (records, left) ∧
        (∀ record ∈ records, ¬ Record.Overflows clock record) ∧
        loaded = records.foldl (Shard.put clock) shard := by
  induction count generalizing shard rest with
  | zero =>
    constructor
    · intro finished
      cases finished
      exact ⟨[], rfl, by simp, rfl⟩
    · rintro ⟨records, read, _, rfl⟩
      cases read
      rfl
  | succ count ih =>
    unfold restoreLoop
    constructor
    · intro finished
      split at finished
      · cases finished
      · rename_i record after first
        obtain ⟨next, stored, finished⟩ := Option.bind_eq_some_iff.mp finished
        have fits : ¬ Record.Overflows clock record := by
          rw [← Shard.load_eq_none shard record, stored]
          simp
        rw [Shard.load_eq_put fits shard, Option.some.injEq] at stored
        subst stored
        obtain ⟨records, later, all_fit, rfl⟩ := ih.mp finished
        refine ⟨record :: records, ?_, ?_, rfl⟩
        · exact Reader.many_succ_ok_iff.mpr ⟨record, after, records, first, later, rfl⟩
        · exact List.forall_mem_cons.mpr ⟨fits, all_fit⟩
    · rintro ⟨all, read, fit, rfl⟩
      obtain ⟨record, after, records, first, later, rfl⟩ := Reader.many_succ_ok_iff.mp read
      obtain ⟨fits, all_fit⟩ := List.forall_mem_cons.mp fit
      rw [first]
      simp only [Shard.load_eq_put fits shard, Option.bind_eq_bind, Option.bind_some]
      exact ih.mpr ⟨records, later, all_fit, rfl⟩

/-- The loop panics on a record that it reaches and cannot date, and on nothing else. -/
theorem restoreLoop_eq_none {count : Nat} {shard : Shard Q} {rest : Bytes} :
    restoreLoop clock count shard rest = none ↔
      ∃ reached ≤ count, ∃ records left, readEntries reached rest = .ok (records, left) ∧
        ∃ record ∈ records, Record.Overflows clock record := by
  induction count generalizing shard rest with
  | zero =>
    constructor
    · intro panics
      cases panics
    · rintro ⟨reached, bound, records, left, read, record, member, _⟩
      cases Nat.le_zero.mp bound
      cases read
      cases member
  | succ count ih =>
    unfold restoreLoop
    constructor
    · intro panics
      split at panics
      · cases panics
      · rename_i record after first
        by_cases fits : Record.Overflows clock record
        · refine ⟨1, by omega, [record], after, ?_, record, by simp, fits⟩
          exact Reader.many_succ_ok_iff.mpr ⟨record, after, [], first, rfl, rfl⟩
        · rw [Shard.load_eq_put fits shard] at panics
          obtain ⟨reached, bound, records, left, read, bad⟩ := ih.mp panics
          refine ⟨reached + 1, by omega, record :: records, left, ?_, ?_⟩
          · exact Reader.many_succ_ok_iff.mpr ⟨record, after, records, first, read, rfl⟩
          · obtain ⟨culprit, member, overflows⟩ := bad
            exact ⟨culprit, List.mem_cons_of_mem _ member, overflows⟩
    · rintro ⟨reached, bound, all, left, read, culprit, member, overflows⟩
      cases reached with
      | zero =>
        cases read
        cases member
      | succ reached =>
        obtain ⟨record, after, records, first, later, rfl⟩ := Reader.many_succ_ok_iff.mp read
        rw [first]
        by_cases fits : Record.Overflows clock record
        · simp only [(Shard.load_eq_none shard record).mpr fits, Option.bind_eq_bind,
            Option.bind_none]
        · simp only [Shard.load_eq_put fits shard, Option.bind_eq_bind, Option.bind_some]
          rcases List.mem_cons.mp member with rfl | member
          · exact absurd overflows fits
          · exact ih.mpr ⟨reached, by omega, records, left, later, culprit, member, overflows⟩

theorem restoreLoop_passes {bound : Nat} {rest : Bytes} (enough : rest.length < 9 * bound)
    (count : Nat) (shard : Shard Q) :
    restoreLoop clock count shard rest = restoreLoop clock (min count bound) shard rest := by
  induction count generalizing bound shard rest with
  | zero => rw [Nat.zero_min]
  | succ count ih =>
    cases bound with
    | zero => omega
    | succ bound =>
      rw [Nat.succ_min_succ]
      unfold restoreLoop
      cases first : readEntry rest with
      | error e => rfl
      | ok out =>
        obtain ⟨record, after⟩ := out
        have taken := consumes_entry rest record after first
        cases stored : shard.load clock record with
        | none => simp only [stored, Option.bind_eq_bind, Option.bind_none]
        | some next =>
          simp only [stored, Option.bind_eq_bind, Option.bind_some]
          exact ih (by omega) next

/-- The last record of a key decides its entry, unless it has expired. -/
theorem lookup_put_all (records : List Record) (shard : Shard Q) (key : Key) :
    (records.foldl (Shard.put clock) shard).data.lookup key =
      (records.reverse.findSome? fun record =>
        if record.1 = key then Record.entry clock record else none).or
          (shard.data.lookup key) := by
  induction records generalizing shard with
  | nil => rfl
  | cons record records ih =>
    have stored : (Shard.put clock shard record).data.lookup key =
        (if record.1 = key then Record.entry clock record else none).or
          (shard.data.lookup key) := by
      unfold Shard.put
      cases Record.entry clock record with
      | none => simp
      | some entry =>
        simp only [Shard.restore, KeyedMap.lookup_insert_eq]
        by_cases same : record.1 = key
        · simp [same]
        · simp [same, Ne.symm same]
    have last (f : Record → Option Entry) : [record].findSome? f = f record := by
      cases found : f record <;> simp [List.findSome?, found]
    rw [List.foldl_cons, ih, stored, List.reverse_cons, List.findSome?_append, Option.or_assoc,
      last]

theorem put_all_id (records : List Record) (shard : Shard Q) :
    (records.foldl (Shard.put clock) shard).id = shard.id := by
  induction records generalizing shard with
  | nil => rfl
  | cons record records ih =>
    rw [List.foldl_cons, ih]
    unfold Shard.put
    split <;> rfl

theorem put_all_metrics (records : List Record) (shard : Shard Q) :
    (records.foldl (Shard.put clock) shard).metrics = shard.metrics := by
  induction records generalizing shard with
  | nil => rfl
  | cons record records ih =>
    rw [List.foldl_cons, ih]
    unfold Shard.put
    split <;> rfl

end

end RsDragonfly
