import RsDragonfly.Snapshot.Checksums
import RsDragonfly.Snapshot.EntrySection

/-! Writing a snapshot and loading it again.
The entries always survive the trip; the checksums only by coincidence. -/
namespace RsDragonfly
open Library

/-- The Unix second of a deadline, by the two clocks at the time of saving. -/
def unixSecond (clock : Clock) (deadline : Instant) : Int :=
  ((clock.system.nanos : Int) + deadline.nanos - clock.instant.nanos) / nanosPerSec

/-- The entry has no deadline, or one whose Unix second is after that of the load. -/
def Unexpired (save load : Clock) (entry : Entry) : Prop :=
  ∀ deadline, entry.expiry = some deadline → (load.system.secs : Int) < unixSecond save deadline

section
variable {save load : Clock} {deadline : Instant}

theorem stampSecond_le_iff (later : save.system ≤ load.system) :
    stampSecond save deadline ≤ load.system.secs ↔
      ¬ (load.system.secs : Int) < unixSecond save deadline := by
  have order := Timespec.le_iff.mp later
  simp only [stampSecond, unixSecond, Timespec.secs, nanosPerSec]
  push_cast
  omega

end

/-- A save and a load keep the value of an entry that has not expired by then, and no other. -/
theorem reloaded_value_iff {save load : Clock} (later : save.system ≤ load.system) {entry : Entry}
    (in_range : EntryInRange save load entry) (value : Value) :
    (∃ loaded, Reloaded save load entry loaded ∧ loaded.value = value) ↔
      entry.value = value ∧ Unexpired save load entry := by
  unfold Reloaded Unexpired
  cases hexpiry : entry.expiry with
  | none =>
    simp only [reduceCtorEq, false_implies, implies_true, and_true]
    constructor
    · rintro ⟨loaded, ⟨same, _⟩, rfl⟩
      exact same.symm
    · rintro rfl
      exact ⟨⟨entry.value, none⟩, ⟨rfl, rfl⟩, rfl⟩
  | some deadline =>
    obtain ⟨on_scale, fits⟩ := in_range deadline hexpiry
    have kept : stampSecond save deadline ≤ load.system.secs ↔ _ := stampSecond_le_iff later
    simp only [Option.some.injEq, forall_eq']
    constructor
    · rintro ⟨loaded, ⟨same, after, _⟩, rfl⟩
      exact ⟨same.symm, by omega⟩
    · rintro ⟨rfl, unexpired⟩
      have dated : unixTimestampToInstant load (UInt64.ofNat (stampSecond save deadline)) ≠ none := by
        rw [ne_eq, unixTimestampToInstant_eq_none, stamp_toNat on_scale]
        omega
      obtain ⟨expTime, converted⟩ := Option.ne_none_iff_exists'.mp dated
      rw [unixTimestampToInstant_eq_some, stamp_toNat on_scale] at converted
      exact ⟨⟨entry.value, some expTime⟩, ⟨rfl, by omega, expTime, rfl, converted⟩, rfl⟩

section
variable {Q : Type}

/-- The check of the entries is zero, and the check of the header that is first
written is one of the two values whose misplaced copy verifies. -/
def ChecksumsFit (clock : Clock) (shard : Shard Q) (entries : Bytes) : Prop :=
  crc64 entries = 0 ∧
    ((crc64 ((placeholderHeader clock shard).write.take 56)).toBitVec = 0#64 ∨
      (crc64 ((placeholderHeader clock shard).write.take 56)).toBitVec = selfFitting)

/-- The header a reader of the snapshot finds. -/
def writtenHeader (clock : Clock) (shard : Shard Q) (entries : Bytes) : SnapshotHeader :=
  (placeholderHeader clock shard).misplace (crc64 entries)
    (crc64 ((placeholderHeader clock shard).write.take 56))

theorem serializeShard_eq {save : Clock} {shard : Shard Q} {order : KeyedMap.Iteration shard.data}
    {entries : Bytes} (encoded : encodeEntries save order.entries = some entries) :
    serializeShard save shard order = some ((writtenHeader save shard entries).write ++ entries) := by
  have size := (placeholderHeader save shard).length_write
  have body : ((placeholderHeader save shard).write ++ entries).drop
      (placeholderHeader save shard).write.length = entries := List.drop_left
  have head : ((placeholderHeader save shard).write ++ entries).take 56 =
      (placeholderHeader save shard).write.take 56 :=
    List.take_append_of_le_length (by rw [size]; decide)
  unfold serializeShard
  rw [encoded]
  simp only [Option.bind_eq_bind, Option.bind_some, body, head]
  exact congrArg some (overwrite_blank (SnapshotHeader.blank_new _ _ _) _ _ _)

theorem serializeShard_split {save : Clock} {shard : Shard Q}
    {order : KeyedMap.Iteration shard.data} {bytes : Bytes}
    (written : serializeShard save shard order = some bytes) :
    ∃ entries, encodeEntries save order.entries = some entries ∧
      bytes = (writtenHeader save shard entries).write ++ entries := by
  obtain ⟨entries, encoded, _⟩ := Option.bind_eq_some_iff.mp written
  rw [serializeShard_eq encoded, Option.some.injEq] at written
  exact ⟨entries, encoded, written.symm⟩

theorem length_encodeEntries {clock : Clock} {entries : List (Sigma fun _ : Key => Entry)}
    {bytes : Bytes} (encoded : encodeEntries clock entries = some bytes) :
    entries.length ≤ bytes.length := by
  induction entries generalizing bytes with
  | nil => exact Nat.zero_le _
  | cons first entries ih =>
    obtain ⟨head, hhead, encoded⟩ := Option.bind_eq_some_iff.mp encoded
    obtain ⟨tail, htail, encoded⟩ := Option.bind_eq_some_iff.mp encoded
    cases encoded
    have on_scale := (encodeEntry_isSome_iff clock first.1 first.2).mp (by rw [hhead]; rfl)
    rw [encodeEntry_eq_write on_scale, Option.some.injEq] at hhead
    have rest := ih htail
    simp only [← hhead, Record.write, writeU32, List.length_cons, List.length_append,
      LittleEndian.length_write]
    omega

theorem length_serializeShard {save : Clock} {shard : Shard Q}
    {order : KeyedMap.Iteration shard.data} {bytes : Bytes}
    (written : serializeShard save shard order = some bytes) :
    HEADER_SIZE + KeyedMap.size shard.data ≤ bytes.length := by
  obtain ⟨entries, encoded, rfl⟩ := serializeShard_split written
  have size : order.entries.length = KeyedMap.size shard.data := order.perm.length_eq
  have bound := length_encodeEntries encoded
  rw [List.length_append, SnapshotHeader.length_write]
  omega

/-- Both checksums of a written snapshot verify if and only if they fit. -/
theorem writtenHeader_verifies_iff (clock : Clock) (shard : Shard Q) (entries : Bytes) :
    ((writtenHeader clock shard entries).headerChecksum =
        crc64 (((writtenHeader clock shard entries).write ++ entries).take 56) ∧
      (writtenHeader clock shard entries).dataChecksum = crc64 entries) ↔
    ChecksumsFit clock shard entries := by
  have blank : (placeholderHeader clock shard).Blank := SnapshotHeader.blank_new _ _ _
  have header := misplaced_header_iff blank entries rfl
  unfold writtenHeader ChecksumsFit
  rw [misplaced_data_iff]
  constructor
  · rintro ⟨header_fits, zero⟩
    rw [zero] at header_fits
    exact ⟨zero, header.mp header_fits⟩
  · rintro ⟨zero, check⟩
    rw [zero]
    exact ⟨header.mpr check, rfl⟩

end

section
variable {Q : Type} [MaxQueue Q Expiry] {save load : Clock}

/-- What a load of a snapshot has to give back. -/
structure Restores (save load : Clock) (shard loaded : Shard Q) : Prop where
  id : loaded.id = shard.id
  contents : ∀ key value, (∃ entry, loaded.data.lookup key = some entry ∧ entry.value = value) ↔
    ∃ entry, shard.data.lookup key = some entry ∧ entry.value = value ∧
      Unexpired save load entry

/-- The shard is written without a panic, and what is written loads. -/
def RoundTrips (save load : Clock) (shard : Shard Q) (order : KeyedMap.Iteration shard.data) :
    Prop :=
  ∃ bytes loaded, serializeShard save shard order = some bytes ∧
    (deserializeSnapshot load bytes : Option (Except SnapshotError (Shard Q))) =
      some (.ok loaded) ∧
    Restores save load shard loaded

/-- A snapshot of a reachable shard loads back, with exactly the unexpired
entries, if and only if its checksums happen to fit where they were put. -/
theorem round_trip_iff [Layout] {past : List (Shard Q × Event)} {s : Shard Q}
    (run : Shard.Run Q past s) (order : KeyedMap.Iteration s.data)
    (later : save.system ≤ load.system)
    (in_range : ∀ key entry, s.data.lookup key = some entry → EntryInRange save load entry) :
    RoundTrips save load s order ↔
      ∃ entries, encodeEntries save order.entries = some entries ∧
        ChecksumsFit save s entries := by
  have wf := Shard.wellFormed_run run
  have listed (k : Key) (entry : Entry) (member : ⟨k, entry⟩ ∈ order.entries) :
      s.data.lookup k = some entry := order.mem_iff.mp member
  constructor
  · rintro ⟨bytes, loaded, written, accepted, _⟩
    obtain ⟨entries, encoded, rfl⟩ := serializeShard_split written
    refine ⟨entries, encoded, ?_⟩
    have checks := (deserializeSnapshot_ok_iff rfl rfl).mp accepted
    exact (writtenHeader_verifies_iff save s entries).mp ⟨checks.1, checks.2.1⟩
  · rintro ⟨entries, encoded, fit⟩
    obtain ⟨header_fits, data_fits⟩ := (writtenHeader_verifies_iff save s entries).mpr fit
    have in_range_listed (k : Key) (entry : Entry) (member : ⟨k, entry⟩ ∈ order.entries) :=
      in_range k entry (listed k entry member)
    have short (k : Key) (entry : Entry) (member : ⟨k, entry⟩ ∈ order.entries) :
        k.length < 2 ^ 32 ∧ entry.value.sizeBytes < 2 ^ 32 :=
      ⟨Nat.lt_of_le_of_lt (wf.key_fits k entry (listed k entry member)) (by decide),
        Nat.lt_of_le_of_lt (wf.value_fits k entry (listed k entry member)) (by decide)⟩
    obtain ⟨bytes, same_bytes, loads⟩ :=
      encodeEntries_loads (Q := Q) short in_range_listed s.id
    cases encoded.symm.trans same_bytes
    have restored : restoreEntries load order.entries.length (.new s.id load.instant : Shard Q)
        entries = some (.ok (reload save load s.id order.entries)) := by
      have whole := loads []
      rw [List.append_nil] at whole
      rw [restoreEntries_eq_loop, whole]
      rfl
    have count : (writtenHeader save s entries).keyCount.toNat = order.entries.length := by
      have fits : KeyedMap.size s.data < UInt64.size := Nat.lt_of_le_of_lt wf.few (by decide)
      exact (UInt64.toNat_ofNat_of_lt' fits).trans order.perm.length_eq.symm
    have accepted : (deserializeSnapshot load
        ((writtenHeader save s entries).write ++ entries) :
          Option (Except SnapshotError (Shard Q))) =
          some (.ok (storeKeyCount (reload save load s.id order.entries))) := by
      refine (deserializeSnapshot_ok_iff rfl rfl).mpr ⟨header_fits, data_fits, _, ?_, rfl⟩
      rw [count]
      exact restored
    refine ⟨_, _, serializeShard_eq encoded, accepted, put_all_id _ _, ?_⟩
    intro key value
    change (∃ entry, (reload save load s.id order.entries : Shard Q).data.lookup key = some entry ∧
      entry.value = value) ↔ _
    simp only [lookup_reload order.nodupKeys in_range_listed, order.mem_iff]
    constructor
    · rintro ⟨loaded, ⟨entry, found, reloaded⟩, same⟩
      exact ⟨entry, found, (reloaded_value_iff later (in_range key entry found) value).mp
        ⟨loaded, reloaded, same⟩⟩
    · rintro ⟨entry, found, kept⟩
      obtain ⟨loaded, reloaded, same⟩ :=
        (reloaded_value_iff later (in_range key entry found) value).mpr kept
      exact ⟨loaded, ⟨entry, found, reloaded⟩, same⟩

end

/- A second, far ahead, at which the header of shard 7 with two keys has check zero, and a value
that does the same for its entries. -/
def luckySecond : SystemTime := ⟨3394877947216353763000000000, by decide⟩

def luckySave : Clock := ⟨.ofSecs 2, luckySecond⟩

/- Five seconds later, after a restart. -/
def luckyLoad : Clock := ⟨.ofSecs 1, ⟨3394877947216353768000000000, by decide⟩⟩

def luckyValue : Value := .string [137, 217, 142, 254, 28, 244, 187, 104]

def undatedShard : Shard (SortedQueue Expiry) :=
  (@Shard.store _ _ linux64 (.new ⟨7⟩ (.ofSecs 0)) (utf8 "k4") luckyValue none).recorded

def luckyShard : Shard (SortedQueue Expiry) :=
  (@Shard.store _ _ linux64 undatedShard (utf8 "a") (.string (utf8 "v")) (some (.ofSecs 11))).recorded

def luckyEvents : List Event :=
  [⟨.ofSecs 1, .command (.set (utf8 "a") (.string (utf8 "v")) (some 10)) .ok⟩,
   ⟨.ofSecs 1, .command (.set (utf8 "k4") luckyValue none) .ok⟩]

theorem luckyShard_in_range (key : Key) (entry : Entry)
    (found : luckyShard.data.lookup key = some entry) : EntryInRange luckySave luckyLoad entry := by
  have listed : ⟨key, entry⟩ ∈ luckyShard.data.entries := KeyedMap.mem_entries_iff.mpr found
  have entries : luckyShard.data.entries =
      [⟨utf8 "a", ⟨.string (utf8 "v"), some (.ofSecs 11)⟩⟩, ⟨utf8 "k4", ⟨luckyValue, none⟩⟩] := rfl
  simp only [entries, List.mem_cons, List.not_mem_nil, or_false] at listed
  intro deadline dated
  rcases listed with here | here
  · cases here
    cases dated
    unfold OffScale
    decide +kernel
  · cases here
    cases dated

/-- Two keys, one of them dated, that load back. -/
theorem round_trip_lucky : ∃ past, @Shard.Run (SortedQueue Expiry) _ linux64 past luckyShard ∧
    past.map Prod.snd = luckyEvents ∧
    RoundTrips luckySave luckyLoad luckyShard ⟨luckyShard.data.entries, .refl _⟩ := by
  let _ := linux64
  have run : Shard.Run (SortedQueue Expiry) [] (.new ⟨7⟩ (.ofSecs 0)) := .start ⟨_, _, rfl⟩
  have first : (Shard.runs (SortedQueue Expiry)).step (.new ⟨7⟩ (.ofSecs 0))
      ⟨.ofSecs 1, .command (.set (utf8 "k4") luckyValue none) .ok⟩ undatedShard := rfl
  have second : (Shard.runs (SortedQueue Expiry)).step undatedShard
      ⟨.ofSecs 1, .command (.set (utf8 "a") (.string (utf8 "v")) (some 10)) .ok⟩ luckyShard := rfl
  have run := (run.step first).step second
  have data : (encodeEntries luckySave luckyShard.data.entries).map crc64 = some 0 := by
    decide +kernel
  obtain ⟨entries, encoded, zero⟩ := Option.map_eq_some_iff.mp data
  have header : (crc64 ((placeholderHeader luckySave luckyShard).write.take 56)).toBitVec = 0#64 := by
    decide +kernel
  have later : luckySave.system ≤ luckyLoad.system := by decide +kernel
  exact ⟨_, run, rfl, (round_trip_iff run _ later luckyShard_in_range).mpr
    ⟨entries, encoded, zero, .inl header⟩⟩

/- A shard with one key, saved and loaded within a second. -/
def oneKey : List Event :=
  [⟨.ofSecs 1, .command (.set (utf8 "k") (.string (utf8 "v")) none) .ok⟩]

def loadError {Q : Type} (loaded : Option (Except SnapshotError (Shard Q))) :
    Option SnapshotError :=
  match loaded with
  | some (.error e) => some e
  | _ => none

theorem one_key_does_not_load :
    ∃ past s, @Shard.Run (SortedQueue Expiry) _ linux64 past s ∧ past.map Prod.snd = oneKey ∧
      ∃ order, ¬ RoundTrips ⟨.ofSecs 1, .ofSecs 1700000000⟩ ⟨.ofSecs 1, .ofSecs 1700000000⟩ s
        order := by
  let _ := linux64
  obtain ⟨past, s, run, same, replayed⟩ :=
    Shard.replay_run (SortedQueue Expiry) ⟨0⟩ (.ofSecs 0) oneKey (by decide)
  have rejected : ((Shard.replay (.new ⟨0⟩ (.ofSecs 0) : Shard (SortedQueue Expiry)) oneKey).map
      fun out => (serializeShard ⟨.ofSecs 1, .ofSecs 1700000000⟩ out.2
        ⟨out.2.data.entries, .refl _⟩).map fun bytes =>
          loadError (deserializeSnapshot ⟨.ofSecs 1, .ofSecs 1700000000⟩ bytes :
            Option (Except SnapshotError (Shard (SortedQueue Expiry))))) =
      some (some (some .headerChecksumMismatch)) := by decide +kernel
  rw [replayed, Option.map_some, Option.some.injEq] at rejected
  refine ⟨past, s, run, same, ⟨s.data.entries, .refl _⟩, ?_⟩
  rintro ⟨bytes, loaded, written, accepted, _⟩
  rw [written, Option.map_some, accepted] at rejected
  cases rejected

end RsDragonfly
