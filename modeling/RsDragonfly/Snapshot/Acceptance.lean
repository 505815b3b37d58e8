import RsDragonfly.Snapshot.Checksums
import RsDragonfly.Snapshot.EntrySection

/-! What `deserialize_snapshot` makes of arbitrary bytes.
Bytes of the size of a header are one, so a file is rejected, is read as a list
of records, or panics on one of its timestamps. -/
namespace RsDragonfly
open Library

theorem exists_prefix (n : Nat) {data : Bytes} (enough : n ≤ data.length) :
    ∃ first rest, data = first ++ rest ∧ first.length = n ∧ rest.length + n = data.length := by
  refine ⟨data.take n, data.drop n, (List.take_append_drop n data).symm,
    List.length_take_of_le enough, ?_⟩
  rw [List.length_drop]
  omega

theorem writeU16_read {bytes : Bytes} (size : bytes.length = 2) :
    writeU16 (UInt16.ofNat (LittleEndian.read bytes)) = bytes := by
  have bound := LittleEndian.read_lt bytes
  rw [size] at bound
  rw [writeU16, UInt16.toNat_ofNat_of_lt' bound, ← size, LittleEndian.write_read]

theorem writeU32_read {bytes : Bytes} (size : bytes.length = 4) :
    writeU32 (UInt32.ofNat (LittleEndian.read bytes)) = bytes := by
  have bound := LittleEndian.read_lt bytes
  rw [size] at bound
  rw [writeU32, UInt32.toNat_ofNat_of_lt' bound, ← size, LittleEndian.write_read]

namespace SnapshotHeader

theorem exists_write {data : Bytes} (enough : HEADER_SIZE ≤ data.length) :
    ∃ (header : SnapshotHeader) (rest : Bytes), data = header.write ++ rest := by
  unfold HEADER_SIZE at enough
  obtain ⟨magic, data, rfl, hmagic, left⟩ := exists_prefix 4 (by omega : 4 ≤ data.length)
  obtain ⟨version, data, rfl, hversion, left⟩ := exists_prefix 4 (by omega : 4 ≤ data.length)
  obtain ⟨shardId, data, rfl, hshardId, left⟩ := exists_prefix 2 (by omega : 2 ≤ data.length)
  obtain ⟨reserved1, data, rfl, hreserved1, left⟩ := exists_prefix 2 (by omega : 2 ≤ data.length)
  obtain ⟨keyCount, data, rfl, hkeyCount, left⟩ := exists_prefix 8 (by omega : 8 ≤ data.length)
  obtain ⟨timestamp, data, rfl, htimestamp, left⟩ := exists_prefix 8 (by omega : 8 ≤ data.length)
  obtain ⟨dataChecksum, data, rfl, hdata, left⟩ := exists_prefix 8 (by omega : 8 ≤ data.length)
  obtain ⟨headerChecksum, data, rfl, hheader, left⟩ := exists_prefix 8 (by omega : 8 ≤ data.length)
  obtain ⟨reserved2, rest, rfl, hreserved2, left⟩ := exists_prefix 20 (by omega : 20 ≤ data.length)
  refine ⟨⟨⟨magic, hmagic⟩, .ofNat (LittleEndian.read version),
    .ofNat (LittleEndian.read shardId), .ofNat (LittleEndian.read reserved1),
    .ofNat (LittleEndian.read keyCount), .ofNat (LittleEndian.read timestamp),
    .ofNat (LittleEndian.read dataChecksum), .ofNat (LittleEndian.read headerChecksum),
    ⟨reserved2, hreserved2⟩⟩, rest, ?_⟩
  simp only [write, writeU16_read hshardId, writeU16_read hreserved1, writeU32_read hversion,
    writeU64_read hkeyCount, writeU64_read htimestamp, writeU64_read hdata, writeU64_read hheader,
    List.append_assoc]

theorem write_append_injective {a b : SnapshotHeader} {rest other : Bytes}
    (same : a.write ++ rest = b.write ++ other) : a = b ∧ rest = other := by
  have read := reads_header a rest
  rw [same, reads_header b other] at read
  cases read
  exact ⟨rfl, rfl⟩

end SnapshotHeader

/-- The bytes pass every test that comes before the entries. -/
structure Checked (data : Bytes) (header : SnapshotHeader) (rest : Bytes) : Prop where
  split : data = header.write ++ rest
  magic : header.magic = MAGIC
  version : header.version = VERSION
  headerChecksum : header.headerChecksum = crc64 (data.take 56)
  dataChecksum : header.dataChecksum = crc64 rest

theorem Checked.unique {data rest other : Bytes} {header second : SnapshotHeader}
    (first : Checked data header rest) (again : Checked data second other) :
    header = second ∧ rest = other :=
  SnapshotHeader.write_append_injective (first.split.symm.trans again.split)

section
variable {clock : Clock} {data : Bytes} {Q : Type} [MaxQueue Q Expiry]

theorem deserializeSnapshot_split (clock : Clock) (data : Bytes) :
    (∃ header rest, Checked data header rest ∧
      (deserializeSnapshot clock data : Option (Except SnapshotError (Shard Q))) =
        (restoreEntries clock header.keyCount.toNat (.new ⟨header.shardId⟩ clock.instant)
          rest).map (Except.map storeKeyCount)) ∨
    (∀ header rest, ¬ Checked data header rest) ∧
      ∃ e, (deserializeSnapshot clock data : Option (Except SnapshotError (Shard Q))) =
        some (.error e) := by
  by_cases short : data.length < HEADER_SIZE
  · refine .inr ⟨?_, .tooSmall, by unfold deserializeSnapshot; rw [if_pos short]⟩
    intro header rest checked
    rw [checked.split, List.length_append, header.length_write] at short
    omega
  · obtain ⟨header, rest, rfl⟩ := SnapshotHeader.exists_write (Nat.not_lt.mp short)
    have body : (header.write ++ rest).drop HEADER_SIZE = rest :=
      List.drop_left' header.length_write
    have only {other : SnapshotHeader} {tail : Bytes}
        (checked : Checked (header.write ++ rest) other tail) : header = other ∧ rest = tail :=
      SnapshotHeader.write_append_injective checked.split
    unfold deserializeSnapshot
    rw [if_neg short, SnapshotHeader.reads_header header rest, body]
    dsimp only
    split_ifs with magic version header_fits data_fits
    · exact .inr ⟨fun _ _ checked => magic ((only checked).1 ▸ checked.magic), _, rfl⟩
    · exact .inr ⟨fun _ _ checked => version ((only checked).1 ▸ checked.version), _, rfl⟩
    · exact .inr ⟨fun _ _ checked => header_fits ((only checked).1 ▸ checked.headerChecksum),
        _, rfl⟩
    · refine .inr ⟨fun other tail checked => data_fits ?_, _, rfl⟩
      obtain ⟨rfl, rfl⟩ := only checked
      exact checked.dataChecksum
    · refine .inl ⟨header, rest, ⟨rfl, not_not.mp magic, not_not.mp version,
        not_not.mp header_fits, not_not.mp data_fits⟩, ?_⟩
      exact Option.map_eq_bind.symm

/-- The shard that an accepted file gives. -/
def loadedShard (clock : Clock) (header : SnapshotHeader) (records : List Record) : Shard Q :=
  storeKeyCount (records.foldl (Shard.put clock) (.new ⟨header.shardId⟩ clock.instant))

theorem loadedShard_id (clock : Clock) (header : SnapshotHeader) (records : List Record) :
    (loadedShard clock header records : Shard Q).id = ⟨header.shardId⟩ :=
  put_all_id records _

/-- The file is accepted: it verifies, all its records are there and can be dated. -/
structure Accepted (clock : Clock) (data : Bytes) (header : SnapshotHeader)
    (records : List Record) : Prop where
  checked : ∃ rest left, Checked data header rest ∧
    readEntries header.keyCount.toNat rest = .ok (records, left)
  datable : ∀ record ∈ records, ¬ Record.Overflows clock record

omit [MaxQueue Q Expiry] in
theorem Accepted.unique {header other : SnapshotHeader} {records more : List Record}
    (first : Accepted clock data header records) (again : Accepted clock data other more) :
    header = other ∧ records = more := by
  obtain ⟨rest, left, checked, read⟩ := first.checked
  obtain ⟨tail, last, verified, reread⟩ := again.checked
  obtain ⟨rfl, rfl⟩ := checked.unique verified
  cases read.symm.trans reread
  exact ⟨rfl, rfl⟩

theorem deserializeSnapshot_accepts_iff {loaded : Shard Q} :
    deserializeSnapshot clock data = some (.ok loaded) ↔
      ∃ header records, Accepted clock data header records ∧
        loaded = loadedShard clock header records := by
  constructor
  · intro accepts
    rcases deserializeSnapshot_split (Q := Q) clock data with
      ⟨header, rest, checked, result⟩ | rejected
    · rw [accepts, restoreEntries_eq_loop, Option.map_map] at result
      obtain ⟨out, finished, value⟩ := Option.map_eq_some_iff.mp result.symm
      cases out with
      | error e => cases value
      | ok out =>
        cases value
        obtain ⟨records, read, fit, hloaded⟩ := restoreLoop_ok_iff.mp finished
        refine ⟨header, records, ⟨⟨rest, out.2, checked, read⟩, fit⟩, ?_⟩
        simp only [hloaded, loadedShard]
    · obtain ⟨_, e, error⟩ := rejected
      rw [accepts] at error
      cases error
  · rintro ⟨header, records, ⟨⟨rest, left, checked, read⟩, fit⟩, rfl⟩
    rcases deserializeSnapshot_split (Q := Q) clock data with
      ⟨other, tail, again, result⟩ | rejected
    · obtain ⟨rfl, rfl⟩ := checked.unique again
      rw [result, restoreEntries_eq_loop, restoreLoop_ok_iff.mpr ⟨records, read, fit, rfl⟩]
      rfl
    · exact absurd checked (rejected.1 header rest)

/-- The file verifies, and one of its declared records can be read but not be dated. -/
def Undatable (clock : Clock) (data : Bytes) : Prop :=
  ∃ header rest, Checked data header rest ∧
    ∃ reached ≤ header.keyCount.toNat, ∃ records left,
      readEntries reached rest = .ok (records, left) ∧
        ∃ record ∈ records, Record.Overflows clock record

theorem deserializeSnapshot_result_iff (clock : Clock) (data : Bytes) :
    (∃ result : Except SnapshotError (Shard Q), deserializeSnapshot clock data = some result) ↔
      ¬ Undatable clock data := by
  rw [← Option.ne_none_iff_exists', ne_eq, not_iff_not]
  rcases deserializeSnapshot_split (Q := Q) clock data with
    ⟨header, rest, checked, result⟩ | ⟨rejected, e, error⟩
  · rw [result, restoreEntries_eq_loop, Option.map_eq_none_iff, Option.map_eq_none_iff,
      restoreLoop_eq_none]
    constructor
    · intro panics
      exact ⟨header, rest, checked, panics⟩
    · rintro ⟨other, tail, again, panics⟩
      obtain ⟨rfl, rfl⟩ := checked.unique again
      exact panics
  · rw [error]
    constructor
    · intro panics
      cases panics
    · rintro ⟨header, rest, checked, _⟩
      exact absurd checked (rejected header rest)

/-- A pass takes nine bytes at least, so the bytes bound the passes. -/
theorem deserializeSnapshot_passes {header : SnapshotHeader} {rest : Bytes}
    (checked : Checked data header rest) {bound : Nat} (enough : rest.length < 9 * bound) :
    (deserializeSnapshot clock data : Option (Except SnapshotError (Shard Q))) =
      (restoreEntries clock (min header.keyCount.toNat bound) (.new ⟨header.shardId⟩ clock.instant)
        rest).map (Except.map storeKeyCount) := by
  rcases deserializeSnapshot_split (Q := Q) clock data with
    ⟨other, tail, again, result⟩ | ⟨rejected, _⟩
  · obtain ⟨rfl, rfl⟩ := checked.unique again
    rw [result, restoreEntries_eq_loop, restoreEntries_eq_loop, restoreLoop_passes enough]
  · exact absurd checked (rejected header rest)

/-- Decoding returns for any bytes but those with a timestamp that cannot be added to the clock,
and whatever count the header declares, the loop is over when the bytes are. -/
theorem deserializeSnapshot_returns_iff (clock : Clock) (data : Bytes) :
    ((∃ result : Except SnapshotError (Shard Q), deserializeSnapshot clock data = some result) ↔
      ¬ Undatable clock data) ∧
    ∀ header rest, Checked data header rest → ∀ bound, rest.length < 9 * bound →
      (deserializeSnapshot clock data : Option (Except SnapshotError (Shard Q))) =
        (restoreEntries clock (min header.keyCount.toNat bound)
          (.new ⟨header.shardId⟩ clock.instant) rest).map (Except.map storeKeyCount) :=
  ⟨deserializeSnapshot_result_iff clock data,
    fun _ _ checked _ enough => deserializeSnapshot_passes checked enough⟩

end

def sampleHeader (keyCount dataChecksum : UInt64) (filler : Fixed 8) : SnapshotHeader :=
  ⟨MAGIC, VERSION, 7, 0, keyCount, 1700000000, dataChecksum, 0,
    ⟨filler.1 ++ List.replicate 12 0, by simp [filler.2]⟩⟩

def sampleFile (records : List Record) (dataChecksum : UInt64) (filler : Fixed 8) : Bytes :=
  (sampleHeader (.ofNat records.length) dataChecksum filler).write ++ records.flatMap Record.write

theorem sampleFile_accepted {records : List Record} {dataChecksum : UInt64} {filler : Fixed 8}
    {clock : Clock} (few : records.length < 2 ^ 64)
    (short : ∀ record ∈ records, record.1.length < 2 ^ 32 ∧ record.2.1.length < 2 ^ 32)
    (header_fits : 0 = crc64 ((sampleFile records dataChecksum filler).take 56))
    (data_fits : dataChecksum = crc64 (records.flatMap Record.write))
    (datable : ∀ record ∈ records, ¬ Record.Overflows clock record) :
    Accepted clock (sampleFile records dataChecksum filler)
      (sampleHeader (.ofNat records.length) dataChecksum filler) records := by
  have read := reads_records short []
  rw [List.append_nil] at read
  have count : (UInt64.ofNat records.length).toNat = records.length :=
    UInt64.toNat_ofNat_of_lt' few
  refine ⟨⟨_, [], ⟨rfl, rfl, rfl, header_fits, data_fits⟩, ?_⟩, datable⟩
  rw [sampleHeader, count]
  exact read

def sampleClock : Clock := ⟨.ofSecs 5, .ofSecs 1700000000⟩

/- Its one record expires at the last second of a `u64`. -/
def farFile : Bytes :=
  sampleFile [(utf8 "k", utf8 "v", some 0xFFFFFFFFFFFFFFFF)] 0xf3d4730fa4ad6897
    ⟨[211, 226, 233, 197, 47, 0, 10, 29], rfl⟩

theorem far_timestamp_panics :
    (deserializeSnapshot sampleClock farFile :
      Option (Except SnapshotError (Shard (SortedQueue Expiry)))) = none := by
  rw [← Option.isNone_iff_eq_none]
  decide +kernel

def liveRecords : List Record := [(utf8 "k", utf8 "v", none)]

/- Its one record has no deadline. -/
def liveFile : Bytes :=
  sampleFile liveRecords 0xd5cbddc414e7a310 ⟨[159, 252, 176, 206, 3, 80, 131, 247], rfl⟩

theorem liveFile_accepted (clock : Clock) :
    Accepted clock liveFile (sampleHeader 1 0xd5cbddc414e7a310
      ⟨[159, 252, 176, 206, 3, 80, 131, 247], rfl⟩) liveRecords := by
  refine sampleFile_accepted (by decide) (by decide) (by decide +kernel) (by decide +kernel) ?_
  intro record member overflows
  obtain ⟨timestamp, stamped, _⟩ := overflows
  cases List.mem_singleton.mp member
  cases stamped

theorem liveFile_loads (Q : Type) [MaxQueue Q Expiry] (clock : Clock) :
    ∃ loaded : Shard Q, deserializeSnapshot clock liveFile = some (.ok loaded) ∧
      loaded.id = ⟨7⟩ ∧ loaded.data.lookup (utf8 "k") = some ⟨.string (utf8 "v"), none⟩ := by
  exact ⟨_, deserializeSnapshot_accepts_iff.mpr ⟨_, _, liveFile_accepted clock, rfl⟩,
    loadedShard_id _ _ _, rfl⟩

end RsDragonfly
