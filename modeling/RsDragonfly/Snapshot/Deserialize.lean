import RsDragonfly.Shard.Shard
import RsDragonfly.Snapshot.Format

/-! `shard/snapshot/deserialize.rs`.
One reading of the clocks serves a whole load. A result of `none` is a panic. -/
namespace RsDragonfly
open Library

/-- One entry as it stands in the file. -/
def readEntry : SnapshotReader (Key × Bytes × Option UInt64) := do
  let keyLen ← readU32
  let key ← readExact keyLen.toNat
  let valueLen ← readU32
  let value ← readExact valueLen.toNat
  let flag ← readU8
  if flag = 1 then
    let expiryTimestamp ← readU64
    return (key, value, some expiryTimestamp)
  else return (key, value, none)

section
variable {Q : Type} [MaxQueue Q Expiry]

/-- The writes of the loop for an entry that is kept. -/
def Shard.restore (shard : Shard Q) (key : Key) (value : Value) (expiry : Option Instant) :
    Shard Q :=
  { shard with
    data := shard.data.insert key ⟨value, expiry⟩
    ttlQueue := match expiry with
      | some expTime => MaxQueue.push shard.ttlQueue ⟨expTime, key⟩
      | none => shard.ttlQueue }

/-- The loop over `key_count`, on the bytes not yet read. -/
def restoreEntries (clock : Clock) :
    Nat → Shard Q → Bytes → Option (Except SnapshotError (Shard Q))
  | 0, shard, _ => some (.ok shard)
  | count + 1, shard, rest =>
    let nowUnix := Duration.asSecs (clock.system.saturatingDurationSince Timespec.unixEpoch)
    match readEntry rest with
    | .error e => some (.error e)
    | .ok ((key, value, none), rest) =>
      restoreEntries clock count (shard.restore key (.string value) none) rest
    | .ok ((key, value, some expiryTimestamp), rest) =>
      if expiryTimestamp ≤ nowUnix then restoreEntries clock count shard rest
      else
        match unixTimestampToInstant clock expiryTimestamp with
        | none => none
        | some expTime =>
          restoreEntries clock count (shard.restore key (.string value) (some expTime)) rest

def storeKeyCount (shard : Shard Q) : Shard Q :=
  { shard with metrics :=
      { shard.metrics with keyCount := UInt64.ofNat (KeyedMap.size shard.data) } }

def deserializeSnapshot (clock : Clock) (data : Bytes) :
    Option (Except SnapshotError (Shard Q)) :=
  if data.length < HEADER_SIZE then some (.error .tooSmall)
  else
    match SnapshotHeader.read data with
    | .error e => some (.error e)
    | .ok (header, rest) =>
      if header.magic ≠ MAGIC then some (.error .invalidMagic)
      else if header.version ≠ VERSION then some (.error (.unsupportedVersion header.version))
      else if header.headerChecksum ≠ crc64 (data.take 56) then
        some (.error .headerChecksumMismatch)
      else if header.dataChecksum ≠ crc64 (data.drop HEADER_SIZE) then
        some (.error .dataChecksumMismatch)
      else do
        let loaded ← restoreEntries clock header.keyCount.toNat
          (.new ⟨header.shardId⟩ clock.instant) rest
        return loaded.map storeKeyCount

/-- A file that starts with a written header loads if and only if both checksums
agree and its entries load. -/
theorem deserializeSnapshot_ok_iff {clock : Clock} {header : SnapshotHeader} {rest : Bytes}
    (magic : header.magic = MAGIC) (version : header.version = VERSION) {loaded : Shard Q} :
    deserializeSnapshot clock (header.write ++ rest) = some (.ok loaded) ↔
      header.headerChecksum = crc64 ((header.write ++ rest).take 56) ∧
      header.dataChecksum = crc64 rest ∧
      ∃ restored, restoreEntries clock header.keyCount.toNat
        (.new ⟨header.shardId⟩ clock.instant) rest = some (.ok restored) ∧
        loaded = storeKeyCount restored := by
  have enough : ¬ (header.write ++ rest).length < HEADER_SIZE := by
    rw [List.length_append, header.length_write]
    omega
  have body : (header.write ++ rest).drop HEADER_SIZE = rest := List.drop_left' header.length_write
  unfold deserializeSnapshot
  rw [if_neg enough, SnapshotHeader.reads_header header rest, body]
  simp only [magic, version, ne_eq, not_true_eq_false, if_false]
  constructor
  · intro accepted
    split at accepted
    · cases accepted
    · rename_i header_fits
      split at accepted
      · cases accepted
      · rename_i data_fits
        obtain ⟨out, hout, accepted⟩ := Option.bind_eq_some_iff.mp accepted
        cases out with
        | error e => cases accepted
        | ok restored =>
          cases accepted
          exact ⟨not_not.mp header_fits, not_not.mp data_fits, restored, hout, rfl⟩
  · rintro ⟨header_fits, data_fits, restored, hrestored, rfl⟩
    rw [if_neg (not_not.mpr header_fits), if_neg (not_not.mpr data_fits), hrestored]
    rfl

end

theorem reads_entry {key value : Bytes} (key_fits : key.length < 2 ^ 32)
    (value_fits : value.length < 2 ^ 32) (flag : UInt8) (timestamp : Bytes)
    (expiry : Option UInt64) (written : Reader.Reads
      (if flag = 1 then do
          let expiryTimestamp ← readU64
          return (key, value, some expiryTimestamp)
        else return (key, value, none) : SnapshotReader (Key × Bytes × Option UInt64))
      timestamp (key, value, expiry)) :
    Reader.Reads readEntry (writeU32 (UInt32.ofNat key.length) ++ (key ++
      (writeU32 (UInt32.ofNat value.length) ++ (value ++ (writeU8 flag ++ timestamp)))))
      (key, value, expiry) := by
  unfold readEntry
  refine (reads_u32 _).bind ((reads_exact ?_).bind ((reads_u32 _).bind ((reads_exact ?_).bind
    ((reads_u8 flag).bind written))))
  · rw [UInt32.toNat_ofNat_of_lt' key_fits]
  · rw [UInt32.toNat_ofNat_of_lt' value_fits]

end RsDragonfly
