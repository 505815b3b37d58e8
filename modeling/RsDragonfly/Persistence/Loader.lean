import RsDragonfly.Persistence.Directory
import RsDragonfly.Snapshot.Acceptance
import RsDragonfly.Snapshot.RoundTrip

/-! `shard/snapshot/loader.rs`, over any pair of a writer and a reader of
snapshots. The pair of the source is one instance. -/
namespace RsDragonfly
open Library

/-- The code that turns a shard into the bytes of a snapshot and back. -/
structure Codec (Q : Type) where
  serializeShard : (clock : Clock) → (shard : Shard Q) → KeyedMap.Iteration shard.data →
    Option Bytes
  deserializeSnapshot : Clock → Bytes → Option (Except SnapshotError (Shard Q))
  /-- A snapshot of an empty shard loads as an empty shard, if it loads. -/
  empty_stays : ∀ {save load : Clock} {shard loaded : Shard Q}
    {order : KeyedMap.Iteration shard.data} {bytes : Bytes}, KeyedMap.size shard.data = 0 →
      serializeShard save shard order = some bytes →
      deserializeSnapshot load bytes = some (.ok loaded) → KeyedMap.size loaded.data = 0

section
variable {Q : Type} [MaxQueue Q Expiry]

/-- `unreadable` are the paths at which `fs::read` fails although there is a file. -/
def loadSnapshot (codec : Codec Q) (unreadable : String → Bool) (clock : Clock)
    (snapshotDir : Directory) (shardId : ShardId) : Option (Except SnapshotError (Shard Q)) :=
  match snapshotDir (finalPath shardId) with
  | none => some (.ok (.new shardId clock.instant))
  | some data =>
    if unreadable (finalPath shardId) then some (.error .io)
    else codec.deserializeSnapshot clock data

/-- The loader without its two checksum tests. -/
def loadUnchecked (clock : Clock) (data : Bytes) : Option (Except SnapshotError (Shard Q)) :=
  match SnapshotHeader.read data with
  | .error e => some (.error e)
  | .ok (header, rest) => do
    let loaded ← restoreEntries clock header.keyCount.toNat
      (.new ⟨header.shardId⟩ clock.instant) rest
    return loaded.map storeKeyCount

theorem restoreEntries_empty {save load : Clock} {shard restored : Shard Q} {entries rest : Bytes}
    (empty : KeyedMap.size shard.data = 0)
    (h : restoreEntries load (writtenHeader save shard entries).keyCount.toNat
      (.new ⟨shard.id.id⟩ load.instant) rest = some (.ok restored)) :
    KeyedMap.size (storeKeyCount restored).data = 0 := by
  have count : (writtenHeader save shard entries).keyCount.toNat = 0 := by
    change (UInt64.ofNat (KeyedMap.size shard.data)).toNat = 0
    rw [empty]
    rfl
  rw [count] at h
  cases h
  rfl

def Codec.source : Codec Q where
  serializeShard := RsDragonfly.serializeShard
  deserializeSnapshot := RsDragonfly.deserializeSnapshot
  empty_stays empty written accepted := by
    obtain ⟨entries, _, rfl⟩ := serializeShard_split written
    obtain ⟨_, _, restored, hrestored, rfl⟩ := (deserializeSnapshot_ok_iff rfl rfl).mp accepted
    exact restoreEntries_empty empty hrestored

@[simp] theorem deserializeSnapshot_source :
    (Codec.source : Codec Q).deserializeSnapshot = RsDragonfly.deserializeSnapshot := rfl

/-- The pair of the source, with the checksums left alone. -/
def Codec.unchecked : Codec Q where
  serializeShard := RsDragonfly.serializeShard
  deserializeSnapshot := loadUnchecked
  empty_stays empty written accepted := by
    obtain ⟨entries, _, rfl⟩ := serializeShard_split written
    unfold loadUnchecked at accepted
    rw [SnapshotHeader.reads_header] at accepted
    obtain ⟨out, hout, accepted⟩ := Option.bind_eq_some_iff.mp accepted
    cases out with
    | error e => cases accepted
    | ok restored =>
      cases accepted
      exact restoreEntries_empty empty hout

theorem loadSnapshot_present {codec : Codec Q} {unreadable : String → Bool} {clock : Clock}
    {snapshotDir : Directory} {shardId : ShardId} {data : Bytes}
    (present : snapshotDir (finalPath shardId) = some data)
    (readable : unreadable (finalPath shardId) = false) :
    loadSnapshot codec unreadable clock snapshotDir shardId = codec.deserializeSnapshot clock data := by
  simp [loadSnapshot, present, readable]

/-- A file under the name of the shard cannot be read, is rejected, or names that shard in its
header. -/
def NamesItsShard (unreadable : String → Bool) (clock : Clock) (snapshotDir : Directory)
    (shardId : ShardId) : Prop :=
  ∀ data header records, snapshotDir (finalPath shardId) = some data →
    unreadable (finalPath shardId) = false → Accepted clock data header records →
    header.shardId = shardId.id

/-- The loader takes the id from the header and never compares it with the file's name. -/
theorem loadSnapshot_own_iff (unreadable : String → Bool) (clock : Clock) (snapshotDir : Directory)
    (shardId : ShardId) :
    (∀ shard : Shard Q, loadSnapshot .source unreadable clock snapshotDir shardId =
      some (.ok shard) → shard.id = shardId) ↔
      NamesItsShard unreadable clock snapshotDir shardId := by
  unfold NamesItsShard
  cases present : snapshotDir (finalPath shardId) with
  | none =>
    constructor
    · intro _ data header records found
      cases found
    · intro _ shard loaded
      unfold loadSnapshot at loaded
      rw [present] at loaded
      cases loaded
      rfl
  | some data =>
    cases readable : unreadable (finalPath shardId) with
    | true => simp [loadSnapshot, present, readable]
    | false =>
      have accepts (shard : Shard Q) :
          loadSnapshot .source unreadable clock snapshotDir shardId = some (.ok shard) ↔
            ∃ header records, Accepted clock data header records ∧
              shard = loadedShard clock header records := by
        rw [loadSnapshot_present present readable, deserializeSnapshot_source]
        exact deserializeSnapshot_accepts_iff
      simp only [accepts]
      constructor
      · rintro own _ header records ⟨⟩ _ accepted
        have same := own _ ⟨header, records, accepted, rfl⟩
        rw [loadedShard_id] at same
        exact congrArg ShardId.id same
      · rintro own shard ⟨header, records, accepted, rfl⟩
        rw [loadedShard_id, own data header records rfl trivial accepted]

end

/- The snapshot of shard 7 under the name of shard 0. -/
def swappedDir : Directory := Function.update (fun _ => none) (finalPath ⟨0⟩) (some liveFile)

theorem swapped_file_hydrates :
    ∃ shard : Shard (SortedQueue Expiry),
      loadSnapshot .source (fun _ => false) sampleClock swappedDir ⟨0⟩ = some (.ok shard) ∧
        shard.id = ⟨7⟩ := by
  obtain ⟨loaded, accepted, id, _⟩ := liveFile_loads (SortedQueue Expiry) sampleClock
  have present : swappedDir (finalPath ⟨0⟩) = some liveFile := Function.update_self _ _ _
  refine ⟨loaded, ?_, id⟩
  rw [loadSnapshot_present present rfl, deserializeSnapshot_source, accepted]

end RsDragonfly
