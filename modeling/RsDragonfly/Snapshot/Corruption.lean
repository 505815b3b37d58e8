import RsDragonfly.Snapshot.Acceptance

/-! One changed byte in a snapshot file.
The header checksum covers its own field and stops before the end of the header,
so each region has its own reason: a change in front of the two checksum fields
or in the data leaves the field that covers it behind, and a change between the
two regions reaches nothing that the loading loop reads. -/
namespace RsDragonfly
open Library

theorem crc64_ne_of_changedAt {position : Nat} {xs ys : Bytes}
    (change : ChangedAt position xs ys) : crc64 xs ≠ crc64 ys := by
  intro same
  exact Crc.run_ne_of_changedAt ecma182 (by decide) (by decide) 0#64 change
    (congrArg UInt64.toBitVec same)

theorem writeU64_injective {x y : UInt64} (same : writeU64 x = writeU64 y) : x = y := by
  have read := reads_u64 x []
  rw [same, reads_u64 y []] at read
  cases read
  rfl

/-- What comes before the checksum fields names the shard and counts its keys. -/
theorem SnapshotHeader.front_decides {a b : SnapshotHeader} (same : a.front = b.front) :
    a.shardId = b.shardId ∧ a.keyCount = b.keyCount := by
  have patched : ({ a with
      dataChecksum := b.dataChecksum
      headerChecksum := b.headerChecksum
      reserved2 := b.reserved2 } : SnapshotHeader).write ++ [] = b.write ++ [] := by
    rw [write_eq, write_eq b, ← same]
    rfl
  have fields := (write_append_injective patched).1
  constructor
  · rw [← fields]
  · rw [← fields]

namespace Checked

variable {data rest : Bytes} {header : SnapshotHeader}

theorem parts (h : Checked data header rest) : data = header.front ++
    (writeU64 header.dataChecksum ++ (writeU64 header.headerChecksum ++
      (header.reserved2.1 ++ rest))) := by
  rw [h.split, header.write_eq]
  simp only [List.append_assoc]

theorem take_front (h : Checked data header rest) : data.take 28 = header.front := by
  rw [h.parts, List.take_left' header.length_front]

theorem drop_header (h : Checked data header rest) : data.drop HEADER_SIZE = rest := by
  rw [h.split, List.drop_left' header.length_write]

theorem dataChecksum_bytes (h : Checked data header rest) :
    (data.take 36).drop 28 = writeU64 header.dataChecksum := by
  have size : (writeU64 header.dataChecksum).length = 8 := LittleEndian.length_write 8 _
  rw [List.drop_take, h.parts, List.drop_left' header.length_front, List.take_left' size]

theorem headerChecksum_bytes (h : Checked data header rest) :
    (data.drop 36).take 8 = writeU64 header.headerChecksum := by
  have first : (writeU64 header.dataChecksum).length = 8 := LittleEndian.length_write 8 _
  have second : (writeU64 header.headerChecksum).length = 8 := LittleEndian.length_write 8 _
  have split : data.drop 36 = (data.drop 28).drop 8 := by rw [List.drop_drop]
  rw [split, h.parts, List.drop_left' header.length_front, List.drop_left' first,
    List.take_left' second]

/-- Two files that verify and differ in one byte agree on all that the loop reads. -/
theorem changedAt {changed tail : Bytes} {other : SnapshotHeader} {position : Nat}
    (h : Checked data header rest) (again : Checked changed other tail)
    (change : ChangedAt position data changed) : header.front = other.front ∧ rest = tail := by
  rcases Nat.lt_or_ge position 28 with front | behind
  · have same_field : header.headerChecksum = other.headerChecksum := by
      apply writeU64_injective
      rw [← h.headerChecksum_bytes, ← again.headerChecksum_bytes,
        change.drop_same (by omega : position < 36)]
    have checks := crc64_ne_of_changedAt (change.take (by omega : position < 56))
    rw [← h.headerChecksum, ← again.headerChecksum] at checks
    exact absurd same_field checks
  · have same_front : header.front = other.front := by
      rw [← h.take_front, ← again.take_front, change.take_same behind]
    rcases Nat.lt_or_ge position HEADER_SIZE with inside | body
    · refine ⟨same_front, ?_⟩
      rw [← h.drop_header, ← again.drop_header, change.drop_same inside]
    · have past : 36 ≤ position := Nat.le_trans (by decide) body
      have same_field : header.dataChecksum = other.dataChecksum := by
        apply writeU64_injective
        rw [← h.dataChecksum_bytes, ← again.dataChecksum_bytes, change.take_same past]
      have checks := crc64_ne_of_changedAt (change.drop body)
      rw [h.drop_header, again.drop_header, ← h.dataChecksum, ← again.dataChecksum] at checks
      exact absurd same_field checks

end Checked

section
variable {Q : Type} [MaxQueue Q Expiry]

/-- A change of one byte of an accepted file is rejected or changes nothing that was loaded. -/
theorem one_change_not_silent {clock : Clock} {data changed : Bytes} {position : Nat}
    {loaded : Shard Q} (accepted : deserializeSnapshot clock data = some (.ok loaded))
    (change : ChangedAt position data changed) :
    (∃ e, (deserializeSnapshot clock changed : Option (Except SnapshotError (Shard Q))) =
      some (.error e)) ∨
    ∃ again : Shard Q, deserializeSnapshot clock changed = some (.ok again) ∧
      again.id = loaded.id ∧ again.data = loaded.data := by
  rcases deserializeSnapshot_split (Q := Q) clock changed with
    ⟨other, tail, verified, _⟩ | ⟨_, error⟩
  · obtain ⟨header, records, ⟨⟨rest, left, checked, read⟩, datable⟩, rfl⟩ :=
      deserializeSnapshot_accepts_iff.mp accepted
    obtain ⟨same_front, rfl⟩ := checked.changedAt verified change
    obtain ⟨same_id, same_count⟩ := SnapshotHeader.front_decides same_front
    rw [same_count] at read
    refine .inr ⟨loadedShard clock other records, deserializeSnapshot_accepts_iff.mpr
      ⟨other, records, ⟨⟨rest, left, verified, read⟩, datable⟩, rfl⟩, ?_⟩
    rw [loadedShard, loadedShard, same_id]
    exact ⟨rfl, rfl⟩
  · exact .inl error

end

theorem changed_count_not_silent :
    ∃ changed, ChangedAt 12 liveFile changed ∧ ∃ loaded : Shard (SortedQueue Expiry),
      deserializeSnapshot sampleClock liveFile = some (.ok loaded) ∧
      ((∃ e, (deserializeSnapshot sampleClock changed :
          Option (Except SnapshotError (Shard (SortedQueue Expiry)))) = some (.error e)) ∨
        ∃ again : Shard (SortedQueue Expiry),
          deserializeSnapshot sampleClock changed = some (.ok again) ∧
          again.id = loaded.id ∧ again.data = loaded.data) := by
  have change : ChangedAt 12 liveFile (liveFile.take 12 ++ 2 :: liveFile.drop 13) :=
    ⟨liveFile.take 12, 1, 2, liveFile.drop 13, by decide, by decide, by decide, rfl⟩
  obtain ⟨loaded, accepted, _⟩ := liveFile_loads (SortedQueue Expiry) sampleClock
  exact ⟨_, change, loaded, accepted, one_change_not_silent accepted change⟩

end RsDragonfly
