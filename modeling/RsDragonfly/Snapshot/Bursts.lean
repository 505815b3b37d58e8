import RsDragonfly.Library.CrcBurst
import RsDragonfly.Snapshot.Corruption

/-! A burst of changed bytes in a snapshot file, no longer than a checksum.
It cannot reach both a region and the field that covers it, and the check of the
region it reaches is as wide as it is long. -/
namespace RsDragonfly
open Library

theorem eq_of_crc64_burst {position : Nat} {xs ys : Bytes} (burst : AgreeOutside position 8 xs ys)
    (same : crc64 xs = crc64 ys) : xs = ys := by
  by_contra different
  exact Crc.run_ne_of_burst ecma182 (by decide) (by decide) 0#64 (by decide) burst different
    (congrArg UInt64.toBitVec same)

namespace Checked

variable {data changed rest tail : Bytes} {header other : SnapshotHeader} {position : Nat}

theorem burst_front (h : Checked data header rest) (again : Checked changed other tail)
    (burst : AgreeOutside position 8 data changed) : data.take 28 = changed.take 28 := by
  rcases Nat.lt_or_ge position 28 with front | behind
  · have same_field : header.headerChecksum = other.headerChecksum := by
      apply writeU64_injective
      rw [← h.headerChecksum_bytes, ← again.headerChecksum_bytes,
        burst.drop_same (by omega : position + 8 ≤ 36)]
    rw [h.headerChecksum, again.headerChecksum] at same_field
    have covered := eq_of_crc64_burst (burst.take 56) same_field
    have inside (bytes : Bytes) : bytes.take 28 = (bytes.take 56).take 28 := by
      simp [List.take_take]
    rw [inside data, covered, ← inside]
  · exact burst.take_same behind

theorem burst_rest (h : Checked data header rest) (again : Checked changed other tail)
    (burst : AgreeOutside position 8 data changed) :
    data.drop HEADER_SIZE = changed.drop HEADER_SIZE := by
  rcases Nat.lt_or_ge HEADER_SIZE (position + 8) with body | before
  · have past : 36 ≤ position := by
      unfold HEADER_SIZE at body
      omega
    have same_field : header.dataChecksum = other.dataChecksum := by
      apply writeU64_injective
      rw [← h.dataChecksum_bytes, ← again.dataChecksum_bytes, burst.take_same past]
    rw [h.dataChecksum, again.dataChecksum, ← h.drop_header, ← again.drop_header] at same_field
    exact eq_of_crc64_burst (burst.drop HEADER_SIZE) same_field
  · exact burst.drop_same before

end Checked

section
variable {Q : Type} [MaxQueue Q Expiry]

/-- Up to eight changed bytes in a row of an accepted file are rejected, or they are all
in the part of the header that the loading loop does not read, and change nothing loaded. -/
theorem burst_not_silent {clock : Clock} {data changed : Bytes} {position : Nat}
    {loaded : Shard Q} (accepted : deserializeSnapshot clock data = some (.ok loaded))
    (burst : AgreeOutside position 8 data changed) :
    (∃ e, (deserializeSnapshot clock changed : Option (Except SnapshotError (Shard Q))) =
      some (.error e)) ∨
    data.take 28 = changed.take 28 ∧ data.drop HEADER_SIZE = changed.drop HEADER_SIZE ∧
      ∃ again : Shard Q, deserializeSnapshot clock changed = some (.ok again) ∧
        again.id = loaded.id ∧ again.data = loaded.data := by
  rcases deserializeSnapshot_split (Q := Q) clock changed with
    ⟨other, tail, verified, _⟩ | ⟨_, error⟩
  · obtain ⟨header, records, ⟨⟨rest, left, checked, read⟩, datable⟩, rfl⟩ :=
      deserializeSnapshot_accepts_iff.mp accepted
    have front := checked.burst_front verified burst
    have body := checked.burst_rest verified burst
    have same_rest : rest = tail := by rw [← checked.drop_header, body, verified.drop_header]
    subst same_rest
    obtain ⟨same_id, same_count⟩ := SnapshotHeader.front_decides
      (checked.take_front.symm.trans (front.trans verified.take_front))
    rw [same_count] at read
    refine .inr ⟨front, body, loadedShard clock other records,
      deserializeSnapshot_accepts_iff.mpr
        ⟨other, records, ⟨⟨rest, left, verified, read⟩, datable⟩, rfl⟩, ?_⟩
    rw [loadedShard, loadedShard, same_id]
    exact ⟨rfl, rfl⟩
  · exact .inl error

end

/-- The number of the shard, the field after it and half of the count, all at once. -/
theorem burst_not_silent_live :
    ∃ changed, AgreeOutside 8 8 liveFile changed ∧ changed ≠ liveFile ∧
      ∃ loaded : Shard (SortedQueue Expiry),
        deserializeSnapshot sampleClock liveFile = some (.ok loaded) ∧
        ((∃ e, (deserializeSnapshot sampleClock changed :
            Option (Except SnapshotError (Shard (SortedQueue Expiry)))) = some (.error e)) ∨
          liveFile.take 28 = changed.take 28 ∧
            liveFile.drop HEADER_SIZE = changed.drop HEADER_SIZE ∧
            ∃ again : Shard (SortedQueue Expiry),
              deserializeSnapshot sampleClock changed = some (.ok again) ∧
              again.id = loaded.id ∧ again.data = loaded.data) := by
  have parts : liveFile = liveFile.take 8 ++ ((liveFile.drop 8).take 8 ++ liveFile.drop 16) := by
    decide
  have burst := AgreeOutside.window (liveFile.take 8) ((liveFile.drop 8).take 8)
    [1, 2, 3, 4, 5, 6, 7, 8] (liveFile.drop 16) (by decide)
  rw [← parts] at burst
  obtain ⟨loaded, accepted, _⟩ := liveFile_loads (SortedQueue Expiry) sampleClock
  exact ⟨_, burst, by decide, loaded, accepted, burst_not_silent accepted burst⟩

end RsDragonfly
