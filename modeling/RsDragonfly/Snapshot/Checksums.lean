import RsDragonfly.Snapshot.Deserialize
import RsDragonfly.Snapshot.Serialize

/-! The two checksums of a snapshot.
They are computed over the header as it is first written, and then put at bytes
32 and 40, four bytes after the fields they are read from. What the reader finds
in its fields, and when that still verifies, follows from the check being
additive. -/
namespace RsDragonfly
open Library

namespace SnapshotHeader

/-- The bytes before the two checksum fields. -/
def front (h : SnapshotHeader) : Bytes :=
  h.magic.1 ++ (writeU32 h.version ++ (writeU16 h.shardId ++ (writeU16 h.reserved1 ++
    (writeU64 h.keyCount ++ writeU64 h.timestamp))))

theorem length_front (h : SnapshotHeader) : h.front.length = 28 := by
  simp only [front, writeU16, writeU32, writeU64, List.length_append, LittleEndian.length_write,
    h.magic.2]

theorem write_eq (h : SnapshotHeader) :
    h.write = h.front ++ (writeU64 h.dataChecksum ++ (writeU64 h.headerChecksum ++ h.reserved2.1)) := by
  simp only [write, front, List.append_assoc]

def Blank (h : SnapshotHeader) : Prop := h.write = h.front ++ List.replicate 36 0

theorem blank_new (shardId : UInt16) (keyCount : UInt64) (now : SystemTime) :
    (new shardId keyCount now).Blank := by
  have zeros : writeU64 0 ++ (writeU64 0 ++ List.replicate 20 0) = List.replicate 36 0 := by decide
  rw [Blank, ← zeros]
  exact write_eq _

/-- The header a reader sees after the checksums were put at byte 32. -/
def misplace (h : SnapshotHeader) (dataChecksum headerChecksum : UInt64) : SnapshotHeader :=
  { h with
    dataChecksum := .ofNat (LittleEndian.read
      (List.replicate 4 0 ++ LittleEndian.write 4 dataChecksum.toNat))
    headerChecksum := .ofNat (LittleEndian.read
      (LittleEndian.write 4 (dataChecksum.toNat / 256 ^ 4) ++
        LittleEndian.write 4 headerChecksum.toNat))
    reserved2 := ⟨LittleEndian.write 4 (headerChecksum.toNat / 256 ^ 4) ++ List.replicate 16 0,
      by simp⟩ }

end SnapshotHeader

theorem writeU64_halves (x : UInt64) :
    writeU64 x = LittleEndian.write 4 x.toNat ++ LittleEndian.write 4 (x.toNat / 256 ^ 4) :=
  LittleEndian.write_add 4 4 x.toNat

theorem writeU64_read {bytes : Bytes} (size : bytes.length = 8) :
    writeU64 (UInt64.ofNat (LittleEndian.read bytes)) = bytes := by
  have bound := LittleEndian.read_lt bytes
  rw [size] at bound
  rw [writeU64, UInt64.toNat_ofNat_of_lt' bound, ← size, LittleEndian.write_read]

theorem misplace_write (h : SnapshotHeader) (dataChecksum headerChecksum : UInt64) :
    (h.misplace dataChecksum headerChecksum).write = (h.front ++ List.replicate 4 0) ++
      ((writeU64 dataChecksum ++ writeU64 headerChecksum) ++ List.replicate 16 0) := by
  have first : writeU64 (h.misplace dataChecksum headerChecksum).dataChecksum =
      List.replicate 4 0 ++ LittleEndian.write 4 dataChecksum.toNat := by
    simp only [SnapshotHeader.misplace]
    exact writeU64_read (by simp)
  have second : writeU64 (h.misplace dataChecksum headerChecksum).headerChecksum =
      LittleEndian.write 4 (dataChecksum.toNat / 256 ^ 4) ++
        LittleEndian.write 4 headerChecksum.toNat := by
    simp only [SnapshotHeader.misplace]
    exact writeU64_read (by simp)
  have third : (h.misplace dataChecksum headerChecksum).reserved2.1 =
      LittleEndian.write 4 (headerChecksum.toNat / 256 ^ 4) ++ List.replicate 16 0 := by
    simp only [SnapshotHeader.misplace]
  have same_front : (h.misplace dataChecksum headerChecksum).front = h.front := by
    simp only [SnapshotHeader.front, SnapshotHeader.misplace]
  rw [SnapshotHeader.write_eq, first, second, third, same_front, writeU64_halves dataChecksum,
    writeU64_halves headerChecksum]
  simp only [List.append_assoc]

/-- Patching a blank header gives the misplaced one. -/
theorem overwrite_blank {h : SnapshotHeader} (blank : h.Blank)
    (dataChecksum headerChecksum : UInt64) (rest : Bytes) :
    overwrite 32 (writeU64 dataChecksum ++ writeU64 headerChecksum) (h.write ++ rest) =
      (h.misplace dataChecksum headerChecksum).write ++ rest := by
  have before : (h.front ++ List.replicate 4 0).length =
      32 := by rw [List.length_append, SnapshotHeader.length_front, List.length_replicate]
  have patch : (writeU64 dataChecksum ++ writeU64 headerChecksum).length = 16 := by
    simp only [writeU64, List.length_append, LittleEndian.length_write]
  have parts : h.write ++ rest =
      (h.front ++ List.replicate 4 0) ++
        (List.replicate 16 0 ++ (List.replicate 16 0 ++ rest)) := by
    have zeros : List.replicate 36 (0 : UInt8) =
        List.replicate 4 0 ++ (List.replicate 16 0 ++ List.replicate 16 0) := by decide
    rw [blank, zeros]
    simp only [List.append_assoc]
  have kept : (h.write ++ rest).take 32 =
      h.front ++ List.replicate 4 0 := by
    rw [parts, List.take_left' before]
  have after : (h.write ++ rest).drop (32 + 16) =
      List.replicate 16 0 ++ rest := by
    rw [parts, ← List.drop_drop, List.drop_left' before, List.drop_left' List.length_replicate]
  rw [overwrite, patch, kept, after, misplace_write]
  simp only [List.append_assoc]

/-- The integer read across the two halves. -/
theorem read_shifted (a b : Nat) : LittleEndian.read (LittleEndian.write 4 a ++
    LittleEndian.write 4 b) = a % 2 ^ 32 + 2 ^ 32 * (b % 2 ^ 32) := by
  rw [LittleEndian.read_append, LittleEndian.read_write, LittleEndian.read_write,
    LittleEndian.length_write]
  norm_num

/-- The data checksum is found only if it is zero. -/
theorem misplaced_data_iff (h : SnapshotHeader) (dataChecksum headerChecksum : UInt64) :
    (h.misplace dataChecksum headerChecksum).dataChecksum = dataChecksum ↔ dataChecksum = 0 := by
  have zeros : List.replicate 4 (0 : UInt8) = LittleEndian.write 4 0 := rfl
  have bound := dataChecksum.toNat_lt
  simp only [SnapshotHeader.misplace, zeros, read_shifted]
  constructor
  · intro found
    have value := congrArg UInt64.toNat found
    rw [UInt64.toNat_ofNat_of_lt' (by simp only [UInt64.size]; omega)] at value
    apply UInt64.toNat_inj.mp
    change dataChecksum.toNat = 0
    omega
  · intro zero
    subst zero
    rfl

/-- What the check of the header changes by when its own value is put at byte 40. -/
def patchCheck (check : BitVec 64) : BitVec 64 :=
  Crc.run ecma182 0#64 (LittleEndian.write 8 check.toNat ++ List.replicate 8 0)

/-- The check of the patched header against the field that is read for it. -/
def misfit (check : BitVec 64) : BitVec 64 := check ^^^ (patchCheck check ^^^ check <<< 32)

theorem misfit_xor : XorAdditive misfit :=
  XorAdditive.id.xor (.xor (Crc.run_write_xor ecma182 8 8) (.shiftLeft 32))

/-- The one nonzero check whose misplaced copy verifies. -/
def selfFitting : BitVec 64 := 0xe062987bf0fd0b4d#64

/- An additive map that undoes `misfit`, up to the selected multiple of `selfFitting`. -/
def misfitInverse : List (BitVec 64) :=
  [0x414ff634542ee33d#64, 0x0000000000000000#64, 0x2c03cdbee4eeda38#64, 0x13d989cfa71caa6b#64,
   0x6582c9f362fe33ef#64, 0x5e7a47bb1f637980#64, 0x1f0c052892eb1873#64, 0x217b588ac741d04a#64,
   0x22ea648362469180#64, 0x6a9d6d74e411821c#64, 0x5242f7e710b50dfb#64, 0x2cbfa2b40f43df8a#64,
   0x495e77c70aaf9207#64, 0x0da1f0b8ebf0fefb#64, 0x14018105215e3049#64, 0x176b94d77608ec9d#64,
   0x23b382260c8f2e0b#64, 0x5de397f18b427303#64, 0x6802428442441172#64, 0x2a25e4b7446dc011#64,
   0x00f68907048d7e95#64, 0x42b06a52f78edbb9#64, 0x4f6b43b3edf31437#64, 0x7b94b403f9942a37#64,
   0x060660e3c5ae339a#64, 0x7cf64c87d1f5bd9e#64, 0x29a4f7dd911d31c1#64, 0x15343cf80e214c05#64,
   0x302b80342c5a71b2#64, 0x06e67d5400c866ed#64, 0x5dfad9972f5ebd7e#64, 0x126ff21bd6a05524#64,
   0x04d420317b63c6eb#64, 0x10a1d06a02ad1f4a#64, 0x3bc7336997061181#64, 0x14d8da8906bb6932#64,
   0x2976df6baf3214c9#64, 0x13960d77b6d1358f#64, 0x7cd33af2174b5816#64, 0x32c140c2fe2b52c3#64,
   0x1c97c41be4f9060e#64, 0x286218a80f8960a5#64, 0x07f4728cf5728274#64, 0x72b1a9a8f296efde#64,
   0x0a43ab5ee36f194e#64, 0x0c250efc42a32707#64, 0x3aa0787be700de8e#64, 0x4b83ae638aa2b614#64,
   0x17be7b53ab3990dc#64, 0x11bfa83312d02ab0#64, 0x6022283adb3473f3#64, 0x5e35ed739a947cb9#64,
   0x09d8a0c59bd04d22#64, 0x18bf28d0c1c31f45#64, 0x0518ae2741513784#64, 0x4083eccc3e3030b9#64,
   0x2cd19182f4a10614#64, 0x52ad4a5e1f218929#64, 0x05e8772e561c8205#64, 0x4b0095b5349b9f10#64,
   0x3674a281a32c68da#64, 0x1bd2c2d97a1bfe29#64, 0x525e9142683902ff#64, 0x0e6d0a7d9c1d5102#64]

theorem misfit_units : ∀ i < 64,
    XorAdditive.ofColumns (misfit (BitVec.twoPow 64 i)) misfitInverse 0 =
    BitVec.twoPow 64 i ^^^ if (BitVec.twoPow 64 i).getLsbD 63 then selfFitting else 0#64 := by
  decide +kernel

theorem misfit_inverse (check : BitVec 64) :
    XorAdditive.ofColumns (misfit check) misfitInverse 0 =
      check ^^^ if check.getLsbD 63 then selfFitting else 0#64 :=
  XorAdditive.eq_of_units
    ((XorAdditive.ofColumns_xor misfitInverse 0).comp misfit_xor)
    (XorAdditive.id.xor (.select 63 selfFitting)) misfit_units check

theorem misfit_eq_zero_iff (check : BitVec 64) :
    misfit check = 0#64 ↔ check = 0#64 ∨ check = selfFitting := by
  constructor
  · intro fits
    have inverse := misfit_inverse check
    rw [fits, (XorAdditive.ofColumns_xor misfitInverse 0).zero] at inverse
    split at inverse
    · exact .inr (BitVec.xor_eq_zero_iff.mp inverse.symm)
    · exact .inl (by rw [BitVec.xor_zero] at inverse; exact inverse.symm)
  · rintro (rfl | rfl)
    · exact misfit_xor.zero
    · decide +kernel

theorem misplaced_field (h : SnapshotHeader) (check : UInt64) :
    (h.misplace 0 check).headerChecksum.toBitVec = check.toBitVec <<< 32 := by
  have bound := check.toNat_lt
  simp only [SnapshotHeader.misplace, read_shifted, UInt64.toNat_zero, Nat.zero_div, Nat.zero_mod,
    Nat.zero_add, Nat.reducePow]
  apply BitVec.eq_of_toNat_eq
  rw [UInt64.toNat_toBitVec, UInt64.toNat_ofNat_of_lt' (by simp only [UInt64.size]; omega),
    BitVec.toNat_shiftLeft, UInt64.toNat_toBitVec, Nat.shiftLeft_eq]
  omega

/-- The check of bytes that end in eight zeros, after itself was put before those zeros. -/
theorem run_patched {start : Bytes} {check : BitVec 64}
    (computed : check = Crc.run ecma182 0#64 (start ++ List.replicate 16 0)) :
    Crc.run ecma182 0#64 (start ++ (LittleEndian.write 8 check.toNat ++ List.replicate 8 0)) =
      check ^^^ patchCheck check := by
  have size : (LittleEndian.write 8 check.toNat ++ List.replicate 8 0).length = 16 := by
    rw [List.length_append, LittleEndian.length_write, List.length_replicate]
  rw [Crc.run_append] at computed ⊢
  rw [Crc.run_split, size, ← computed, patchCheck]

/-- The forty bytes before the place where the header checksum is put, after a
zero data checksum. -/
def SnapshotHeader.start (h : SnapshotHeader) : Bytes := h.front ++ List.replicate 12 0

theorem SnapshotHeader.length_start (h : SnapshotHeader) : h.start.length = 40 := by
  rw [start, List.length_append, length_front, List.length_replicate]

theorem checked_blank {h : SnapshotHeader} (blank : h.Blank) :
    h.write.take 56 =
      h.start ++ List.replicate 16 0 := by
  have zeros : List.replicate 36 (0 : UInt8) =
      List.replicate 12 0 ++ (List.replicate 16 0 ++ List.replicate 8 0) := by decide
  have size : (h.start ++ List.replicate 16 0).length =
      56 := by rw [List.length_append, SnapshotHeader.length_start, List.length_replicate]
  rw [blank, zeros, ← List.append_assoc, ← List.append_assoc]
  exact List.take_left' size

theorem checked_misplaced (h : SnapshotHeader) (check : UInt64) (rest : Bytes) :
    ((h.misplace 0 check).write ++ rest).take 56 =
      h.start ++ (LittleEndian.write 8 check.toNat ++ List.replicate 8 0) := by
  have zeros₁₂ : List.replicate 12 (0 : UInt8) = List.replicate 4 0 ++ writeU64 0 := by decide
  have zeros₁₆ : List.replicate 16 (0 : UInt8) = List.replicate 8 0 ++ List.replicate 8 0 := by
    decide
  have size : (h.start ++ (LittleEndian.write 8 check.toNat ++ List.replicate 8 0)).length =
      56 := by
    rw [List.length_append, h.length_start, List.length_append, LittleEndian.length_write,
      List.length_replicate]
  have parts : (h.misplace 0 check).write ++ rest =
      (h.start ++ (LittleEndian.write 8 check.toNat ++ List.replicate 8 0)) ++
        (List.replicate 8 0 ++ rest) := by
    rw [misplace_write, zeros₁₆, SnapshotHeader.start, zeros₁₂, ← writeU64]
    simp only [List.append_assoc]
  rw [parts, List.take_left' size]

/-- After a zero data checksum the header verifies if and only if its own check
is zero or the one value whose misplaced copy fits. -/
theorem misplaced_header_iff {h : SnapshotHeader} (blank : h.Blank) (rest : Bytes)
    {check : UInt64} (computed : check = crc64 (h.write.take 56)) :
    (h.misplace 0 check).headerChecksum =
        crc64 (((h.misplace 0 check).write ++
          rest).take 56) ↔
      check.toBitVec = 0#64 ∨ check.toBitVec = selfFitting := by
  have written : check.toBitVec = Crc.run ecma182 0#64
      (h.start ++ List.replicate 16 0) := by
    rw [← checked_blank blank, computed, crc64]
  have patched := run_patched written
  rw [UInt64.toNat_toBitVec] at patched
  rw [← misfit_eq_zero_iff, ← UInt64.toBitVec_inj, misplaced_field, checked_misplaced, crc64,
    patched, misfit, ← BitVec.xor_assoc, BitVec.xor_eq_zero_iff]
  exact eq_comm

end RsDragonfly
