import RsDragonfly.Common.Time
import RsDragonfly.Library.Crc
import RsDragonfly.Library.Reader

/-! `shard/persistence/format.rs`: the header of a snapshot file, with the
integers and the checksum that the snapshot code writes. -/
namespace RsDragonfly
open Library

inductive SnapshotError where
  | tooSmall
  | invalidMagic
  | unsupportedVersion (version : UInt32)
  | headerChecksumMismatch
  | dataChecksumMismatch
  /- Only the end of the input can make a read of a byte slice fail. -/
  | io
deriving DecidableEq

def writeU8 (x : UInt8) : Bytes := [x]
def writeU16 (x : UInt16) : Bytes := LittleEndian.write 2 x.toNat
def writeU32 (x : UInt32) : Bytes := LittleEndian.write 4 x.toNat
def writeU64 (x : UInt64) : Bytes := LittleEndian.write 8 x.toNat

abbrev SnapshotReader := Reader UInt8 SnapshotError

def readExact (n : Nat) : SnapshotReader Bytes := Reader.exact .io n

/-- An array `[u8; n]`. -/
abbrev Fixed (n : Nat) := { bytes : Bytes // bytes.length = n }

def readFixed (n : Nat) : SnapshotReader (Fixed n) := fun rest =>
  if enough : n ≤ rest.length then
    .ok (⟨rest.take n, List.length_take_of_le enough⟩, rest.drop n)
  else .error .io

def readU8 : SnapshotReader UInt8 := do
  let bytes ← readExact 1
  return UInt8.ofNat (LittleEndian.read bytes)

def readU16 : SnapshotReader UInt16 := do
  let bytes ← readExact 2
  return UInt16.ofNat (LittleEndian.read bytes)

def readU32 : SnapshotReader UInt32 := do
  let bytes ← readExact 4
  return UInt32.ofNat (LittleEndian.read bytes)

def readU64 : SnapshotReader UInt64 := do
  let bytes ← readExact 8
  return UInt64.ofNat (LittleEndian.read bytes)

theorem reads_exact {n : Nat} {bytes : Bytes} (size : bytes.length = n) :
    Reader.Reads (readExact n) bytes bytes := by
  subst size
  exact Reader.reads_exact SnapshotError.io bytes

theorem reads_fixed {n : Nat} (x : Fixed n) : Reader.Reads (readFixed n) x.1 x := by
  obtain ⟨bytes, size⟩ := x
  subst size
  intro rest
  have enough : bytes.length ≤ (bytes ++ rest).length := by simp
  simp only [readFixed, dif_pos enough, List.take_left, List.drop_left]

theorem reads_u8 (x : UInt8) : Reader.Reads readU8 (writeU8 x) x := by
  have h := (reads_exact (rfl : (writeU8 x).length = 1)).map
    (fun bytes => UInt8.ofNat (LittleEndian.read bytes))
  have value : UInt8.ofNat (LittleEndian.read (writeU8 x)) = x := by
    simp [writeU8, LittleEndian.read]
  rwa [value] at h

theorem reads_u16 (x : UInt16) : Reader.Reads readU16 (writeU16 x) x := by
  have h := (reads_exact (LittleEndian.length_write 2 x.toNat)).map
    (fun bytes => UInt16.ofNat (LittleEndian.read bytes))
  rwa [LittleEndian.read_write_of_lt x.toNat_lt, UInt16.ofNat_toNat] at h

theorem reads_u32 (x : UInt32) : Reader.Reads readU32 (writeU32 x) x := by
  have h := (reads_exact (LittleEndian.length_write 4 x.toNat)).map
    (fun bytes => UInt32.ofNat (LittleEndian.read bytes))
  rwa [LittleEndian.read_write_of_lt x.toNat_lt, UInt32.ofNat_toNat] at h

theorem reads_u64 (x : UInt64) : Reader.Reads readU64 (writeU64 x) x := by
  have h := (reads_exact (LittleEndian.length_write 8 x.toNat)).map
    (fun bytes => UInt64.ofNat (LittleEndian.read bytes))
  rwa [LittleEndian.read_write_of_lt x.toNat_lt, UInt64.ofNat_toNat] at h

def MAGIC : Fixed 4 := ⟨[0x52, 0x53, 0x44, 0x46], rfl⟩
def VERSION : UInt32 := 1
def HEADER_SIZE : Nat := 64

structure SnapshotHeader where
  magic : Fixed 4
  version : UInt32
  shardId : UInt16
  reserved1 : UInt16
  keyCount : UInt64
  timestamp : UInt64
  dataChecksum : UInt64
  headerChecksum : UInt64
  reserved2 : Fixed 20
deriving DecidableEq

namespace SnapshotHeader

def new (shardId : UInt16) (keyCount : UInt64) (now : SystemTime) : SnapshotHeader where
  magic := MAGIC
  version := VERSION
  shardId := shardId
  reserved1 := 0
  keyCount := keyCount
  timestamp := Duration.asSecs (now.saturatingDurationSince Timespec.unixEpoch)
  dataChecksum := 0
  headerChecksum := 0
  reserved2 := ⟨List.replicate 20 0, rfl⟩

def write (h : SnapshotHeader) : Bytes :=
  h.magic.1 ++ (writeU32 h.version ++ (writeU16 h.shardId ++ (writeU16 h.reserved1 ++
    (writeU64 h.keyCount ++ (writeU64 h.timestamp ++ (writeU64 h.dataChecksum ++
      (writeU64 h.headerChecksum ++ h.reserved2.1)))))))

def read : SnapshotReader SnapshotHeader := do
  let magic ← readFixed 4
  let version ← readU32
  let shardId ← readU16
  let reserved1 ← readU16
  let keyCount ← readU64
  let timestamp ← readU64
  let dataChecksum ← readU64
  let headerChecksum ← readU64
  let reserved2 ← readFixed 20
  return { magic, version, shardId, reserved1, keyCount, timestamp, dataChecksum, headerChecksum,
           reserved2 }

theorem length_write (h : SnapshotHeader) : h.write.length = HEADER_SIZE := by
  simp only [write, writeU16, writeU32, writeU64, List.length_append, LittleEndian.length_write,
    h.magic.2, h.reserved2.2, HEADER_SIZE]

theorem reads_header (h : SnapshotHeader) : Reader.Reads read h.write h := by
  unfold read write
  refine (reads_fixed h.magic).bind ?_
  refine (reads_u32 h.version).bind ?_
  refine (reads_u16 h.shardId).bind ?_
  refine (reads_u16 h.reserved1).bind ?_
  refine (reads_u64 h.keyCount).bind ?_
  refine (reads_u64 h.timestamp).bind ?_
  refine (reads_u64 h.dataChecksum).bind ?_
  refine (reads_u64 h.headerChecksum).bind ?_
  exact (reads_fixed h.reserved2).map _

end SnapshotHeader

/-- CRC-64/ECMA-182, as `crc::CRC_64_ECMA_182` names it: no reflection, initial
value and final mask zero. -/
def ecma182 : BitVec 64 := 0x42F0E1EBA9EA3693#64

def crc64 (bytes : Bytes) : UInt64 := ⟨Crc.run ecma182 0#64 bytes⟩

example : crc64 (utf8 "123456789") = 0x6C40DF5F0B497347 := by decide +kernel

end RsDragonfly
