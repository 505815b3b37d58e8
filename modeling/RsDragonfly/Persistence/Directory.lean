import Mathlib.Logic.Function.Basic
import RsDragonfly.Common.Types

/-! The snapshot directory: the names of its files, the file operations of the
writer and `cleanup_temp_files`. -/
namespace RsDragonfly

abbrev Directory := String → Option Bytes

def finalPath (id : ShardId) : String := s!"shard{id.id}.snap"

def tempPath (id : ShardId) : String := s!"shard{id.id}.snap.tmp"

/-- `Path::extension`: what follows the last dot, if anything comes before that dot. -/
def extension (name : String) : Option (List Char) :=
  match name.toList.reverse.dropWhile (· ≠ '.') with
  | _ :: before =>
    if before = [] then none else some (name.toList.reverse.takeWhile (· ≠ '.')).reverse
  | [] => none

namespace Directory

def create (d : Directory) (path : String) : Directory := Function.update d path (some [])

def append (d : Directory) (path : String) (bytes : Bytes) : Directory :=
  Function.update d path ((d path).map (· ++ bytes))

/-- `fs::rename`, which replaces the target. No result: there is nothing to rename. -/
def rename (d : Directory) (source target : String) : Option Directory :=
  (d source).map fun contents =>
    Function.update (Function.update d source none) target (some contents)

end Directory

def cleanupTempFiles (snapshotDir : Directory) : Directory := fun path =>
  if extension path = some ['t', 'm', 'p'] then none else snapshotDir path

theorem name_reverse (n : UInt16) (suffix : String) : (s!"shard{n}" ++ suffix).toList.reverse =
    suffix.toList.reverse ++ ((toString n).toList.reverse ++ ['d', 'r', 'a', 'h', 's']) := by
  change ("shard" ++ toString n ++ suffix).toList.reverse = _
  simp [String.toList_append]

@[simp] theorem extension_finalPath (id : ShardId) :
    extension (finalPath id) = some ['s', 'n', 'a', 'p'] := by
  have name : (finalPath id).toList.reverse = _ := name_reverse id.id ".snap"
  unfold extension
  rw [name]
  simp

@[simp] theorem extension_tempPath (id : ShardId) :
    extension (tempPath id) = some ['t', 'm', 'p'] := by
  have name : (tempPath id).toList.reverse = _ := name_reverse id.id ".snap.tmp"
  unfold extension
  rw [name]
  simp

theorem tempPath_ne_finalPath (a b : ShardId) : tempPath a ≠ finalPath b := by
  intro same
  have extensions := congrArg extension same
  rw [extension_tempPath, extension_finalPath] at extensions
  cases extensions

theorem toString_injective {m n : UInt16} (h : toString m = toString n) : m = n := by
  have digits : Nat.toDigits 10 m.toNat = Nat.toDigits 10 n.toNat := by
    rw [← Nat.toList_repr, ← Nat.toList_repr]
    exact congrArg String.toList h
  have value := congrArg (fun ds => Nat.ofDigitChars 10 ds 0) digits
  simp only [Nat.ofDigitChars_ten_toDigits] at value
  exact UInt16.toNat_inj.mp value

theorem finalPath_injective : Function.Injective finalPath := by
  rintro ⟨m⟩ ⟨n⟩ same
  have numbers : toString m = toString n := by simpa [finalPath] using same
  rw [toString_injective numbers]

theorem tempPath_injective : Function.Injective tempPath := by
  rintro ⟨m⟩ ⟨n⟩ same
  have numbers : toString m = toString n := by simpa [tempPath] using same
  rw [toString_injective numbers]

@[simp] theorem cleanup_finalPath (d : Directory) (id : ShardId) :
    cleanupTempFiles d (finalPath id) = d (finalPath id) := by
  simp [cleanupTempFiles]

end RsDragonfly
