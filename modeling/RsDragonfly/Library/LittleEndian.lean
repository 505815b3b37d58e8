import Mathlib.Tactic.Ring

/-! Little-endian integers of a fixed number of bytes. -/
namespace Library.LittleEndian

def write : Nat → Nat → List UInt8
  | 0, _ => []
  | n + 1, v => UInt8.ofNat v :: write n (v / 256)

def read : List UInt8 → Nat
  | [] => 0
  | b :: bs => b.toNat + 256 * read bs

@[simp] theorem length_write (n v : Nat) : (write n v).length = n := by
  induction n generalizing v with
  | zero => rfl
  | succ n ih => simp [write, ih]

theorem read_write (n v : Nat) : read (write n v) = v % 256 ^ n := by
  induction n generalizing v with
  | zero => simp [write, read, Nat.mod_one]
  | succ n ih =>
    have digits : v % 256 ^ (n + 1) = v % 256 + 256 * (v / 256 % 256 ^ n) := by
      rw [Nat.pow_succ', Nat.mod_mul]
    rw [digits]
    simp only [write, read, ih, UInt8.toNat_ofNat', Nat.reducePow]

theorem read_write_of_lt {n v : Nat} (fits : v < 256 ^ n) : read (write n v) = v := by
  rw [read_write, Nat.mod_eq_of_lt fits]

theorem read_append (bs cs : List UInt8) :
    read (bs ++ cs) = read bs + 256 ^ bs.length * read cs := by
  induction bs with
  | nil => simp [read]
  | cons b bs ih =>
    simp only [List.cons_append, read, ih, List.length_cons]
    ring

theorem write_add (m n v : Nat) : write (m + n) v = write m v ++ write n (v / 256 ^ m) := by
  induction m generalizing v with
  | zero => simp [write]
  | succ m ih =>
    rw [Nat.succ_add]
    simp only [write, ih, List.cons_append, Nat.div_div_eq_div_mul]
    rw [Nat.pow_succ']

theorem read_lt (bs : List UInt8) : read bs < 256 ^ bs.length := by
  induction bs with
  | nil => simp [read]
  | cons b bs ih =>
    have digit : b.toNat < 256 := b.toNat_lt
    simp only [read, List.length_cons, Nat.pow_succ]
    omega

theorem write_read (bs : List UInt8) : write bs.length (read bs) = bs := by
  induction bs with
  | nil => rfl
  | cons b bs ih =>
    have digit : b.toNat < 256 := b.toNat_lt
    have low : UInt8.ofNat (b.toNat + 256 * read bs) = b := by
      apply UInt8.toNat_inj.mp
      rw [UInt8.toNat_ofNat']
      omega
    have high : (b.toNat + 256 * read bs) / 256 = read bs := by omega
    simp only [List.length_cons, read, write, low, high, ih]

/-- Writing is additive for exclusive or. -/
theorem write_xor (n a b : Nat) :
    write n (a ^^^ b) = List.zipWith (· ^^^ ·) (write n a) (write n b) := by
  induction n generalizing a b with
  | zero => rfl
  | succ n ih =>
    have byte : UInt8.ofNat (a ^^^ b) = UInt8.ofNat a ^^^ UInt8.ofNat b := by
      apply UInt8.toNat_inj.mp
      simp only [UInt8.toNat_ofNat', UInt8.toNat_xor]
      exact Nat.xor_mod_two_pow
    have rest : (a ^^^ b) / 256 = a / 256 ^^^ b / 256 := Nat.xor_div_two_pow (n := 8)
    simp only [write, byte, rest, ih, List.zipWith_cons_cons]

end Library.LittleEndian
