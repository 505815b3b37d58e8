import Mathlib.Logic.Function.Iterate
import RsDragonfly.Library.LittleEndian

/-! Cyclic redundancy checks as maps over the two-element field.
The register moves to the left and bytes enter at its top, most significant bit
first; initial value and final mask are zero. Everything here is additive for
exclusive or, and an additive map is known from its values on single bits. -/
namespace Library

/-- Maps that respect exclusive or: linear over the two-element field. -/
def XorAdditive {v w : Nat} (f : BitVec v → BitVec w) : Prop :=
  ∀ a b, f (a ^^^ b) = f a ^^^ f b

namespace XorAdditive

variable {u v w : Nat}

theorem zero {f : BitVec v → BitVec w} (hf : XorAdditive f) : f 0#v = 0#w := by
  have twice := hf 0#v 0#v
  rwa [BitVec.xor_self, BitVec.xor_self] at twice

theorem id : XorAdditive (fun a : BitVec w => a) := fun _ _ => rfl

theorem comp {g : BitVec v → BitVec w} {f : BitVec u → BitVec v} (hg : XorAdditive g)
    (hf : XorAdditive f) : XorAdditive (fun a => g (f a)) := by
  intro a b
  simp only [hf a b, hg (f a) (f b)]

theorem xor {f g : BitVec v → BitVec w} (hf : XorAdditive f) (hg : XorAdditive g) :
    XorAdditive (fun a => f a ^^^ g a) := by
  intro a b
  simp only [hf a b, hg a b]
  ac_rfl

theorem shiftLeft (n : Nat) : XorAdditive (fun a : BitVec w => a <<< n) :=
  fun a b => BitVec.shiftLeft_xor_distrib a b n

/-- An additive map loses nothing if it sends nothing else to zero. -/
theorem injective {f : BitVec v → BitVec w} (hf : XorAdditive f)
    (kernel : ∀ a, f a = 0#w → a = 0#v) : Function.Injective f := by
  intro a b same
  apply BitVec.xor_eq_zero_iff.mp
  apply kernel
  rw [hf, same, BitVec.xor_self]

/-- The vector of the lowest bits of another, put together bit by bit. -/
def assemble (a : BitVec v) : Nat → BitVec v
  | 0 => 0#v
  | n + 1 => assemble a n ^^^ if a.getLsbD n then BitVec.twoPow v n else 0#v

theorem getLsbD_assemble (a : BitVec v) (n i : Nat) :
    (assemble a n).getLsbD i = (decide (i < n) && a.getLsbD i) := by
  induction n with
  | zero => simp [assemble]
  | succ n ih =>
    have bit : (if a.getLsbD n then BitVec.twoPow v n else 0#v).getLsbD i =
        (decide (i = n) && a.getLsbD i) := by
      split
      · rename_i set
        have inside := BitVec.lt_of_getLsbD set
        by_cases same : i = n
        · simp [same, set, inside]
        · simp [same, BitVec.getLsbD_twoPow, Ne.symm same]
      · rename_i clear
        by_cases same : i = n
        · simp [same, clear]
        · simp [same]
    rw [assemble, BitVec.getLsbD_xor, ih, bit]
    by_cases same : i = n
    · simp [same]
    · by_cases below : i < n
      · simp [same, below, Nat.lt_succ_of_lt below]
      · have above : ¬ i < n + 1 := by omega
        simp [same, below, above]

theorem assemble_all (a : BitVec v) : assemble a v = a := by
  apply BitVec.eq_of_getLsbD_eq
  intro i hi
  rw [getLsbD_assemble, decide_eq_true hi, Bool.true_and]

/-- Two additive maps that agree on single bits are equal. -/
theorem eq_of_units {f g : BitVec v → BitVec w} (hf : XorAdditive f) (hg : XorAdditive g)
    (units : ∀ i < v, f (BitVec.twoPow v i) = g (BitVec.twoPow v i)) (a : BitVec v) :
    f a = g a := by
  have partial_sum : ∀ n ≤ v, f (assemble a n) = g (assemble a n) := by
    intro n
    induction n with
    | zero =>
      intro _
      rw [assemble, hf.zero, hg.zero]
    | succ n ih =>
      intro below
      rw [assemble, hf, hg, ih (by omega)]
      split
      · rw [units n (by omega)]
      · rw [hf.zero, hg.zero]
  rw [← assemble_all a]
  exact partial_sum v (Nat.le_refl v)

/-- The additive map with the given values on single bits, from bit `i` on. -/
def ofColumns (a : BitVec v) : List (BitVec w) → Nat → BitVec w
  | [], _ => 0#w
  | column :: columns, i => (if a.getLsbD i then column else 0#w) ^^^ ofColumns a columns (i + 1)

/-- One bit of the argument selects a constant. -/
theorem select (i : Nat) (column : BitVec w) :
    XorAdditive (fun a : BitVec v => if a.getLsbD i then column else 0#w) := by
  intro a b
  simp only [BitVec.getLsbD_xor]
  cases a.getLsbD i <;> cases b.getLsbD i <;> simp

theorem ofColumns_xor (columns : List (BitVec w)) (i : Nat) :
    XorAdditive (fun a : BitVec v => ofColumns a columns i) := by
  induction columns generalizing i with
  | nil =>
    intro a b
    simp [ofColumns]
  | cons column columns ih => exact (select i column).xor (ih (i + 1))

end XorAdditive

/-- Two lists that differ in one place, and in no other. -/
def ChangedAt {α : Type} (position : Nat) (xs ys : List α) : Prop :=
  ∃ before x y after, before.length = position ∧ x ≠ y ∧
    xs = before ++ x :: after ∧ ys = before ++ y :: after

namespace ChangedAt

variable {α : Type} {position n : Nat} {xs ys : List α}

theorem take_same (h : ChangedAt position xs ys) (before : n ≤ position) :
    xs.take n = ys.take n := by
  obtain ⟨start, x, y, rest, size, _, rfl, rfl⟩ := h
  rw [← size] at before
  rw [List.take_append_of_le_length before, List.take_append_of_le_length before]

theorem drop_same (h : ChangedAt position xs ys) (after : position < n) :
    xs.drop n = ys.drop n := by
  obtain ⟨start, x, y, rest, size, _, rfl, rfl⟩ := h
  obtain ⟨more, rfl⟩ : ∃ more, n = start.length + (more + 1) := ⟨n - position - 1, by omega⟩
  simp only [List.drop_append, Nat.add_sub_cancel_left, List.drop_succ_cons]

theorem take (h : ChangedAt position xs ys) (after : position < n) :
    ChangedAt position (xs.take n) (ys.take n) := by
  obtain ⟨start, x, y, rest, size, different, rfl, rfl⟩ := h
  obtain ⟨more, rfl⟩ : ∃ more, n = start.length + (more + 1) := ⟨n - position - 1, by omega⟩
  refine ⟨start, x, y, rest.take more, size, different, ?_, ?_⟩
  · rw [List.take_length_add_append, List.take_succ_cons]
  · rw [List.take_length_add_append, List.take_succ_cons]

theorem drop (h : ChangedAt position xs ys) (before : n ≤ position) :
    ChangedAt (position - n) (xs.drop n) (ys.drop n) := by
  obtain ⟨start, x, y, rest, size, different, rfl, rfl⟩ := h
  rw [← size] at before
  refine ⟨start.drop n, x, y, rest, by rw [List.length_drop, size], different, ?_, ?_⟩
  · exact List.drop_append_of_le_length before
  · exact List.drop_append_of_le_length before

end ChangedAt

namespace Crc

variable {w : Nat} (poly : BitVec w)

def shift (reg : BitVec w) : BitVec w := if reg.msb then reg <<< 1 ^^^ poly else reg <<< 1

def absorb (reg : BitVec w) (byte : UInt8) : BitVec w :=
  (shift poly)^[8] (reg ^^^ byte.toBitVec.setWidth w <<< (w - 8))

/-- The register after some bytes. -/
def run (reg : BitVec w) (bytes : List UInt8) : BitVec w := bytes.foldl (absorb poly) reg

theorem shift_xor : XorAdditive (shift poly) := by
  intro a b
  simp only [shift, BitVec.msb_xor, BitVec.shiftLeft_xor_distrib]
  cases a.msb <;> cases b.msb
  · simp
  · simp [BitVec.xor_assoc]
  · simp only [Bool.xor_false, if_true, Bool.false_eq_true, if_false]
    ac_rfl
  · have cancel : a <<< 1 ^^^ poly ^^^ (b <<< 1 ^^^ poly) = a <<< 1 ^^^ b <<< 1 ^^^
        (poly ^^^ poly) := by ac_rfl
    simp [cancel]

theorem shifts_xor (n : Nat) : XorAdditive (shift poly)^[n] := by
  induction n with
  | zero =>
    intro a b
    rfl
  | succ n ih =>
    intro a b
    simp only [Function.iterate_succ_apply, shift_xor poly a b, ih _ _]

theorem absorb_xor (a b : BitVec w) (x y : UInt8) :
    absorb poly (a ^^^ b) (x ^^^ y) = absorb poly a x ^^^ absorb poly b y := by
  unfold absorb
  rw [← shifts_xor poly 8, UInt8.toBitVec_xor, BitVec.setWidth_xor, BitVec.shiftLeft_xor_distrib]
  congr 1
  ac_rfl

/-- Checks of equally long inputs add up. -/
theorem run_xor (a b : BitVec w) (xs ys : List UInt8) (same : xs.length = ys.length) :
    run poly (a ^^^ b) (List.zipWith (· ^^^ ·) xs ys) = run poly a xs ^^^ run poly b ys := by
  induction xs generalizing a b ys with
  | nil =>
    cases ys with
    | nil => rfl
    | cons y ys => cases same
  | cons x xs ih =>
    cases ys with
    | nil => cases same
    | cons y ys =>
      have step := ih (absorb poly a x) (absorb poly b y) ys (Nat.succ.inj same)
      rw [← absorb_xor] at step
      exact step

@[simp] theorem run_nil (reg : BitVec w) : run poly reg [] = reg := rfl

theorem run_append (reg : BitVec w) (xs ys : List UInt8) :
    run poly reg (xs ++ ys) = run poly (run poly reg xs) ys := List.foldl_append

/-- The check of some bytes after a register is the sum of their own check and
the check of as many zero bytes after the register. -/
theorem run_split (reg : BitVec w) (xs : List UInt8) :
    run poly reg xs = run poly reg (List.replicate xs.length 0) ^^^ run poly 0#w xs := by
  have zeros : List.zipWith (· ^^^ ·) (List.replicate xs.length 0) xs = xs := by
    induction xs with
    | nil => rfl
    | cons x xs ih => simp only [List.length_cons, List.replicate_succ, List.zipWith_cons_cons,
        ih, UInt8.zero_xor]
  have sum := run_xor poly reg 0#w (List.replicate xs.length 0) xs (List.length_replicate)
  rwa [BitVec.xor_zero, zeros] at sum

/-- The check of an integer followed by fixed bytes of zero, as a map of the integer. -/
theorem run_write_xor {v : Nat} (bytes zeros : Nat) :
    XorAdditive (fun a : BitVec v => run poly 0#w
      (LittleEndian.write bytes a.toNat ++ List.replicate zeros 0)) := by
  intro a b
  have sum := run_xor poly 0#w 0#w (LittleEndian.write bytes a.toNat ++ List.replicate zeros 0)
    (LittleEndian.write bytes b.toNat ++ List.replicate zeros 0) (by simp)
  rw [BitVec.xor_self, List.zipWith_append (by simp), ← LittleEndian.write_xor] at sum
  simpa using sum

/-- A shift can be undone: a polynomial with a constant term marks where it was added. -/
theorem shift_injective (constant : poly.getLsbD 0 = true) : Function.Injective (shift poly) := by
  have wide : 0 < w := BitVec.lt_of_getLsbD constant
  refine (shift_xor poly).injective fun a zero => ?_
  unfold shift at zero
  split at zero
  · have low := congrArg (fun x => x.getLsbD 0) (BitVec.xor_eq_zero_iff.mp zero)
    simp [constant] at low
  · rename_i top
    apply BitVec.eq_of_getLsbD_eq
    intro i hi
    rw [BitVec.getLsbD_zero]
    by_cases last : i = w - 1
    · rw [last, ← BitVec.msb_eq_getLsbD_last, Bool.eq_false_iff]
      exact top
    · have moved := congrArg (fun x => x.getLsbD (i + 1)) zero
      have inside : i + 1 < w := by omega
      rw [BitVec.getLsbD_shiftLeft, BitVec.getLsbD_zero] at moved
      simpa only [inside, decide_true, Nat.add_sub_cancel, Nat.not_lt_of_le (Nat.le_add_left 1 i),
        decide_false, Bool.not_false, Bool.true_and] using moved

theorem shifts_injective (constant : poly.getLsbD 0 = true) (n : Nat) :
    Function.Injective (shift poly)^[n] :=
  (shift_injective poly constant).iterate n

theorem absorb_injective (constant : poly.getLsbD 0 = true) (byte : UInt8) :
    Function.Injective fun reg => absorb poly reg byte := by
  intro a b same
  exact (BitVec.xor_left_inj _).mp (shifts_injective poly constant 8 same)

theorem run_injective (constant : poly.getLsbD 0 = true) (bytes : List UInt8) :
    Function.Injective fun reg => run poly reg bytes := by
  induction bytes with
  | nil => exact fun _ _ same => same
  | cons byte bytes ih => exact ih.comp (absorb_injective poly constant byte)

/-- Different bytes leave different registers. -/
theorem absorb_byte_injective (constant : poly.getLsbD 0 = true) (wide : 8 ≤ w) (reg : BitVec w) :
    Function.Injective (absorb poly reg) := by
  intro x y same
  have placed := (BitVec.xor_right_inj _).mp (shifts_injective poly constant 8 same)
  apply UInt8.toBitVec_inj.mp
  apply BitVec.eq_of_getLsbD_eq
  intro i hi
  have bit := congrArg (fun x => x.getLsbD (w - 8 + i)) placed
  have inside : w - 8 + i < w := by omega
  have small : i < w := by omega
  simpa [inside, small] using bit

/-- No change of a single byte goes undetected, wherever it is. -/
theorem run_ne_of_changedAt (constant : poly.getLsbD 0 = true) (wide : 8 ≤ w) (reg : BitVec w)
    {position : Nat} {xs ys : List UInt8} (change : ChangedAt position xs ys) :
    run poly reg xs ≠ run poly reg ys := by
  obtain ⟨before, x, y, after, _, different, rfl, rfl⟩ := change
  intro same
  rw [run_append, run_append] at same
  have absorbed := run_injective poly constant after same
  exact different (absorb_byte_injective poly constant wide _ absorbed)

end Crc

end Library
