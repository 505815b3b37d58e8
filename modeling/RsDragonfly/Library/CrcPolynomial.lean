import Mathlib.Algebra.CharP.Two
import Mathlib.Algebra.Field.ZMod
import Mathlib.RingTheory.AdjoinRoot
import Mathlib.RingTheory.Polynomial.Basic
import RsDragonfly.Library.Crc

/-! The polynomials that registers and messages stand for, over the two-element field.
Bit `i` of a register is the coefficient of the `i`-th power, and exclusive or is
addition. A shift multiplies by the indeterminate, up to a multiple of the
generator, so a check is the remainder of its message times a power. -/
namespace Library

namespace Crc

open Polynomial

variable {w : Nat}

noncomputable def coefficient (bit : Bool) : (ZMod 2)[X] := if bit then 1 else 0

@[simp] theorem coefficient_false : coefficient false = 0 := rfl

@[simp] theorem coefficient_true : coefficient true = 1 := rfl

theorem coefficient_xor (a b : Bool) : coefficient (a ^^ b) = coefficient a + coefficient b := by
  have twice : (1 : (ZMod 2)[X]) + 1 = 0 := CharTwo.add_self_eq_zero 1
  cases a <;> cases b <;> simp [twice]

noncomputable def polynomial (a : BitVec w) : (ZMod 2)[X] :=
  ∑ i ∈ Finset.range w, coefficient (a.getLsbD i) * X ^ i

theorem polynomial_xor (a b : BitVec w) :
    polynomial (a ^^^ b) = polynomial a + polynomial b := by
  unfold polynomial
  rw [← Finset.sum_add_distrib]
  refine Finset.sum_congr rfl fun i _ => ?_
  rw [BitVec.getLsbD_xor, coefficient_xor, add_mul]

@[simp] theorem polynomial_zero : polynomial 0#w = 0 :=
  Finset.sum_eq_zero fun i _ => by rw [BitVec.getLsbD_zero, coefficient_false, zero_mul]

theorem degree_polynomial (a : BitVec w) : (polynomial a).degree < w := by
  rw [degree_lt_iff_coeff_zero]
  intro m above
  rw [polynomial, finsetSum_coeff]
  refine Finset.sum_eq_zero fun i inside => ?_
  have below : i < m := lt_of_lt_of_le (Finset.mem_range.mp inside) above
  cases a.getLsbD i with
  | false => simp
  | true => simp [coeff_X_pow, below.ne']

/-- The bit that leaves at the top is the difference between a shift and a product. -/
theorem polynomial_shiftLeft_one (a : BitVec w) :
    polynomial (a <<< 1) + coefficient a.msb * X ^ w = X * polynomial a := by
  cases w with
  | zero => simp [polynomial, BitVec.of_length_zero]
  | succ n =>
    have moved : ∀ i ∈ Finset.range n, coefficient ((a <<< 1).getLsbD (i + 1)) * X ^ (i + 1) =
        X * (coefficient (a.getLsbD i) * X ^ i) := by
      intro i inside
      have below : i + 1 < n + 1 := Nat.succ_lt_succ (Finset.mem_range.mp inside)
      rw [BitVec.getLsbD_shiftLeft, decide_eq_true below]
      simp only [Bool.true_and, Nat.add_sub_cancel, Nat.not_lt_of_le (Nat.le_add_left 1 i),
        decide_false, Bool.not_false]
      ring
    have lowest : (a <<< 1).getLsbD 0 = false := by simp
    rw [polynomial, Finset.sum_range_succ', lowest, coefficient_false, zero_mul, add_zero,
      Finset.sum_congr rfl moved, ← Finset.mul_sum, polynomial, Finset.sum_range_succ,
      BitVec.msb_eq_getLsbD_last, Nat.add_sub_cancel]
    ring

variable (poly : BitVec w)

/-- The polynomial a register is reduced by: `poly` has all of it but the leading term. -/
noncomputable def generator : (ZMod 2)[X] := X ^ w + polynomial poly

theorem generator_monic : (generator poly).Monic := monic_X_pow_add (degree_polynomial poly)

theorem degree_generator : (generator poly).degree = w := by
  unfold generator
  have smaller : (polynomial poly).degree < ((X : (ZMod 2)[X]) ^ w).degree := by
    rw [degree_X_pow]
    exact degree_polynomial poly
  rw [degree_add_eq_left_of_degree_lt smaller, degree_X_pow]

/-- A shift multiplies by the indeterminate, and takes the generator off if the top bit is set. -/
theorem polynomial_shift (reg : BitVec w) :
    polynomial (shift poly reg) = X * polynomial reg + coefficient reg.msb * generator poly := by
  rw [← polynomial_shiftLeft_one, generator]
  unfold shift
  cases reg.msb with
  | false => simp
  | true =>
    have twice : (X : (ZMod 2)[X]) ^ w + X ^ w = 0 := CharTwo.add_self_eq_zero _
    simp only [if_true, coefficient_true, one_mul, polynomial_xor]
    rw [add_assoc, ← add_assoc (X ^ w), twice, zero_add]

/-- `a` at the top of a wider register. -/
theorem polynomial_place {v k : Nat} (size : w = k + v) (a : BitVec v) :
    polynomial (a.setWidth w <<< k) = X ^ k * polynomial a := by
  subst size
  have below : ∀ i ∈ Finset.range k,
      coefficient ((a.setWidth (k + v) <<< k).getLsbD i) * X ^ i = 0 := by
    intro i inside
    rw [BitVec.getLsbD_shiftLeft, decide_eq_true (Finset.mem_range.mp inside)]
    simp
  have above : ∀ i ∈ Finset.range v,
      coefficient ((a.setWidth (k + v) <<< k).getLsbD (k + i)) * X ^ (k + i) =
        X ^ k * (coefficient (a.getLsbD i) * X ^ i) := by
    intro i inside
    have small : i < v := Finset.mem_range.mp inside
    have bit : (a.setWidth (k + v) <<< k).getLsbD (k + i) = a.getLsbD i := by
      simp [small]
    rw [bit]
    ring
  rw [polynomial, Finset.sum_range_add, Finset.sum_eq_zero below, zero_add,
    Finset.sum_congr rfl above, ← Finset.mul_sum, polynomial]

/-- The bits of a byte, most significant first. -/
def bits (byte : UInt8) : List Bool := (List.range 8).map byte.toBitVec.getMsbD

/-- Bytes read as a polynomial, most significant bit first. -/
noncomputable def message (bytes : List UInt8) : (ZMod 2)[X] :=
  (bytes.flatMap bits).foldl (fun p bit => X * p + coefficient bit) 0

theorem foldl_bits (byte : UInt8) (p : (ZMod 2)[X]) :
    (bits byte).foldl (fun p bit => X * p + coefficient bit) p =
      X ^ 8 * p + polynomial byte.toBitVec := by
  simp only [bits, polynomial, List.range, List.range.loop, List.map_cons, List.map_nil,
    List.foldl_cons, List.foldl_nil, Finset.sum_range_succ, Finset.sum_range_zero,
    BitVec.getMsbD_eq_getLsbD, Nat.reduceLT, decide_true, Bool.true_and, Nat.reduceSub]
  ring

theorem message_append_byte (bytes : List UInt8) (byte : UInt8) :
    message (bytes ++ [byte]) = X ^ 8 * message bytes + polynomial byte.toBitVec := by
  rw [message, List.flatMap_append, List.foldl_append, List.flatMap_singleton, foldl_bits]
  rfl

/-! Registers up to multiples of the generator. -/

/-- The remainder class of a polynomial. -/
noncomputable abbrev classOf : (ZMod 2)[X] →+* AdjoinRoot (generator poly) :=
  AdjoinRoot.mk (generator poly)

theorem class_shift (reg : BitVec w) :
    classOf poly (polynomial (shift poly reg)) = classOf poly (X * polynomial reg) := by
  rw [polynomial_shift, map_add, map_mul _ _ (generator poly), AdjoinRoot.mk_self, mul_zero,
    add_zero]

theorem class_shifts (n : Nat) (reg : BitVec w) :
    classOf poly (polynomial ((shift poly)^[n] reg)) =
      classOf poly (X ^ n * polynomial reg) := by
  induction n generalizing reg with
  | zero => rw [Function.iterate_zero, id, pow_zero, one_mul]
  | succ n ih =>
    calc classOf poly (polynomial ((shift poly)^[n + 1] reg))
        = classOf poly (X ^ n * polynomial (shift poly reg)) := by
          rw [Function.iterate_succ_apply, ih]
      _ = classOf poly (X ^ n * (X * polynomial reg)) := by
          rw [map_mul, class_shift, ← map_mul]
      _ = classOf poly (X ^ (n + 1) * polynomial reg) := by
          rw [pow_succ, mul_assoc]

theorem class_absorb (wide : 8 ≤ w) (reg : BitVec w) (byte : UInt8) :
    classOf poly (polynomial (absorb poly reg byte)) =
      classOf poly (X ^ 8 * polynomial reg + X ^ w * polynomial byte.toBitVec) := by
  have powers : (X : (ZMod 2)[X]) ^ w = X ^ 8 * X ^ (w - 8) := by
    rw [← pow_add, Nat.add_sub_cancel' wide]
  rw [absorb, class_shifts, polynomial_xor, polynomial_place (Nat.sub_add_cancel wide).symm, powers]
  congr 1
  ring

/-- The register keeps the class of what was read, times the power of its width. -/
theorem class_run (wide : 8 ≤ w) (bytes : List UInt8) :
    classOf poly (polynomial (run poly 0#w bytes)) = classOf poly (message bytes * X ^ w) := by
  induction bytes using List.reverseRecOn with
  | nil => simp [message]
  | append_singleton bytes byte ih =>
    rw [run_append]
    calc classOf poly (polynomial (absorb poly (run poly 0#w bytes) byte))
        = classOf poly (X ^ 8) * classOf poly (polynomial (run poly 0#w bytes)) +
            classOf poly (X ^ w * polynomial byte.toBitVec) := by
          rw [class_absorb poly wide, map_add, map_mul]
      _ = classOf poly (X ^ 8) * classOf poly (message bytes * X ^ w) +
            classOf poly (X ^ w * polynomial byte.toBitVec) := by rw [ih]
      _ = classOf poly (message (bytes ++ [byte]) * X ^ w) := by
          rw [message_append_byte, ← map_mul, ← map_add]
          congr 1
          ring

/-- The check is the remainder of the message, times the power of its width. -/
theorem polynomial_run (wide : 8 ≤ w) (bytes : List UInt8) :
    polynomial (run poly 0#w bytes) = (message bytes * X ^ w) %ₘ generator poly := by
  have monic := generator_monic poly
  have divides := AdjoinRoot.mk_eq_mk.mp (class_run poly wide bytes)
  rw [← modByMonic_eq_of_dvd_sub monic divides, eq_comm, modByMonic_eq_self_iff monic,
    degree_generator]
  exact degree_polynomial _

end Crc

end Library
