import Mathlib.RingTheory.PrincipalIdealDomain
import RsDragonfly.Library.CrcPolynomial

/-! Bursts: messages that differ only within a window no wider than the register.
A generator with a constant term shares no factor with a power of the indeterminate,
so it divides a message times such a power only if it divides the message, and it
divides no message shorter than itself but zero. -/
namespace Library

/-- Two lists of one length that agree outside a window. -/
structure AgreeOutside {α : Type} (start size : Nat) (xs ys : List α) : Prop where
  length : xs.length = ys.length
  outside : ∀ i, i < start ∨ start + size ≤ i → xs[i]? = ys[i]?

namespace AgreeOutside

variable {α : Type} {start size n : Nat} {xs ys : List α}

theorem take_same (h : AgreeOutside start size xs ys) (before : n ≤ start) :
    xs.take n = ys.take n := by
  apply List.ext_getElem?
  intro i
  rw [List.getElem?_take, List.getElem?_take]
  split
  · exact h.outside i (.inl (by omega))
  · rfl

theorem drop_same (h : AgreeOutside start size xs ys) (after : start + size ≤ n) :
    xs.drop n = ys.drop n := by
  apply List.ext_getElem?
  intro i
  rw [List.getElem?_drop, List.getElem?_drop]
  exact h.outside (n + i) (.inr (by omega))

theorem take (h : AgreeOutside start size xs ys) (n : Nat) :
    AgreeOutside start size (xs.take n) (ys.take n) := by
  constructor
  · rw [List.length_take, List.length_take, h.length]
  · intro i out
    rw [List.getElem?_take, List.getElem?_take, h.outside i out]

theorem drop (h : AgreeOutside start size xs ys) (n : Nat) :
    AgreeOutside (start - n) size (xs.drop n) (ys.drop n) := by
  constructor
  · rw [List.length_drop, List.length_drop, h.length]
  · intro i out
    rw [List.getElem?_drop, List.getElem?_drop]
    exact h.outside (n + i) (by omega)

/-- One window put in the place of another. -/
theorem window (before part other after : List α) (same : part.length = other.length) :
    AgreeOutside before.length part.length (before ++ (part ++ after))
      (before ++ (other ++ after)) := by
  constructor
  · simp [same]
  · intro i out
    rcases out with front | behind
    · rw [List.getElem?_append_left front, List.getElem?_append_left front]
    · rw [← List.append_assoc, ← List.append_assoc,
        List.getElem?_append_right (by simpa using behind),
        List.getElem?_append_right (by simpa [← same] using behind)]
      simp [same]

end AgreeOutside

namespace Crc

open Polynomial

variable {w : Nat}

theorem coeff_polynomial (a : BitVec w) (i : Nat) :
    (polynomial a).coeff i = if a.getLsbD i then 1 else 0 := by
  by_cases inside : i < w
  · have own : ∀ j ∈ Finset.range w, j ≠ i → (coefficient (a.getLsbD j) * X ^ j).coeff i = 0 := by
      intro j _ other
      cases a.getLsbD j with
      | false => simp
      | true => simp [coeff_X_pow, other.symm]
    rw [polynomial, finsetSum_coeff, Finset.sum_eq_single_of_mem i (Finset.mem_range.mpr inside) own]
    cases a.getLsbD i with
    | false => simp
    | true => simp
  · have outside : w ≤ i := Nat.le_of_not_lt inside
    rw [BitVec.getLsbD_of_ge a i outside]
    exact coeff_eq_zero_of_degree_lt (lt_of_lt_of_le (degree_polynomial a) (by exact_mod_cast outside))

theorem eq_zero_of_polynomial {a : BitVec w} (zero : polynomial a = 0) : a = 0#w := by
  apply BitVec.eq_of_getLsbD_eq
  intro i _
  have bit := coeff_polynomial a i
  rw [zero, coeff_zero] at bit
  rw [BitVec.getLsbD_zero]
  cases same : a.getLsbD i with
  | false => rfl
  | true => simp [same] at bit

theorem degree_message (bytes : List UInt8) :
    (message bytes).degree < ((8 * bytes.length : Nat) : WithBot Nat) := by
  induction bytes using List.reverseRecOn with
  | nil => simp [message]
  | append_singleton bytes byte ih =>
    rw [degree_lt_iff_coeff_zero] at ih ⊢
    intro m above
    rw [List.length_append, List.length_singleton] at above
    have last : (polynomial byte.toBitVec).coeff m = 0 := by
      rw [coeff_polynomial, BitVec.getLsbD_of_ge _ m (by omega)]
      rfl
    rw [message_append_byte, coeff_add, coeff_X_pow_mul', if_pos (by omega), last, add_zero]
    exact ih (m - 8) (by omega)

theorem zero_of_message {bytes : List UInt8} (zero : message bytes = 0) :
    ∀ byte ∈ bytes, byte = 0 := by
  induction bytes using List.reverseRecOn with
  | nil => simp
  | append_singleton bytes byte ih =>
    rw [message_append_byte] at zero
    have small : (polynomial byte.toBitVec).degree < ((X : (ZMod 2)[X]) ^ 8).degree := by
      rw [degree_X_pow]
      exact degree_polynomial _
    obtain ⟨quotient, remainder⟩ := div_modByMonic_unique (message bytes)
      (polynomial byte.toBitVec) (monic_X_pow 8) ⟨by rw [add_comm, zero], small⟩
    rw [zero_divByMonic] at quotient
    rw [zero_modByMonic] at remainder
    intro other member
    rcases List.mem_append.mp member with before | last
    · exact ih quotient.symm other before
    · rw [List.mem_singleton.mp last]
      exact UInt8.toBitVec_inj.mp (eq_zero_of_polynomial remainder.symm)

variable (poly : BitVec w)

theorem isCoprime_generator (constant : poly.getLsbD 0 = true) (n : Nat) :
    IsCoprime (X ^ n) (generator poly) := by
  have wide : 0 < w := BitVec.lt_of_getLsbD constant
  have lowest : (generator poly).coeff 0 = 1 := by
    rw [generator, coeff_add, coeff_polynomial, constant, coeff_X_pow, if_neg (by omega)]
    simp
  apply IsCoprime.pow_left
  apply (irreducible_X.coprime_iff_not_dvd).mpr
  rw [X_dvd_iff, lowest]
  exact one_ne_zero

/-- A message no longer than the register has a check of zero only if it is zero. -/
theorem zero_of_run (constant : poly.getLsbD 0 = true) (wide : 8 ≤ w) {bytes : List UInt8}
    (short : 8 * bytes.length ≤ w) (zero : run poly 0#w bytes = 0#w) : ∀ byte ∈ bytes, byte = 0 := by
  apply zero_of_message
  have remainder := polynomial_run poly wide bytes
  rw [zero, polynomial_zero] at remainder
  have divides : generator poly ∣ message bytes * X ^ w :=
    (modByMonic_eq_zero_iff_dvd (generator_monic poly)).mp remainder.symm
  have message_divides : generator poly ∣ message bytes :=
    (isCoprime_generator poly constant w).symm.dvd_of_dvd_mul_right divides
  apply eq_zero_of_dvd_of_degree_lt message_divides
  rw [degree_generator]
  exact lt_of_lt_of_le (degree_message bytes) (by exact_mod_cast short)

theorem run_short_injective (constant : poly.getLsbD 0 = true) (wide : 8 ≤ w) (reg : BitVec w)
    {xs ys : List UInt8} (length : xs.length = ys.length) (short : 8 * xs.length ≤ w)
    (same : run poly reg xs = run poly reg ys) : xs = ys := by
  have sum := run_xor poly reg reg xs ys length
  rw [same, BitVec.xor_self, BitVec.xor_self] at sum
  have zeros := zero_of_run poly constant wide (by simpa [length] using short) sum
  apply List.ext_getElem length
  intro i inside below
  have byte := zeros (xs[i] ^^^ ys[i]) (List.mem_iff_getElem.mpr ⟨i, by simp [inside, below], by simp⟩)
  exact UInt8.xor_eq_zero_iff.mp byte

/-- No change within a window as wide as the register goes undetected, wherever it is. -/
theorem run_ne_of_burst (constant : poly.getLsbD 0 = true) (wide : 8 ≤ w) (reg : BitVec w)
    {start size : Nat} (short : 8 * size ≤ w) {xs ys : List UInt8}
    (burst : AgreeOutside start size xs ys) (different : xs ≠ ys) :
    run poly reg xs ≠ run poly reg ys := by
  intro same
  apply different
  have parts (zs : List UInt8) : zs = zs.take start ++ ((zs.drop start).take size ++
      zs.drop (start + size)) := by
    rw [← List.drop_drop, List.take_append_drop, List.take_append_drop]
  have before := burst.take_same (Nat.le_refl start)
  have after := burst.drop_same (Nat.le_refl (start + size))
  have middle := ((burst.drop start).take size).length
  rw [parts xs, parts ys, run_append, run_append, run_append, run_append, before, after] at same
  have inner := run_injective poly constant _ same
  have window := run_short_injective poly constant wide _ middle
    (Nat.le_trans (Nat.mul_le_mul_left 8 (List.length_take_le ..)) short) inner
  rw [parts xs, parts ys, before, after, window]

end Crc

end Library
