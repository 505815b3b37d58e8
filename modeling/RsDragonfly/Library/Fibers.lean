import Mathlib.Data.BitVec
import Mathlib.Data.Fintype.BigOperators
import Mathlib.SetTheory.Cardinal.Finite
import RsDragonfly.Library.Crc

/-! How many arguments a map sends to one value.
An additive map with a right inverse reaches every value equally often, since its
argument splits into the value and an argument sent to a fixed one. Lists are
counted by their last element. -/
namespace Library

namespace XorAdditive

variable {v w : Nat}

theorem xor_cancel_two (a b c : BitVec w) : a ^^^ b ^^^ c ^^^ c ^^^ b = a := by
  rw [BitVec.xor_assoc (a ^^^ b), BitVec.xor_self, BitVec.xor_zero, BitVec.xor_assoc,
    BitVec.xor_self, BitVec.xor_zero]

/-- An argument is its value and its distance from the chosen argument of that value. -/
def splitFiber {f : BitVec v → BitVec w} (hf : XorAdditive f) {choose : BitVec w → BitVec v}
    (right : ∀ value, f (choose value) = value) (target : BitVec w) :
    BitVec v ≃ BitVec w × {a // f a = target} where
  toFun a := (f a, ⟨a ^^^ choose (f a) ^^^ choose target, by
    rw [hf, hf, right, right, BitVec.xor_self, BitVec.zero_xor]⟩)
  invFun out := out.2.1 ^^^ choose target ^^^ choose out.1
  left_inv a := xor_cancel_two a (choose (f a)) (choose target)
  right_inv := by
    rintro ⟨value, a, here⟩
    have back : f (a ^^^ choose target ^^^ choose value) = value := by
      rw [hf, hf, right, right, here, BitVec.xor_self, BitVec.zero_xor]
    refine Prod.ext back (Subtype.ext ?_)
    change a ^^^ choose target ^^^ choose value ^^^
      choose (f (a ^^^ choose target ^^^ choose value)) ^^^ choose target = a
    rw [back, xor_cancel_two]

theorem card_bitVec (n : Nat) : Nat.card (BitVec n) = 2 ^ n := by
  rw [Nat.card_congr BitVec.equivFin.toEquiv, Nat.card_fin]

theorem card_fiber {f : BitVec v → BitVec w} (hf : XorAdditive f) {choose : BitVec w → BitVec v}
    (right : ∀ value, f (choose value) = value) (target : BitVec w) :
    2 ^ w * Nat.card {a // f a = target} = 2 ^ v := by
  rw [← card_bitVec v, Nat.card_congr (hf.splitFiber right target), Nat.card_prod, card_bitVec]

end XorAdditive

variable {α : Type}

/-- A list that is not empty is a shorter one and a last element. -/
def appendLast (P : List α → Prop) (n : Nat)
    (out : Σ before : List.Vector α n, {last : α // P (before.1 ++ [last])}) :
    {xs : List α // xs.length = n + 1 ∧ P xs} :=
  ⟨out.1.1 ++ [out.2.1], by rw [List.length_append, out.1.2, List.length_singleton], out.2.2⟩

theorem appendLast_bijective (P : List α → Prop) (n : Nat) :
    Function.Bijective (appendLast P n) := by
  constructor
  · rintro ⟨⟨before, size⟩, last, here⟩ ⟨⟨other, size'⟩, last', here'⟩ same
    obtain ⟨rfl, ends⟩ := List.append_inj' (congrArg Subtype.val same) rfl
    cases ends
    rfl
  · rintro ⟨xs, size, here⟩
    have some_there : xs ≠ [] := List.ne_nil_of_length_eq_add_one size
    have whole := List.dropLast_append_getLast some_there
    refine ⟨⟨⟨xs.dropLast, ?_⟩, xs.getLast some_there, ?_⟩, Subtype.ext whole⟩
    · rw [List.length_dropLast, size, Nat.add_sub_cancel]
    · rwa [whole]

/-- Where every list has equally many extensions with `P`, lists with `P` are counted by
their length. -/
theorem card_extensions [Finite α] (P : List α → Prop) (n each : Nat)
    (extensions : ∀ before : List α, before.length = n →
      Nat.card {last : α // P (before ++ [last])} = each) :
    Nat.card {xs : List α // xs.length = n + 1 ∧ P xs} = Nat.card α ^ n * each := by
  have _ := Fintype.ofFinite α
  rw [← Nat.card_eq_of_bijective _ (appendLast_bijective P n), Nat.card_sigma,
    Finset.sum_congr rfl fun before _ => extensions before.1 before.2, Finset.sum_const,
    Finset.card_univ, card_vector, Nat.card_eq_fintype_card, nsmul_eq_mul, Nat.cast_id]

end Library
