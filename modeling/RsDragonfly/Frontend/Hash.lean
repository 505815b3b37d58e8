import RsDragonfly.Frontend.Router
import RsDragonfly.Library.CrcPolynomial
import RsDragonfly.Library.Fibers

/-! `common/hash.rs`: what `crc16` computes, and how evenly it spreads keys.
The register is that of a check with the polynomial 0x1021. Its last byte enters
by an additive map, and that map reaches all six bits of a shard. -/
namespace RsDragonfly
open Library

/-- The constant of `crc16`: the generator without its leading term. -/
def ccitt : BitVec 16 := 0x1021#16

theorem top_bit (crc : UInt16) : crc &&& 0x8000 ≠ 0 ↔ crc.toBitVec.msb = true := by
  have masked : (crc &&& 0x8000).toBitVec =
      if crc.toBitVec.msb then BitVec.twoPow 16 15 else 0#16 := by
    rw [BitVec.msb_eq_getLsbD_last, ← BitVec.and_twoPow]
    rfl
  rw [Ne, ← UInt16.toBitVec_inj, masked]
  cases crc.toBitVec.msb <;> decide

theorem crc16Bit_shift (crc : UInt16) : (crc16Bit crc).toBitVec = Crc.shift ccitt crc.toBitVec := by
  unfold crc16Bit Crc.shift
  by_cases set : crc.toBitVec.msb = true
  · rw [if_pos ((top_bit crc).mpr set), if_pos set]
    rfl
  · rw [if_neg (mt (top_bit crc).mp set), if_neg set]
    rfl

theorem crc16Bits_shifts (n : Nat) (crc : UInt16) :
    (Nat.repeat crc16Bit n crc).toBitVec = (Crc.shift ccitt)^[n] crc.toBitVec := by
  induction n with
  | zero => rfl
  | succ n ih => rw [Nat.repeat, crc16Bit_shift, ih, Function.iterate_succ_apply']

theorem crc16_append_byte (data : Bytes) (byte : UInt8) :
    crc16 (data ++ [byte]) =
      Nat.repeat crc16Bit 8 (crc16 data ^^^ (byte.toUInt16 <<< (8 : UInt16))) := by
  unfold crc16
  rw [List.foldl_append, List.foldl_cons, List.foldl_nil]

theorem crc16_run (data : Bytes) : (crc16 data).toBitVec = Crc.run ccitt 0#16 data := by
  induction data using List.reverseRecOn with
  | nil => rfl
  | append_singleton data byte ih =>
    rw [crc16_append_byte, crc16Bits_shifts, UInt16.toBitVec_xor, ih, Crc.run_append]
    rfl

section
open Polynomial

theorem generator_ccitt : Crc.generator ccitt = X ^ 16 + X ^ 12 + X ^ 5 + 1 := by
  have tail : Crc.polynomial ccitt = 1 + X ^ 5 + X ^ 12 := by
    simp [Crc.polynomial, ccitt, Finset.sum_range_succ]
  rw [Crc.generator, tail]
  ring

/-- `crc16` is the remainder of the message times `X ^ 16`. -/
theorem crc16_remainder (m : Bytes) :
    Crc.polynomial (crc16 m).toBitVec =
      (Crc.message m * X ^ 16) %ₘ (X ^ 16 + X ^ 12 + X ^ 5 + 1) := by
  rw [crc16_run, Crc.polynomial_run ccitt (by decide), generator_ccitt]

end

def lowBits (key : Key) : BitVec 6 := (crc16 key).toBitVec.setWidth 6

theorem routeKey_lowBits (key : Key) : (routeKey key).id.toNat = (lowBits key).toNat := by
  have masked : (crc16 key).toNat &&& (shardCount - 1) = (crc16 key).toNat % 2 ^ 6 :=
    Nat.and_two_pow_sub_one_eq_mod _ 6
  have small : (crc16 key).toNat % 2 ^ 6 < UInt16.size :=
    Nat.lt_trans (Nat.mod_lt _ (by decide)) (by decide : 2 ^ 6 < UInt16.size)
  rw [routeKey, masked, UInt16.toNat_ofNat_of_lt' small, lowBits, BitVec.toNat_setWidth,
    UInt16.toNat_toBitVec]

def lastByte (a : BitVec 8) : BitVec 6 := (Crc.absorb ccitt 0#16 (UInt8.ofBitVec a)).setWidth 6

theorem lastByte_xor : XorAdditive lastByte := by
  intro a b
  have sum := Crc.absorb_xor ccitt 0#16 0#16 (UInt8.ofBitVec a) (UInt8.ofBitVec b)
  rw [BitVec.xor_self] at sum
  unfold lastByte
  rw [← BitVec.setWidth_xor, ← sum]
  rfl

theorem lowBits_append_byte (p : Key) (byte : UInt8) :
    lowBits (p ++ [byte]) = lowBits (p ++ [0]) ^^^ lastByte byte.toBitVec := by
  have sum := Crc.absorb_xor ccitt (crc16 p).toBitVec 0#16 0 byte
  rw [BitVec.xor_zero, UInt8.zero_xor] at sum
  have after (b : UInt8) : lowBits (p ++ [b]) =
      (Crc.absorb ccitt (crc16 p).toBitVec b).setWidth 6 := by
    rw [lowBits, crc16_run, Crc.run_append, ← crc16_run]
    rfl
  rw [after, after, sum, BitVec.setWidth_xor, lastByte, UInt8.ofBitVec_toBitVec]

/-- A last byte for given low bits: the solution for each of the six bits, added up. -/
def chooseByte (low : BitVec 6) : BitVec 8 :=
  XorAdditive.ofColumns low [0x23#8, 0x02#8, 0x04#8, 0x08#8, 0x11#8, 0x22#8] 0

theorem lastByte_chooseByte (low : BitVec 6) : lastByte (chooseByte low) = low :=
  (lastByte_xor.comp (XorAdditive.ofColumns_xor _ 0)).eq_of_units .id (by decide +kernel) low

def byteBits : UInt8 ≃ BitVec 8 where
  toFun := UInt8.toBitVec
  invFun := UInt8.ofBitVec
  left_inv _ := rfl
  right_inv _ := rfl

theorem card_byte : Nat.card UInt8 = 256 := by
  rw [Nat.card_congr byteBits, XorAdditive.card_bitVec]
  rfl

theorem routeKey_eq_iff (key : Key) (s : Fin shardCount) :
    (routeKey key).id.toNat = s ↔ lowBits key = BitVec.ofNat 6 s := by
  have small : (s : Nat) % 2 ^ 6 = s := Nat.mod_eq_of_lt s.isLt
  rw [routeKey_lowBits, ← BitVec.toNat_inj, BitVec.toNat_ofNat, small]

theorem card_extensions_routed (p : Key) (s : Fin shardCount) :
    Nat.card {b : UInt8 // (routeKey (p ++ [b])).id.toNat = s} = 256 / shardCount := by
  have solved (b : UInt8) : (routeKey (p ++ [b])).id.toNat = s ↔
      lastByte (byteBits b) = lowBits (p ++ [0]) ^^^ BitVec.ofNat 6 s := by
    rw [routeKey_eq_iff, lowBits_append_byte, ← BitVec.xor_right_inj (lowBits (p ++ [0])),
      ← BitVec.xor_assoc, BitVec.xor_self, BitVec.zero_xor]
    rfl
  have fiber := lastByte_xor.card_fiber lastByte_chooseByte
    (lowBits (p ++ [0]) ^^^ BitVec.ofNat 6 s)
  have sizes : 2 ^ 6 * (256 / shardCount) = 2 ^ 8 := rfl
  rw [Nat.card_congr (byteBits.subtypeEquiv (q := fun a => lastByte a = _) solved)]
  omega

/-- Routing is uniform: over the extensions of any prefix, and over the keys of any length. -/
theorem routing_uniform (s : Fin shardCount) :
    (∀ p : Key, Nat.card {b : UInt8 // (routeKey (p ++ [b])).id.toNat = s} = 256 / shardCount) ∧
      ∀ n : Nat, Nat.card {key : Key // key.length = n + 1 ∧ (routeKey key).id.toNat = s} =
        256 ^ (n + 1) / shardCount := by
  refine ⟨fun p => card_extensions_routed p s, fun n => ?_⟩
  have _ : Finite UInt8 := Finite.of_equiv _ (byteBits.trans BitVec.equivFin.toEquiv).symm
  rw [card_extensions (fun key : Key => (routeKey key).id.toNat = s) n _
    fun p _ => card_extensions_routed p s, card_byte, pow_succ,
    Nat.mul_div_assoc _ (by decide : shardCount ∣ 256)]

end RsDragonfly
