import Mathlib
import LowThrust.Binary64.Basic

/-!
Numbers and their bits: a number is determined by its exact value, and each value in canonical
form is that of the number packed from it.
-/

namespace LowThrust.Binary64

open Float.Model (Format UnpackedFloat)
open Float.Model.UnpackedFloat

/-! ### Bits -/

theorem toNat_packComponents (s : Sign) (e : BitVec 11) (m : BitVec 52) :
    (packComponents .binary64 s e m).toNat =
      s.toBitVec.toNat * 2 ^ 63 + e.toNat * 2 ^ 52 + m.toNat := by
  have high := Nat.shiftLeft_add_eq_or_of_lt e.isLt s.toBitVec.toNat
  have low := Nat.shiftLeft_add_eq_or_of_lt m.isLt (s.toBitVec ++ e).toNat
  rw [packComponents, BitVec.toNat_append, ← low, BitVec.toNat_append, ← high]
  simp only [Nat.shiftLeft_eq]
  omega

theorem toNat_unpackMantissa (b : BitVec 64) :
    (@unpackMantissa .binary64 b).toNat = b.toNat % 2 ^ 52 := by
  simp [unpackMantissa]

theorem toNat_unpackExponent (b : BitVec 64) :
    (@unpackExponent .binary64 b).toNat = b.toNat / 2 ^ 52 % 2 ^ 11 := by
  simp [unpackExponent, Nat.shiftRight_eq_div_pow]

theorem toNat_unpackSign (b : BitVec 64) :
    (@unpackSign .binary64 b).toNat = b.toNat / 2 ^ 63 := by
  have lt : b.toNat < 2 ^ 64 := b.isLt
  simp [unpackSign, Nat.shiftRight_eq_div_pow]
  omega

theorem eq_of_toBits_eq {x y : Float} (h : x.toBits.toNat = y.toBits.toNat) : x = y := by
  cases x with
  | ofModel a =>
    cases y with
    | ofModel b =>
      cases a
      cases b
      cases UInt64.toNat_inj.mp h
      rfl

theorem toBits_lt (x : Float) : x.toBits.toNat < 2 ^ 64 := x.toBits.toBitVec.isLt

/-- All numbers that are none have the same bits. -/
theorem toBits_of_nan {x : Float} (he : x.toBits.toNat / 2 ^ 52 % 2 ^ 11 = 2047)
    (hm : x.toBits.toNat % 2 ^ 52 ≠ 0) : x.toBits.toNat = 0x7FF8000000000000 := by
  have canonical := x.toModel.valid.eq_packedNaN
  have exponent : @unpackExponent .binary64 x.toBits.toBitVec = -1#11 := by
    apply BitVec.eq_of_toNat_eq
    rw [toNat_unpackExponent]
    exact he
  have mantissa : @unpackMantissa .binary64 x.toBits.toBitVec ≠ 0#52 := by
    intro zero
    have := congrArg BitVec.toNat zero
    rw [toNat_unpackMantissa] at this
    exact hm this
  exact congrArg BitVec.toNat (canonical exponent mantissa)

/-! ### Exact values -/

theorem decode_eq (x : Float) :
    decode x =
      let n := x.toBits.toNat
      let negative := decide (2 ^ 63 ≤ n)
      if n / 2 ^ 52 % 2 ^ 11 = 2047 then
        if n % 2 ^ 52 = 0 then .infinite negative else .nan
      else if n / 2 ^ 52 % 2 ^ 11 = 0 then .finite ⟨negative, n % 2 ^ 52, -1074⟩
      else .finite ⟨negative, 2 ^ 52 + n % 2 ^ 52, (n / 2 ^ 52 % 2 ^ 11 : Nat) - 1075⟩ := by
  simp only [decode, hiddenBit, Nat.shiftRight_eq_div_pow, Nat.shiftLeft_eq, one_mul]
  rfl

def signBits (negative : Bool) : Nat := if negative then 2 ^ 63 else 0

def Finite.bits (v : Finite) : Nat :=
  signBits v.negative +
    if v.significand < 2 ^ 52 then v.significand
    else (v.exponent + 1075).toNat * 2 ^ 52 + (v.significand - 2 ^ 52)

/-- The bits of the number with an exact value. -/
def Datum.bits : Datum → Nat
  | .nan => 0x7FF8000000000000
  | .infinite negative => signBits negative + 2047 * 2 ^ 52
  | .finite v => v.bits

/-- Finite values as they are decoded: of a significand that needs all of its bits, or of the
least exponent. -/
structure Finite.Canonical (v : Finite) : Prop where
  lt : v.significand < 2 ^ 53
  least : -1074 ≤ v.exponent
  greatest : v.exponent ≤ 971
  full : 2 ^ 52 ≤ v.significand ∨ v.exponent = -1074

theorem toBits_eq_bits (x : Float) : x.toBits.toNat = (decode x).bits := by
  have lt := toBits_lt x
  have sign : signBits (decide (2 ^ 63 ≤ x.toBits.toNat)) = x.toBits.toNat / 2 ^ 63 * 2 ^ 63 := by
    by_cases h : 2 ^ 63 ≤ x.toBits.toNat
    · rw [decide_eq_true h]
      change 2 ^ 63 = _
      omega
    · rw [decide_eq_false h]
      change 0 = _
      omega
  rw [decode_eq]
  dsimp only
  split
  · next he =>
    split
    · rw [Datum.bits, sign]
      omega
    · next hm => exact toBits_of_nan he hm
  · split
    · simp only [Datum.bits, Finite.bits, sign]
      rw [if_pos (by omega)]
      omega
    · simp only [Datum.bits, Finite.bits, sign]
      rw [if_neg (by omega)]
      omega

/-- A number is determined by its exact value. -/
theorem decode_injective : Function.Injective decode := by
  intro x y h
  apply eq_of_toBits_eq
  rw [toBits_eq_bits, toBits_eq_bits, h]

theorem canonical_of_decode {x : Float} {v : Finite} (h : decode x = .finite v) :
    v.Canonical := by
  have lt := toBits_lt x
  rw [decode_eq] at h
  dsimp only at h
  split at h
  · split at h <;> cases h
  · split at h
    · cases h
      exact ⟨by dsimp only; omega, Int.le_refl _, by dsimp only; omega, Or.inr rfl⟩
    · cases h
      constructor <;> dsimp only <;> omega

theorem decode_of_bits {x : Float} {v : Finite} (hv : v.Canonical)
    (h : x.toBits.toNat = v.bits) : decode x = .finite v := by
  obtain ⟨negative, m, e⟩ := v
  obtain ⟨lt, least, greatest, full⟩ := hv
  simp only at lt least greatest full
  -- The bits below the sign, of which the exponent's are not all set.
  obtain ⟨k, hk, bits, hm, he⟩ : ∃ k, k < 2047 * 2 ^ 52 ∧
      x.toBits.toNat = signBits negative + k ∧
        (k / 2 ^ 52 = 0 → m = k % 2 ^ 52 ∧ e = -1074) ∧
          (k / 2 ^ 52 ≠ 0 → m = 2 ^ 52 + k % 2 ^ 52 ∧ e = (k / 2 ^ 52 : Nat) - 1075) := by
    refine ⟨_, ?_, h, ?_, ?_⟩ <;> (simp only; split) <;> omega
  have sign : decide (2 ^ 63 ≤ x.toBits.toNat) = negative := by
    rw [bits, signBits]
    cases negative with
    | false =>
      simp only [Bool.false_eq_true, if_false, decide_eq_false_iff_not]
      omega
    | true =>
      simp only [if_true, decide_eq_true_eq]
      omega
  have rest : x.toBits.toNat / 2 ^ 52 % 2 ^ 11 = k / 2 ^ 52 ∧
      x.toBits.toNat % 2 ^ 52 = k % 2 ^ 52 := by
    rw [bits, signBits]
    cases negative <;> simp <;> omega
  rw [decode_eq]
  dsimp only
  rw [sign, rest.1, rest.2, if_neg (by omega)]
  split
  · next zero => rw [(hm zero).1, (hm zero).2]
  · next ne => rw [(he ne).1, (he ne).2]

/-! ### Unpacked values -/

def signOf (negative : Bool) : Sign := if negative then .negative else .positive

theorem toNat_signOf (negative : Bool) :
    (signOf negative).toBitVec.toNat * 2 ^ 63 = signBits negative := by
  cases negative <;> rfl

namespace Finite

def unpacked (v : Finite) (h : 0 < v.significand) : UnpackedFloat :=
  .finite (signOf v.negative) v.significand v.exponent h

/-- The number with a value in canonical form. -/
def toFloat (v : Finite) (h : 0 < v.significand) : Float :=
  .ofModel (.pack (v.unpacked h))

theorem toBits_toFloat {v : Finite} (hv : v.Canonical) (h : 0 < v.significand) :
    (v.toFloat h).toBits.toNat = v.bits := by
  obtain ⟨lt, least, greatest, full⟩ := hv
  have biased : (v.exponent + (Format.binary64.exponentBias : Int) + (52 : Nat)).toNat =
      (v.exponent + 1075).toNat := by
    change (v.exponent + 1023 + 52).toNat = _
    omega
  change (UnpackedFloat.pack .binary64 (v.unpacked h)).toNat = _
  simp only [unpacked, UnpackedFloat.pack, biased]
  rw [if_neg (by omega), bits]
  by_cases normal : 2 ^ 52 ≤ v.significand
  · have log : v.significand.log2 = 52 := (Nat.log2_eq_iff (by omega)).mpr ⟨normal, lt⟩
    rw [log, if_pos (by rfl), toNat_packComponents, toNat_signOf, if_neg (by omega), BitVec.toNat_ofNat,
      BitVec.toNat_ofNat]
    omega
  · have log : v.significand.log2 < 52 := (Nat.log2_lt (by omega)).mpr (by omega)
    have width : ¬ v.significand.log2 + 1 = Format.binary64.mantissaBits := by
      change ¬ v.significand.log2 + 1 = 53
      omega
    rw [if_neg width, toNat_packComponents, toNat_signOf, if_pos (by omega), BitVec.toNat_ofNat,
      BitVec.toNat_ofNat]
    omega

theorem decode_toFloat {v : Finite} (hv : v.Canonical) (h : 0 < v.significand) :
    decode (v.toFloat h) = .finite v :=
  decode_of_bits hv (toBits_toFloat hv h)

end Finite

theorem ofBitVec_unpackSign (x : Float) :
    Sign.ofBitVec (@unpackSign .binary64 x.toBits.toBitVec) =
      signOf (decide (2 ^ 63 ≤ x.toBits.toNat)) := by
  have lt := toBits_lt x
  have value := toNat_unpackSign x.toBits.toBitVec
  by_cases negative : 2 ^ 63 ≤ x.toBits.toNat
  · have one : @unpackSign .binary64 x.toBits.toBitVec = 1#1 := by
      apply BitVec.eq_of_toNat_eq
      rw [value]
      change x.toBits.toNat / 2 ^ 63 = 1
      omega
    rw [one, decide_eq_true negative]
    rfl
  · have zero : @unpackSign .binary64 x.toBits.toBitVec = 0#1 := by
      apply BitVec.eq_of_toNat_eq
      rw [value]
      change x.toBits.toNat / 2 ^ 63 = 0
      omega
    rw [zero, decide_eq_false negative]
    rfl

theorem unpack_of_decode {x : Float} {v : Finite} (hx : decode x = .finite v)
    (h : 0 < v.significand) : x.toModel.unpack = v.unpacked h := by
  have lt := toBits_lt x
  have exponent := toNat_unpackExponent x.toBits.toBitVec
  have mantissa := toNat_unpackMantissa x.toBits.toBitVec
  have sign := ofBitVec_unpackSign x
  rw [decode_eq] at hx
  dsimp only at hx
  split at hx
  · split at hx <;> cases hx
  · next notAll =>
    have finite : ¬ @unpackExponent .binary64 x.toBits.toBitVec = -1#11 := by
      intro all
      rw [all] at exponent
      exact notAll exponent.symm
    change UnpackedFloat.unpack .binary64 x.toBits.toBitVec = _
    simp only [UnpackedFloat.unpack, finite, if_false, sign]
    split at hx
    · next none =>
      cases hx
      have zero : @unpackExponent .binary64 x.toBits.toBitVec = 0#11 := by
        apply BitVec.eq_of_toNat_eq
        rw [exponent]
        exact none
      have some : ¬ @unpackMantissa .binary64 x.toBits.toBitVec = 0#52 := by
        intro zero
        rw [zero] at mantissa
        exact Nat.ne_of_lt h mantissa
      rw [if_pos zero, dif_neg some]
      simp only [mantissa, zero]
      rfl
    · next some =>
      cases hx
      have pos : ¬ @unpackExponent .binary64 x.toBits.toBitVec = 0#11 := by
        intro zero
        rw [zero] at exponent
        exact some exponent.symm
      have full : (1#1 ++ @unpackMantissa .binary64 x.toBits.toBitVec).toNat =
          2 ^ 52 + x.toBits.toNat % 2 ^ 52 := by
        rw [BitVec.toNat_append, ← Nat.shiftLeft_add_eq_or_of_lt (BitVec.isLt _), mantissa]
        rfl
      rw [if_neg pos]
      simp only [full, exponent]
      rfl

theorem neg_signOf (negative : Bool) : -signOf negative = signOf (!negative) := by
  cases negative <;> rfl

theorem neg_eq_toFloat {x : Float} {v : Finite} (hx : decode x = .finite v)
    (h : 0 < v.significand) : -x = Finite.toFloat ⟨!v.negative, v.significand, v.exponent⟩ h := by
  change Float.ofModel (.pack x.toModel.unpack.neg) = _
  rw [unpack_of_decode hx h, Finite.unpacked, UnpackedFloat.neg, neg_signOf]
  rw [Finite.toFloat, Finite.unpacked]

theorem decode_neg {x : Float} {v : Finite} (hx : decode x = .finite v)
    (h : 0 < v.significand) :
    decode (-x) = .finite ⟨!v.negative, v.significand, v.exponent⟩ := by
  have canonical := canonical_of_decode hx
  rw [neg_eq_toFloat hx h]
  apply Finite.decode_toFloat
  exact ⟨canonical.lt, canonical.least, canonical.greatest, canonical.full⟩

end LowThrust.Binary64
