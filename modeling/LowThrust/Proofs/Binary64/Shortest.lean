import LowThrust.Proofs.Binary64.Reading

/-!
The shortest decimal of a number reads back as the number: every candidate that is taken rounds to
the number, and with seventeen digits there always is one.
-/

namespace LowThrust.Binary64

open Decimal (roundHalfEven roundHalfEven_near digitCount tenTo tenTo_pos)

theorem zpow_mul_pow {b : ℚ} (hb : b ≠ 0) (k : Int) : b ^ k * b ^ (-k).toNat = b ^ k.toNat := by
  rw [← zpow_natCast, ← zpow_natCast, ← zpow_add₀ hb]
  congr 1
  omega

namespace Finite

variable {v : Finite}

/-! ### Candidates -/

/-- The gap to the number below, in quarters of a unit of the significand. -/
def gap (v : Finite) : Nat := if v.significand = hiddenBit ∧ -1074 < v.exponent then 1 else 2

theorem gap_le (v : Finite) : v.gap ≤ 2 := by
  rw [gap]
  split <;> decide

/-- A unit of the significand in the scale in which candidates are compared. -/
def scale (v : Finite) (k : Int) : Nat := (1 <<< v.exponent.toNat) * tenTo (-k).toNat

theorem scale_pos (v : Finite) (k : Int) : 0 < v.scale k := by
  rw [scale, Nat.shiftLeft_eq, one_mul]
  exact Nat.mul_pos (Nat.two_pow_pos _) (tenTo_pos _)

theorem candidate_eq (v : Finite) (c : Nat) (k : Int) :
    ((4 * v.denominator * (c * tenTo k.toNat) : Nat) : ℚ) =
      4 * (c * 10 ^ k / 2 ^ v.exponent) * v.scale k := by
  have two := zpow_mul_pow (two_ne_zero (α := ℚ)) v.exponent
  have ten := zpow_mul_pow (by norm_num : (10 : ℚ) ≠ 0) k
  have pos : (2 : ℚ) ^ v.exponent ≠ 0 := (zpow_pos two_pos _).ne'
  rw [denominator, scale, Nat.shiftLeft_eq, Nat.shiftLeft_eq, Decimal.tenTo_eq, Decimal.tenTo_eq]
  push_cast
  rw [← two, ← ten]
  field_simp

theorem low_eq (h : 0 < v.significand) (k : Int) :
    (((4 * v.numerator - v.gap * (1 <<< v.exponent.toNat)) * tenTo (-k).toNat : Nat) : ℚ) =
      4 * (v.significand - (v.gap : ℚ) / 4) * v.scale k := by
  have le := v.gap_le
  have parts : (4 * v.numerator - v.gap * (1 <<< v.exponent.toNat)) * tenTo (-k).toNat =
      (4 * v.significand - v.gap) * v.scale k := by
    rw [numerator, scale, Nat.shiftLeft_eq, Nat.shiftLeft_eq, one_mul, ← Nat.mul_assoc,
      ← Nat.sub_mul, Nat.mul_assoc]
  rw [parts]
  push_cast [Nat.cast_sub (by omega : v.gap ≤ 4 * v.significand)]
  ring

theorem high_eq (v : Finite) (k : Int) :
    (((4 * v.numerator + 2 * (1 <<< v.exponent.toNat)) * tenTo (-k).toNat : Nat) : ℚ) =
      4 * (v.significand + 1 / 2) * v.scale k := by
  rw [numerator, scale, Nat.shiftLeft_eq, Nat.shiftLeft_eq]
  push_cast
  ring

/-- The comparisons with the ends of the interval, in units of the significand. -/
theorem readsBack_iff (h : 0 < v.significand) (c : Nat) (k : Int) :
    v.readsBack c k = true ↔
      let y : ℚ := c * 10 ^ k / 2 ^ v.exponent
      if v.significand % 2 = 0 then
        v.significand - (v.gap : ℚ) / 4 ≤ y ∧ y ≤ v.significand + 1 / 2
      else v.significand - (v.gap : ℚ) / 4 < y ∧ y < v.significand + 1 / 2 := by
  have pos : (0 : ℚ) < v.scale k := by exact_mod_cast v.scale_pos k
  have four : (0 : ℚ) < 4 := by norm_num
  have gapUnit : (if v.significand = hiddenBit ∧ -1074 < v.exponent then 1 <<< v.exponent.toNat
      else 2 * (1 <<< v.exponent.toNat)) = v.gap * (1 <<< v.exponent.toNat) := by
    rw [gap]
    split
    · rw [one_mul]
    · rfl
  have low := low_eq h k
  have high := v.high_eq k
  have candidate := v.candidate_eq c k
  simp only [readsBack, gapUnit]
  split
  · rw [decide_eq_true_eq, ← Nat.cast_le (α := ℚ), ← Nat.cast_le (α := ℚ), low, high, candidate,
      mul_le_mul_iff_of_pos_right pos, mul_le_mul_iff_of_pos_right pos,
      mul_le_mul_iff_of_pos_left four, mul_le_mul_iff_of_pos_left four]
  · rw [decide_eq_true_eq, ← Nat.cast_lt (α := ℚ), ← Nat.cast_lt (α := ℚ), low, high, candidate,
      mul_lt_mul_iff_of_pos_right pos, mul_lt_mul_iff_of_pos_right pos,
      mul_lt_mul_iff_of_pos_left four, mul_lt_mul_iff_of_pos_left four]

/-- A candidate that is taken rounds to the magnitude. -/
theorem roundsTo_of_readsBack (h : 0 < v.significand) {c : Nat} {k : Int}
    (taken : v.readsBack c k = true) : RoundsTo (c * 10 ^ k) v := by
  have ends := (readsBack_iff h c k).mp taken
  have gap : (v.gap : ℚ) ≤ 2 := by exact_mod_cast v.gap_le
  dsimp only at ends
  constructor
  · split at ends
    · next even =>
      constructor
      · rw [abs_le]
        constructor <;> linarith
      · intro _
        exact even
    · have within : |c * 10 ^ k / 2 ^ v.exponent - (v.significand : ℚ)| < 1 / 2 := by
        rw [abs_lt]
        constructor <;> linarith
      constructor
      · exact within.le
      · intro tie
        exact absurd tie within.ne
  · intro hidden above
    have one : v.gap = 1 := if_pos ⟨hidden, above⟩
    rw [one, hidden, if_pos (by decide)] at ends
    rw [hidden]
    push_cast at ends ⊢
    linarith

/-! ### Seventeen digits -/

theorem numerator_pos (h : 0 < v.significand) : 0 < v.numerator := by
  rw [numerator, Nat.shiftLeft_eq]
  exact Nat.mul_pos h (Nat.two_pow_pos _)

theorem zpow_decimalExponent_le (h : 0 < v.significand) :
    (10 : ℚ) ^ v.decimalExponent ≤ v.magnitude := by
  have pos : (0 : ℚ) < v.denominator := by exact_mod_cast v.denominator_pos
  rw [magnitude_eq, le_div_iff₀ pos, decimalExponent]
  split
  · next le =>
    generalize (digitCount v.numerator - digitCount v.denominator : Int) = e at le
    have ten := zpow_mul_pow (by norm_num : (10 : ℚ) ≠ 0) e
    have scaled : ((v.denominator * tenTo e.toNat : Nat) : ℚ) ≤
        (v.numerator * tenTo (-e).toNat : Nat) := by
      exact_mod_cast le
    have power : (0 : ℚ) < 10 ^ (-e).toNat := by positivity
    rw [Decimal.tenTo_eq, Decimal.tenTo_eq] at scaled
    push_cast at scaled
    rw [← ten] at scaled
    rw [← mul_le_mul_iff_of_pos_right power]
    linarith
  · have above := zpow_digitCount_le (numerator_pos h) 0
    have below := (lt_zpow_digitCount v.denominator 0).le
    rw [zpow_zero, mul_one] at above below
    calc
      (10 : ℚ) ^ ((digitCount v.numerator - digitCount v.denominator : Int) - 1) * v.denominator ≤
          10 ^ ((digitCount v.numerator - digitCount v.denominator : Int) - 1) *
            10 ^ (digitCount v.denominator + 0 : Int) :=
        mul_le_mul_of_nonneg_left below (by positivity)
      _ = 10 ^ (digitCount v.numerator + 0 - 1 : Int) := by
        rw [← zpow_add₀ (by norm_num)]
        congr 1
        ring
      _ ≤ v.numerator := above

theorem units_near (v : Finite) (k : Int) :
    |v.units k * 10 ^ k - v.magnitude| ≤ 1 / 2 * 10 ^ k := by
  have pos : (0 : ℚ) < v.denominator := by exact_mod_cast v.denominator_pos
  have power : (0 : ℚ) < 10 ^ (-k).toNat := by positivity
  have ten := zpow_mul_pow (by norm_num : (10 : ℚ) ≠ 0) k
  obtain ⟨le, ge⟩ := roundHalfEven_near (v.numerator * tenTo (-k).toNat)
    (Nat.mul_pos v.denominator_pos (tenTo_pos k.toNat))
  change 2 * (v.numerator * tenTo (-k).toNat) ≤
    2 * (v.denominator * tenTo k.toNat * v.units k) + v.denominator * tenTo k.toNat at le
  change 2 * (v.denominator * tenTo k.toNat * v.units k) ≤
    2 * (v.numerator * tenTo (-k).toNat) + v.denominator * tenTo k.toNat at ge
  rw [← Nat.cast_le (α := ℚ), Decimal.tenTo_eq, Decimal.tenTo_eq] at le ge
  push_cast at le ge
  rw [← ten] at le ge
  have value : v.magnitude * v.denominator = v.numerator := by
    rw [magnitude_eq, div_mul_cancel₀ _ pos.ne']
  rw [← value] at le ge
  have scale : (0 : ℚ) < 2 * v.denominator * 10 ^ (-k).toNat := by positivity
  rw [abs_le]
  constructor
  · rw [← mul_le_mul_iff_of_pos_right scale]
    linarith
  · rw [← mul_le_mul_iff_of_pos_right scale]
    linarith

/-- Seventeen digits are closer to the magnitude than half a unit of the significand. -/
theorem roundsTo_units (hv : v.Canonical) (h : 0 < v.significand) :
    RoundsTo (v.units (v.decimalExponent - 16) * 10 ^ (v.decimalExponent - 16)) v := by
  have pos : (0 : ℚ) < 2 ^ v.exponent := zpow_pos two_pos _
  have near := v.units_near (v.decimalExponent - 16)
  have leading := zpow_decimalExponent_le h
  have last : (10 : ℚ) ^ (v.decimalExponent - 16) ≤ v.significand / 10 ^ 16 * 2 ^ v.exponent := by
    rw [zpow_sub₀ (by norm_num)]
    rw [magnitude] at leading
    calc
      (10 : ℚ) ^ v.decimalExponent / 10 ^ (16 : Int) ≤
          v.significand * 2 ^ v.exponent / 10 ^ (16 : Int) :=
        div_le_div_of_nonneg_right leading (by positivity)
      _ = v.significand / 10 ^ 16 * 2 ^ v.exponent := by
        rw [div_mul_eq_mul_div]
        norm_num
  have close : |v.units (v.decimalExponent - 16) * 10 ^ (v.decimalExponent - 16) / 2 ^ v.exponent -
      (v.significand : ℚ)| ≤ 1 / 2 * (v.significand / 10 ^ 16) := by
    rw [← mul_le_mul_iff_of_pos_right pos, ← abs_of_pos pos, ← abs_mul, abs_of_pos pos, sub_mul,
      div_mul_cancel₀ _ pos.ne']
    rw [magnitude] at near
    linarith
  have bound : (v.significand : ℚ) < 2 ^ 53 := by exact_mod_cast hv.lt
  have within : 1 / 2 * (v.significand / 10 ^ 16 : ℚ) < 1 / 2 := by
    have : (v.significand : ℚ) / 10 ^ 16 < 1 :=
      (div_lt_one (by positivity)).mpr (bound.trans (by norm_num))
    linarith
  constructor
  · constructor
    · exact close.trans within.le
    · intro tie
      exact absurd tie (close.trans_lt within).ne
  · intro hidden _
    have low := (abs_le.mp close).1
    rw [hidden] at low ⊢
    norm_num at low ⊢
    linarith

/-! ### The decimal of a number -/

theorem roundsTo_of_readingBack? (h : 0 < v.significand) {c : Nat} {k : Int}
    (found : v.readingBack? k = some c) : RoundsTo (c * 10 ^ k) v := by
  unfold readingBack? at found
  extract_lets nearest low other at found
  split at found
  · next taken =>
    rw [← Option.some.inj found]
    exact roundsTo_of_readsBack h taken
  · split at found
    · next taken =>
      rw [← Option.some.inj found]
      exact roundsTo_of_readsBack h taken
    · cases found

theorem shortest_eq_normalize (hv : v.Canonical) (h : 0 < v.significand) :
    ∃ c k, v.shortest = (Decimal.finite v.negative c k).normalize ∧ RoundsTo (c * 10 ^ k) v := by
  rw [shortest, if_neg h.ne']
  dsimp only
  generalize hf : (List.range 17).findSome? (fun (i : Nat) =>
    (v.readingBack? (v.decimalExponent - i)).map fun c =>
      Decimal.finite v.negative c (v.decimalExponent - i)) = found
  cases found with
  | none => exact ⟨_, _, rfl, roundsTo_units hv h⟩
  | some d =>
    obtain ⟨i, -, taken⟩ := List.exists_of_findSome?_eq_some hf
    obtain ⟨c, reading, rfl⟩ := Option.map_eq_some_iff.mp taken
    exact ⟨c, _, rfl, roundsTo_of_readingBack? h reading⟩

theorem exists_shortest (hv : v.Canonical) (h : 0 < v.significand) :
    ∃ c k, v.shortest = .finite v.negative c k ∧ 0 < c ∧ RoundsTo (c * 10 ^ k) v := by
  obtain ⟨c, k, eq, hx⟩ := shortest_eq_normalize hv h
  have ne : c ≠ 0 := by
    rintro rfl
    have := hx.pos h
    rw [Nat.cast_zero, zero_mul] at this
    exact lt_irrefl _ this
  obtain ⟨le, dropped⟩ := Decimal.dropZeros_value c k ne
  refine ⟨_, _, eq, ?_, ?_⟩
  · rw [Nat.pos_iff_ne_zero]
    intro zero
    rw [zero, Nat.zero_mul] at dropped
    exact ne dropped.symm
  · generalize Decimal.dropZeros c k = r at le dropped
    have value : (r.1 : ℚ) * 10 ^ r.2 = c * 10 ^ k := by
      rw [← dropped, Decimal.tenTo_eq]
      push_cast
      rw [mul_assoc, ← zpow_natCast, ← zpow_add₀ (by norm_num)]
      congr 2
      omega
    rw [value]
    exact hx

theorem normalize_shortest (v : Finite) : v.shortest.normalize = v.shortest := by
  rw [shortest]
  split
  · simp only [Decimal.normalize, Decimal.dropZeros_zero]
  · exact Decimal.normalize_normalize _

/-- The magnitude is read back from its digits. -/
theorem ofMagnitude_shortest (hv : v.Canonical) (h : 0 < v.significand) :
    ∃ c k, v.shortest = .finite v.negative c k ∧
      decode (ofMagnitude c k) = .finite ⟨false, v.significand, v.exponent⟩ := by
  obtain ⟨c, k, eq, pos, hx⟩ := exists_shortest hv h
  let w : Finite := ⟨false, v.significand, v.exponent⟩
  have canonical : w.Canonical := ⟨hv.lt, hv.least, hv.greatest, hv.full⟩
  have rounds : RoundsTo (c * 10 ^ k) w := ⟨hx.nearest, hx.short⟩
  refine ⟨c, k, eq, ?_⟩
  rw [ofMagnitude_eq canonical h rfl rounds pos]
  exact decode_toFloat canonical h

end Finite

/-! ### All numbers -/

theorem decode_zero (negative : Bool) :
    decode (if negative then -0.0 else 0.0) = .finite ⟨negative, 0, -1074⟩ := by
  cases negative <;> decide

theorem decode_infinity (negative : Bool) :
    decode (if negative then -infinity else infinity) = .infinite negative := by
  cases negative <;> decide

theorem decode_nan : decode (0.0 / 0.0) = .nan := by
  decide

theorem decode_ofDecimal_shortest {v : Finite} (hv : v.Canonical) :
    decode (ofDecimal v.shortest) = .finite v := by
  obtain ⟨negative, m, e⟩ := v
  by_cases h : m = 0
  · subst h
    obtain least : e = -1074 := hv.full.resolve_left (by simp)
    subst least
    exact decode_zero negative
  · have pos : 0 < m := Nat.pos_of_ne_zero h
    obtain ⟨c, k, eq, read⟩ := Finite.ofMagnitude_shortest hv pos
    rw [eq, ofDecimal]
    cases negative with
    | false => exact read
    | true => exact decode_neg read pos

theorem ofDecimal_shortest (x : Float) :
    ofDecimal ((decode x).toDecimal Finite.shortest) = x := by
  apply decode_injective
  cases hx : decode x with
  | nan => exact decode_nan
  | infinite negative => exact decode_infinity negative
  | finite v => exact decode_ofDecimal_shortest (canonical_of_decode hx)

instance : LawfulDecimalText Float where
  normalize_shortest x := by
    change ((decode x).toDecimal Finite.shortest).normalize = (decode x).toDecimal Finite.shortest
    cases decode x with
    | nan => rfl
    | infinite negative => rfl
    | finite v => exact v.normalize_shortest
  ofDecimal_shortest := ofDecimal_shortest

end LowThrust.Binary64
