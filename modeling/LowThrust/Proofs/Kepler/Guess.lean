import Mathlib
import LowThrust.Kepler.Solver
import LowThrust.Proofs.Kepler.Anomaly

/-!
The anomaly from which the solver starts. On a hyperbola it comes from a quotient whose divisor is a
sum of two terms; the radial motion is the smaller one, by the inequality of Cauchy and Schwarz, and
so the divisor is never zero. On every conic the guess goes the way that time goes.
-/

namespace LowThrust

namespace Scalar

theorem sign_of_pos {x : ℝ} (h : 0 < x) : sign x = 1 := by
  rw [sign, Exact.literal_zero, if_pos h, Exact.literal_one]

theorem sign_of_neg {x : ℝ} (h : x < 0) : sign x = -1 := by
  rw [sign, Exact.literal_zero, if_neg h.not_gt, if_pos h, Exact.literal_one]

end Scalar

namespace Kepler

/-- The sign of a sum is that of its greater term. -/
theorem sign_add_sign_mul {a b x : ℝ} (h : |a| < b) (hx : x ≠ 0) :
    SignType.sign (a + Scalar.sign x * b) = SignType.sign x := by
  obtain ⟨below, above⟩ := abs_lt.mp h
  rcases hx.lt_or_gt with neg | pos
  · rw [Scalar.sign_of_neg neg, sign_neg neg, sign_neg]
    linarith
  · rw [Scalar.sign_of_pos pos, sign_pos pos, sign_pos]
    linarith

theorem sign_mul_of_pos {a : ℝ} (ha : 0 < a) (x : ℝ) :
    SignType.sign (a * x) = SignType.sign x := by
  rw [sign_mul, sign_pos ha, one_mul]

/-- The guess goes the way that time goes, whatever the conic. -/
theorem sign_initialGuess {radius mu dt : ℝ} (hr : 0 < radius) (hmu : 0 < mu) (hdt : dt ≠ 0)
    (radial alpha : ℝ) :
    SignType.sign (initialGuess radius radial alpha dt mu) = SignType.sign dt := by
  have sqrt_mu : 0 < √mu := Real.sqrt_pos.mpr hmu
  have short : SignType.sign (√mu * dt / radius) = SignType.sign dt := by
    rw [mul_div_right_comm, sign_mul_of_pos (div_pos sqrt_mu hr)]
  simp only [initialGuess, Exact.literal_zero, Exact.literal_one, Exact.sqrt_eq]
  split
  · next ellipse =>
    rw [mul_right_comm, sign_mul_of_pos (mul_pos sqrt_mu ellipse)]
  · split
    · next hyperbola =>
      split
      · next long =>
        have log : 0 < Real.log _ := Real.log_pos long
        have axis : 0 < √(-(1 / alpha)) :=
          Real.sqrt_pos.mpr (neg_pos.mpr (one_div_neg.mpr hyperbola))
        have same := sign_add_sign_mul (a := 0) (abs_zero.trans_lt (mul_pos axis log)) hdt
        rwa [zero_add, ← mul_assoc] at same
      · exact short
    · exact short

namespace Orbit

section Definitions

variable {α : Type} [Scalar α] (o : Orbit α) (dt : α)

/-- What the argument of the logarithm is divided by. -/
def guessDivisor : α :=
  o.radial + Scalar.sign dt * Scalar.sqrt (-o.mu * (1.0 / o.alpha)) * (1.0 - o.radius * o.alpha)

/-- The argument of the logarithm. -/
def guessArgument : α := -2.0 * o.mu * o.alpha * dt / o.guessDivisor dt

end Definitions

variable {o : Orbit ℝ}

theorem initialGuess_of_alpha_neg (h : o.alpha < 0) (dt : ℝ) :
    initialGuess o.radius o.radial o.alpha dt o.mu =
      if o.guessArgument dt > 1 then
        Scalar.sign dt * √(-(1 / o.alpha)) * Real.log (o.guessArgument dt)
      else √o.mu * dt / o.radius := by
  simp only [initialGuess, guessArgument, guessDivisor, Exact.literal_zero, Exact.literal_one,
    if_neg h.not_gt, if_pos h]
  rfl

theorem radius_pos_of_ne_zero (h : o.start.position ≠ .zero) : 0 < o.radius :=
  Real.sqrt_pos.mpr (Vec3.dot_self_pos h)

/-- The inequality of Cauchy and Schwarz. -/
theorem sq_radial_le (o : Orbit ℝ) :
    o.radial ^ 2 ≤ o.radius ^ 2 * o.start.velocity.dot o.start.velocity := by
  have area := Vec3.dot_cross o.start.position o.start.velocity
  rw [dot_position] at area
  exact sub_nonneg.mp (area ▸ Vec3.dot_self_nonneg _)

section Hyperbola

variable (hmu : 0 < o.mu) (hr : o.start.position ≠ .zero) (h : o.alpha < 0)

include hmu hr h

theorem abs_radial_lt :
    |o.radial| < √(-o.mu * (1 / o.alpha)) * (1 - o.radius * o.alpha) := by
  have radius := radius_pos_of_ne_zero hr
  have speed : o.start.velocity.dot o.start.velocity = o.mu * (2 / o.radius - o.alpha) := by
    rw [alpha, Exact.literal_two]
    field_simp
    ring
  have axis : 0 < -o.mu * (1 / o.alpha) :=
    mul_pos_of_neg_of_neg (neg_neg_of_pos hmu) (one_div_neg.mpr h)
  have factor : 0 < 1 - o.radius * o.alpha := by nlinarith
  -- the greater square exceeds what Cauchy and Schwarz allow by `-mu / alpha`
  have squares : (√(-o.mu * (1 / o.alpha)) * (1 - o.radius * o.alpha)) ^ 2 =
      o.radius ^ 2 * (o.mu * (2 / o.radius - o.alpha)) + -o.mu * (1 / o.alpha) := by
    have alpha := h.ne
    rw [mul_pow, Real.sq_sqrt axis.le]
    field_simp
    ring
  have cauchy := o.sq_radial_le
  rw [speed] at cauchy
  apply abs_lt_of_sq_lt_sq
  · linarith
  · positivity

variable {dt : ℝ} (hdt : dt ≠ 0)

include hdt

theorem sign_guessDivisor : SignType.sign (o.guessDivisor dt) = SignType.sign dt := by
  have greater := sign_add_sign_mul (abs_radial_lt hmu hr h) hdt
  rw [guessDivisor, Exact.literal_one]
  rwa [← mul_assoc] at greater

theorem guessArgument_pos : 0 < o.guessArgument dt := by
  have same := sign_guessDivisor hmu hr h hdt
  have forward : 0 < dt / o.guessDivisor dt := by
    rcases hdt.lt_or_gt with neg | pos
    · rw [sign_neg neg, sign_eq_neg_one_iff] at same
      exact div_pos_of_neg_of_neg neg same
    · rw [sign_pos pos, sign_eq_one_iff] at same
      exact div_pos pos same
  have energy : 0 < -2 * o.mu * o.alpha := by nlinarith
  rw [guessArgument, Exact.literal_two, mul_div_assoc]
  exact mul_pos energy forward

end Hyperbola

/-- On a hyperbola the guess divides by something that has the sign of the time, so that the
argument of its logarithm is positive; and the guess has the sign of the time on every conic. -/
theorem initialGuess_follows_time (hmu : 0 < o.mu) (hr : o.start.position ≠ .zero) {dt : ℝ}
    (hdt : dt ≠ 0) :
    (o.alpha < 0 →
      o.guessDivisor dt ≠ 0 ∧ SignType.sign (o.guessDivisor dt) = SignType.sign dt ∧
      0 < o.guessArgument dt ∧
      initialGuess o.radius o.radial o.alpha dt o.mu =
        if o.guessArgument dt > 1 then
          Scalar.sign dt * √(-(1 / o.alpha)) * Real.log (o.guessArgument dt)
        else √o.mu * dt / o.radius) ∧
      ∀ radial alpha, initialGuess o.radius radial alpha dt o.mu ≠ 0 ∧
        SignType.sign (initialGuess o.radius radial alpha dt o.mu) = SignType.sign dt := by
  have radius := radius_pos_of_ne_zero hr
  have ne {x : ℝ} (same : SignType.sign x = SignType.sign dt) : x ≠ 0 :=
    sign_ne_zero.mp (same ▸ sign_ne_zero.mpr hdt)
  refine ⟨fun h => ?_, fun radial alpha => ?_⟩
  · have divisor := sign_guessDivisor hmu hr h hdt
    exact ⟨ne divisor, divisor, guessArgument_pos hmu hr h hdt, initialGuess_of_alpha_neg h dt⟩
  · have guess := sign_initialGuess radius hmu hdt radial alpha
    exact ⟨ne guess, guess⟩

/-! ### A fall -/

/-- Straight towards the centre, with more than the speed of escape. -/
noncomputable def fall : Orbit ℝ := ⟨⟨⟨1, 0, 0⟩, ⟨-2.0, 0, 0⟩⟩, 1⟩

theorem alpha_fall : fall.alpha = -2 := by
  rw [alpha, radius, fall, Vec3.norm_real, Vec3.dot_real, Vec3.dot_real]
  norm_num

/-- Forward the two terms of the divisor all but cancel; backward the guess is negative. -/
theorem initialGuess_follows_time_fall :
    fall.alpha < 0 ∧ 0 < fall.guessDivisor 1 ∧ 0 < fall.guessArgument 1 ∧
      initialGuess fall.radius fall.radial fall.alpha (-1) 1 < 0 := by
  have mu : 0 < fall.mu := one_pos
  have position : fall.start.position ≠ .zero := by norm_num [fall]
  have hyperbola : fall.alpha < 0 := by norm_num [alpha_fall]
  obtain ⟨-, divisor, argument, -⟩ :=
    (initialGuess_follows_time mu position one_ne_zero).1 hyperbola
  have back := (initialGuess_follows_time mu position (neg_ne_zero.mpr one_ne_zero)).2
    fall.radial fall.alpha
  rw [sign_one, sign_eq_one_iff] at divisor
  refine ⟨hyperbola, divisor, argument, ?_⟩
  exact sign_eq_neg_one_iff.mp (back.2.trans (sign_neg (neg_neg_of_pos one_pos)))

end Orbit

end Kepler

end LowThrust
