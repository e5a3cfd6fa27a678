import Mathlib
import LowThrust.Kepler.Stumpff
import LowThrust.Proofs.Exact.Real

/-!
The Stumpff functions near zero. Their closed forms, which differ on the two sides of zero, are sums
of one power series each. The polynomials that are evaluated near zero are the first five terms, and
the terms that are left out are bounded by a geometric series.
-/

namespace LowThrust.Kepler

open Filter Topology

theorem closedC2_of_pos {ψ : ℝ} (h : 0 < ψ) : closedC2 ψ = (1 - Real.cos √ψ) / ψ := by
  rw [closedC2, if_pos (by simpa using h)]
  simp

theorem closedC2_of_neg {ψ : ℝ} (h : ψ < 0) : closedC2 ψ = (Real.cosh √(-ψ) - 1) / -ψ := by
  rw [closedC2, if_neg (by simpa using h.le)]
  simp

theorem closedC3_of_pos {ψ : ℝ} (h : 0 < ψ) : closedC3 ψ = (√ψ - Real.sin √ψ) / √ψ ^ 3 := by
  rw [closedC3, if_pos (by simpa using h)]
  simp

theorem closedC3_of_neg {ψ : ℝ} (h : ψ < 0) :
    closedC3 ψ = (Real.sinh √(-ψ) - √(-ψ)) / √(-ψ) ^ 3 := by
  rw [closedC3, if_neg (by simpa using h.le)]
  simp

/-! ### Power series -/

/-- The terms of the power series of the Stumpff functions, which are those of order two and
three. -/
noncomputable def stumpffTerm (order : ℕ) (ψ : ℝ) (k : ℕ) : ℝ :=
  (-ψ) ^ k / (2 * k + order).factorial

/-- The series of a cosine or a sine, without its first term, gives that of a Stumpff function. The
sign `a` is negative if they are trigonometric and positive if they are hyperbolic. -/
theorem hasSum_stumpffTerm {a x s ψ : ℝ} {d : ℕ} (ha : a ≠ 0) (hx : x ≠ 0)
    (hψ : a * x ^ 2 = -ψ)
    (h : HasSum (fun n => a ^ n * x ^ (2 * n + d) / (2 * n + d).factorial) s) :
    HasSum (stumpffTerm (d + 2) ψ) ((s - x ^ d / d.factorial) / (a * x ^ (d + 2))) := by
  have rest := ((hasSum_nat_add_iff' 1).mpr h).div_const (a * x ^ (d + 2))
  simp only [Finset.sum_range_one, pow_zero, one_mul, mul_zero, zero_add] at rest
  have terms (k : ℕ) : a ^ (k + 1) * x ^ (2 * (k + 1) + d) / (2 * (k + 1) + d).factorial /
      (a * x ^ (d + 2)) = stumpffTerm (d + 2) ψ k := by
    have index : 2 * (k + 1) + d = 2 * k + (d + 2) := by ring
    rw [stumpffTerm, ← hψ, index, mul_pow, pow_succ a, pow_add x, ← pow_mul]
    field_simp
  rwa [funext terms] at rest

theorem hasSum_of_neg {ψ s : ℝ} {d : ℕ} (h : ψ < 0)
    (series : HasSum (fun n => √(-ψ) ^ (2 * n + d) / (2 * n + d).factorial) s) :
    HasSum (stumpffTerm (d + 2) ψ) ((s - √(-ψ) ^ d / d.factorial) / √(-ψ) ^ (d + 2)) := by
  have x : √(-ψ) ≠ 0 := (Real.sqrt_pos.mpr (neg_pos.mpr h)).ne'
  have square : 1 * √(-ψ) ^ 2 = -ψ := by rw [one_mul, Real.sq_sqrt (neg_pos.mpr h).le]
  have signed : HasSum (fun n => 1 ^ n * √(-ψ) ^ (2 * n + d) / (2 * n + d).factorial) s := by
    simpa only [one_pow, one_mul] using series
  simpa only [one_mul] using hasSum_stumpffTerm one_ne_zero x square signed

theorem hasSum_of_pos {ψ s : ℝ} {d : ℕ} (h : 0 < ψ)
    (series : HasSum (fun n => (-1) ^ n * √ψ ^ (2 * n + d) / (2 * n + d).factorial) s) :
    HasSum (stumpffTerm (d + 2) ψ) ((√ψ ^ d / d.factorial - s) / √ψ ^ (d + 2)) := by
  have x : √ψ ≠ 0 := (Real.sqrt_pos.mpr h).ne'
  have square : -1 * √ψ ^ 2 = -ψ := by rw [neg_one_mul, Real.sq_sqrt h.le]
  have minus : (-1 : ℝ) ≠ 0 := neg_ne_zero.mpr one_ne_zero
  have sum := hasSum_stumpffTerm minus x square series
  rwa [neg_one_mul, div_neg, ← neg_div, neg_sub] at sum

theorem hasSum_closedC2 {ψ : ℝ} (h : ψ ≠ 0) : HasSum (stumpffTerm 2 ψ) (closedC2 ψ) := by
  rcases h.lt_or_gt with neg | pos
  · rw [closedC2_of_neg neg]
    simpa [Real.sq_sqrt (neg_pos.mpr neg).le] using
      hasSum_of_neg (d := 0) neg (Real.hasSum_cosh √(-ψ))
  · rw [closedC2_of_pos pos]
    simpa [Real.sq_sqrt pos.le] using hasSum_of_pos (d := 0) pos (Real.hasSum_cos √ψ)

theorem hasSum_closedC3 {ψ : ℝ} (h : ψ ≠ 0) : HasSum (stumpffTerm 3 ψ) (closedC3 ψ) := by
  rcases h.lt_or_gt with neg | pos
  · rw [closedC3_of_neg neg]
    simpa using hasSum_of_neg neg (Real.hasSum_sinh √(-ψ))
  · rw [closedC3_of_pos pos]
    simpa using hasSum_of_pos pos (Real.hasSum_sin √ψ)

theorem seriesC2_eq_sum (ψ : ℝ) : seriesC2 ψ = ∑ k ∈ Finset.range 5, stumpffTerm 2 ψ k := by
  simp only [seriesC2, stumpffTerm, Finset.sum_range_succ, Finset.sum_range_zero, Nat.factorial]
  norm_num
  ring

theorem seriesC3_eq_sum (ψ : ℝ) : seriesC3 ψ = ∑ k ∈ Finset.range 5, stumpffTerm 3 ψ k := by
  simp only [seriesC3, stumpffTerm, Finset.sum_range_succ, Finset.sum_range_zero, Nat.factorial]
  norm_num
  ring

/-! ### The terms that are left out -/

section Remainder

variable {order : ℕ} {ψ s : ℝ} (h : HasSum (stumpffTerm order ψ) s)

include h

theorem abs_sub_sum_le (hψ : |ψ| < 1) (n : ℕ) :
    |s - ∑ k ∈ Finset.range n, stumpffTerm order ψ k| ≤
      |ψ| ^ n / (2 * n + order).factorial / (1 - |ψ|) := by
  have rest := (hasSum_nat_add_iff' n).mpr h
  have bound (k : ℕ) : ‖stumpffTerm order ψ (k + n)‖ ≤
      |ψ| ^ n / (2 * n + order).factorial * |ψ| ^ k := by
    have larger : (2 * n + order).factorial ≤ (2 * (k + n) + order).factorial :=
      Nat.factorial_le (by omega)
    rw [stumpffTerm, Real.norm_eq_abs, abs_div, abs_pow, abs_neg, Nat.abs_cast, div_mul_eq_mul_div,
      ← pow_add, add_comm n k]
    gcongr
  have sum := norm_sub_le_of_geometric_bound_of_hasSum hψ bound rest 0
  simpa [abs_sub_comm] using sum

/-- Where the series is used, five terms of it leave out little more than the sixth. -/
theorem abs_sum_five_sub_le (hψ : |ψ| < 1e-3) {b : ℝ} (hb : 0 < b)
    (le : b ≤ (10 + order).factorial * (1 - 1e-3)) :
    |∑ k ∈ Finset.range 5, stumpffTerm order ψ k - s| ≤ |ψ| ^ 5 / b := by
  have small : |ψ| < 1 := hψ.trans (by norm_num)
  calc
    |∑ k ∈ Finset.range 5, stumpffTerm order ψ k - s| ≤
        |ψ| ^ 5 / (10 + order).factorial / (1 - |ψ|) := by
      rw [abs_sub_comm]
      exact abs_sub_sum_le h small 5
    _ = |ψ| ^ 5 / ((10 + order).factorial * (1 - |ψ|)) := div_div _ _ _
    _ ≤ |ψ| ^ 5 / b := by
      gcongr
      refine le.trans ?_
      gcongr

end Remainder

/-- At zero only the first term is left. -/
theorem tendsto_of_hasSum {order : ℕ} {f : ℝ → ℝ}
    (h : ∀ ψ ≠ 0, HasSum (stumpffTerm order ψ) (f ψ)) :
    Tendsto f (𝓝[≠] 0) (𝓝 (1 / order.factorial)) := by
  have near : ∀ᶠ ψ : ℝ in 𝓝[≠] 0, |ψ| < 1 :=
    nhdsWithin_le_nhds (continuous_abs.continuousAt.eventually_lt_const (by simp))
  have apart : ∀ᶠ ψ : ℝ in 𝓝[≠] 0, ψ ≠ 0 := self_mem_nhdsWithin
  have bound : Tendsto (fun ψ : ℝ => |ψ| / (2 + order).factorial / (1 - |ψ|)) (𝓝[≠] 0) (𝓝 0) := by
    have continuous : ContinuousAt (fun ψ : ℝ => |ψ| / (2 + order).factorial / (1 - |ψ|)) 0 :=
      ContinuousAt.div (by fun_prop) (by fun_prop) (by simp)
    simpa using continuous.tendsto.mono_left nhdsWithin_le_nhds
  refine tendsto_iff_norm_sub_tendsto_zero.mpr (squeeze_zero' ?_ ?_ bound)
  · exact .of_forall fun ψ => norm_nonneg _
  · filter_upwards [near, apart] with ψ small ne
    simpa [stumpffTerm] using abs_sub_sum_le (h ψ ne) small 1

/-- The polynomials that are evaluated near zero differ from the closed forms by little more than
`|ψ| ^ 5 / 12!` and `|ψ| ^ 5 / 13!`, on an ellipse as on a hyperbola, and are their limits at
zero. -/
theorem stumpff_near_zero :
    (∀ ψ : ℝ, 0 < |ψ| → |ψ| < 1e-3 →
      (stumpffC2 ψ = seriesC2 ψ ∧ |seriesC2 ψ - closedC2 ψ| ≤ |ψ| ^ 5 / 4.7e8) ∧
        stumpffC3 ψ = seriesC3 ψ ∧ |seriesC3 ψ - closedC3 ψ| ≤ |ψ| ^ 5 / 6.2e9) ∧
      (∀ ψ : ℝ, 0 < ψ → closedC2 ψ = (1 - Real.cos √ψ) / ψ ∧
        closedC3 ψ = (√ψ - Real.sin √ψ) / √ψ ^ 3) ∧
      (∀ ψ : ℝ, ψ < 0 → closedC2 ψ = (Real.cosh √(-ψ) - 1) / -ψ ∧
        closedC3 ψ = (Real.sinh √(-ψ) - √(-ψ)) / √(-ψ) ^ 3) ∧
      (stumpffC2 (0 : ℝ) = 1 / 2 ∧ Tendsto (closedC2 : ℝ → ℝ) (𝓝[≠] 0) (𝓝 (1 / 2))) ∧
      stumpffC3 (0 : ℝ) = 1 / 6 ∧ Tendsto (closedC3 : ℝ → ℝ) (𝓝[≠] 0) (𝓝 (1 / 6)) := by
  have summed : Scalar.abs (0 : ℝ) < seriesBound := by
    change |(0 : ℝ)| < 1e-3
    norm_num
  refine ⟨fun ψ apart h => ?_, fun ψ h => ⟨closedC2_of_pos h, closedC3_of_pos h⟩,
    fun ψ h => ⟨closedC2_of_neg h, closedC3_of_neg h⟩, ⟨?_, ?_⟩, ?_, ?_⟩
  · have ne : ψ ≠ 0 := abs_pos.mp apart
    refine ⟨⟨if_pos h, ?_⟩, if_pos h, ?_⟩
    · rw [seriesC2_eq_sum]
      exact abs_sum_five_sub_le (hasSum_closedC2 ne) h (by norm_num) (by norm_num [Nat.factorial])
    · rw [seriesC3_eq_sum]
      exact abs_sum_five_sub_le (hasSum_closedC3 ne) h (by norm_num) (by norm_num [Nat.factorial])
  · rw [stumpffC2, if_pos summed, seriesC2]
    norm_num
  · simpa using tendsto_of_hasSum fun ψ => hasSum_closedC2
  · rw [stumpffC3, if_pos summed, seriesC3]
    norm_num
  · simpa [Nat.factorial] using tendsto_of_hasSum fun ψ => hasSum_closedC3

/-- On an ellipse and on a hyperbola, halfway to where the closed forms are used. -/
theorem stumpff_near_zero_halfway :
    |seriesC2 (1 / 2000) - (1 - Real.cos √(1 / 2000)) / (1 / 2000)| ≤ (1 / 2000) ^ 5 / 4.7e8 ∧
      |seriesC3 (-(1 / 2000)) - (Real.sinh √(1 / 2000) - √(1 / 2000)) / √(1 / 2000) ^ 3| ≤
        (1 / 2000) ^ 5 / 6.2e9 := by
  obtain ⟨near, ellipse, hyperbola, -⟩ := stumpff_near_zero
  have pos : |(1 / 2000 : ℝ)| = 1 / 2000 := abs_of_pos (by norm_num)
  have neg : |-(1 / 2000 : ℝ)| = 1 / 2000 := by rw [abs_neg, pos]
  obtain ⟨⟨-, c2⟩, -⟩ := near (1 / 2000) (by norm_num [pos]) (by norm_num [pos])
  obtain ⟨-, -, c3⟩ := near (-(1 / 2000)) (by norm_num [neg]) (by norm_num [neg])
  rw [(ellipse _ (by norm_num)).1, pos] at c2
  rw [(hyperbola _ (by norm_num)).2, neg, neg_neg] at c3
  exact ⟨c2, c3⟩

end LowThrust.Kepler
