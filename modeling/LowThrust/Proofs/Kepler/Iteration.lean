import Mathlib.Tactic.SplitIfs
import LowThrust.Kepler.Solver
import LowThrust.Proofs.Faults

/-!
The corrections of the Kepler solver one by one. The limit on their number enters into none of them:
it decides whether the solver gives up, and never what it finds.
-/

namespace LowThrust

/-- The settings with another limit on the number of corrections. -/
def KeplerConfig.upTo {α : Type} (limit : Int) (c : KeplerConfig α) : KeplerConfig α :=
  { c with maxIterations := limit }

namespace Kepler

open Scalar

variable {α : Type} [Scalar α]

/-- More corrections do not change how an iteration ends that has not run out of them. -/
theorem iterate_of_le (stumpff : α → Stumpff α) (tol : α) (o : Orbit α) (dt : α) {n n' : Nat}
    (h : n ≤ n') (previous : Option α) (χ : α) :
    iterate stumpff tol o dt n previous χ = iterate stumpff tol o dt n' previous χ ∨
      ∃ last, iterate stumpff tol o dt n previous χ = .exhausted last := by
  induction n generalizing n' previous χ with
  | zero => exact .inr ⟨previous, rfl⟩
  | succ n ih =>
    obtain ⟨n', rfl⟩ := Nat.exists_eq_add_of_lt h
    simp only [iterate]
    split
    · split
      · exact .inl rfl
      · exact ih (Nat.le_add_right n n') _ _
    · exact .inl rfl

/-- How many corrections an iteration makes before it ends. -/
def corrections (stumpff : α → Stumpff α) (tol : α) (o : Orbit α) (dt : α) :
    Nat → Option α → α → Nat
  | 0, _, _ => 0
  | n + 1, previous, χ =>
    let step := o.step dt χ (stumpff (o.psi χ))
    let χ := χ - step
    if isFinite χ then
      if settled tol previous step χ then 1 else corrections stumpff tol o dt n (some step) χ + 1
    else 1

section Count

variable (stumpff : α → Stumpff α) (tol : α) (o : Orbit α) (dt : α)

/-- With as many corrections as it makes, an iteration ends as it does. -/
theorem iterate_corrections (n : Nat) (previous : Option α) (χ : α) :
    iterate stumpff tol o dt (corrections stumpff tol o dt n previous χ) previous χ =
      iterate stumpff tol o dt n previous χ := by
  induction n generalizing previous χ with
  | zero => rfl
  | succ n ih =>
    have goes := ih (some (o.step dt χ (stumpff (o.psi χ)))) (χ - o.step dt χ (stumpff (o.psi χ)))
    simp only [corrections, iterate]
    split
    · split
      · next finite last => simp only [iterate, finite, last, if_true]
      · next finite last =>
        simp only [iterate, finite, last, if_true, Bool.false_eq_true, if_false]
        exact goes
    · next infinite => simp only [iterate, infinite, Bool.false_eq_true, if_false]

/-- With fewer corrections than it makes, an iteration runs out of them. -/
theorem iterate_of_lt_corrections {k n : Nat} {previous : Option α} {χ : α}
    (h : k < corrections stumpff tol o dt n previous χ) :
    ∃ last, iterate stumpff tol o dt k previous χ = .exhausted last := by
  induction k generalizing n previous χ with
  | zero => exact ⟨previous, rfl⟩
  | succ k ih =>
    cases n with
    | zero => exact absurd h (Nat.not_lt_zero _)
    | succ n =>
      simp only [corrections] at h
      simp only [iterate]
      split at h
      · next finite =>
        split at h
        · exact absurd h (by omega)
        · next last =>
          simp only [finite, last, if_true, Bool.false_eq_true, if_false]
          exact ih (Nat.lt_of_succ_lt_succ h)
      · exact absurd h (by omega)

end Count

theorem settled_eq_false_iff {tol : α} {previous : Option α} {step χ : α} :
    settled tol previous step χ = false ↔
      ¬ Scalar.abs step ≤ tol * atLeast 1.0 (Scalar.abs χ) ∧
        ∀ p ∈ previous, Scalar.abs step ≥ Scalar.abs p →
          ¬ Scalar.abs step ≤ sqrt tol * atLeast 1.0 (Scalar.abs χ) := by
  cases previous <;> simp [settled]

namespace Orbit

section Corrections

variable (stumpff : α → Stumpff α) (o : Orbit α) (dt : α)

/-- The anomaly after so many corrections, of which none is the last. -/
def anomalyAfter : Nat → α
  | 0 => initialGuess o.radius o.radial o.alpha dt o.mu
  | k + 1 =>
    let χ := anomalyAfter k
    χ - o.step dt χ (stumpff (o.psi χ))

def correction (k : Nat) : α :=
  let χ := o.anomalyAfter stumpff dt k
  o.step dt χ (stumpff (o.psi χ))

def previousCorrection : Nat → Option α
  | 0 => none
  | k + 1 => some (o.correction stumpff dt k)

/-- What the two tests for the end compare a correction with. -/
def correctionScale (k : Nat) : α := atLeast 1.0 (Scalar.abs (o.anomalyAfter stumpff dt (k + 1)))

/-- A correction after which the solver goes on: it leads to a finite anomaly and meets neither test
for the end. -/
structure GoesOn (tol : α) (k : Nat) : Prop where
  finite : isFinite (o.anomalyAfter stumpff dt (k + 1)) = true
  large : ¬ Scalar.abs (o.correction stumpff dt k) ≤ tol * o.correctionScale stumpff dt k
  shrinking : ∀ p ∈ o.previousCorrection stumpff dt k,
    Scalar.abs (o.correction stumpff dt k) ≥ Scalar.abs p →
      ¬ Scalar.abs (o.correction stumpff dt k) ≤ sqrt tol * o.correctionScale stumpff dt k

end Corrections

variable {stumpff : α → Stumpff α} {o : Orbit α} {dt tol : α}

theorem goesOn_iff {k : Nat} :
    o.GoesOn stumpff dt tol k ↔ isFinite (o.anomalyAfter stumpff dt (k + 1)) = true ∧
      settled tol (o.previousCorrection stumpff dt k) (o.correction stumpff dt k)
        (o.anomalyAfter stumpff dt (k + 1)) = false := by
  rw [settled_eq_false_iff]
  constructor
  · rintro ⟨finite, large, shrinking⟩
    exact ⟨finite, large, shrinking⟩
  · rintro ⟨finite, large, shrinking⟩
    exact ⟨finite, large, shrinking⟩

theorem iterate_succ (n k : Nat) :
    iterate stumpff tol o dt (n + 1) (o.previousCorrection stumpff dt k)
        (o.anomalyAfter stumpff dt k) =
      if isFinite (o.anomalyAfter stumpff dt (k + 1)) then
        if settled tol (o.previousCorrection stumpff dt k) (o.correction stumpff dt k)
            (o.anomalyAfter stumpff dt (k + 1)) then
          .solved (o.anomalyAfter stumpff dt (k + 1))
        else
          iterate stumpff tol o dt n (o.previousCorrection stumpff dt (k + 1))
            (o.anomalyAfter stumpff dt (k + 1))
      else .diverged := rfl

/-- An iteration runs out of corrections if each of them is one after which it goes on. -/
theorem iterate_eq_exhausted_iff (n k : Nat) :
    (∃ last, iterate stumpff tol o dt n (o.previousCorrection stumpff dt k)
        (o.anomalyAfter stumpff dt k) = .exhausted last) ↔
      ∀ j, k ≤ j → j < k + n → o.GoesOn stumpff dt tol j := by
  induction n generalizing k with
  | zero =>
    refine iff_of_true ⟨_, rfl⟩ fun j le lt => ?_
    exact absurd lt (Nat.not_lt.mpr le)
  | succ n ih =>
    have rest := ih (k + 1)
    rw [iterate_succ]
    constructor
    · rintro ⟨last, ended⟩ j le lt
      split at ended
      · next finite =>
        split at ended
        · cases ended
        · next goes =>
          rcases Nat.eq_or_lt_of_le le with rfl | later
          · exact goesOn_iff.mpr ⟨finite, Bool.eq_false_iff.mpr goes⟩
          · exact rest.mp ⟨last, ended⟩ j later (by omega)
      · cases ended
    · intro goes
      obtain ⟨finite, first⟩ := goesOn_iff.mp (goes k (Nat.le_refl k) (by omega))
      rw [if_pos finite, first]
      exact rest.mpr fun j le lt => goes j (Nat.le_of_succ_le le) (by omega)

/-- A coast about a centre that attracts, from numbers that are finite, is given up exactly if every
correction that is allowed is one after which the solver goes on. -/
theorem coast_eq_propagation_iff (config : KeplerConfig α) (hmu : o.mu > 0.0)
    (hdt : (dt == 0.0) = false) (regular : o.isRegular dt = true) :
    (∃ cause, o.coast stumpff config dt = .error (.propagation cause)) ↔
      ∀ k < config.maxIterations.toNat, o.GoesOn stumpff dt config.tol k := by
  have runs : (∃ last, o.solve stumpff config dt = .exhausted last) ↔
      ∀ k, 0 ≤ k → k < 0 + config.maxIterations.toNat → o.GoesOn stumpff dt config.tol k :=
    iterate_eq_exhausted_iff config.maxIterations.toNat 0
  simp only [Nat.zero_le, true_imp_iff, Nat.zero_add] at runs
  rw [← runs, coast, if_pos hmu, hdt, regular]
  simp only [if_true]
  cases o.solve stumpff config dt with
  | solved => simp
  | diverged => simp
  | exhausted => simp

/-- How many corrections a coast makes: none if it takes no time, or starts from what is not
finite. -/
def corrections (stumpff : α → Stumpff α) (config : KeplerConfig α) (o : Orbit α) (dt : α) : Nat :=
  if o.mu > 0.0 then
    if dt == 0.0 then 0
    else if o.isRegular dt then
      Kepler.corrections stumpff config.tol o dt config.maxIterations.toNat none
        (initialGuess o.radius o.radial o.alpha dt o.mu)
    else 0
  else 0

/-- Under a limit below the number of its corrections a coast is given up. -/
theorem coast_of_lt_corrections (config : KeplerConfig α) {limit : Nat}
    (h : limit < o.corrections stumpff config dt) :
    ∃ cause, o.coast stumpff (config.upTo limit) dt = .error (.propagation cause) := by
  rw [corrections] at h
  split_ifs at h with mu still regular
  · exact absurd h (Nat.not_lt_zero _)
  · obtain ⟨last, ended⟩ := iterate_of_lt_corrections stumpff config.tol o dt h
    have gives_up : o.solve stumpff (config.upTo limit) dt = .exhausted last := ended
    rw [coast, if_pos mu, if_neg still, if_pos regular, gives_up]
    exact ⟨_, rfl⟩
  · exact absurd h (Nat.not_lt_zero _)
  · exact absurd h (Nat.not_lt_zero _)

/-- The number of its corrections is limit enough for a coast to end as it does. -/
theorem coast_upTo_corrections (config : KeplerConfig α) {m : Motion α}
    (h : o.coast stumpff config dt = .ok m) :
    o.coast stumpff (config.upTo (o.corrections stumpff config dt)) dt = .ok m := by
  rw [coast] at h ⊢
  rw [corrections]
  split_ifs at h ⊢ with mu still regular
  · exact h
  · have same : o.solve stumpff (config.upTo (Kepler.corrections stumpff config.tol o dt
        config.maxIterations.toNat none (initialGuess o.radius o.radial o.alpha dt o.mu))) dt =
        o.solve stumpff config dt := iterate_corrections stumpff config.tol o dt _ none _
    rw [same]
    split at h
    · exact h
    · exact h
    · cases h
  · exact h

/-- A coast under a lower limit is the same coast, unless it is given up. -/
theorem coast_upTo {limit limit' : Int} (h : limit ≤ limit') (stumpff : α → Stumpff α)
    (config : KeplerConfig α) (o : Orbit α) (dt : α) :
    Curtails (o.coast stumpff (config.upTo limit) dt)
      (o.coast stumpff (config.upTo limit') dt) := by
  have steps : limit.toNat ≤ limit'.toNat := Int.toNat_le_toNat h
  have runs : o.solve stumpff (config.upTo limit) dt = o.solve stumpff (config.upTo limit') dt ∨
      ∃ last, o.solve stumpff (config.upTo limit) dt = .exhausted last :=
    iterate_of_le stumpff config.tol o dt steps none _
  simp only [coast]
  split
  · split
    · exact .refl _
    · split
      · cases ended : o.solve stumpff (config.upTo limit) dt with
        | exhausted last => exact .inr ⟨_, rfl⟩
        | solved χ =>
          rw [ended] at runs
          rw [← runs.resolve_right (by simp)]
          exact .refl _
        | diverged =>
          rw [ended] at runs
          rw [← runs.resolve_right (by simp)]
          exact .refl _
      · exact .refl _
  · exact .refl _

end Orbit

end Kepler

end LowThrust
