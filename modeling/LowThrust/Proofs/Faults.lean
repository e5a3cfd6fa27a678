import LowThrust.Fault

/-!
Which faults a computation may end in. A computation that is put together from others ends in
theirs.
-/

namespace LowThrust

/-- A failure is one of `P`. -/
def FailsOnly {ε β : Type} (P : ε → Prop) (x : Except ε β) : Prop :=
  ∀ fault, x = .error fault → P fault

namespace FailsOnly

variable {ε β γ : Type} {P Q : ε → Prop} {x : Except ε β}

theorem ok (b : β) : FailsOnly P (.ok b) := by
  intro fault h
  cases h

theorem error {fault : ε} (h : P fault) : FailsOnly P (.error fault : Except ε β) := by
  intro fault' h'
  cases h'
  exact h

theorem mono (hx : FailsOnly P x) (h : ∀ fault, P fault → Q fault) : FailsOnly Q x :=
  fun fault failed => h fault (hx fault failed)

theorem bind_of_ok {f : β → Except ε γ} (hx : FailsOnly P x)
    (hf : ∀ b, x = .ok b → FailsOnly P (f b)) : FailsOnly P (x >>= f) := by
  cases x with
  | error fault => exact error (hx fault rfl)
  | ok b => exact hf b rfl

theorem bind {f : β → Except ε γ} (hx : FailsOnly P x) (hf : ∀ b, FailsOnly P (f b)) :
    FailsOnly P (x >>= f) :=
  hx.bind_of_ok fun b _ => hf b

theorem map {f : β → γ} (hx : FailsOnly P x) : FailsOnly P (x.map f) := by
  cases x with
  | error fault => exact error (hx fault rfl)
  | ok b => exact ok (f b)

theorem mapError {ε' : Type} {f : ε → ε'} {Q : ε' → Prop} (hx : FailsOnly P x)
    (hf : ∀ fault, P fault → Q (f fault)) : FailsOnly Q (x.mapError f) := by
  cases x with
  | error fault => exact error (hf fault (hx fault rfl))
  | ok b => exact ok b

theorem foldlM {step : β → γ → Except ε β} {cs : List γ}
    (h : ∀ c ∈ cs, ∀ b, FailsOnly P (step b c)) (b : β) : FailsOnly P (cs.foldlM step b) := by
  induction cs generalizing b with
  | nil => exact ok b
  | cons c cs ih =>
    rw [List.foldlM_cons]
    exact bind (h c List.mem_cons_self b) (ih fun d hd => h d (List.mem_cons_of_mem c hd))

theorem mapM {f : γ → Except ε β} {cs : List γ} (h : ∀ c ∈ cs, FailsOnly P (f c)) :
    FailsOnly P (cs.mapM f) := by
  induction cs with
  | nil => exact ok []
  | cons c cs ih =>
    rw [List.mapM_cons]
    refine bind (h c List.mem_cons_self) fun b => ?_
    exact bind (ih fun d hd => h d (List.mem_cons_of_mem c hd)) fun bs => ok (b :: bs)

end FailsOnly

theorem bind_eq_error_iff {ε β γ : Type} {x : Except ε β} {f : β → Except ε γ} {fault : ε} :
    x >>= f = .error fault ↔ x = .error fault ∨ ∃ b, x = .ok b ∧ f b = .error fault := by
  cases x with
  | error => simp [bind, Except.bind]
  | ok => simp [bind, Except.bind]

/-- A fold fails where one of its steps does, after those before it. -/
theorem foldlM_eq_error_iff {ε β γ : Type} {step : β → γ → Except ε β} {cs : List γ} {b : β}
    {fault : ε} :
    cs.foldlM step b = .error fault ↔
      ∃ before c after b', cs = before ++ c :: after ∧ before.foldlM step b = .ok b' ∧
        step b' c = .error fault := by
  induction cs generalizing b with
  | nil => simp [pure, Except.pure]
  | cons c cs ih =>
    rw [List.foldlM_cons, bind_eq_error_iff]
    constructor
    · rintro (failed | ⟨b₁, stepped, failed⟩)
      · exact ⟨[], c, cs, b, rfl, rfl, failed⟩
      · obtain ⟨before, c', after, b', rfl, reached, failed⟩ := ih.mp failed
        refine ⟨c :: before, c', after, b', rfl, ?_, failed⟩
        rw [List.foldlM_cons, stepped]
        exact reached
    · rintro ⟨_ | ⟨d, before⟩, c', after, b', split, reached, failed⟩
      · cases split
        cases reached
        exact .inl failed
      · cases split
        rw [List.foldlM_cons] at reached
        cases stepped : step b c with
        | error => rw [stepped] at reached; cases reached
        | ok b₁ =>
          rw [stepped] at reached
          exact .inr ⟨b₁, rfl, ih.mpr ⟨before, c', after, b', rfl, reached, failed⟩⟩

/-! ### Computations that are cut short -/

/-- The first computation is the second one, unless a propagation is given up in it. -/
def Curtails {α β : Type} (x y : Except (Fault α) β) : Prop :=
  x = y ∨ ∃ cause, x = .error (.propagation cause)

namespace Curtails

variable {α β γ : Type} {x y : Except (Fault α) β}

theorem refl (x : Except (Fault α) β) : Curtails x x := .inl rfl

theorem bind {f g : β → Except (Fault α) γ} (h : Curtails x y) (hf : ∀ b, Curtails (f b) (g b)) :
    Curtails (x >>= f) (y >>= g) := by
  rcases h with rfl | ⟨cause, rfl⟩
  · cases x with
    | error fault => exact refl _
    | ok b => exact hf b
  · exact .inr ⟨cause, rfl⟩

theorem foldlM {f g : β → γ → Except (Fault α) β} (h : ∀ b c, Curtails (f b c) (g b c))
    (cs : List γ) (b : β) : Curtails (cs.foldlM f b) (cs.foldlM g b) := by
  induction cs generalizing b with
  | nil => exact refl _
  | cons c cs ih =>
    rw [List.foldlM_cons, List.foldlM_cons]
    exact bind (h b c) ih

/-- A result stays when the computation goes on for longer. -/
theorem ok (h : Curtails x y) {b : β} (hx : x = .ok b) : y = .ok b := by
  rcases h with rfl | ⟨cause, rfl⟩
  · exact hx
  · cases hx

/-- Where only the second computation has a result, a propagation is given up in the first. -/
theorem error (h : Curtails x y) {b : β} (hy : y = .ok b) (hx : ∀ b, x ≠ .ok b) :
    ∃ cause, x = .error (.propagation cause) :=
  h.resolve_left fun eq => hx b (eq.trans hy)

end Curtails

/-- The fault lies in how a leg, or what is asked of it, is set up. -/
def Fault.IsMisconfiguration {α : Type} (fault : Fault α) : Prop :=
  ∃ cause, fault = .configuration cause

end LowThrust
