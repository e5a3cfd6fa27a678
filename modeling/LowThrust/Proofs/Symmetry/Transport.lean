import LowThrust.Leg.Shooting

/-!
Runs under a change of what they work on. Where every step commutes with the change, so does the
run, and with it the evaluation of a leg from both of its ends.
-/

namespace LowThrust

section Runs

variable {ε ε' β β' γ γ' : Type} {e : ε → ε'} {f : β → β'}

/-- What follows a computation may change with its result and with its fault. -/
theorem bind_transport {g : γ → γ'} {x : Except ε β} {x' : Except ε' β'} {k : β → Except ε γ}
    {k' : β' → Except ε' γ'} (hx : x' = (x.map f).mapError e)
    (hk : ∀ b, k' (f b) = ((k b).map g).mapError e) :
    x' >>= k' = ((x >>= k).map g).mapError e := by
  rw [hx]
  cases x with
  | error => rfl
  | ok b => exact hk b

/-- A fold whose steps commute with a change of what they carry and of their faults commutes with
it. -/
theorem foldlM_transport {g : γ → γ'} {step : β → γ → Except ε β}
    {step' : β' → γ' → Except ε' β'}
    (h : ∀ b c, step' (f b) (g c) = ((step b c).map f).mapError e) (b : β) (cs : List γ) :
    (cs.map g).foldlM step' (f b) = ((cs.foldlM step b).map f).mapError e := by
  induction cs generalizing b with
  | nil => rfl
  | cons c cs ih =>
    rw [List.map_cons, List.foldlM_cons, List.foldlM_cons]
    exact bind_transport (h b c) ih

theorem mapError_id (x : Except ε β) : x.mapError id = x := by cases x <;> rfl

/-- Faults that do not change are those of the computation itself. -/
theorem bind_map {g : γ → γ'} {x : Except ε β} {x' : Except ε β'} {k : β → Except ε γ}
    {k' : β' → Except ε γ'} (hx : x' = x.map f) (hk : ∀ b, k' (f b) = (k b).map g) :
    x' >>= k' = (x >>= k).map g := by
  rw [← mapError_id ((x >>= k).map g)]
  exact bind_transport (hx.trans (mapError_id _).symm) fun b => (hk b).trans (mapError_id _).symm

theorem foldlM_map_of_step {g : γ → γ'} {step : β → γ → Except ε β}
    {step' : β' → γ' → Except ε β'} (h : ∀ b c, step' (f b) (g c) = (step b c).map f) (b : β)
    (cs : List γ) : (cs.map g).foldlM step' (f b) = (cs.foldlM step b).map f := by
  rw [← mapError_id ((cs.foldlM step b).map f)]
  exact foldlM_transport (fun b c => (h b c).trans (mapError_id _).symm) b cs

end Runs

namespace Transfer

variable {α : Type} {t t' : Transfer α} {g : ThrottleSegment α → ThrottleSegment α}

theorem forwardSegments_map (h : t'.throttles = t.throttles.map g) :
    t'.forwardSegments = t.forwardSegments.map g := by
  simp only [forwardSegments, forwardCount, size, h, List.length_map, List.map_take]

theorem backwardSegments_map (h : t'.throttles = t.throttles.map g) :
    t'.backwardSegments = t.backwardSegments.map g := by
  simp only [backwardSegments, forwardCount, size, h, List.length_map, List.map_drop,
    List.map_reverse]

/-- Both halves of a leg go through changed flights where their steps do. -/
theorem halves_map [Scalar α] {f : Flight α → Flight α} {k : State α → State α} {coast : Coast α}
    {forwardStep backwardStep : Flight α → ThrottleSegment α → Except (Fault α) (Flight α)}
    (hf : ∀ p s, forwardStep (f p) (g s) = (forwardStep p s).map f)
    (hb : ∀ p s, backwardStep (f p) (g s) = (backwardStep p s).map f)
    (hm : ∀ p q, (f p).mismatch coast (f q) = (p.mismatch coast q).map k)
    (throttles : t'.throttles = t.throttles.map g) (departure : t'.departure = f t.departure)
    (arrival : t'.arrival = f t.arrival) :
    (do
      let forward ← t'.forwardSegments.foldlM forwardStep t'.departure
      let backward ← t'.backwardSegments.foldlM backwardStep t'.arrival
      forward.mismatch coast backward) =
    Except.map k (do
      let forward ← t.forwardSegments.foldlM forwardStep t.departure
      let backward ← t.backwardSegments.foldlM backwardStep t.arrival
      forward.mismatch coast backward) := by
  rw [forwardSegments_map throttles, backwardSegments_map throttles, departure, arrival]
  refine bind_map (foldlM_map_of_step hf _ _) fun forward => ?_
  exact bind_map (foldlM_map_of_step hb _ _) fun backward => hm forward backward

end Transfer

end LowThrust
