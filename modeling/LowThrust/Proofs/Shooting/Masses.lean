import LowThrust.Proofs.Shooting.NonFinite

/-!
The masses of a leg under impulses. What an impulse leaves of a mass follows from the thrust and
from that mass, so nothing that is said about motions and dates reaches the masses at the matching
point.
-/

namespace LowThrust

variable {α : Type} [Scalar α]

/-- The same thrust for the same time, on whatever date. -/
structure ThrottleSegment.Alike (s s' : ThrottleSegment α) : Prop where
  duration : s.duration = s'.duration
  value : s.value = s'.value

namespace Engine

/-- What is left of a mass by the impulses of segments, each of them on the mass that those before
it leave. -/
def massThrough (e : Engine α) (mass : α) (segments : List (ThrottleSegment α)) : α :=
  segments.foldl (fun mass s => e.massAfter mass (e.impulse mass s)) mass

variable {e : Engine α} {segments segments' : List (ThrottleSegment α)}

theorem impulse_of_alike {s s' : ThrottleSegment α} (h : s.Alike s') (mass : α) :
    e.impulse mass s = e.impulse mass s' := by
  rw [impulse, impulse, h.duration, h.value]

theorem massThrough_of_alike (h : List.Forall₂ ThrottleSegment.Alike segments segments')
    (mass : α) : e.massThrough mass segments = e.massThrough mass segments' := by
  induction h generalizing mass with
  | nil => rfl
  | cons alike _ ih =>
    rw [massThrough, massThrough, List.foldl_cons, List.foldl_cons, impulse_of_alike alike]
    exact ih _

end Engine

/-- The mass at the end of a flight does not depend on where the flight goes. -/
theorem Flight.mass_of_foldlM_impulsive {coast : Coast α} {e : Engine α}
    {segments : List (ThrottleSegment α)} {f g : Flight α}
    (h : segments.foldlM (impulsive coast e) f = .ok g) :
    g.state.mass = e.massThrough f.state.mass segments := by
  induction segments generalizing f with
  | nil =>
    cases h
    rfl
  | cons s rest ih =>
    rw [List.foldlM_cons] at h
    obtain ⟨next, struck, flown⟩ := bind_eq_ok_iff.mp h
    rw [ih flown, mass_of_impulsive struck]
    rfl

theorem Flight.mass_of_mismatch {coast : Coast α} {f g : Flight α} {m : State α}
    (h : f.mismatch coast g = .ok m) : m.mass = f.state.mass - g.state.mass := by
  obtain ⟨met, coasted, missed⟩ := bind_eq_ok_iff.mp h
  obtain rfl := pure_eq_ok_iff.mp missed
  obtain ⟨motion, -, rfl⟩ := coastTo_eq_ok_iff.mp coasted
  rfl

namespace Transfer

variable {t t' : Transfer α}

theorem mass_of_shootImpulsive {coast : Coast α} {m : State α}
    (h : t.shootImpulsive coast = .ok m) :
    m.mass =
      (Engine.ofSpacecraft t.spacecraft).massThrough t.startState.mass t.forwardSegments -
        (Engine.ofSpacecraft t.spacecraft).reversed.massThrough t.finalState.mass
          t.backwardSegments := by
  obtain ⟨f, hf, h⟩ := bind_eq_ok_iff.mp h
  obtain ⟨g, hg, h⟩ := bind_eq_ok_iff.mp h
  rw [Flight.mass_of_mismatch h, Flight.mass_of_foldlM_impulsive hf,
    Flight.mass_of_foldlM_impulsive hg]
  rfl

/-- Legs with the same engine that start and end with the same masses and thrust alike, segment by
segment. -/
structure ThrustsAlike (t t' : Transfer α) : Prop where
  thrust : t.spacecraft.thrust = t'.spacecraft.thrust
  isp : t.spacecraft.isp = t'.spacecraft.isp
  startMass : t.startState.mass = t'.startState.mass
  finalMass : t.finalState.mass = t'.finalState.mass
  segments : List.Forall₂ ThrottleSegment.Alike t.throttles t'.throttles

namespace ThrustsAlike

variable (h : t.ThrustsAlike t')

include h

theorem engine : Engine.ofSpacecraft t.spacecraft = Engine.ofSpacecraft t'.spacecraft := by
  rw [Engine.ofSpacecraft, Engine.ofSpacecraft, h.thrust, h.isp]

theorem forwardCount : t.forwardCount = t'.forwardCount := by
  rw [Transfer.forwardCount, Transfer.forwardCount, size, size, h.segments.length_eq]

theorem forwardSegments :
    List.Forall₂ ThrottleSegment.Alike t.forwardSegments t'.forwardSegments := by
  rw [Transfer.forwardSegments, Transfer.forwardSegments, h.forwardCount]
  exact List.forall₂_take _ h.segments

theorem backwardSegments :
    List.Forall₂ ThrottleSegment.Alike t.backwardSegments t'.backwardSegments := by
  rw [Transfer.backwardSegments, Transfer.backwardSegments, h.forwardCount,
    List.forall₂_reverse_iff]
  exact List.forall₂_drop _ h.segments

/-- However the two legs coast. -/
theorem mass_eq {coast coast' : Coast α} {m m' : State α} (hm : t.shootImpulsive coast = .ok m)
    (hm' : t'.shootImpulsive coast' = .ok m') : m.mass = m'.mass := by
  rw [mass_of_shootImpulsive hm, mass_of_shootImpulsive hm', h.engine, h.startMass, h.finalMass,
    Engine.massThrough_of_alike h.forwardSegments, Engine.massThrough_of_alike h.backwardSegments]

end ThrustsAlike

end Transfer

/-- Legs that thrust alike miss by the same mass, in whatever arithmetic: neither positions and
velocities nor gravity, dates and the settings of the Kepler solver have a part in it. -/
theorem Leg.mass_mismatch_of_thrustsAlike {integrator integrator' : Integrator α}
    {leg leg' : Leg α} {t t' : Transfer α} (complete : leg.snapshot = .ok t)
    (complete' : leg'.snapshot = .ok t') (impulsive : leg.highFidelity = false)
    (impulsive' : leg'.highFidelity = false) (alike : t.ThrustsAlike t') {m m' : State α}
    (found : leg.mismatch integrator = .ok m) (found' : leg'.mismatch integrator' = .ok m') :
    m.mass = m'.mass := by
  rw [highFidelity_of_snapshot complete] at impulsive
  rw [highFidelity_of_snapshot complete'] at impulsive'
  rw [mismatch_of_snapshot complete, Transfer.mismatch,
    Transfer.mismatchBy_of_impulsive impulsive] at found
  rw [mismatch_of_snapshot complete', Transfer.mismatch,
    Transfer.mismatchBy_of_impulsive impulsive'] at found'
  exact alike.mass_eq found found'

/-! ### Two legs far apart -/

namespace Transfer

/-- A leg of two segments of a few hundredths of a second from a state to itself. -/
def hop (config : PropagationConfig Float) (departure : Float) (state : State Float)
    (mu : Float) : Transfer Float where
  config
  startEpoch := ⟨departure⟩
  startState := state
  throttles :=
    [⟨⟨departure⟩, ⟨departure + 2.384185791015625e-7⟩, ⟨0.5, 0.0, 0.0⟩⟩,
      ⟨⟨departure⟩, ⟨departure + 4.76837158203125e-7⟩, ⟨0.0, -1.0, 0.5⟩⟩]
  finalEpoch := ⟨departure + 4.76837158203125e-7⟩
  finalState := state
  spacecraft := ⟨50.0, 0.25, 3000.0⟩
  mu
  highFidelity := false

/-- On an orbit of radius one. -/
def smallHop : Transfer Float := hop .default 0.0 ⟨⟨⟨1.0, 0.0, 0.0⟩, ⟨0.0, 1.0, 0.0⟩⟩, 50.0⟩ 1.0

/-- About the Earth some days later, with other settings. -/
def largeHop : Transfer Float :=
  hop ⟨⟨1e-10, 20⟩, .default⟩ 8.0 ⟨⟨⟨0.0, 7000.0, 0.0⟩, ⟨-7.5, 0.0, 1.0⟩⟩, 50.0⟩ 398600.4418

theorem thrustsAlike_hops : smallHop.ThrustsAlike largeHop where
  thrust := rfl
  isp := rfl
  startMass := rfl
  finalMass := rfl
  segments := .cons ⟨by decide +kernel, rfl⟩ (.cons ⟨by decide +kernel, rfl⟩ .nil)

theorem mass_mismatch_hops :
    ∃ m m', smallHop.toLeg.mismatch DormandPrince.integrator = .ok m ∧
      largeHop.toLeg.mismatch DormandPrince.integrator = .ok m' ∧ m.mass = m'.mass := by
  have reached : (smallHop.toLeg.mismatch DormandPrince.integrator).toOption.isSome = true := by
    decide +kernel
  have reached' : (largeHop.toLeg.mismatch DormandPrince.integrator).toOption.isSome = true := by
    decide +kernel
  obtain ⟨m, hm⟩ := Option.isSome_iff_exists.mp reached
  obtain ⟨m', hm'⟩ := Option.isSome_iff_exists.mp reached'
  have found := toOption_eq_some_iff.mp hm
  have found' := toOption_eq_some_iff.mp hm'
  have snapshot : smallHop.toLeg.snapshot = .ok smallHop := rfl
  have snapshot' : largeHop.toLeg.snapshot = .ok largeHop := rfl
  exact ⟨m, m', found, found',
    Leg.mass_mismatch_of_thrustsAlike snapshot snapshot' rfl rfl thrustsAlike_hops found found'⟩

end Transfer

end LowThrust
