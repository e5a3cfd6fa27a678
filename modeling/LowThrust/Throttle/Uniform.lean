import LowThrust.Throttle.Segment

/-!
Throttles as one list of numbers over segments of equal length.
-/

namespace LowThrust

open Scalar

variable {α : Type}

/-- Vectors from numbers three by three; an incomplete one at the end is left out. -/
def Vec3.chunks : List α → List (Vec3 α)
  | x :: y :: z :: rest => ⟨x, y, z⟩ :: chunks rest
  | _ => []

theorem Vec3.length_chunks : (xs : List α) → (chunks xs).length = xs.length / 3
  | [] | [_] | [_, _] => by simp [chunks]
  | _ :: _ :: _ :: rest => by simp [chunks, length_chunks rest]; omega

namespace ThrottleSegment

/-- The throttles of segments, one after the other. -/
def vector (segments : List (ThrottleSegment α)) : List α :=
  segments.flatMap fun s => s.value.toList

variable [Scalar α]

/-- Point `k` of `n` equal parts from `a` to `b`, both of which are met exactly. -/
def gridPoint (a b : α) (n k : Nat) : α :=
  let step := (b - a) / ofNat n
  if k = n then b
  else if step == 0.0 then ofNat k / ofNat n * (b - a) + a
  else ofNat k * step + a

/-- Segments of equal length, each from the end of the one before it. -/
def uniform (start final : Option (Epoch α)) (values : List α) :
    Except (Fault α) (List (ThrottleSegment α)) :=
  if values.length % 3 ≠ 0 then
    .error (.configuration (.throttleVectorLength values.length))
  else
    match start, final with
    | some start, some final =>
      if final ≤ start then .error (.configuration (.epochOrder start final))
      else
        let point (k : Nat) : Epoch α :=
          ⟨gridPoint start.mjd2000 final.mjd2000 (values.length / 3) k⟩
        .ok ((Vec3.chunks values).mapIdx fun k v => ⟨point k, point (k + 1), v⟩)
    | _, _ => .error .epochNotSet

end ThrottleSegment

end LowThrust
