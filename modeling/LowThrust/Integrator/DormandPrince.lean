import LowThrust.Binary64.Scalar
import LowThrust.Integrator.Basic
import LowThrust.Integrator.Tableau

/-!
The integrator that runs: the method of order eight by Dormand and Prince in binary64, with steps
of a length that keeps the estimated error within the tolerances.
-/

namespace LowThrust.DormandPrince

/-- A rate of change as a function of the state. -/
abbrev Rate := State Float → State Float

def zero : State Float := ⟨⟨.zero, .zero⟩, 0.0⟩

/-- Combines two states number by number. -/
def zipWith (f : Float → Float → Float) (s t : State Float) : State Float :=
  ⟨⟨⟨f s.position.x t.position.x, f s.position.y t.position.y, f s.position.z t.position.z⟩,
    ⟨f s.velocity.x t.velocity.x, f s.velocity.y t.velocity.y, f s.velocity.z t.velocity.z⟩⟩,
    f s.mass t.mass⟩

def scale (a : Float) (s : State Float) : State Float := zipWith (fun x _ => a * x) s s

def addScaled (s : State Float) (a : Float) (t : State Float) : State Float :=
  zipWith (fun x y => x + a * y) s t

/-- The stages with the weights of a row. -/
def combine (stages : Array (State Float)) (row : Row) : State Float :=
  row.foldl (fun sum (i, w) => addScaled sum w (stages.getD i zero)) zero

/-- Appends the rates at the points that the rows reach from `y` with step `h`. -/
def extend (f : Rate) (y : State Float) (h : Float) (stages : Array (State Float))
    (rows : List Row) : Array (State Float) :=
  rows.foldl (fun ks row => ks.push (f (addScaled y h (combine ks row)))) stages

def sumSquares (s : State Float) : Float := s.toList.foldl (fun sum x => sum + x * x) 0.0

/-- Root mean square of the seven numbers. -/
def meanNorm (s : State Float) : Float := (sumSquares s).sqrt / (7.0 : Float).sqrt

/-- The error that is allowed in each number; one that is not a number allows none. -/
def allowance (config : IntegratorConfig Float) (s t : State Float) : State Float :=
  let rtol := if config.rtol < 2.220446049250313e-14 then 2.220446049250313e-14 else config.rtol
  zipWith (fun x y => config.atol + (if y.abs ≤ x.abs then x.abs else y.abs) * rtol) s t

/-- The distance from `t` to the next number in the direction of the span. -/
def spacing (t direction : Float) : Float :=
  let bits := t.abs.toBits
  let next := if t == 0.0 || (t > 0.0) == (direction > 0.0) then bits + 1 else bits - 1
  (Float.ofBits next - t.abs).abs

/-- The lesser of two numbers, and the first when they do not compare. -/
def atMost (x y : Float) : Float := if y < x then y else x

/-- A span of time with the settings and the rate of change of its solution. -/
structure Problem where
  config : IntegratorConfig Float
  rate : Rate
  start : Float
  final : Float

namespace Problem

variable (p : Problem)

def direction : Float := Scalar.sign (p.final - p.start)

def length : Float := (p.final - p.start).abs

def longest (h : Float) : Float :=
  match p.config.maxStep with
  | some m => atMost h m
  | none => h

/-- A first step from the sizes of the state, of its rate and of the rate's change. -/
def firstStep (y k : State Float) : Float :=
  let allowed := allowance p.config y y
  let relative (s : State Float) := meanNorm (zipWith (· / ·) s allowed)
  let d0 := relative y
  let d1 := relative k
  let h0 := atMost (if d0 < 1e-5 || d1 < 1e-5 then 1e-6 else 0.01 * d0 / d1) p.length
  let k1 := p.rate (addScaled y (h0 * p.direction) k)
  let d2 := relative (zipWith (· - ·) k1 k) / h0
  let h1 :=
    if d1 ≤ 1e-15 && d2 ≤ 1e-15 then Scalar.atLeast 1e-6 (h0 * 1e-3)
    else Float.pow (0.01 / Scalar.atLeast d1 d2) 0.125
  p.longest (atMost (atMost (100.0 * h0) h1) p.length)

end Problem

/-- A step from `y` at `t` to `next` at `tNext`, with its stages and the rate at its end. -/
structure Step where
  t : Float
  y : State Float
  tNext : Float
  next : State Float
  stages : Array (State Float)

namespace Step

/-- The step whose first stage is the rate `k` at its start. -/
def take (f : Rate) (t tNext : Float) (y k : State Float) : Step :=
  let h := tNext - t
  let stages := extend f y h #[k] stageRows
  let next := addScaled y h (combine stages stepRow)
  ⟨t, y, tNext, next, stages.push (f next)⟩

/-- The estimated error in units of the allowed one. -/
def error (s : Step) (config : IntegratorConfig Float) : Float :=
  let allowed := allowance config s.y s.next
  let relative (row : Row) := sumSquares (zipWith (· / ·) (combine s.stages row) allowed)
  let e5 := relative errorRow5
  let e3 := relative errorRow3
  if e5 == 0.0 && e3 == 0.0 then 0.0
  else (s.tNext - s.t).abs * e5 / ((e5 + 0.01 * e3) * 7.0).sqrt

/-- The terms of the interpolant, from the lowest. -/
def terms (s : Step) (f : Rate) : List (State Float) :=
  let h := s.tNext - s.t
  let stages := extend f s.y h s.stages denseRows
  let first := stages.getD 0 zero
  let last := stages.getD 12 zero
  let change := zipWith (· - ·) s.next s.y
  change :: zipWith (· - ·) (scale h first) change ::
    zipWith (· - ·) (scale 2.0 change) (scale h (zipWith (· + ·) last first)) ::
    interpolantRows.map fun row => scale h (combine stages row)

/-- The interpolant at the fraction `x` of the step; factors `x` and `1 - x` alternate. -/
def interpolate (s : Step) (terms : List (State Float)) (x : Float) : State Float :=
  let factors := (List.range terms.length).map fun i => if i % 2 = 0 then x else 1.0 - x
  let polynomial := (terms.reverse.zip factors).foldl
    (fun sum (term, factor) => scale factor (zipWith (· + ·) sum term)) zero
  zipWith (· + ·) polynomial s.y

/-- The states at times within the step. -/
def rows (s : Step) (f : Rate) (times : List Float) : List (Float × State Float) :=
  if times.isEmpty then []
  else
    let terms := s.terms f
    times.map fun t => (t, s.interpolate terms ((t - s.t) / (s.tNext - s.t)))

end Step

/-- Where the solution has got to: the state and its rate, the length of the next step and whether
a longer one has been rejected, the output times to come and the rows so far, the last one first. -/
structure Progress where
  t : Float
  y : State Float
  rate : State Float
  length : Float
  rejected : Bool
  times : List Float
  rows : List (Float × State Float)

/-- Steps are lengthened at most tenfold, and not at all after a rejection. -/
def growth (error : Float) (rejected : Bool) : Float :=
  let factor := if error == 0.0 then 10.0 else atMost 10.0 (0.9 * Float.pow error (-0.125))
  if rejected then atMost 1.0 factor else factor

/-- Steps are shortened at most fivefold. -/
def shrinkage (error : Float) : Float := Scalar.atLeast 0.2 (0.9 * Float.pow error (-0.125))

/-- Tries steps until the end of the span is reached. -/
def run (p : Problem) : Nat → Progress → Except (Fault Float) Progress
  | 0, _ => .error (.refused .endless)
  | n + 1, s =>
    let least := 10.0 * spacing s.t p.direction
    let length :=
      if s.rejected then s.length
      else
        let bounded := p.longest s.length
        if bounded < s.length then bounded else if s.length < least then least else s.length
    if length < least then .error (.propagation (.stepTooSmall p.start p.final))
    else
      let reached := s.t + length * p.direction
      let tNext := if p.direction * (reached - p.final) > 0.0 then p.final else reached
      let step := Step.take p.rate s.t tNext s.y s.rate
      let length := (tNext - s.t).abs
      let error := step.error p.config
      if error < 1.0 then
        let due := s.times.takeWhile (· ≤ tNext)
        let next : Progress :=
          { t := tNext, y := step.next, rate := step.stages.getD 12 zero,
            length := length * growth error s.rejected, rejected := false,
            times := s.times.dropWhile (· ≤ tNext),
            rows := (step.rows p.rate due).reverse ++ s.rows }
        if p.direction * (tNext - p.final) ≥ 0.0 then .ok next else run p n next
      else run p n { s with length := length * shrinkage error, rejected := true }

/-- More steps than any span of interest takes. -/
def stepLimit : Nat := 1000000000

def isIncreasing : List Float → Bool
  | s :: t :: ts => !(t ≤ s) && isIncreasing (t :: ts)
  | _ => true

def solve (p : Problem) (y : State Float) (times : List Float) :
    Except (Fault Float) Progress :=
  if p.config.method ≠ dormandPrince then .error (.refused .unknownMethod)
  else if times.any (fun t => t < p.start || t > p.final) || !isIncreasing times then
    .error (.refused .outputTimes)
  else if !y.isFinite then .error (.refused .stateNotFinite)
  else if p.config.maxStep.any (· ≤ 0.0) then .error (.refused .maxStepNotPositive)
  else if p.config.atol < 0.0 then .error (.refused .negativeTolerance)
  else
    let k := p.rate y
    let h := p.firstStep y k
    if h == h then
      run p stepLimit
        { t := p.start, y, rate := k, length := h, rejected := false, times, rows := [] }
    else .error (.refused .endless)

def integrator : Integrator Float where
  final config f start final y :=
    (solve ⟨config, f, start, final⟩ y []).map Progress.y
  sample config f start final y times :=
    (solve ⟨config, f, start, final⟩ y times).map fun s => s.rows.reverse

end LowThrust.DormandPrince
