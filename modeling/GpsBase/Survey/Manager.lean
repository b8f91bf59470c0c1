import GpsBase.Lib.Welford

/-! # The survey manager

`SurveyManager` as far as the position goes: the running means, the means by minutes, and the result.
Numbers are those of an ordered field, with a square root and a cosine, so that `float` and `double` are
exact; the counters are natural numbers, and the clock is an integer. A fix is what
`parse_best_position` has read and accepted of a line. The manager also keeps the block values it
commits (`commits`). -/

namespace GpsBase.Survey.Manager

open GpsBase.Lib.Welford

/-- A square root, a cosine and `M_PI`. -/
structure Analysis (K : Type*) [Field K] [LinearOrder K] where
  sqrt : K → K
  cos : K → K
  pi : K
  sqrt_nonneg : ∀ x, 0 ≤ x → 0 ≤ sqrt x
  mul_self_sqrt : ∀ x, 0 ≤ x → sqrt x * sqrt x = x

structure Position (K : Type*) where
  lat : K
  lon : K
  height : K

/-- A fix, at its time in microseconds. -/
structure Fix (K : Type*) extends Position K where
  now : ℤ

inductive SurveyState
  | kIdle
  | kCollecting
  | kDone
  | kError
  deriving DecidableEq, Repr

structure SurveyResult (K : Type*) [Zero K] where
  lat : K := 0
  lon : K := 0
  height : K := 0
  latSigma : K := 0
  lonSigma : K := 0
  heightSigma : K := 0
  elapsedSec : ℕ := 0

/-- The members of a coordinate: `mean_` and `m2_`, `block_sum_`, `block_mean_` and `block_m2_`. -/
structure Axis (K : Type*) where
  all : Running K
  blockSum : K
  block : Running K

/-- `UINT32_MAX`, no block yet. -/
def UINT32_MAX : ℕ := 2 ^ 32 - 1

/-- `config::kSurveyMinTimeSec` and the other limits. -/
def kSurveyMinTimeSec : ℕ := 300

def kSurveyBlockTimeSec : ℕ := 60

def kSurveyMinBlocks : ℕ := 5

/-- The members of `SurveyManager`. -/
structure SurveyManager (K : Type*) [Zero K] where
  state : SurveyState
  result : SurveyResult K
  startedUs : ℤ
  completionPending : Bool
  samples : ℕ
  lat : Axis K
  lon : Axis K
  height : Axis K
  blockIndex : ℕ
  blockSamples : ℕ
  blockCount : ℕ
  commits : List (Position K)

section

variable {K : Type*} [Field K]

def updateWelford (value : K) (count : ℕ) (w : Running K) : Running K :=
  let delta := value - w.mean
  let mean := w.mean + delta / count
  { mean := mean, m2 := w.m2 + delta * (value - mean) }

namespace Axis

/-- Nothing so far. -/
def zero : Axis K := { all := ⟨0, 0⟩, blockSum := 0, block := ⟨0, 0⟩ }

def sample (a : Axis K) (value : K) (samples : ℕ) : Axis K :=
  { a with all := updateWelford value samples a.all }

def blockValue (a : Axis K) (blockSamples : ℕ) : K := a.blockSum / blockSamples

/-- The mean of the block counts, and a new block begins. -/
def commit (a : Axis K) (blockSamples blockCount : ℕ) : Axis K :=
  { a with block := updateWelford (a.blockValue blockSamples) blockCount a.block, blockSum := 0 }

def add (a : Axis K) (value : K) : Axis K := { a with blockSum := a.blockSum + value }

end Axis

namespace SurveyManager

def start (s : SurveyManager K) (now : ℤ) : SurveyManager K :=
  { s with
    state := .kCollecting, result := {}, startedUs := now, completionPending := false
    samples := 0, lat := Axis.zero, lon := Axis.zero, height := Axis.zero
    blockIndex := UINT32_MAX, blockSamples := 0, blockCount := 0, commits := [] }

/-- `reset`; the means stay. -/
def reset (s : SurveyManager K) : SurveyManager K :=
  { s with state := .kIdle, result := {}, completionPending := false }

def takeCompletedResult (s : SurveyManager K) : SurveyManager K × Option (SurveyResult K) :=
  if s.completionPending then ({ s with completionPending := false }, some s.result) else (s, none)

def commitBlock (s : SurveyManager K) : SurveyManager K :=
  if s.blockSamples = 0 then s
  else
    let count := s.blockCount + 1
    { s with
      blockCount := count
      lat := s.lat.commit s.blockSamples count
      lon := s.lon.commit s.blockSamples count
      height := s.height.commit s.blockSamples count
      blockSamples := 0
      commits := s.commits ++ [⟨s.lat.blockValue s.blockSamples, s.lon.blockValue s.blockSamples,
        s.height.blockValue s.blockSamples⟩] }

/-- The seconds since `start`, as `uint32_t`. -/
def elapsed (s : SurveyManager K) (now : ℤ) : ℕ :=
  ((now - s.startedUs).tdiv 1000000 % 2 ^ 32).toNat

def sample (s : SurveyManager K) (f : Fix K) : SurveyManager K :=
  let samples := s.samples + 1
  { s with
    samples := samples
    lat := s.lat.sample f.lat samples
    lon := s.lon.sample f.lon samples
    height := s.height.sample f.height samples }

/-- The block of a fix: the first, a new one, or the same. -/
def moveBlock (s : SurveyManager K) (nextBlock : ℕ) : SurveyManager K :=
  if s.blockIndex = UINT32_MAX then { s with blockIndex := nextBlock }
  else if s.blockIndex ≠ nextBlock then { s.commitBlock with blockIndex := nextBlock }
  else s

def addToBlock (s : SurveyManager K) (f : Fix K) : SurveyManager K :=
  { s with
    lat := s.lat.add f.lat, lon := s.lon.add f.lon, height := s.height.add f.height
    blockSamples := s.blockSamples + 1 }

variable [LinearOrder K] (A : Analysis K)

def kMetresPerDegree : K := 222639 / 2

def kSurveyMaxStabilityM : K := 1 / 2

def standardError (m2 : K) (count : ℕ) : K :=
  if count < 2 then 9999 else A.sqrt (m2 / ((count : K) - 1)) / A.sqrt count

/-- `lat_m`, `lon_m` and `height_m` at a latitude. -/
def errors (s : SurveyManager K) (lat : K) : Position K :=
  if 2 ≤ s.blockCount then
    { lat := standardError A s.lat.block.m2 s.blockCount * kMetresPerDegree
      lon := standardError A s.lon.block.m2 s.blockCount * kMetresPerDegree *
        A.cos (lat * A.pi / (180 : ℕ))
      height := standardError A s.height.block.m2 s.blockCount }
  else ⟨9999, 9999, 9999⟩

def stability (s : SurveyManager K) (lat : K) : K :=
  if 2 ≤ s.blockCount then
    let e := s.errors A lat
    A.sqrt (e.lat * e.lat + e.lon * e.lon + e.height * e.height)
  else 9999

/-- The test at the end of `parse_best_position`. -/
def complete (s : SurveyManager K) (f : Fix K) : SurveyManager K :=
  let elapsed := s.elapsed f.now
  if kSurveyMinTimeSec ≤ elapsed ∧ kSurveyMinBlocks ≤ s.blockCount ∧
      s.stability A f.lat ≤ kSurveyMaxStabilityM then
    let e := s.errors A f.lat
    { s with
      result := ⟨s.lat.all.mean, s.lon.all.mean, s.height.all.mean, e.lat, e.lon, e.height, elapsed⟩
      state := .kDone
      completionPending := true }
  else s

/-- `parse_best_position` with a fix it accepts. -/
def parseBestPosition (s : SurveyManager K) (f : Fix K) : SurveyManager K :=
  let s := s.sample f
  let s := s.moveBlock (s.elapsed f.now / kSurveyBlockTimeSec)
  (s.addToBlock f).complete A f

/-- `parse_line` with such a line. -/
def parseLine (s : SurveyManager K) (f : Fix K) : SurveyManager K :=
  if s.state = .kCollecting then s.parseBestPosition A f else s

end SurveyManager

end

end GpsBase.Survey.Manager
