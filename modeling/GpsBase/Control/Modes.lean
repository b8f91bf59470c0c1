import GpsBase.Mailbox.Slots

/-! # The station's modes and stream flags

`BaseStation` as far as its modes go: the flags that decide which streams run, the `suspended_` flags
of the local caster and of the three push clients, the frame parser and the correction mailbox, and
the locals of `run` that measure the output rate. Each function of the source is a function on
`Station`. What storage, the clock and the survey answer is passed in (`Answers`), and what the
receiver, the survey manager, the logger and storage are asked to do is listed in `effects`, in the
order of the source.

The record also keeps `marks`, the transitions, published frames and rate latches in order, and about
the rate window being measured whether a transition falls into it (`straddles`) and how many of its
bytes were published before the last one (`oldBytes`). The local batch is not modelled here: nothing
of it reaches the flags or the rate. -/

namespace GpsBase.Control.Modes

open GpsBase.Mailbox.Slots GpsBase.Rtcm.Parser

/-! ### Data -/

inductive BaseMode
  | kSurvey
  | kTransmit
  deriving DecidableEq, Repr

/-- `BasePosition`, over the type of `double`. -/
structure BasePosition (D : Type) where
  lat : D
  lon : D
  height : D
  valid : Bool

/-- `BaseStation::Action`; only `kPosition` reads the coordinates. -/
inductive Action (D : Type)
  | kSurvey
  | kPosition (lat lon height : D)
  | kStartRaw
  | kStopRaw
  | kResetUm980

/-- A call of a component of the station. -/
inductive Effect (D : Type)
  | uartFlushInput
  | surveyStart
  | surveyReset
  | configureSurveyOutput
  | configureBase (lat lon height : D) (antennaModel : List UInt8)
  | configureRawOutput
  | configureSignalGroup
  | rinexStart (lat lon height : D) (antennaModel antennaRadome : List UInt8) (antennaHeight : D)
  | rinexFeed (data : List UInt8)
  | rinexStop
  | savePosition (lat lon height : D)
  | clearPosition
  | setNtripStreamsEnabled (enabled : Bool)
  | configureService (d : PushDestination) (enabled : Bool) (mountpoint password : List UInt8)

/-- What is answered during an operation: the time read by `reset_rtcm_state`, the result of
`save_position`, and what is stored. -/
structure Answers (D : Type) where
  now : ℤ
  saved : Bool
  position : BasePosition D
  antennaModel : List UInt8
  antennaRadome : List UInt8
  antennaHeight : D

/-- A position is stored, and no antenna. -/
def Answers.stored : Answers Unit := ⟨0, true, ⟨(), (), (), true⟩, [], [], ()⟩

/-- What the record keeps of a run. `cleared` is a transition that clears the rate latch. -/
inductive Mark
  | cleared
  | frame
  | latched
  deriving DecidableEq, Repr

def kMinOutboundRtcmBps : ℕ := 900

/-- The members of `BaseStation`, the locals of `run`, and the record. -/
structure Station (D : Type) where
  mode : BaseMode := .kSurvey
  rawCollection : Bool := false
  hasRtcmData : Bool := false
  outboundRateReady : Bool := false
  transientStreamsSuspended : Bool := true
  userStreamsEnabled : Bool := true
  networkAvailable : Bool := false
  casterSuspended : Bool := true
  clientSuspended : PushDestination → Bool := fun _ => true
  parser : RtcmParser
  corrections : Corrections
  rtcmBps : ℕ := 0
  rtcmTotal : ℕ := 0
  rateStarted : ℤ := 0
  rateBytes : ℕ := 0
  effects : List (Effect D) := []
  marks : List Mark := []
  straddles : Bool := false
  oldBytes : ℕ := 0

namespace Station

variable {D : Type}

/-! ### Stream state -/

def effectiveStreamsSuspended (s : Station D) : Bool :=
  s.transientStreamsSuspended || !s.userStreamsEnabled || s.mode != .kTransmit || !s.hasRtcmData ||
    s.rawCollection

def effectiveOutboundStreamsSuspended (s : Station D) : Bool :=
  s.effectiveStreamsSuspended || !s.networkAvailable || !s.outboundRateReady

def applyStreamState (s : Station D) : Station D :=
  { s with casterSuspended := s.effectiveStreamsSuspended
           clientSuspended := fun _ => s.effectiveOutboundStreamsSuspended }

/-! ### Transitions -/

def act (s : Station D) (e : Effect D) : Station D := { s with effects := s.effects ++ [e] }

/-- `has_rtcm_data_ = false; outbound_rate_ready_ = false;` -/
def clearStreamData (s : Station D) : Station D :=
  { s with hasRtcmData := false, outboundRateReady := false, marks := s.marks ++ [Mark.cleared]
           straddles := true, oldBytes := s.rateBytes }

/-- `reset_rtcm_parser` and `reset_rtcm_state`. -/
def resetRtcm (s : Station D) (now : ℤ) : Station D :=
  { s with parser := s.parser.resetRtcmParser, corrections := resetRtcmState now }

def enterSurvey (s : Station D) (clearPosition : Bool) (a : Answers D) : Station D :=
  let s := { s with mode := .kSurvey }.clearStreamData.applyStreamState
  let s := if clearPosition then s.act .clearPosition else s
  ((((s.act .uartFlushInput).resetRtcm a.now).act .surveyStart).act .configureSurveyOutput)

def enterTransmit (s : Station D) (lat lon height : D) (a : Answers D) : Station D :=
  let s := { s with mode := .kTransmit }.clearStreamData
  let s := ((s.act .surveyReset).act .uartFlushInput).resetRtcm a.now
  (s.act (.configureBase lat lon height a.antennaModel)).applyStreamState

def enterRawCollection (s : Station D) (a : Answers D) : Station D :=
  if s.mode ≠ .kTransmit then s
  else if s.rawCollection then s
  else
    let s := { s with rawCollection := true }.applyStreamState
    let s := (s.act .uartFlushInput).resetRtcm a.now
    (s.act .configureRawOutput).act (.rinexStart a.position.lat a.position.lon a.position.height
      a.antennaModel a.antennaRadome a.antennaHeight)

def exitRawCollection (s : Station D) (a : Answers D) : Station D :=
  if s.rawCollection then
    let s := { s.act .rinexStop with rawCollection := false }.act .uartFlushInput
    let s := s.clearStreamData.resetRtcm a.now
    (s.act (.configureBase a.position.lat a.position.lon a.position.height
      a.antennaModel)).applyStreamState
  else s

def resetUm980 (s : Station D) (a : Answers D) : Station D :=
  if s.mode ≠ .kTransmit ∨ s.rawCollection = true then s
  else
    let s := s.clearStreamData.applyStreamState.act .configureSignalGroup
    let s := (s.act .uartFlushInput).resetRtcm a.now
    (s.act (.configureBase a.position.lat a.position.lon a.position.height
      a.antennaModel)).applyStreamState

/-- `save_position`, and `enter_transmit` if it succeeds. -/
def saveAndTransmit (s : Station D) (lat lon height : D) (a : Answers D) : Station D :=
  let s := s.act (.savePosition lat lon height)
  if a.saved then s.enterTransmit lat lon height a else s

/-- `handle_action`; `exit` are the answers to its `exit_raw_collection`. -/
def handleAction (s : Station D) (action : Action D) (exit a : Answers D) : Station D :=
  match action with
  | .kSurvey => (s.exitRawCollection exit).enterSurvey true a
  | .kStartRaw => s.enterRawCollection a
  | .kStopRaw => s.exitRawCollection exit
  | .kResetUm980 => s.resetUm980 a
  | .kPosition lat lon height => (s.exitRawCollection exit).saveAndTransmit lat lon height a

/-! ### Frames and the rate -/

def publishRtcmFrame (s : Station D) (data : List UInt8) (now : ℤ) : Station D :=
  if data = [] ∨ kMaxRtcmFrame < data.length then s
  else
    let first := !s.hasRtcmData
    let s := { s with hasRtcmData := true, marks := s.marks ++ [Mark.frame] }
    let s := if first then s.applyStreamState else s
    { s with corrections := GpsBase.Mailbox.Slots.publishRtcmFrame s.corrections data now
             rtcmTotal := s.rtcmTotal + data.length }

/-- The rate check of `run`. -/
def rateCheck (s : Station D) (now : ℤ) : Station D :=
  let elapsed := now - s.rateStarted
  if 1000000 ≤ elapsed then
    let bps := s.rateBytes * 1000000 / elapsed.toNat % 2 ^ 32
    let rises := decide (kMinOutboundRtcmBps ≤ bps) && !s.outboundRateReady
    let s := { s with
      rtcmBps := bps, rateBytes := 0, rateStarted := now, straddles := false, oldBytes := 0 }
    if rises then
      { s with outboundRateReady := true, marks := s.marks ++ [Mark.latched] }.applyStreamState
    else s
  else s

/-! ### Other tasks -/

inductive Call
  | setStreamsSuspended (suspended : Bool)
  | setStreamsEnabled (enabled : Bool)
  | applyPersistedStreams (enabled : Bool)
  | setNetworkAvailable (available : Bool)
  | reloadServices (services : PushDestination → Bool × List UInt8 × List UInt8)

def setStreamsSuspended (s : Station D) (suspended : Bool) : Station D :=
  { s with transientStreamsSuspended := suspended }.applyStreamState

def setStreamsEnabled (s : Station D) (enabled : Bool) : Station D :=
  { s.act (.setNtripStreamsEnabled enabled) with userStreamsEnabled := enabled }.applyStreamState

/-- `apply_persisted_streams`, with the value of `ntrip_streams_enabled`. -/
def applyPersistedStreams (s : Station D) (enabled : Bool) : Station D :=
  { s with userStreamsEnabled := enabled, transientStreamsSuspended := false }.applyStreamState

def setNetworkAvailable (s : Station D) (available : Bool) : Station D :=
  if s.networkAvailable = available then s
  else { s with networkAvailable := available }.applyStreamState

/-- `reload_services`, with what is stored for each service. -/
def reloadServices (s : Station D)
    (services : PushDestination → Bool × List UInt8 × List UInt8) : Station D :=
  let configure (d : PushDestination) : Effect D :=
    .configureService d (services d).1 (services d).2.1 (services d).2.2
  ((((s.act (configure .kPushRtk2go)).act (configure .kPushOnocoy)).act
    (configure .kPushRtkdata))).applyStreamState

def call (s : Station D) : Call → Station D
  | .setStreamsSuspended suspended => s.setStreamsSuspended suspended
  | .setStreamsEnabled enabled => s.setStreamsEnabled enabled
  | .applyPersistedStreams enabled => s.applyPersistedStreams enabled
  | .setNetworkAvailable available => s.setNetworkAvailable available
  | .reloadServices services => s.reloadServices services

/-! ### The task -/

/-- The station after `start`, with the value of `ntrip_streams_enabled`. -/
def start (enabled : Bool) (parser : RtcmParser) (corrections : Corrections) : Station D :=
  { userStreamsEnabled := enabled, parser := parser, corrections := corrections }

/-- `run` up to its loop: the mode by the stored position, and a new rate window. -/
def boot (s : Station D) (a : Answers D) (now : ℤ) : Station D :=
  let s := if a.position.valid then
      s.enterTransmit a.position.lat a.position.lon a.position.height a
    else s.enterSurvey false a
  { s with rateStarted := now, rateBytes := 0, straddles := false, oldBytes := 0 }

/-- A completed survey: the position is saved and transmission begins. -/
def surveyCompleted (s : Station D) (lat lon height : D) (a : Answers D) : Station D :=
  if s.mode = .kSurvey then s.saveAndTransmit lat lon height a else s

def feedRtcmByte (s : Station D) (now : ℤ) (byte : UInt8) : Station D :=
  let r := s.parser.feedRtcmByte byte
  let s := { s with parser := r.1 }
  match r.2 with
  | none => s
  | some frame => s.publishRtcmFrame frame now

/-- `flush_due_corrections`, with the answers of the clients' `push`. -/
def flushDueCorrections (s : Station D) (now : ℤ) (answers : PushDestination → SlotIndex → Bool) :
    Station D :=
  let flush (d : PushDestination) (m : Corrections) : Corrections :=
    (flushDestinationIfDue (fun i _ u => (answers d i, u)) d now m ()).1
  { s with corrections :=
      flush .kPushRtkdata (flush .kPushOnocoy (flush .kPushRtk2go s.corrections)) }

/-- `read_data_uart`, and the count of its bytes in `run`. -/
def readDataUart (s : Station D) (data : List UInt8) (now : ℤ)
    (answers : PushDestination → SlotIndex → Bool) : Station D :=
  let after := (data.foldl (fun s byte => s.feedRtcmByte now byte) s).flushDueCorrections now answers
  { after with rateBytes :=
      (after.rateBytes + (after.rtcmTotal - s.rtcmTotal) % 2 ^ 32) % 2 ^ 32 }

/-- What a turn of the loop of `run` meets: the actions queued, a survey completed in the meantime,
the bytes on the data UART, and the time at the rate check. -/
structure Turn (D : Type) where
  actions : List (Action D × Answers D × Answers D)
  completed : Option (D × D × D)
  answers : Answers D
  data : List UInt8
  readTime : ℤ
  pushed : PushDestination → SlotIndex → Bool
  now : ℤ

/-- A turn of the loop of `run` up to the rate check. -/
def serve (s : Station D) (t : Turn D) : Station D :=
  let s := t.actions.foldl (fun s a => s.handleAction a.1 a.2.1 a.2.2) s
  match s.mode with
  | .kSurvey => match t.completed with
    | none => s
    | some (lat, lon, height) => s.surveyCompleted lat lon height t.answers
  | .kTransmit =>
    if s.rawCollection then s.act (.rinexFeed t.data) else s.readDataUart t.data t.readTime t.pushed

/-- A turn of the loop of `run`. -/
def turn (s : Station D) (t : Turn D) : Station D := (s.serve t).rateCheck t.now

end Station

end GpsBase.Control.Modes
