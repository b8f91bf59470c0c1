import GpsBase.Lib.CText

/-! # The receiver's configuration

The commands `Um980` sends, in their order and with their bytes, and what the receiver makes of the
lines it gets: which logs its port COM3 sends, and where it stands as a base. A changed signal group
makes it start again with what was saved. A command that does not fit its buffer is not sent, and
nothing after it. -/

namespace GpsBase.Control.Um980

open GpsBase.Lib.CText GpsBase.Lib.Binary64

/-! ### Commands -/

/-- `command` with a text of its own, `commandf` with a text that is printed. -/
inductive Command
  | command (text : List UInt8)
  | commandf (text : List UInt8)

def Command.text : Command → List UInt8
  | command text => text
  | commandf text => text

/-- The text is sent: there is one, and a printed one fits the buffer. -/
def Command.accepted : Command → Bool
  | command text => !text.isEmpty
  | commandf text => !text.isEmpty && text.length < 160

/-- `command` with a literal. -/
def say (s : String) : Command := .command (ascii s)

def stopOutput : List Command := [say "UNLOGALL COM2", say "UNLOGALL COM3"]

def configureSatelliteOutput : List Command :=
  [say "LOG COM2 GNGSA ONTIME 10", say "LOG COM2 GPGSV ONTIME 10", say "LOG COM2 GLGSV ONTIME 10",
    say "LOG COM2 GAGSV ONTIME 10", say "LOG COM2 GBGSV ONTIME 10"]

def configureSurveyOutput : List Command :=
  stopOutput ++ [say "LOG COM2 BESTPOSA ONTIME 5"] ++ configureSatelliteOutput

def configureRawOutput : List Command := [say "UNLOGALL COM3", say "LOG COM3 RANGEA ONTIME 30"]

def configureSignalGroup : List Command := [say "CONFIG SIGNALGROUP 2"]

/-! ### Base mode -/

/-- `config::kRtcmBasePositionRateSec` and the other rates. -/
def kRtcmBasePositionRateSec : ℤ := 5

def kRtcmAntennaDescriptorRateSec : ℤ := 10

def kRtcmGpsRateSec : ℤ := 1

def kRtcmGlonassRateSec : ℤ := 1

def kRtcmGalileoRateSec : ℤ := 1

def kRtcmQzssRateSec : ℤ := 1

def kRtcmBeidouRateSec : ℤ := 1

def kRtcmNavicRateSec : ℤ := 1

def kRtcmGlonassBiasRateSec : ℤ := 30

/-- A message and its rate, as `LOG COM3` takes them. -/
def rtcmLog (message : String) (rate : ℤ) : List UInt8 :=
  ascii message ++ ascii " ONTIME " ++ intText rate

def rtcmLogs : List (List UInt8) :=
  [rtcmLog "RTCM1006" kRtcmBasePositionRateSec, rtcmLog "RTCM1033" kRtcmAntennaDescriptorRateSec,
    rtcmLog "RTCM1077" kRtcmGpsRateSec, rtcmLog "RTCM1087" kRtcmGlonassRateSec,
    rtcmLog "RTCM1097" kRtcmGalileoRateSec, rtcmLog "RTCM1117" kRtcmQzssRateSec,
    rtcmLog "RTCM1127" kRtcmBeidouRateSec, rtcmLog "RTCM1137" kRtcmNavicRateSec,
    rtcmLog "RTCM1230" kRtcmGlonassBiasRateSec]

/-- `"%.8f %.8f %.4f"`. -/
def coordinates (lat lon height : Float64) : List UInt8 :=
  fixedText 8 lat ++ 32 :: fixedText 8 lon ++ 32 :: fixedText 4 height

/-- The antenna model, unless there is none. -/
def antennaCommand (antennaModel : List UInt8) : List Command :=
  if antennaModel.isEmpty then []
  else [.commandf (ascii "CONFIG BASEANTENNAMODEL \"" ++ antennaModel ++ ascii "\" a0001 0 USER")]

def modeBase (lat lon height : Float64) : Command :=
  .commandf (ascii "MODE BASE " ++ coordinates lat lon height)

/-- What follows `MODE BASE`. -/
def rtcmCommands : List Command := rtcmLogs.map fun log => .commandf (ascii "LOG COM3 " ++ log)

def configureBase (lat lon height : Float64) (antennaModel : List UInt8) : List Command :=
  stopOutput ++ [say "CONFIG UNDULATION AUTO", say "CONFIG PVTALG MULTI"] ++
    antennaCommand antennaModel ++ modeBase lat lon height :: rtcmCommands ++
    configureSatelliteOutput ++ [say "SAVECONFIG"]

/-! ### The receiver -/

/-- What COM3 sends, and the coordinates of the base. -/
structure Config where
  logs : List (List UInt8)
  base : Option (List UInt8)

/-- The receiver: its configuration, what was saved of it, and its signal group. -/
structure Receiver where
  now : Config
  saved : Config
  group : List UInt8

inductive Request
  | unlogall
  | log (what : List UInt8)
  | modeBase (coordinates : List UInt8)
  | saveconfig
  | signalGroup (group : List UInt8)
  | other
  deriving DecidableEq

/-- A line of the command port. -/
def request (line : List UInt8) : Request :=
  if line = ascii "UNLOGALL COM3" then .unlogall
  else if (ascii "LOG COM3 ").isPrefixOf line then .log (line.drop 9)
  else if (ascii "MODE BASE ").isPrefixOf line then .modeBase (line.drop 10)
  else if line = ascii "SAVECONFIG" then .saveconfig
  else if (ascii "CONFIG SIGNALGROUP ").isPrefixOf line then .signalGroup (line.drop 19)
  else .other

namespace Receiver

/-- A request carried out. A changed signal group resets the receiver. -/
def serve (r : Receiver) : Request → Receiver
  | .unlogall => { r with now := { r.now with logs := [] } }
  | .log what => { r with now := { r.now with logs := r.now.logs ++ [what] } }
  | .modeBase coordinates => { r with now := { r.now with base := some coordinates } }
  | .saveconfig => { r with saved := r.now }
  | .signalGroup group => if group = r.group then r else { r with group := group, now := r.saved }
  | .other => r

end Receiver

/-- The requests of a command; a text may hold several lines. -/
def Command.requests (c : Command) : List Request :=
  (tokens (fun b => b ∈ ascii "\r\n") c.text).map request

/-- A command is sent and carried out, if it is accepted. -/
def Receiver.command (r : Receiver) (c : Command) : Option Receiver :=
  if c.accepted then some (c.requests.foldl Receiver.serve r) else none

/-- A function of `Um980`: its commands up to the first that is not accepted; no result then. -/
def Receiver.configure (r : Receiver) (cs : List Command) : Option Receiver := cs.foldlM Receiver.command r

/-! ### What the functions leave -/

theorem configure_eq_some {r r' : Receiver} {cs : List Command} (h : r.configure cs = some r') :
    r' = (cs.flatMap Command.requests).foldl Receiver.serve r := by
  unfold Receiver.configure at h
  induction cs generalizing r with
  | nil =>
    rw [List.foldlM_nil] at h
    cases h
    rfl
  | cons c cs ih =>
    rw [List.foldlM_cons, Option.bind_eq_bind, Option.bind_eq_some_iff] at h
    obtain ⟨s, hs, h⟩ := h
    unfold Receiver.command at hs
    split_ifs at hs
    cases hs
    rw [ih h, List.flatMap_cons, List.foldl_append]

theorem requests_modeBase (lat lon height : Float64) :
    (modeBase lat lon height).requests = [.modeBase (coordinates lat lon height)] := by
  have hbytes : ∀ b ∈ ascii "MODE BASE " ++ coordinates lat lon height,
      decide (b ∈ ascii "\r\n") = false := by
    have hnumeric : ∀ b, numeric b = true → decide (b ∈ ascii "\r\n") = false := by
      have hbreaks : ∀ b ∈ ascii "\r\n", numeric b = false := by decide +kernel
      intro b hb
      refine decide_eq_false fun hmem => ?_
      rw [hbreaks b hmem] at hb
      cases hb
    intro b hb
    unfold coordinates at hb
    simp only [List.mem_append, List.mem_cons] at hb
    rcases hb with hb | (hb | rfl | hb) | rfl | hb
    · revert b
      decide +kernel
    · exact hnumeric b (numeric_fixedText _ _ b hb)
    · decide
    · exact hnumeric b (numeric_fixedText _ _ b hb)
    · decide
    · exact hnumeric b (numeric_fixedText _ _ b hb)
  unfold Command.requests modeBase Command.text
  rw [tokens_self _ hbytes (List.append_ne_nil_of_left_ne_nil (by decide) _), List.map_singleton]
  have hrequest : ∀ s, request (ascii "MODE BASE " ++ s) = .modeBase s := by
    intro s
    rfl
  rw [hrequest]

theorem requests_head : (stopOutput ++ [say "CONFIG UNDULATION AUTO", say "CONFIG PVTALG MULTI"]).flatMap
    Command.requests = [.other, .unlogall, .other, .other] := by
  decide +kernel

theorem requests_tail : (rtcmCommands ++ configureSatelliteOutput ++ [say "SAVECONFIG"]).flatMap
    Command.requests =
      rtcmLogs.map Request.log ++ List.replicate 5 Request.other ++ [Request.saveconfig] := by
  decide +kernel

theorem foldl_log (logs : List (List UInt8)) (r : Receiver) :
    (logs.map Request.log).foldl Receiver.serve r =
      { r with now := { r.now with logs := r.now.logs ++ logs } } := by
  induction logs generalizing r with
  | nil => rw [List.append_nil]; rfl
  | cons log logs ih =>
    rw [List.map_cons, List.foldl_cons, ih]
    unfold Receiver.serve
    rw [List.append_assoc, List.singleton_append]

/-- The requests of `configure_base`; those of the antenna model may be any. -/
theorem requests_configureBase (lat lon height : Float64) (antennaModel : List UInt8) :
    (configureBase lat lon height antennaModel).flatMap Command.requests =
      [Request.other, .unlogall, .other, .other] ++ (antennaCommand antennaModel).flatMap Command.requests ++
        .modeBase (coordinates lat lon height) ::
          (rtcmLogs.map Request.log ++ List.replicate 5 Request.other ++ [Request.saveconfig]) := by
  unfold configureBase
  rw [← requests_tail, ← requests_head]
  simp only [List.flatMap_append, List.flatMap_cons, List.append_assoc, List.cons_append,
    List.nil_append, List.flatMap_nil, requests_modeBase]

/-- **After `configure_base`** COM3 ends with the RTCM messages, and the base is at the coordinates. -/
theorem configureBase_spec {r r' : Receiver} {lat lon height : Float64} {antennaModel : List UInt8}
    (h : r.configure (configureBase lat lon height antennaModel) = some r') :
    rtcmLogs <:+ r'.now.logs ∧ r'.now.base = some (coordinates lat lon height) := by
  rw [configure_eq_some h, requests_configureBase, List.foldl_append, List.foldl_cons, List.foldl_append,
    List.foldl_append, foldl_log]
  exact ⟨List.suffix_append _ _, rfl⟩

theorem configureSurveyOutput_spec {r r' : Receiver} (h : r.configure configureSurveyOutput = some r') :
    r'.now.logs = [] := by
  have hrequests : configureSurveyOutput.flatMap Command.requests =
      .other :: .unlogall :: List.replicate 6 .other := by decide +kernel
  rw [configure_eq_some h, hrequests]
  rfl

/-- `RANGEA`, as it is logged for raw collection. -/
def rangeaLog : List UInt8 := ascii "RANGEA ONTIME 30"

/-- After `configure_raw_output` COM3 sends `RANGEA`, and the base is where it was. -/
theorem configureRawOutput_spec {r r' : Receiver} (h : r.configure configureRawOutput = some r') :
    r'.now.logs = [rangeaLog] ∧ r'.now.base = r.now.base := by
  have hrequests : configureRawOutput.flatMap Command.requests = [.unlogall, .log rangeaLog] := by
    decide +kernel
  rw [configure_eq_some h, hrequests]
  exact ⟨rfl, rfl⟩

end GpsBase.Control.Um980
