import GpsBase.Lib.Lines
import GpsBase.Rinex.SatId

/-! # The RINEX logger

`RinexLogger`: it collects the messages of the receiver byte by byte, reads the RANGEA ones and writes
their observations to files of one hour. A file is its bytes and a cursor; writes and seeks succeed,
and whether `fopen` does is answered from outside (`opens`). What the C library makes of texts, times
and angles is a parameter (`Clib`), as is what a conversion to an integer gives where C leaves it open.

The record also keeps `closed`, the name and the bytes of every file closed. -/

namespace GpsBase.Rinex.Logger

open GpsBase.Lib.Binary64 GpsBase.Lib.Binary64.Float64 GpsBase.Lib.CText GpsBase.Lib.Lines
open GpsBase.Rinex.SatId

/-! ### The C library -/

/-- `struct tm`. -/
structure Tm where
  year : Int32
  mon : Int32
  mday : Int32
  hour : Int32
  min : Int32
  sec : Int32

/-- The functions whose results the logger only passes on: `gmtime_r` on a zeroed `tm`, `atof`, the
conversion to `float` and back, and the conversion of a `double` that does not fit an integer. -/
structure Clib where
  gmtime : ℤ → Tm
  atof : List UInt8 → Float64
  toFloat : Float64 → Float64
  castOther : Float64 → ℤ
  sin : Float64 → Float64
  cos : Float64 → Float64
  sqrt : Float64 → Float64

/-- A file open for reading and writing. -/
structure File where
  bytes : List UInt8
  pos : ℕ

def File.fprintf (f : File) (s : List UInt8) : File where
  bytes := f.bytes.take f.pos ++ s ++ f.bytes.drop (f.pos + s.length)
  pos := f.pos + s.length

/-- `fseek` from the start. -/
def File.fseek (f : File) (pos : ℕ) : File := { f with pos := pos }

/-! ### Constants -/

def kSecondsPerFile : ℤ := 3600

def kEpochInterval : ℤ := 30

def kEpochHalfWidth : Float64 := ofRat false (1 / 2)

def kMsgBufSize : ℕ := 32 * 1024

/-- `kA` and `kE2`, the ellipsoid. -/
def kA : Float64 := ofInt 6378137

def kE2 : Float64 := ofRat false (669437999014 / 10 ^ 14)

def kPi : Float64 := ofRat false (314159265358979323846 / 10 ^ 20)

/-! ### Time and place -/

def geodeticToEcef (c : Clib) (latDeg lonDeg h : Float64) : Float64 × Float64 × Float64 :=
  let lat := (latDeg.mul kPi).div (ofInt 180)
  let lon := (lonDeg.mul kPi).div (ofInt 180)
  let sl := c.sin lat
  let n := kA.div (c.sqrt ((ofInt 1).sub ((kE2.mul sl).mul sl)))
  (((n.add h).mul (c.cos lat)).mul (c.cos lon), ((n.add h).mul (c.cos lat)).mul (c.sin lon),
    ((n.mul ((ofInt 1).sub kE2)).add h).mul sl)

/-- The fields `gps_to_calendar` fills in. -/
structure Calendar where
  Y : Int32
  Mo : Int32
  D : Int32
  h : Int32
  m : Int32
  s : Float64

def gpsToCalendar (c : Clib) (week : ℤ) (tow : Float64) : Calendar :=
  let t := c.gmtime (315964800 + week * 604800 + tow.toInt 64 c.castOther)
  { Y := t.year + 1900, Mo := t.mon + 1, D := t.mday, h := t.hour, m := t.min
    s := (ofInt t.sec.toInt).add (tow.fmod (ofInt 1)) }

/-- `(int)s`. -/
def Calendar.second (t : Calendar) (c : Clib) : ℤ := t.s.toInt 32 c.castOther

/-! ### Observations -/

structure SigObs where
  pseudorange : Float64 := ofInt 0
  carrierPhase : Float64 := ofInt 0
  doppler : Float64 := ofInt 0
  cn0 : Float64 := ofInt 0
  valid : Bool := false

structure SatObs where
  prn : UInt16 := 0
  system : UInt8 := 0
  gloFreq : ℤ := 0
  sig : Fin 3 → SigObs := fun _ => {}
  pref : Fin 3 → ℤ := fun _ => -1

/-- `signal_band`: the band and the preference of a signal that is carried. -/
def signalBand (sys sig : ℕ) : Option (Fin 3 × ℤ) :=
  match sys, sig with
  | 0, 0 => some (0, 10)
  | 0, 16 => some (0, 5)
  | 0, 5 => some (1, 10)
  | 0, 9 => some (1, 6)
  | 0, 17 => some (1, 5)
  | 0, 14 => some (2, 10)
  | 1, 0 => some (0, 10)
  | 1, 5 => some (1, 10)
  | 3, 2 => some (0, 10)
  | 3, 12 => some (1, 10)
  | 4, 0 => some (0, 10)
  | 4, 21 => some (1, 10)
  | _, _ => none

/-- The observation of a signal put into its satellite, unless a preferred one is there. -/
def SatObs.keep (sat : SatObs) (gloFreq : ℤ) (band : Fin 3) (pref : ℤ) (obs : SigObs) : SatObs :=
  let sat := { sat with gloFreq := gloFreq }
  if sat.pref band < pref then
    { sat with sig := Function.update sat.sig band obs, pref := Function.update sat.pref band pref }
  else sat

/-- The satellite of `prn` and `system` found, or created at the end, and changed. -/
def findOrCreate (prn : UInt16) (system : UInt8) (change : SatObs → SatObs) :
    List SatObs → List SatObs
  | [] => [change { prn := prn, system := system }]
  | s :: sats =>
    if s.prn = prn ∧ s.system = system then change s :: sats
    else s :: findOrCreate prn system change sats

/-- One observation record, of ten fields. -/
def observe (c : Clib) (sats : List SatObs) (f : List (List UInt8)) : List SatObs :=
  let f (i : ℕ) := (f.getD i []).dropWhile fun b => b = 32 || b = cr || b = lf
  let prn : UInt16 :=
    UInt16.ofNat (atoi (if ((f 0).head?.map isAlpha).getD false then (f 0).tail else f 0) % 65536).toNat
  if prn = 0 then sats
  else
    let tstat := strtoul16 (f 9)
    let sys := tstat / 2 ^ 16 % 8
    let sig := tstat / 2 ^ 21 % 32
    match formatSatId (UInt8.ofNat sys) prn.toNat with
    | none => sats
    | some _ =>
      match signalBand sys sig with
      | none => sats
      | some (band, pref) =>
        let obs : SigObs :=
          { pseudorange := c.atof (f 2), carrierPhase := (c.atof (f 4)).neg
            doppler := c.toFloat (c.atof (f 6)), cn0 := c.toFloat (c.atof (f 7)), valid := true }
        findOrCreate prn (UInt8.ofNat sys)
          (fun sat => sat.keep ((atoi (f 1)).bmod 256) band pref obs) sats

/-- The records of a message, up to `n` of them as long as there are ten fields left. -/
def observations (c : Clib) : ℕ → List (List UInt8) → List SatObs → List SatObs
  | 0, _, sats => sats
  | n + 1, toks, sats =>
    if toks.length < 10 then sats else observations c n (toks.drop 10) (observe c sats (toks.take 10))

/-- `present_mask_ & (1u << system)`. -/
def hasSystem (mask system : UInt8) : Bool := mask &&& ((1 : UInt8) <<< system) ≠ 0

def systemMask (sats : List SatObs) : UInt8 :=
  sats.foldl (fun mask s =>
    if (findSystem s.system).isSome then mask ||| ((1 : UInt8) <<< s.system) else mask) 0

/-! ### Records -/

def text (width : ℕ) (s : List UInt8) : List UInt8 := padRight width s

def timeRecord (t : Calendar) (label : String) : List UInt8 :=
  padInt 6 t.Y.toInt ++ padInt 6 t.Mo.toInt ++ padInt 6 t.D.toInt ++ padInt 6 t.h.toInt ++
    padInt 6 t.m.toInt ++ padFixed 13 7 t.s ++ ascii "     GPS         " ++ ascii label ++ [lf]

/-- A `SYS / # / OBS TYPES` record. -/
def systemRecord (d : SystemDef) : List UInt8 :=
  text 60 (d.code :: ascii "  " ++ padInt 3 d.nobs ++ ascii " " ++ d.obs) ++
    ascii "SYS / # / OBS TYPES" ++ [lf]

def lengthsRecord (x y z : Float64) (label : String) : List UInt8 :=
  padFixed 14 4 x ++ padFixed 14 4 y ++ padFixed 14 4 z ++ ascii "                  " ++
    ascii label ++ [lf]

/-- The antenna type: `"%-16.16s%-4.4s"`. -/
def antType (model radome : List UInt8) : List UInt8 :=
  text 16 ((cStr model).take 16) ++ text 4 ((cStr radome).take 4)

/-- The `ANT # / TYPE` record. -/
def antRecord (antType : List UInt8) : List UInt8 :=
  text 20 (ascii "0000") ++ (antType ++ (text 20 [] ++ ascii "ANT # / TYPE     " ++ [lf]))

def writeObs (valid : Bool) (value : Float64) : List UInt8 :=
  if valid then padFixed 14 3 value ++ ascii "  " else ascii "                "

/-- The row of a satellite: its id, and a quartet for each band of its system. -/
def obsRow (sat : SatObs) (id : List UInt8) : List UInt8 :=
  let bands := ((findSystem sat.system).map systemBands).getD 0
  id ++ ((List.finRange 3).filter fun b => b.val < bands).flatMap (fun b =>
    writeObs (sat.sig b).valid (sat.sig b).pseudorange ++
      writeObs (sat.sig b).valid (sat.sig b).carrierPhase ++
      writeObs (sat.sig b).valid (sat.sig b).doppler ++ writeObs (sat.sig b).valid (sat.sig b).cn0) ++
    [lf]

/-- The line before the rows of an epoch. -/
def epochLine (t : Calendar) (count : ℕ) : List UInt8 :=
  ascii "> " ++ padInt 4 t.Y.toInt ++ padInt 3 t.Mo.toInt ++ padInt 3 t.D.toInt ++
    padInt 3 t.h.toInt ++ padInt 3 t.m.toInt ++ padFixed 11 7 t.s ++ ascii "  0" ++ padInt 3 count ++
    [lf]

/-! ### The class -/

/-- `RinexLogger`. `msg` is `msg_buf_` up to `msg_len_`. -/
structure RinexLogger where
  ecefX : Float64 := ofInt 0
  ecefY : Float64 := ofInt 0
  ecefZ : Float64 := ofInt 0
  antModel : List UInt8 := ascii "HXCGPS500"
  antRadome : List UInt8 := ascii "NONE"
  antDeltaH : Float64 := ofInt 0
  active : Bool := false
  file : Option File := none
  currentFile : List UInt8 := []
  gpsWeekOpen : ℤ := 0
  towOpen : Float64 := ofInt 0
  epochs : ℕ := 0
  files : ℕ := 0
  presentMask : UInt8 := 0
  lastObsPos : ℕ := 0
  lastObsWeek : ℤ := 0
  lastObsTow : Float64 := ofInt 0
  msg : List UInt8 := []
  inMsg : Bool := false
  opens : ℕ → Bool
  closed : List (List UInt8 × List UInt8) := []

namespace RinexLogger

/-- The records `write_header` writes before `TIME OF LAST OBS`. -/
def headerRecords (c : Clib) (l : RinexLogger) (t : Calendar) : List (List UInt8) :=
  let date := (zeroInt 4 t.Y.toInt ++ zeroInt 2 t.Mo.toInt ++ zeroInt 2 t.D.toInt ++ ascii " " ++
    zeroInt 2 t.h.toInt ++ zeroInt 2 t.m.toInt ++ zeroInt 2 (t.second c) ++ ascii " UTC").take 20
  [ascii "     3.03           OBSERVATION DATA    M                   RINEX VERSION / TYPE" ++ [lf],
    text 20 (ascii "GPS_BASE") ++ text 20 (ascii "ESP32_RTK") ++ text 20 date ++
      ascii "PGM / RUN BY / DATE" ++ [lf],
    text 60 (ascii "GPS_BASE_STATION") ++ ascii "MARKER NAME      " ++ [lf],
    text 60 (ascii "GEODETIC") ++ ascii "MARKER TYPE      " ++ [lf],
    text 20 (ascii "UNKNOWN") ++ text 40 (ascii "UNKNOWN") ++ ascii "OBSERVER / AGENCY" ++ [lf],
    text 20 (ascii "0000") ++ text 20 (ascii "UM980") ++ text 20 (ascii "UNICORE") ++
      ascii "REC # / TYPE / VERS" ++ [lf],
    antRecord (antType l.antModel l.antRadome),
    lengthsRecord l.ecefX l.ecefY l.ecefZ "APPROX POSITION XYZ",
    lengthsRecord l.antDeltaH (ofInt 0) (ofInt 0) "ANTENNA: DELTA H/E/N"] ++
  (systems.filter fun d => hasSystem l.presentMask d.sys).map systemRecord ++
  [padFixed 10 3 (ofInt kEpochInterval) ++ text 50 [] ++ ascii "INTERVAL" ++ [lf],
    timeRecord t "TIME OF FIRST OBS"]

def endOfHeader : List UInt8 := text 60 [] ++ ascii "END OF HEADER    " ++ [lf]

def writeHeader (c : Clib) (l : RinexLogger) (f : File) (week : ℤ) (tow : Float64) : RinexLogger :=
  let t := gpsToCalendar c week tow
  let f := (headerRecords c l t).foldl File.fprintf f
  { l with
    lastObsPos := f.pos
    file := some ((f.fprintf (timeRecord t "TIME OF LAST OBS")).fprintf endOfHeader) }

/-- The name `open_file` gives a file. -/
def fileName (c : Clib) (t : Calendar) : List UInt8 :=
  (ascii "/sdcard/rawdata/BASE_" ++ zeroInt 4 t.Y.toInt ++ zeroInt 2 t.Mo.toInt ++
    zeroInt 2 t.D.toInt ++ ascii "_" ++ zeroInt 2 t.h.toInt ++ zeroInt 2 t.m.toInt ++
    zeroInt 2 (t.second c) ++ ascii ".rnx").take 127

def openFile (c : Clib) (l : RinexLogger) (week : ℤ) (tow : Float64) : RinexLogger :=
  let opened := l.opens 0
  let l := { l with opens := fun i => l.opens (i + 1) }
  if !opened then l
  else
    { l with
      currentFile := fileName c (gpsToCalendar c week tow)
      epochs := 0, gpsWeekOpen := week, towOpen := tow
      lastObsPos := 0, lastObsWeek := week, lastObsTow := tow }.writeHeader c ⟨[], 0⟩ week tow

/-- The `TIME OF LAST OBS` record replaced in place, and the cursor where it ends. -/
def patchLastObs (c : Clib) (l : RinexLogger) (f : File) (week : ℤ) (tow : Float64) : File :=
  (f.fseek l.lastObsPos).fprintf (timeRecord (gpsToCalendar c week tow) "TIME OF LAST OBS")

def closeFile (c : Clib) (l : RinexLogger) : RinexLogger :=
  match l.file with
  | none => l
  | some f =>
    let f := if 0 < l.lastObsPos then l.patchLastObs c f l.lastObsWeek l.lastObsTow else f
    { l with
      file := none, files := l.files + 1, currentFile := []
      closed := l.closed ++ [(l.currentFile, f.bytes)] }

def rotateIfNeeded (c : Clib) (l : RinexLogger) (week : ℤ) (tow : Float64) : RinexLogger :=
  if l.file.isNone then l
  else
    let elapsed :=
      ((ofInt (week - l.gpsWeekOpen)).mul (ofInt 604800)).add (tow.sub l.towOpen)
    if (ofInt kSecondsPerFile).le elapsed then l.closeFile c else l

/-- The satellites `write_epoch` writes, with their ids. -/
def epochSats (l : RinexLogger) (sats : List SatObs) : List (SatObs × List UInt8) :=
  sats.filterMap fun sat =>
    if !hasSystem l.presentMask sat.system then none
    else (formatSatId sat.system sat.prn.toNat).map fun id => (sat, id)

def writeEpoch (c : Clib) (l : RinexLogger) (week : ℤ) (tow : Float64) (sats : List SatObs) :
    RinexLogger :=
  match l.file with
  | none => l
  | some f =>
    let epoch := l.epochSats sats
    if epoch.isEmpty then l
    else
      let f := f.fprintf (epochLine (gpsToCalendar c week tow) epoch.length)
      let f := epoch.foldl (fun f e => f.fprintf (obsRow e.1 e.2)) f
      let f := if 0 < l.lastObsPos then (l.patchLastObs c f week tow).fseek f.pos else f
      { l with file := some f, lastObsWeek := week, lastObsTow := tow, epochs := l.epochs + 1 }

/-! ### Messages -/

/-- The start of the 30 s interval nearest to a time of week. -/
def roundedTow (tow : Float64) : Float64 :=
  (((tow.div (ofInt kEpochInterval)).add (ofRat false (1 / 2))).floor).mul (ofInt kEpochInterval)

/-- What follows the header of a message: the file is rotated, opened with the systems of its first
epoch, and the epoch is written. -/
def logEpoch (c : Clib) (l : RinexLogger) (week : ℤ) (rounded : Float64) (sats : List SatObs) :
    RinexLogger :=
  let l := l.rotateIfNeeded c week rounded
  let l := if l.file.isNone then
      { l with presentMask := systemMask sats }.openFile c week rounded
    else l
  if l.file.isSome then l.writeEpoch c week rounded sats else l

/-- `process_message`, from the observation body on. -/
def processBody (c : Clib) (l : RinexLogger) (week : ℤ) (rounded : Float64) (body : List UInt8) :
    RinexLogger :=
  match tokens (fun b => b ∈ ascii ",\r\n*") body with
  | [] => l
  | tok :: toks =>
    let numObs := atoi tok
    if numObs ≤ 0 ∨ 120 < numObs then l
    else
      let sats := observations c numObs.toNat toks []
      if sats.isEmpty then l else l.logEpoch c week rounded sats

def processMessage (c : Clib) (l : RinexLogger) : RinexLogger :=
  let msg := cStr l.msg
  let hdr := msg.takeWhile (· ≠ ';'.toUInt8)
  if hdr.length = msg.length then l
  else
    let fields := tokens (· = ','.toUInt8) (hdr.take 255)
    let timeOk := fields[4]?.any fun tok => tok.take 4 = ascii "FINE" || tok.take 3 = ascii "SAT"
    let week := (fields[5]?.map atoi).getD 0
    let tow := (fields[6]?.map c.atof).getD (ofInt 0)
    if !timeOk ∨ week ≤ 0 then l
    else
      let rounded := roundedTow tow
      if kEpochHalfWidth.lt (tow.sub rounded).abs then l
      else l.processBody c week rounded (msg.drop (hdr.length + 1))

def feedByte (c : Clib) (l : RinexLogger) (b : UInt8) : RinexLogger :=
  if !l.inMsg then if b = '#'.toUInt8 then { l with inMsg := true, msg := [b] } else l
  else if l.msg.length < kMsgBufSize - 1 then
    let l := { l with msg := l.msg ++ [b] }
    if b = lf ∧ 12 < l.msg.length ∧ '*'.toUInt8 ∈ (l.msg.drop (l.msg.length - 12)).take 11 then
      let l := if l.msg.take 8 = ascii "#RANGEA," then l.processMessage c else l
      { l with inMsg := false, msg := [] }
    else l
  else { l with inMsg := false, msg := [] }

def feed (c : Clib) (l : RinexLogger) (data : List UInt8) : RinexLogger :=
  if !l.active then l else data.foldl (feedByte c) l

def start (c : Clib) (l : RinexLogger) (lat lon height : Float64) (antModel antRadome : List UInt8)
    (antDeltaH : Float64) : RinexLogger :=
  if l.active then l
  else
    let ecef := geodeticToEcef c lat lon height
    { l with
      antModel := if antModel.isEmpty then ascii "HXCGPS500" else antModel
      antRadome := if antRadome.isEmpty then ascii "NONE" else antRadome
      antDeltaH := antDeltaH, ecefX := ecef.1, ecefY := ecef.2.1, ecefZ := ecef.2.2
      inMsg := false, msg := [], currentFile := [], epochs := 0, files := 0, active := true }

def stop (c : Clib) (l : RinexLogger) : RinexLogger :=
  if !l.active then l else { l with active := false }.closeFile c

end RinexLogger

end GpsBase.Rinex.Logger
