import GpsBase.Lib.CText
import GpsBase.Lib.Reads

/-! # The RINEX export

`POST /rinex/export` from the selected files on: `check_rinex_header` on each, and the stream that
`rinex_export_handler` sends. Reads and sends succeed. A response is what the client gets: a stream is
the list of the chunks sent. -/

namespace GpsBase.Web.Export

open GpsBase.Lib.CText GpsBase.Lib.Lines GpsBase.Lib.Reads

/-! ### Constants -/

def kRinexExportMaxChunkBytes : ℕ := 2048

def kRinexExportSmallBytes : ℕ := 1024 * 1024

def kRinexHeaderScanLimit : ℕ := 64 * 1024

def kRinexHeaderLineLimit : ℕ := 512

/-- `sizeof(line)` in `check_rinex_header`. -/
def lineSize : ℕ := 192

/-! ### Headers -/

structure SourceFile where
  path : List UInt8
  bytes : List UInt8

def pathBasename (path : List UInt8) : List UInt8 :=
  (path.reverse.takeWhile (· ≠ '/'.toUInt8)).reverse

/-- `rinex_label_equals` of a buffer up to its NUL. -/
def rinexLabelEquals (line : List UInt8) (label : String) : Bool :=
  60 ≤ line.length && (line.drop 60).take (ascii label).length = ascii label

/-- What the loop of `check_rinex_header` has found. -/
structure HeaderScan where
  hasVersion : Bool := false
  hasEnd : Bool := false
  lastObs : Option (List UInt8) := none
  scanned : ℕ := 0
  lines : ℕ := 0
  error : Option (List UInt8) := none

/-- The labels a line may have before the end of the header. -/
def HeaderScan.line (c : HeaderScan) (line : List UInt8) : HeaderScan :=
  { c with
    lines := c.lines + 1, scanned := c.scanned + line.length
    hasVersion := c.hasVersion || rinexLabelEquals line "RINEX VERSION / TYPE"
    lastObs := if rinexLabelEquals line "TIME OF LAST OBS" then some (line.take 60) else c.lastObs }

/-- The loop of `check_rinex_header` over the pieces `fgets` returns. -/
def scanHeader (name : List UInt8) : List (List UInt8) → HeaderScan → HeaderScan
  | [], c => c
  | piece :: pieces, c =>
    let line := cStr piece
    if line.length = lineSize - 1 ∧ line.getLast? ≠ some lf then
      { c with
        lines := c.lines + 1, scanned := c.scanned + line.length
        error := some (name ++ ascii ": header line too long") }
    else
      let c := c.line line
      if rinexLabelEquals line "END OF HEADER" then { c with hasEnd := true }
      else if kRinexHeaderScanLimit < c.scanned ∨ kRinexHeaderLineLimit < c.lines then
        { c with error := some (name ++ ascii ": header is too long") }
      else scanHeader name pieces c

structure RinexHeaderCheck where
  ok : Bool := false
  sizeBytes : ℕ := 0
  lastObsValue : Option (List UInt8) := none
  error : List UInt8 := []

def checkRinexHeader (f : SourceFile) : RinexHeaderCheck :=
  let name := pathBasename f.path
  if f.bytes = [] then { error := name ++ ascii ": file is missing or empty" }
  else
    let c := scanHeader name (fgets lineSize f.bytes) {}
    let check : RinexHeaderCheck := { sizeBytes := f.bytes.length, lastObsValue := c.lastObs }
    match c.error with
    | some error => { check with error := error }
    | none =>
      if !c.hasVersion then { check with error := name ++ ascii ": missing RINEX header" }
      else if !c.hasEnd then { check with error := name ++ ascii ": missing END OF HEADER" }
      else { check with ok := true }

/-! ### The stream -/

/-- The chunk size of `rinex_export_pacing`. -/
def chunkBytes (totalBytes : ℕ) : ℕ :=
  if totalBytes ≤ kRinexExportSmallBytes then kRinexExportMaxChunkBytes else 1024

/-- The line end of a buffer. -/
def eolOf (buf : List UInt8) : List UInt8 :=
  if 2 ≤ buf.length ∧ buf.getD (buf.length - 2) 0 = cr then [cr, lf] else [lf]

/-- What is sent for a line of the first header. -/
def headerChunk (lastObsValue buf : List UInt8) : List UInt8 :=
  if lastObsValue ≠ [] ∧ 76 ≤ buf.length ∧ (buf.drop 60).take 16 = ascii "TIME OF LAST OBS" then
    lastObsValue ++ ascii "TIME OF LAST OBS    " ++ eolOf buf
  else buf

/-- The chunks of the first header, and the pieces that are left. -/
def sendHeader (lastObsValue : List UInt8) : List (List UInt8) → List (List UInt8) × List (List UInt8)
  | [] => ([], [])
  | piece :: pieces =>
    let buf := cStr piece
    if rinexLabelEquals buf "END OF HEADER" then ([headerChunk lastObsValue buf], pieces)
    else
      let (chunks, left) := sendHeader lastObsValue pieces
      (headerChunk lastObsValue buf :: chunks, left)

/-- The pieces behind the header of a later file. -/
def skipHeader : List (List UInt8) → Option (List (List UInt8))
  | [] => none
  | piece :: pieces =>
    if rinexLabelEquals (cStr piece) "END OF HEADER" then some pieces else skipHeader pieces

def sendFirst (lastObsValue : List UInt8) (chunk : ℕ) (bytes : List UInt8) : List (List UInt8) :=
  let (chunks, left) := sendHeader lastObsValue (fgets kRinexExportMaxChunkBytes bytes)
  chunks ++ fread chunk left.flatten

def sendLater (chunk : ℕ) (bytes : List UInt8) : List (List UInt8) :=
  match skipHeader (fgets kRinexExportMaxChunkBytes bytes) with
  | none => []
  | some left => fread chunk left.flatten

inductive Response
  | notFound
  | conflict
  | unprocessable (error : List UInt8)
  | stream (chunks : List (List UInt8))

def Response.body : Response → List UInt8
  | .notFound => ascii "No RINEX files in range"
  | .conflict => ascii "Selected range includes the RINEX file currently being written. " ++
      ascii "Stop RINEX logging or choose an earlier range."
  | .unprocessable error => error
  | .stream chunks => chunks.flatten

/-- `selected_active_rinex_file`; `current` is the current file of an active logger. -/
def selectedActiveRinexFile (files : List SourceFile) (current : List UInt8) : Bool :=
  current ≠ [] && (files.map SourceFile.path).contains current

/-- `rinex_export_handler`, from the selected files on. -/
def rinexExportHandler (current : List UInt8) (files : List SourceFile) : Response :=
  if files = [] then .notFound
  else if selectedActiveRinexFile files current then .conflict
  else
    let checks := files.map checkRinexHeader
    match checks.find? fun check => !check.ok with
    | some check => .unprocessable check.error
    | none =>
      let value := (checks.reverse.findSome? (·.lastObsValue)).getD []
      let chunk := chunkBytes (checks.map (·.sizeBytes)).sum
      match files with
      | [] => .stream []
      | first :: later =>
        .stream (sendFirst value chunk first.bytes ++ later.flatMap fun f => sendLater chunk f.bytes)

end GpsBase.Web.Export
