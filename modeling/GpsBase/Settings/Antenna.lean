import GpsBase.Control.Um980
import GpsBase.Rinex.Sessions
import GpsBase.Settings.Saves
import GpsBase.Web.Forms

/-! # The antenna, from the forms to the receiver and the header

What the web form and the touch panel store of the antenna goes into a command of the receiver and into
two records of the RINEX header. The form bounds the lengths, the panel does not, and neither looks at
the bytes or at the height. `antenna_fits_iff` says what has to hold of them. The place of the base and
the time of the file are printed there too, and have to fit as well. -/

namespace GpsBase.Settings.Antenna

open GpsBase.Lib.Binary64 GpsBase.Lib.Binary64.Float64 GpsBase.Lib.CText GpsBase.Lib.Lines
open GpsBase.Control.Um980 GpsBase.Rinex.SatId GpsBase.Rinex.Logger GpsBase.Rinex.Logger.RinexLogger
open GpsBase.Rinex.Header GpsBase.Rinex.Parts GpsBase.Settings.Records GpsBase.Settings.Records.Storage
open GpsBase.Settings.Saves GpsBase.Web.Forms

/-! ### The forms -/

section

variable (atof : List UInt8 → Double)

/-- `antenna_handler` behind the authorization; no result where it refuses. -/
def antennaHandler (s : Storage) (received : List UInt8) : Option (Storage × Option EspErr) :=
  let body := readBody 512 received
  let model := orDefault (formValue body "ant_model") "HXCGPS500"
  let radome := orDefault (formValue body "ant_radome") "NONE"
  let heightStr := formValue body "ant_h"
  if 16 < model.length || 4 < radome.length then none
  else
    some (s.saveAntenna model radome
      (if heightStr.isEmpty then Double.zero else atof (cStr heightStr)))

def onPsAntSave (s : Storage) (model radome height : List UInt8) : Storage × Option EspErr :=
  s.saveAntenna (orDefault (cStr model) "HXCGPS500") (orDefault (cStr radome) "NONE")
    (atof (cStr height))

/-- What is entered: the body of the form, or the texts of the panel. -/
inductive Entry
  | form (received : List UInt8)
  | panel (model radome height : List UInt8)

def Entry.store (s : Storage) : Entry → Option (Storage × Option EspErr)
  | form received => antennaHandler atof s received
  | panel model radome height => some (onPsAntSave atof s model radome height)

/-- The antenna that is handed to `save_antenna`. -/
def Entry.antenna : Entry → Antenna
  | form received =>
    { model := orDefault (formValue (readBody 512 received) "ant_model") "HXCGPS500"
      radome := orDefault (formValue (readBody 512 received) "ant_radome") "NONE"
      height :=
        if (formValue (readBody 512 received) "ant_h").isEmpty then Double.zero
        else atof (cStr (formValue (readBody 512 received) "ant_h")) }
  | panel model radome height =>
    ⟨orDefault (cStr model) "HXCGPS500", orDefault (cStr radome) "NONE", atof (cStr height)⟩

/-- **What is read back** of an entry that is stored. -/
theorem loadAntenna_store {s s' : Storage} {e : Entry} (h : e.store atof s = some (s', some ESP_OK)) :
    s'.loadAntenna =
      ⟨orDefault (cStr (e.antenna atof).model) "HXCGPS500",
        orDefault (cStr (e.antenna atof).radome) "NONE", (e.antenna atof).height⟩ := by
  have hsave : s.saveAntenna (e.antenna atof).model (e.antenna atof).radome (e.antenna atof).height =
      (s', some ESP_OK) := by
    cases e with
    | form received =>
      unfold Entry.store antennaHandler at h
      exact Option.some.inj (Option.ite_none_left_eq_some.mp h).2
    | panel model radome height => exact Option.some.inj h
  have hspec : SaveSpec (antenna (e.antenna atof).model (e.antenna atof).radome (e.antenna atof).height)
      s (s', some ESP_OK) := hsave ▸ saveSpec_saveKeys (antenna _ _ _) s
  exact (hspec.complete rfl).1

end

/-! ### The receiver -/

/-- The commands sent: those before the first that is not accepted. -/
def sent (cs : List Command) : List Command := cs.takeWhile Command.accepted

/-- `configure_base` sends one line for each command, and comes to `MODE BASE` and the RTCM logs. -/
structure Configures (lat lon height : Float64) (antennaModel : List UInt8) : Prop where
  lines : ∀ c ∈ sent (configureBase lat lon height antennaModel), Inline c.text
  reaches : modeBase lat lon height :: rtcmCommands <:+: sent (configureBase lat lon height antennaModel)

def baseAntennaModel (antennaModel : List UInt8) : Command :=
  .commandf (ascii "CONFIG BASEANTENNAMODEL \"" ++ antennaModel ++ ascii "\" a0001 0 USER")

theorem accepted_baseAntennaModel (antennaModel : List UInt8) :
    (baseAntennaModel antennaModel).accepted = true ↔ antennaModel.length ≤ 120 := by
  have hbefore : (ascii "CONFIG BASEANTENNAMODEL \"").length = 25 := by decide
  have hafter : (ascii "\" a0001 0 USER").length = 14 := by decide
  unfold baseAntennaModel Command.accepted
  rw [Bool.and_eq_true, decide_eq_true_eq, List.length_append, List.length_append, hbefore, hafter,
    Bool.not_eq_true', List.isEmpty_eq_false_iff]
  constructor
  · rintro ⟨-, h⟩
    omega
  · intro h
    refine ⟨List.append_ne_nil_of_left_ne_nil (List.append_ne_nil_of_left_ne_nil (by decide) _) _, ?_⟩
    omega

/-- The commands in front of the antenna and behind `MODE BASE`: all accepted, each a line. -/
theorem literal_commands :
    (∀ c ∈ stopOutput ++ [say "CONFIG UNDULATION AUTO", say "CONFIG PVTALG MULTI"],
        c.accepted = true ∧ Inline c.text) ∧
      (∀ c ∈ rtcmCommands ++ configureSatelliteOutput ++ [say "SAVECONFIG"],
        c.accepted = true ∧ Inline c.text) ∧
      Inline (ascii "CONFIG BASEANTENNAMODEL \"") ∧ Inline (ascii "\" a0001 0 USER") ∧
      Inline (ascii "MODE BASE ") := by
  decide +kernel

theorem inline_modeBase (lat lon height : Float64) : Inline (modeBase lat lon height).text := by
  have hfixed : ∀ (prec : ℕ) (x : Float64), Inline (fixedText prec x) := fun prec x =>
    ⟨fun h => absurd (numeric_fixedText prec x _ h) (by decide),
      fun h => absurd (numeric_fixedText prec x _ h) (by decide)⟩
  have hblank : Inline [32] := by decide
  show Inline (ascii "MODE BASE " ++ (fixedText 8 lat ++ ([32] ++ fixedText 8 lon) ++
    ([32] ++ fixedText 4 height)))
  exact literal_commands.2.2.2.2.append (((hfixed 8 lat).append (hblank.append (hfixed 8 lon))).append
    (hblank.append (hfixed 4 height)))

theorem accepted_modeBase (lat lon height : Float64) :
    (modeBase lat lon height).accepted = true ↔ (coordinates lat lon height).length < 150 := by
  have hlength : (ascii "MODE BASE ").length = 10 := by decide
  unfold modeBase Command.accepted
  rw [Bool.and_eq_true, decide_eq_true_eq, List.length_append, hlength, Bool.not_eq_true',
    List.isEmpty_eq_false_iff]
  constructor
  · rintro ⟨-, h⟩
    omega
  · intro h
    exact ⟨List.append_ne_nil_of_left_ne_nil (by decide) _, by omega⟩

theorem configureBase_eq (lat lon height : Float64) {antennaModel : List UInt8}
    (hne : antennaModel ≠ []) :
    configureBase lat lon height antennaModel =
      (stopOutput ++ [say "CONFIG UNDULATION AUTO", say "CONFIG PVTALG MULTI"]) ++
        baseAntennaModel antennaModel :: modeBase lat lon height ::
          (rtcmCommands ++ configureSatelliteOutput ++ [say "SAVECONFIG"]) := by
  unfold configureBase antennaCommand
  rw [if_neg (by simpa using hne)]
  simp only [List.append_assoc, List.cons_append, List.nil_append]
  rfl

theorem configures_iff (lat lon height : Float64) {antennaModel : List UInt8} (hne : antennaModel ≠ []) :
    Configures lat lon height antennaModel ↔
      Inline antennaModel ∧ antennaModel.length ≤ 120 ∧ (coordinates lat lon height).length < 150 := by
  obtain ⟨hhead, htail, hbefore, hafter, -⟩ := literal_commands
  have hsent : sent (configureBase lat lon height antennaModel) =
      (stopOutput ++ [say "CONFIG UNDULATION AUTO", say "CONFIG PVTALG MULTI"]) ++
        (baseAntennaModel antennaModel :: modeBase lat lon height ::
          (rtcmCommands ++ configureSatelliteOutput ++ [say "SAVECONFIG"])).takeWhile
            Command.accepted := by
    unfold sent
    rw [configureBase_eq lat lon height hne, List.takeWhile_append_of_pos fun c hc => (hhead c hc).1]
  have hall : (rtcmCommands ++ configureSatelliteOutput ++ [say "SAVECONFIG"]).takeWhile
      Command.accepted = rtcmCommands ++ configureSatelliteOutput ++ [say "SAVECONFIG"] :=
    List.takeWhile_eq_self_iff.mpr fun c hc => (htail c hc).1
  -- the commands that have to be reached are more than those before them
  have hshort : ∀ cs : List Command, cs.length < 6 →
      ¬ modeBase lat lon height :: rtcmCommands <:+: cs := by
    intro cs hcs h
    have hlength : rtcmCommands.length = 9 := rfl
    have hle := h.length_le
    rw [List.length_cons, hlength] at hle
    omega
  constructor
  · rintro ⟨hlines, hreaches⟩
    rw [hsent] at hlines hreaches
    have hant : (baseAntennaModel antennaModel).accepted = true := by
      by_contra hno
      rw [List.takeWhile_cons_of_neg hno] at hreaches
      exact hshort _ (by decide) hreaches
    have hmode : (modeBase lat lon height).accepted = true := by
      by_contra hno
      rw [List.takeWhile_cons_of_pos hant, List.takeWhile_cons_of_neg hno] at hreaches
      refine hshort _ ?_ hreaches
      rw [List.length_append]
      exact (by decide : 4 + 1 < 6)
    rw [List.takeWhile_cons_of_pos hant] at hlines
    have hinline : Inline (baseAntennaModel antennaModel).text :=
      hlines _ (List.mem_append_right _ List.mem_cons_self)
    exact ⟨(inline_append_iff.mp (inline_append_iff.mp hinline).1).2,
      (accepted_baseAntennaModel _).mp hant, (accepted_modeBase _ _ _).mp hmode⟩
  · rintro ⟨hinline, hlength, hplace⟩
    rw [← accepted_baseAntennaModel] at hlength
    rw [← accepted_modeBase] at hplace
    rw [List.takeWhile_cons_of_pos hlength, List.takeWhile_cons_of_pos hplace, hall] at hsent
    refine ⟨?_, ?_⟩
    · rw [hsent]
      intro c hc
      rcases List.mem_append.mp hc with hc | hc
      · exact (hhead c hc).2
      · rcases List.mem_cons.mp hc with rfl | hc
        · exact (hbefore.append hinline).append hafter
        · rcases List.mem_cons.mp hc with rfl | hc
          · exact inline_modeBase lat lon height
          · exact (htail c hc).2
    · rw [hsent]
      refine ⟨stopOutput ++ [say "CONFIG UNDULATION AUTO", say "CONFIG PVTALG MULTI"] ++
        [baseAntennaModel antennaModel], configureSatelliteOutput ++ [say "SAVECONFIG"], ?_⟩
      simp only [List.append_assoc, List.cons_append, List.nil_append]

/-! ### The header -/

/-- The bytes `write_header` writes to an empty file. -/
def headerBytes (c : Clib) (l : RinexLogger) (week : ℤ) (tow : Float64) : List UInt8 :=
  ((l.writeHeader c ⟨[], 0⟩ week tow).file.map File.bytes).getD []

def labels (presentMask : UInt8) : List (List UInt8) :=
  [ascii "RINEX VERSION / TYPE", ascii "PGM / RUN BY / DATE", ascii "MARKER NAME", ascii "MARKER TYPE",
      ascii "OBSERVER / AGENCY", ascii "REC # / TYPE / VERS"] ++ ascii "ANT # / TYPE" ::
    ([ascii "APPROX POSITION XYZ", ascii "ANTENNA: DELTA H/E/N"] ++
      ((systems.filter fun d => hasSystem presentMask d.sys).map fun _ => ascii "SYS / # / OBS TYPES") ++
      [ascii "INTERVAL", ascii "TIME OF FIRST OBS", ascii "TIME OF LAST OBS", ascii "END OF HEADER"])

/-- The label of a line begins in column 61. -/
def Labelled (line label : List UInt8) : Prop := label <+: line.drop 60

instance (line label : List UInt8) : Decidable (Labelled line label) := by
  unfold Labelled
  infer_instance

/-- One line for each record, with its label in its place. -/
def WellFormed (presentMask : UInt8) (bytes : List UInt8) : Prop :=
  List.Forall₂ Labelled (readlines bytes) (labels presentMask)

theorem headerBytes_eq (c : Clib) (l : RinexLogger) (week : ℤ) (tow : Float64) :
    headerBytes c l week tow = (headerRecords c l (gpsToCalendar c week tow) ++
      [timeRecord (gpsToCalendar c week tow) "TIME OF LAST OBS", endOfHeader]).flatten := by
  have hrecords := foldl_fprintf_atEnd id (headerRecords c l (gpsToCalendar c week tow)) []
  rw [List.nil_append, List.flatMap_id] at hrecords
  unfold headerBytes writeHeader
  dsimp only
  rw [show (⟨[], 0⟩ : File) = atEnd [] from rfl, show (fun f a => File.fprintf f (id a)) =
    File.fprintf from rfl] at *
  rw [hrecords, fprintf_atEnd, fprintf_atEnd, List.flatten_append]
  simp only [Option.map_some, Option.getD_some, atEnd, List.flatten_cons, List.flatten_nil,
    List.append_nil, List.append_assoc]

/-- A label behind a record that does not hold its first byte. -/
theorem labelled_iff {L pre label : List UInt8} {b : UInt8} (hpre : Over L pre) (h60 : 60 ≤ pre.length)
    (hlabel : label.head? = some b) (hnum : numeric b = false) (hb : b ∉ L) (rest : List UInt8) :
    Labelled (pre ++ (label ++ rest)) label ↔ pre.length = 60 := by
  unfold Labelled
  constructor
  · intro h
    by_contra hne
    have hlt : 60 < pre.length := by omega
    obtain ⟨label, rfl⟩ : ∃ t, label = b :: t := by
      cases label with
      | nil => cases hlabel
      | cons x t => exact ⟨t, by rw [Option.some.inj hlabel]⟩
    rw [List.drop_append_of_le_length h60, List.drop_eq_getElem_cons hlt, List.cons_append,
      List.cons_prefix_cons] at h
    rcases hpre _ (List.getElem_mem hlt) with hn | hn
    · rw [← h.1, hnum] at hn
      cases hn
    · exact hb (h.1 ▸ hn)
  · intro h
    rw [← h, List.drop_left]
    exact List.prefix_append _ _

theorem length_padFixed_ge (width prec : ℕ) (x : Float64) : width ≤ (padFixed width prec x).length := by
  unfold padFixed
  rw [length_padLeft]
  exact le_max_left _ _

theorem length_padFixed_iff {width digits prec : ℕ} (hw : width = digits + 1 + prec) (hd : 1 < digits)
    (hp : 0 < prec) (x : Float64) : (padFixed width prec x).length = width ↔ Fits digits prec x := by
  rw [← length_fixedText_le_iff hd hp, ← hw]
  unfold padFixed
  rw [length_padLeft]
  exact max_eq_left_iff

theorem length_padInt_ge (width : ℕ) (n : ℤ) : width ≤ (padInt width n).length := by
  unfold padInt
  rw [length_padLeft]
  exact le_max_left _ _

theorem length_padInt_iff {width : ℕ} (hw : 1 < width) (n : ℤ) :
    (padInt width n).length = width ↔ IntFits width n := by
  rw [← length_intText_le_iff hw]
  unfold padInt
  rw [length_padLeft]
  exact max_eq_left_iff

/-- **A record of lengths** has its label in its place if each fits. -/
theorem labelled_lengths (x y z : Float64) {label : String} {b : UInt8}
    (hlabel : (ascii label).head? = some b) (hnum : numeric b = false) :
    Labelled (lengthsRecord x y z label) (ascii label) ↔ Fits 9 4 x ∧ Fits 9 4 y ∧ Fits 9 4 z := by
  have hover : Over [] (padFixed 14 4 x ++ padFixed 14 4 y ++ padFixed 14 4 z ++
      ascii "                  ") :=
    (((over_numeric (numeric_padFixed _ _ _) _).append (over_numeric (numeric_padFixed _ _ _) _)).append
      (over_numeric (numeric_padFixed _ _ _) _)).append over_texts.1
  have hblank : (ascii "                  ").length = 18 := by decide
  have hx := length_padFixed_ge 14 4 x
  have hy := length_padFixed_ge 14 4 y
  have hz := length_padFixed_ge 14 4 z
  have hlength : (padFixed 14 4 x ++ padFixed 14 4 y ++ padFixed 14 4 z ++
      ascii "                  ").length = (padFixed 14 4 x).length + (padFixed 14 4 y).length +
        (padFixed 14 4 z).length + 18 := by
    simp only [List.length_append, hblank]
  have hrecord : lengthsRecord x y z label = (padFixed 14 4 x ++ padFixed 14 4 y ++ padFixed 14 4 z ++
      ascii "                  ") ++ (ascii label ++ [lf]) := by
    unfold lengthsRecord
    simp only [List.append_assoc]
  rw [hrecord, labelled_iff hover (by omega) hlabel hnum List.not_mem_nil, hlength,
    ← length_padFixed_iff (by norm_num : 14 = 9 + 1 + 4) (by norm_num) (by norm_num) x,
    ← length_padFixed_iff (by norm_num : 14 = 9 + 1 + 4) (by norm_num) (by norm_num) y,
    ← length_padFixed_iff (by norm_num : 14 = 9 + 1 + 4) (by norm_num) (by norm_num) z]
  omega

structure TimeFits (t : Calendar) : Prop where
  Y : IntFits 6 t.Y.toInt
  Mo : IntFits 6 t.Mo.toInt
  D : IntFits 6 t.D.toInt
  h : IntFits 6 t.h.toInt
  m : IntFits 6 t.m.toInt
  s : Fits 5 7 t.s

/-- **A record of a time** has its label in its place if each number fits. -/
theorem labelled_time (t : Calendar) {label : String} {b : UInt8}
    (hlabel : (ascii label).head? = some b) (hnum : numeric b = false) (hgps : b ∉ ascii "GPS") :
    Labelled (timeRecord t label) (ascii label) ↔ TimeFits t := by
  set pre := padInt 6 t.Y.toInt ++ padInt 6 t.Mo.toInt ++ padInt 6 t.D.toInt ++ padInt 6 t.h.toInt ++
    padInt 6 t.m.toInt ++ padFixed 13 7 t.s ++ ascii "     GPS         " with hpre
  have hint : ∀ n : ℤ, Over (ascii "GPS") (padInt 6 n) := fun n => over_numeric (numeric_padInt 6 n) _
  have hover : Over (ascii "GPS") pre :=
    ((((((hint _).append (hint _)).append (hint _)).append (hint _)).append (hint _)).append
      (over_numeric (numeric_padFixed _ _ _) _)).append over_texts.2.2.1
  have hlit : (ascii "     GPS         ").length = 17 := by decide
  have h1 := length_padInt_ge 6 t.Y.toInt
  have h2 := length_padInt_ge 6 t.Mo.toInt
  have h3 := length_padInt_ge 6 t.D.toInt
  have h4 := length_padInt_ge 6 t.h.toInt
  have h5 := length_padInt_ge 6 t.m.toInt
  have h6 := length_padFixed_ge 13 7 t.s
  have hlength : pre.length = (padInt 6 t.Y.toInt).length + (padInt 6 t.Mo.toInt).length +
      (padInt 6 t.D.toInt).length + (padInt 6 t.h.toInt).length + (padInt 6 t.m.toInt).length +
        (padFixed 13 7 t.s).length + 17 := by
    rw [hpre]
    simp only [List.length_append, hlit]
  have hfits : TimeFits t ↔ IntFits 6 t.Y.toInt ∧ IntFits 6 t.Mo.toInt ∧ IntFits 6 t.D.toInt ∧
      IntFits 6 t.h.toInt ∧ IntFits 6 t.m.toInt ∧ Fits 5 7 t.s :=
    ⟨fun h => ⟨h.Y, h.Mo, h.D, h.h, h.m, h.s⟩, fun ⟨h1, h2, h3, h4, h5, h6⟩ => ⟨h1, h2, h3, h4, h5, h6⟩⟩
  have hrecord : timeRecord t label = pre ++ (ascii label ++ [lf]) := by
    unfold timeRecord
    rw [hpre]
    simp only [List.append_assoc]
  rw [hrecord, labelled_iff hover (by omega) hlabel hnum hgps, hlength, hfits]
  simp only [← length_padInt_iff (by norm_num : 1 < 6),
    ← length_padFixed_iff (by norm_num : 13 = 5 + 1 + 7) (by norm_num) (by norm_num)]
  omega

/-- The records without numbers, and those whose numbers are not in the way of their label. -/
theorem labelled_literal :
    Labelled (ascii "     3.03           OBSERVATION DATA    M                   RINEX VERSION / TYPE" ++ [lf])
        (ascii "RINEX VERSION / TYPE") ∧
      Labelled (text 60 (ascii "GPS_BASE_STATION") ++ ascii "MARKER NAME      " ++ [lf])
        (ascii "MARKER NAME") ∧
      Labelled (text 60 (ascii "GEODETIC") ++ ascii "MARKER TYPE      " ++ [lf]) (ascii "MARKER TYPE") ∧
      Labelled (text 20 (ascii "UNKNOWN") ++ text 40 (ascii "UNKNOWN") ++ ascii "OBSERVER / AGENCY" ++ [lf])
        (ascii "OBSERVER / AGENCY") ∧
      Labelled (text 20 (ascii "0000") ++ text 20 (ascii "UM980") ++ text 20 (ascii "UNICORE") ++
        ascii "REC # / TYPE / VERS" ++ [lf]) (ascii "REC # / TYPE / VERS") ∧
      (∀ d ∈ systems, Labelled (systemRecord d) (ascii "SYS / # / OBS TYPES")) ∧
      Labelled (padFixed 10 3 (ofInt kEpochInterval) ++ text 50 [] ++ ascii "INTERVAL" ++ [lf])
        (ascii "INTERVAL") ∧
      Labelled endOfHeader (ascii "END OF HEADER") ∧ Inline (text 60 [] ++ ascii "END OF HEADER    ") := by
  decide +kernel

theorem length_text {width : ℕ} {s : List UInt8} (h : s.length ≤ width) : (text width s).length = width := by
  unfold text
  rw [length_padRight]
  exact max_eq_left h

theorem labelled_date (c : Clib) (t : Calendar) :
    Labelled (text 20 (ascii "GPS_BASE") ++ text 20 (ascii "ESP32_RTK") ++ text 20
      ((zeroInt 4 t.Y.toInt ++ zeroInt 2 t.Mo.toInt ++ zeroInt 2 t.D.toInt ++ ascii " " ++
        zeroInt 2 t.h.toInt ++ zeroInt 2 t.m.toInt ++ zeroInt 2 (t.second c) ++ ascii " UTC").take 20) ++
      ascii "PGM / RUN BY / DATE" ++ [lf]) (ascii "PGM / RUN BY / DATE") := by
  have h1 : (text 20 (ascii "GPS_BASE")).length = 20 := length_text (by decide)
  have h2 : (text 20 (ascii "ESP32_RTK")).length = 20 := length_text (by decide)
  have h3 := length_text (List.length_take_le 20 (zeroInt 4 t.Y.toInt ++ zeroInt 2 t.Mo.toInt ++
    zeroInt 2 t.D.toInt ++ ascii " " ++ zeroInt 2 t.h.toInt ++ zeroInt 2 t.m.toInt ++
      zeroInt 2 (t.second c) ++ ascii " UTC"))
  unfold Labelled
  rw [List.append_assoc, List.drop_append_of_le_length (by simp only [List.length_append]; omega),
    List.drop_eq_nil_of_le (by simp only [List.length_append]; omega), List.nil_append]
  exact List.prefix_append _ _

theorem labelled_ant {a : List UInt8} (ha : a.length = 20) :
    Labelled (antRecord a) (ascii "ANT # / TYPE") := by
  have h1 : (text 20 (ascii "0000")).length = 20 := length_text (by decide)
  have h2 : (text 20 ([] : List UInt8)).length = 20 := length_text (by decide)
  have hlabel : ascii "ANT # / TYPE" <+: ascii "ANT # / TYPE     " ++ [lf] := by decide
  have hrecord : antRecord a = (text 20 (ascii "0000") ++ a ++ text 20 []) ++
      (ascii "ANT # / TYPE     " ++ [lf]) := by
    unfold antRecord
    simp only [List.append_assoc]
  unfold Labelled
  rw [hrecord, List.drop_append_of_le_length (by simp only [List.length_append]; omega),
    List.drop_eq_nil_of_le (by simp only [List.length_append]; omega), List.nil_append]
  exact hlabel

theorem forall₂_append_iff {α β : Type} {R : α → β → Prop} {as : List α} {bs : List β}
    (h : as.length = bs.length) {as' : List α} {bs' : List β} :
    List.Forall₂ R (as ++ as') (bs ++ bs') ↔ List.Forall₂ R as bs ∧ List.Forall₂ R as' bs' := by
  refine ⟨fun hall => ?_, fun ⟨h1, h2⟩ => List.rel_append h1 h2⟩
  have htake := List.forall₂_take as.length hall
  have hdrop := List.forall₂_drop as.length hall
  rw [List.take_left, h, List.take_left] at htake
  rw [List.drop_left, h, List.drop_left] at hdrop
  exact ⟨htake, hdrop⟩

/-- The lines of the header: only the record of the antenna may be more than one. -/
theorem readlines_header (c : Clib) (l : RinexLogger) (week : ℤ) (tow : Float64) :
    readlines (headerBytes c l week tow) = recordsBefore c (gpsToCalendar c week tow) ++
      (readlines (antRecord (antType l.antModel l.antRadome)) ++
        (recordsAfter l (gpsToCalendar c week tow) ++
          [timeRecord (gpsToCalendar c week tow) "TIME OF LAST OBS", endOfHeader])) := by
  set t := gpsToCalendar c week tow
  have hbefore : ∀ r ∈ recordsBefore c t, ∃ s, Inline s ∧ r = s ++ [lf] :=
    fun r hr => (recordsBefore_spec c t r hr).1.line
  have hafter : ∀ r ∈ recordsAfter l t ++ [timeRecord t "TIME OF LAST OBS", endOfHeader],
      ∃ s, Inline s ∧ r = s ++ [lf] := by
    intro r hr
    rcases List.mem_append.mp hr with hr | hr
    · exact ((recordsAfter_spec l t).1 r hr).choose_spec.line
    · rcases List.mem_cons.mp hr with hr | hr
      · rw [hr]
        have hlast : LineRecord (timeRecord t "TIME OF LAST OBS") none :=
          lineRecord_of_over (over_time t _) (by decide) (by decide) (by decide)
        exact hlast.line
      · rw [List.mem_singleton.mp hr]
        exact ⟨_, labelled_literal.2.2.2.2.2.2.2.2, rfl⟩
  have hant : ∀ (a rest : List UInt8), readlines (antRecord a ++ rest) =
      readlines (antRecord a) ++ readlines rest := fun a rest => by
    have hline : antRecord a =
        text 20 (ascii "0000") ++ (a ++ (text 20 [] ++ ascii "ANT # / TYPE     ")) ++ [lf] := by
      unfold antRecord
      simp only [List.append_assoc]
    rw [hline, List.append_assoc, List.singleton_append, readlines_append]
  have hrest := readlines_lines hafter []
  rw [List.append_nil, show readlines [] = [] from rfl, List.append_nil] at hrest
  rw [headerBytes_eq, headerRecords_eq, List.append_assoc, List.flatten_append,
    readlines_lines hbefore, List.cons_append, List.flatten_cons, hant, hrest]

theorem labelled_ant_iff {a : List UInt8} (ha : a.length = 20) {rs ls : List (List UInt8)}
    (hlength : rs.length = ls.length) :
    List.Forall₂ Labelled (readlines (antRecord a) ++ rs) (ascii "ANT # / TYPE" :: ls) ↔
      Inline a ∧ List.Forall₂ Labelled rs ls := by
  have hrecord : antRecord a = (antBefore ++ a) ++
      ((text 20 [] ++ ascii "ANT # / TYPE     ") ++ [lf]) := by
    unfold antRecord antBefore
    simp only [List.append_assoc]
  have hone : Inline a → readlines (antRecord a) = [antRecord a] := fun hinline => by
    rw [hrecord, ← List.append_assoc]
    exact readlines_line ((around_ant.2.2.1.append hinline).append around_ant.2.2.2.1)
  constructor
  · intro h
    have hcount := h.length_eq
    rw [List.length_append, List.length_cons, hlength] at hcount
    have hlines : (readlines (antRecord a)).length = 1 := by omega
    rw [hrecord] at hlines
    have hinline := inline_of_one_line (List.append_ne_nil_of_right_ne_nil _ (by decide)) hlines
    have ha' : Inline a := (inline_append_iff.mp hinline).2
    rw [hone ha'] at h
    exact ⟨ha', (List.forall₂_cons.mp h).2⟩
  · rintro ⟨hinline, h⟩
    rw [hone hinline]
    exact List.Forall₂.cons (labelled_ant ha) h

theorem fits_zero : Fits 9 4 (ofInt 0) := by
  show ((0 : ℚ≥0) : ℚ) + 1 / (2 * 10 ^ 4) < 10 ^ 9
  norm_num

theorem wellFormed_iff (c : Clib) (l : RinexLogger) (week : ℤ) (tow : Float64) :
    WellFormed l.presentMask (headerBytes c l week tow) ↔
      Inline (antType l.antModel l.antRadome) ∧ Fits 9 4 l.antDeltaH ∧
        (Fits 9 4 l.ecefX ∧ Fits 9 4 l.ecefY ∧ Fits 9 4 l.ecefZ) ∧
          TimeFits (gpsToCalendar c week tow) := by
  obtain ⟨hversion, hname, hmarker, hobserver, hrec, hsys, hinterval, hend, -⟩ := labelled_literal
  have hbefore : ∀ t, List.Forall₂ Labelled (recordsBefore c t)
      [ascii "RINEX VERSION / TYPE", ascii "PGM / RUN BY / DATE", ascii "MARKER NAME",
        ascii "MARKER TYPE", ascii "OBSERVER / AGENCY", ascii "REC # / TYPE / VERS"] := fun t =>
    .cons hversion (.cons (labelled_date c t) (.cons hname (.cons hmarker (.cons hobserver
      (.cons hrec .nil)))))
  have hlabels : (ascii "APPROX POSITION XYZ").head? = some 'A'.toUInt8 ∧
      (ascii "ANTENNA: DELTA H/E/N").head? = some 'A'.toUInt8 ∧
      (ascii "TIME OF FIRST OBS").head? = some 'T'.toUInt8 ∧
      (ascii "TIME OF LAST OBS").head? = some 'T'.toUInt8 := by decide
  obtain ⟨happrox, hdeltaLabel, hfirstLabel, hlastLabel⟩ := hlabels
  have hposition := labelled_lengths l.ecefX l.ecefY l.ecefZ happrox (by decide)
  have hdelta := labelled_lengths l.antDeltaH (ofInt 0) (ofInt 0) hdeltaLabel (by decide)
  have hfirst := fun t => labelled_time t hfirstLabel (by decide) (by decide)
  have hlast := fun t => labelled_time t hlastLabel (by decide) (by decide)
  have hafter : ∀ t, recordsAfter l t ++ [timeRecord t "TIME OF LAST OBS", endOfHeader] =
      [lengthsRecord l.ecefX l.ecefY l.ecefZ "APPROX POSITION XYZ",
        lengthsRecord l.antDeltaH (ofInt 0) (ofInt 0) "ANTENNA: DELTA H/E/N"] ++
      (systems.filter fun d => hasSystem l.presentMask d.sys).map systemRecord ++
      [padFixed 10 3 (ofInt kEpochInterval) ++ text 50 [] ++ ascii "INTERVAL" ++ [lf],
        timeRecord t "TIME OF FIRST OBS", timeRecord t "TIME OF LAST OBS", endOfHeader] := fun t => by
    unfold recordsAfter
    simp only [List.append_assoc, List.cons_append, List.nil_append]
  have hsystems : List.Forall₂ Labelled
      ((systems.filter fun d => hasSystem l.presentMask d.sys).map systemRecord)
      ((systems.filter fun d => hasSystem l.presentMask d.sys).map fun _ =>
        ascii "SYS / # / OBS TYPES") := by
    rw [List.forall₂_map_left_iff, List.forall₂_map_right_iff, List.forall₂_same]
    exact fun d hd => hsys d (List.mem_of_mem_filter hd)
  unfold WellFormed labels
  rw [readlines_header, forall₂_append_iff (hbefore (gpsToCalendar c week tow)).length_eq,
    labelled_ant_iff (length_antType _ _) (by
      rw [hafter]
      simp only [List.length_append, List.length_map, List.length_cons, List.length_nil]),
    hafter, forall₂_append_iff (by
      simp only [List.length_append, List.length_map, List.length_cons, List.length_nil])]
  simp only [List.cons_append, List.nil_append, List.forall₂_cons, hposition, hdelta, hfirst, hlast,
    hinterval, hend, fits_zero, hsystems, hbefore, List.Forall₂.nil, true_and, and_true, and_self]
  constructor
  · rintro ⟨hant, ⟨hplace, hheight⟩, htime⟩
    exact ⟨hant, hheight, hplace, htime⟩
  · rintro ⟨hant, hheight, hplace, htime⟩
    exact ⟨hant, ⟨hplace, hheight⟩, htime⟩


/-! ### What is entered -/

/-- A logger started with the antenna, at the opening of a file with these systems. -/
def collecting (c : Clib) (l : RinexLogger) (lat lon height : Float64) (a : Antenna)
    (deltaH : Float64) (presentMask : UInt8) : RinexLogger :=
  { l.start c lat lon height a.model a.radome deltaH with presentMask := presentMask }

/-- An antenna neither breaks the receiver's configuration nor the header. -/
structure Unbroken (c : Clib) (value : Double → Float64) (l : RinexLogger) (lat lon height : Float64)
    (presentMask : UInt8) (week : ℤ) (tow : Float64) (a : Antenna) : Prop where
  configures : Configures lat lon height a.model
  header : WellFormed presentMask
    (headerBytes c (collecting c l lat lon height a (value a.height) presentMask) week tow)

/-- **What is asked of an antenna**: no line end in its model, or in the part of its radome that is
printed, a model of at most 120 bytes, and a height that fits its columns. -/
structure Printable (value : Double → Float64) (a : Antenna) : Prop where
  model : Inline (cStr a.model)
  length : (cStr a.model).length ≤ 120
  radome : Inline ((cStr a.radome).take 4)
  height : Fits 9 4 (value a.height)

/-- A place and a time that are printed in their columns. -/
structure PlaceFits (c : Clib) (lat lon height : Float64) (week : ℤ) (tow : Float64) : Prop where
  geodetic : (coordinates lat lon height).length < 150
  ecef : Fits 9 4 (geodeticToEcef c lat lon height).1 ∧
    Fits 9 4 (geodeticToEcef c lat lon height).2.1 ∧ Fits 9 4 (geodeticToEcef c lat lon height).2.2
  time : TimeFits (gpsToCalendar c week tow)

theorem inline_padRight {s : List UInt8} {width : ℕ} : Inline (padRight width s) ↔ Inline s := by
  have hblanks : Inline (List.replicate (width - s.length) 32) :=
    ⟨fun h => absurd (List.eq_of_mem_replicate h) (by decide),
      fun h => absurd (List.eq_of_mem_replicate h) (by decide)⟩
  exact inline_append_iff.trans (and_iff_left hblanks)

theorem inline_antType {model radome : List UInt8} : Inline (antType model radome) ↔
    Inline ((cStr model).take 16) ∧ Inline ((cStr radome).take 4) := by
  unfold antType text
  rw [inline_append_iff, inline_padRight, inline_padRight]

theorem orDefault_ne_nil {d : String} (hd : ascii d ≠ []) (s : List UInt8) : orDefault s d ≠ [] := by
  unfold orDefault
  split_ifs with h
  · exact hd
  · simpa using h

theorem inline_orDefault {d : String} (hd : Inline (ascii d)) (s : List UInt8) (n : ℕ) :
    Inline ((orDefault s d).take n) ↔ Inline (s.take n) := by
  unfold orDefault
  split_ifs with h
  · rw [List.isEmpty_iff.mp h, List.take_nil]
    exact iff_of_true (hd.take n) (by decide)
  · exact Iff.rfl

theorem cStr_orDefault {d : String} (hd : cStr (ascii d) = ascii d) (s : List UInt8) :
    cStr (orDefault (cStr s) d) = orDefault (cStr s) d := by
  unfold orDefault
  split_ifs
  · exact hd
  · exact cStr_cStr s

/-- **An antenna that is stored** breaks neither the configuration of the receiver nor the header exactly
if it is printable, the place and the time being printable too. -/
theorem antenna_fits_iff (c : Clib) (atof : List UInt8 → Double) (value : Double → Float64)
    {s s' : Storage} {e : Entry} (h : e.store atof s = some (s', some ESP_OK)) {l : RinexLogger}
    (hl : l.active = false) (lat lon height : Float64) (presentMask : UInt8) (week : ℤ) (tow : Float64) :
    Unbroken c value l lat lon height presentMask week tow s'.loadAntenna ↔
      Printable value (e.antenna atof) ∧ PlaceFits c lat lon height week tow := by
  set m := (e.antenna atof).model with hm
  set r := (e.antenna atof).radome with hr
  have hload := loadAntenna_store atof h
  have hmodel : s'.loadAntenna.model = orDefault (cStr m) "HXCGPS500" := by rw [hload]
  have hradome : s'.loadAntenna.radome = orDefault (cStr r) "NONE" := by rw [hload]
  have hheight : s'.loadAntenna.height = (e.antenna atof).height := by rw [hload]
  have hmne : orDefault (cStr m) "HXCGPS500" ≠ [] := orDefault_ne_nil (by decide) _
  have hrne : orDefault (cStr r) "NONE" ≠ [] := orDefault_ne_nil (by decide) _
  have hstart : collecting c l lat lon height s'.loadAntenna (value s'.loadAntenna.height) presentMask =
      { l with
        antModel := orDefault (cStr m) "HXCGPS500", antRadome := orDefault (cStr r) "NONE"
        antDeltaH := value (e.antenna atof).height
        ecefX := (geodeticToEcef c lat lon height).1, ecefY := (geodeticToEcef c lat lon height).2.1
        ecefZ := (geodeticToEcef c lat lon height).2.2, inMsg := false, msg := [], currentFile := []
        epochs := 0, files := 0, active := true, presentMask := presentMask } := by
    unfold collecting start
    rw [hl, if_neg Bool.false_ne_true, hmodel, hradome, hheight, if_neg (by simpa using hmne),
      if_neg (by simpa using hrne)]
  have hinline : ∀ n, Inline ((orDefault (cStr m) "HXCGPS500").take n) ↔ Inline ((cStr m).take n) :=
    inline_orDefault (by decide) _
  have hall : Inline (orDefault (cStr m) "HXCGPS500") ↔ Inline (cStr m) := by
    have hmax := hinline (max (orDefault (cStr m) "HXCGPS500").length (cStr m).length)
    rwa [List.take_of_length_le (le_max_left _ _), List.take_of_length_le (le_max_right _ _)] at hmax
  have hlength : (orDefault (cStr m) "HXCGPS500").length ≤ 120 ↔ (cStr m).length ≤ 120 := by
    unfold orDefault
    split_ifs with hempty
    · rw [List.isEmpty_iff.mp hempty]
      exact iff_of_true (by decide) (by decide)
    · exact Iff.rfl
  have hconfigures := configures_iff lat lon height hmne
  have hheader := wellFormed_iff c
    (collecting c l lat lon height s'.loadAntenna (value s'.loadAntenna.height) presentMask) week tow
  rw [inline_antType, hstart] at hheader
  dsimp only at hheader
  rw [cStr_orDefault (by decide), cStr_orDefault (by decide), hinline,
    inline_orDefault (by decide) (cStr r) 4] at hheader
  rw [hall, hlength] at hconfigures
  constructor
  · rintro ⟨hbase, hlines⟩
    rw [hmodel, hconfigures] at hbase
    rw [hstart, hheader] at hlines
    obtain ⟨hline, hshort, hplace⟩ := hbase
    obtain ⟨⟨-, hrad⟩, hfits, hecef, htime⟩ := hlines
    exact ⟨⟨hline, hshort, hrad, hfits⟩, hplace, hecef, htime⟩
  · rintro ⟨⟨hline, hshort, hrad, hfits⟩, hplace, hecef, htime⟩
    refine ⟨?_, ?_⟩
    · rw [hmodel, hconfigures]
      exact ⟨hline, hshort, hplace⟩
    · rw [hstart, hheader]
      exact ⟨⟨hline.take 16, hrad⟩, hfits, hecef, htime⟩

/-! ### Antennas that are not printable -/

/-- **A line feed in the form, and a long model on the panel**: both are stored. The first is sent in two
lines and breaks the header; with the second `MODE BASE` is not reached. -/
theorem unprintable_stored :
    (∃ s', (Entry.form (ascii "ant_model=A%0AB")).store (fun _ => .zero) .blank =
        some (s', some ESP_OK) ∧
      ¬ Configures (ofInt 0) (ofInt 0) (ofInt 0) s'.loadAntenna.model ∧
      ¬ WellFormed 1 (headerBytes Rinex.Sessions.sampleClib (collecting Rinex.Sessions.sampleClib
        { opens := fun _ => true } (ofInt 0) (ofInt 0) (ofInt 0) s'.loadAntenna (ofInt 0) 1) 0
          (ofInt 0))) ∧
    ∃ s', (Entry.panel (List.replicate 121 65) [] []).store (fun _ => .zero) .blank =
        some (s', some ESP_OK) ∧
      ¬ Configures (ofInt 0) (ofInt 0) (ofInt 0) s'.loadAntenna.model := by
  have hstored : ∀ e ∈ [Entry.form (ascii "ant_model=A%0AB"), Entry.panel (List.replicate 121 65) [] []],
      (e.store (fun _ => .zero) .blank).map Prod.snd = some (some ESP_OK) := by decide +kernel
  have hexists : ∀ e ∈ [Entry.form (ascii "ant_model=A%0AB"), Entry.panel (List.replicate 121 65) [] []],
      ∃ s', e.store (fun _ => .zero) .blank = some (s', some ESP_OK) := by
    intro e he
    obtain ⟨⟨s', r⟩, hs', hr⟩ := Option.map_eq_some_iff.mp (hstored e he)
    exact ⟨s', by rw [hs', ← hr]⟩
  obtain ⟨s', hs'⟩ := hexists (Entry.form (ascii "ant_model=A%0AB")) List.mem_cons_self
  obtain ⟨t', ht'⟩ := hexists (Entry.panel (List.replicate 121 65) [] []) (by simp)
  have hmodel : s'.loadAntenna.model = [65, 10, 66] := by
    rw [loadAntenna_store _ hs']
    decide +kernel
  have hlong : t'.loadAntenna.model = List.replicate 121 65 := by
    rw [loadAntenna_store _ ht']
    decide +kernel
  refine ⟨⟨s', hs', fun h => ?_, fun h => ?_⟩, t', ht', fun h => ?_⟩
  · have hne : s'.loadAntenna.model ≠ [] := by rw [hmodel]; decide
    have hline := ((configures_iff _ _ _ hne).mp h).1
    rw [hmodel] at hline
    exact absurd hline (by decide)
  · have hline := ((wellFormed_iff _ (collecting Rinex.Sessions.sampleClib { opens := fun _ => true }
      (ofInt 0) (ofInt 0) (ofInt 0) s'.loadAntenna (ofInt 0) 1) _ _).mp h).1
    have hant : (collecting Rinex.Sessions.sampleClib { opens := fun _ => true } (ofInt 0) (ofInt 0)
        (ofInt 0) s'.loadAntenna (ofInt 0) 1).antModel = [65, 10, 66] := by
      unfold collecting start
      simp [hmodel]
    rw [inline_antType, hant] at hline
    exact absurd hline.1 (by decide)
  · have hne : t'.loadAntenna.model ≠ [] := by rw [hlong]; exact List.cons_ne_nil _ _
    have hlength := ((configures_iff _ _ _ hne).mp h).2.1
    rw [hlong, List.length_replicate] at hlength
    omega

/-- An antenna of the form, stored in an empty storage. -/
theorem antenna_fits_iff_sample :
    ∃ s', (Entry.form (ascii "ant_model=TRM55971.00&ant_radome=TZGD")).store (fun _ => .zero) .blank =
        some (s', some ESP_OK) ∧
      (Unbroken Rinex.Sessions.sampleClib (fun _ => ofInt 0) { opens := fun _ => true } (ofInt 0) (ofInt 0)
          (ofInt 0) 1 0 (ofInt 0) s'.loadAntenna ↔
        Printable (fun _ => ofInt 0) ((Entry.form (ascii "ant_model=TRM55971.00&ant_radome=TZGD")).antenna
          (fun _ => .zero)) ∧
        PlaceFits Rinex.Sessions.sampleClib (ofInt 0) (ofInt 0) (ofInt 0) 0 (ofInt 0)) := by
  have hstored : ((Entry.form (ascii "ant_model=TRM55971.00&ant_radome=TZGD")).store
      (fun _ => .zero) .blank).map Prod.snd = some (some ESP_OK) := by decide +kernel
  obtain ⟨⟨s', r⟩, hs', hr⟩ := Option.map_eq_some_iff.mp hstored
  have hok : (Entry.form (ascii "ant_model=TRM55971.00&ant_radome=TZGD")).store (fun _ => .zero) .blank =
      some (s', some ESP_OK) := by rw [hs', ← hr]
  exact ⟨s', hok, antenna_fits_iff Rinex.Sessions.sampleClib (fun _ => .zero) (fun _ => ofInt 0) hok rfl
    (ofInt 0) (ofInt 0) (ofInt 0) 1 0 (ofInt 0)⟩

end GpsBase.Settings.Antenna
