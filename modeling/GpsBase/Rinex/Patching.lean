import GpsBase.Rinex.Sessions
import GpsBase.Rinex.Times

/-! # Patching in place

The logger goes back into the header after every epoch and when it closes the file. A writer that goes
straight through, and knows beforehand which epoch is the last, writes the same bytes: the record that
is replaced is as long as any other. -/

namespace GpsBase.Rinex.Patching

open GpsBase.Lib.Binary64 GpsBase.Lib.Binary64.Float64 GpsBase.Lib.CText GpsBase.Lib.Calendar
open GpsBase.Lib.Lines GpsBase.Rinex.Logger GpsBase.Rinex.Logger.RinexLogger GpsBase.Rinex.Header
open GpsBase.Rinex.Validator GpsBase.Rinex.Epochs GpsBase.Rinex.Parts GpsBase.Rinex.Times
open GpsBase.Rinex.Sessions

/-! ### The straight-line writer -/

/-- An epoch handed to `write_epoch`. -/
structure Epoch where
  week : ℤ
  tow : Float64
  sats : List SatObs

def write (c : Clib) (l : RinexLogger) (e : Epoch) : RinexLogger := l.writeEpoch c e.week e.tow e.sats

def block (c : Clib) (l : RinexLogger) (e : Epoch) : List UInt8 :=
  epochLine (gpsToCalendar c e.week e.tow) (l.epochSats e.sats).length ++
    (l.epochSats e.sats).flatMap fun s => obsRow s.1 s.2

/-- The epochs that have a satellite to write. -/
def written (l : RinexLogger) (es : List Epoch) : List Epoch :=
  es.filter fun e => !(l.epochSats e.sats).isEmpty

/-- The time of the last of the epochs written, or the one the file is opened at. -/
def lastTime (l : RinexLogger) (week : ℤ) (tow : Float64) (es : List Epoch) : ℤ × Float64 :=
  ((written l es).getLast?.map fun e => (e.week, e.tow)).getD (week, tow)

/-- A file written straight through. -/
def straightLine (c : Clib) (l : RinexLogger) (week : ℤ) (tow : Float64) (es : List Epoch) :
    List UInt8 :=
  let last := lastTime l week tow es
  (headerRecords c l (gpsToCalendar c week tow)).flatten ++
    (timeRecord (gpsToCalendar c last.1 last.2) "TIME OF LAST OBS" ++ (endOfHeader ++
      (written l es).flatMap (block c l)))

/-! ### The width of the record -/

def recordLength : ℕ := 77

/-- A time whose year has four digits. -/
def FourDigits (c : Clib) (week : ℤ) (tow : Float64) : Prop :=
  1980 ≤ (gpsToCalendar c week tow).Y.toInt ∧ (gpsToCalendar c week tow).Y.toInt ≤ 9999

/-- **The record of a time is as long as any other.** -/
theorem length_timeRecord (c : Clib) {week : ℤ} {tow : Float64}
    (h : FourDigits (withGmtime c) week tow) :
    (timeRecord (gpsToCalendar (withGmtime c) week tow) "TIME OF LAST OBS").length = recordLength := by
  obtain ⟨⟨hmo0, hmo1⟩, ⟨hd0, hd1⟩, ⟨hh0, hh1⟩, ⟨hm0, hm1⟩, ⟨hs0, -⟩⟩ :=
    smallFields_of_valid (valid_dateOf c week tow)
  have hs60 := (valid_dateOf c week tow).second.2
  have hsmall : ∀ n : ℤ, 0 ≤ n → n < 100 → (padInt 6 (Int32.ofInt n).toInt).length = 6 := by
    intro n h0 h1
    rw [toInt_ofInt_small h0 h1]
    exact length_padInt (by norm_num) h0 (by omega)
  have hyear : (padInt 6 (gpsToCalendar (withGmtime c) week tow).Y.toInt).length = 6 := by
    obtain ⟨h1, h2⟩ := h
    exact length_padInt (by norm_num) (by omega) (by omega)
  have hsec : (padFixed 13 7 ((ofInt (dateOf c week tow).second).add (tow.fmod (ofInt 1)))).length =
      13 := by
    refine length_padFixed (atMost_add_fmod (k := 6) (by norm_num) ?_ tow)
    rw [abs_le]
    constructor <;> omega
  have hgps : (ascii "     GPS         ").length = 17 := by decide
  have hlabel : (ascii "TIME OF LAST OBS").length = 16 := by decide
  unfold timeRecord recordLength
  simp only [List.length_append, List.length_singleton, hyear, hgps, hlabel]
  rw [gpsToCalendar_gmtime]
  dsimp only
  rw [hsmall _ hmo0 hmo1, hsmall _ hd0 hd1, hsmall _ hh0 hh1, hsmall _ hm0 hm1, hsec]

/-! ### The parts of a straight-line file -/

/-- The parts of a file written straight through. -/
def contentsOf (c : Clib) (l : RinexLogger) (week : ℤ) (tow : Float64) (es : List Epoch) :
    Contents where
  header := (headerRecords c l (gpsToCalendar c week tow)).flatten
  slot := timeRecord (gpsToCalendar c (lastTime l week tow es).1 (lastTime l week tow es).2)
    "TIME OF LAST OBS" ++ text 60 []
  epochs := (written l es).map fun e =>
    epochOf (gpsToCalendar c e.week e.tow) (l.epochSats e.sats)

theorem flatten_epochLines (t : Calendar) (sats : List (SatObs × List UInt8)) :
    (epochLines (epochOf t sats)).flatten =
      epochLine t sats.length ++ sats.flatMap fun s => obsRow s.1 s.2 := by
  rw [epochLines_epochOf, List.flatten_cons, List.flatMap_def]

theorem bytes_contentsOf (c : Clib) (l : RinexLogger) (week : ℤ) (tow : Float64) (es : List Epoch) :
    (contentsOf c l week tow es).bytes = straightLine c l week tow es := by
  have hblocks : ∀ es : List Epoch, ((es.map fun e =>
      epochOf (gpsToCalendar c e.week e.tow) (l.epochSats e.sats)).flatMap epochLines).flatten =
        es.flatMap (block c l) := by
    intro es
    induction es with
    | nil => rfl
    | cons e es ih =>
      rw [List.map_cons, List.flatMap_cons, List.flatten_append, ih, flatten_epochLines,
        List.flatMap_cons]
      rfl
  unfold Contents.bytes Contents.body contentsOf straightLine endOfHeader
  dsimp only
  rw [hblocks]
  simp only [List.append_assoc]

theorem written_append (l : RinexLogger) (es : List Epoch) (e : Epoch) :
    written l (es ++ [e]) =
      if l.epochSats e.sats = [] then written l es else written l es ++ [e] := by
  unfold written
  rw [List.filter_append, List.filter_singleton]
  by_cases h : l.epochSats e.sats = []
  · rw [if_pos h, h]
    exact List.append_nil _
  · rw [if_neg h, List.isEmpty_eq_false_iff.mpr h]
    rfl

theorem lastTime_append (l : RinexLogger) (week : ℤ) (tow : Float64) (es : List Epoch) {e : Epoch}
    (h : l.epochSats e.sats ≠ []) : lastTime l week tow (es ++ [e]) = (e.week, e.tow) := by
  unfold lastTime
  rw [written_append, if_neg h, List.getLast?_concat]
  rfl

theorem lastTime_prop {P : ℤ → Float64 → Prop} (l : RinexLogger) {week : ℤ} {tow : Float64}
    (h : P week tow) {es : List Epoch} (hes : ∀ e ∈ es, P e.week e.tow) :
    P (lastTime l week tow es).1 (lastTime l week tow es).2 := by
  unfold lastTime
  rcases hlast : (written l es).getLast? with _ | e
  · exact h
  · exact hes e (List.mem_of_mem_filter (List.mem_of_getLast? hlast))

theorem epochSats_congr {l l' : RinexLogger} (h : l'.presentMask = l.presentMask)
    (sats : List SatObs) : l'.epochSats sats = l.epochSats sats := by
  unfold epochSats
  rw [h]

/-- An epoch put into a file written straight through. -/
theorem contentsOf_append (c : Clib) (l : RinexLogger) {week : ℤ} {tow : Float64}
    (h : FourDigits (withGmtime c) week tow) {es : List Epoch}
    (hes : ∀ e ∈ es, FourDigits (withGmtime c) e.week e.tow) {e : Epoch}
    (he : FourDigits (withGmtime c) e.week e.tow) (hne : l.epochSats e.sats ≠ []) :
    ((contentsOf (withGmtime c) l week tow es).addEpoch
      (epochOf (gpsToCalendar (withGmtime c) e.week e.tow) (l.epochSats e.sats))).stamp
        (timeRecord (gpsToCalendar (withGmtime c) e.week e.tow) "TIME OF LAST OBS") =
      contentsOf (withGmtime c) l week tow (es ++ [e]) := by
  have hold := length_timeRecord c (lastTime_prop l h hes)
  have hnew := length_timeRecord c he
  unfold contentsOf Contents.stamp Contents.addEpoch
  dsimp only
  rw [lastTime_append l week tow es hne, written_append, if_neg hne, List.map_append, hnew, ← hold,
    List.drop_left]
  rfl

/-! ### The run -/

/-- The logger has written `es` to a file opened by `l`, as if straight through. -/
structure Straight (c : Clib) (l : RinexLogger) (week : ℤ) (tow : Float64) (es : List Epoch)
    (l' : RinexLogger) : Prop where
  holds : HoldsFile l' (contentsOf c l week tow es)
  mask : l'.presentMask = l.presentMask
  last : (l'.lastObsWeek, l'.lastObsTow) = lastTime l week tow es
  name : l'.currentFile = fileName c (gpsToCalendar c week tow)
  closed : l'.closed = l.closed

theorem straight_openFile (c : Clib) {l : RinexLogger} (hopen : l.opens 0 = true) (week : ℤ)
    (tow : Float64) : Straight c l week tow [] (l.openFile c week tow) := by
  have hholds := holdsFile_openFile c hopen week tow
  have heq := openFile_eq c hopen week tow
  have hmask := congrArg RinexLogger.presentMask heq
  have hlast := congrArg (fun l => (l.lastObsWeek, l.lastObsTow)) heq
  have hname := congrArg RinexLogger.currentFile heq
  have hclosed := congrArg RinexLogger.closed heq
  exact ⟨hholds, hmask, hlast, hname, hclosed⟩

/-- **A write keeps the file as one written straight through.** -/
theorem Straight.write {c : Clib} {l l' : RinexLogger} {week : ℤ} {tow : Float64} {es : List Epoch}
    (hs : Straight (withGmtime c) l week tow es l') (h : FourDigits (withGmtime c) week tow)
    (hes : ∀ e ∈ es, FourDigits (withGmtime c) e.week e.tow) {e : Epoch}
    (he : FourDigits (withGmtime c) e.week e.tow) :
    Straight (withGmtime c) l week tow (es ++ [e]) (write (withGmtime c) l' e) := by
  have hsats := epochSats_congr hs.mask e.sats
  unfold Patching.write
  by_cases hne : l.epochSats e.sats = []
  · rw [writeEpoch_none (withGmtime c) e.week e.tow (hsats.trans hne)]
    have hwritten : written l (es ++ [e]) = written l es := by
      rw [written_append, if_pos hne]
    have hlast : lastTime l week tow (es ++ [e]) = lastTime l week tow es := by
      unfold lastTime
      rw [hwritten]
    have hcontents : contentsOf (withGmtime c) l week tow (es ++ [e]) =
        contentsOf (withGmtime c) l week tow es := by
      unfold contentsOf
      rw [hlast, hwritten]
    refine ⟨?_, hs.mask, hs.last.trans hlast.symm, hs.name, hs.closed⟩
    rw [hcontents]
    exact hs.holds
  · have hne' : l'.epochSats e.sats ≠ [] := by
      rw [hsats]
      exact hne
    have hholds := holdsFile_writeEpoch (withGmtime c) hs.holds e.week e.tow hne'
    have heq := writeEpoch_eq (withGmtime c) hs.holds e.week e.tow hne'
    rw [hsats, contentsOf_append c l h hes he hne] at hholds
    have hmask := congrArg RinexLogger.presentMask heq
    have hlast := congrArg (fun l => (l.lastObsWeek, l.lastObsTow)) heq
    have hname := congrArg RinexLogger.currentFile heq
    have hclosed := congrArg RinexLogger.closed heq
    exact ⟨hholds, hmask.trans hs.mask, hlast.trans (lastTime_append l week tow es hne).symm,
      hname.trans hs.name, hclosed.trans hs.closed⟩

theorem straight_run (c : Clib) {l : RinexLogger} (hopen : l.opens 0 = true) {week : ℤ}
    {tow : Float64} (h : FourDigits (withGmtime c) week tow) (es : List Epoch)
    (hes : ∀ e ∈ es, FourDigits (withGmtime c) e.week e.tow) :
    Straight (withGmtime c) l week tow es
      (es.foldl (write (withGmtime c)) (l.openFile (withGmtime c) week tow)) := by
  induction es using List.reverseRecOn with
  | nil => exact straight_openFile (withGmtime c) hopen week tow
  | append_singleton es e ih =>
    have hes' : ∀ e' ∈ es, FourDigits (withGmtime c) e'.week e'.tow :=
      fun e' h' => hes e' (List.mem_append_left _ h')
    rw [List.foldl_append]
    exact (ih hes').write h hes' (hes e (List.mem_append_right _ (List.mem_singleton.mpr rfl)))

theorem Straight.close {c : Clib} {l l' : RinexLogger} {week : ℤ} {tow : Float64} {es : List Epoch}
    (hs : Straight (withGmtime c) l week tow es l') :
    (l'.closeFile (withGmtime c)).closed =
      l.closed ++ [(fileName (withGmtime c) (gpsToCalendar (withGmtime c) week tow),
        straightLine (withGmtime c) l week tow es)] := by
  have hweek : l'.lastObsWeek = (lastTime l week tow es).1 := congrArg Prod.fst hs.last
  have htow : l'.lastObsTow = (lastTime l week tow es).2 := congrArg Prod.snd hs.last
  have hstamp : (contentsOf (withGmtime c) l week tow es).stamp (timeRecord (gpsToCalendar
      (withGmtime c) l'.lastObsWeek l'.lastObsTow) "TIME OF LAST OBS") =
        contentsOf (withGmtime c) l week tow es := by
    unfold contentsOf Contents.stamp
    dsimp only
    rw [hweek, htow, List.drop_left]
  rw [closeFile_eq (withGmtime c) hs.holds, hstamp, bytes_contentsOf]
  dsimp only
  rw [hs.closed, hs.name]

theorem straightLine_append (c : Clib) {l : RinexLogger} {week : ℤ} {tow : Float64}
    (h : FourDigits (withGmtime c) week tow) {es : List Epoch}
    (hes : ∀ e ∈ es, FourDigits (withGmtime c) e.week e.tow) {e : Epoch}
    (he : FourDigits (withGmtime c) e.week e.tow) (hne : l.epochSats e.sats ≠ []) :
    ∃ before record record' after,
      before.length =
        (headerRecords (withGmtime c) l (gpsToCalendar (withGmtime c) week tow)).flatten.length ∧
      record.length = recordLength ∧ record'.length = recordLength ∧
      straightLine (withGmtime c) l week tow es = before ++ (record ++ after) ∧
      straightLine (withGmtime c) l week tow (es ++ [e]) =
        before ++ (record' ++ after) ++ block (withGmtime c) l e := by
  refine ⟨_, _, _, endOfHeader ++ (written l es).flatMap (block (withGmtime c) l), rfl,
    length_timeRecord c (lastTime_prop l h hes), length_timeRecord c he, rfl, ?_⟩
  unfold straightLine
  rw [lastTime_append l week tow es hne, written_append, if_neg hne, List.flatMap_append,
    List.flatMap_singleton]
  simp only [List.append_assoc]

/-! ### Patching in place -/

/-- Bytes that only the record has changed, and what has come behind them. -/
theorem outside_record {before record record' after block : List UInt8}
    (h : record.length = record'.length) :
    ((before ++ (record' ++ after) ++ block).drop (before ++ (record ++ after)).length = block) ∧
      ∀ i, (i < before.length ∨ before.length + record.length ≤ i) →
        i < (before ++ (record ++ after)).length →
          (before ++ (record' ++ after) ++ block)[i]? = (before ++ (record ++ after))[i]? := by
  have hlength : (before ++ (record ++ after)).length = (before ++ (record' ++ after)).length := by
    simp only [List.length_append, h]
  refine ⟨by rw [hlength, List.drop_left], fun i hi hlt => ?_⟩
  rw [List.getElem?_append_left (by rwa [← hlength])]
  rcases hi with hi | hi
  · rw [List.getElem?_append_left hi, List.getElem?_append_left hi]
  · rw [List.getElem?_append_right (by omega), List.getElem?_append_right (by omega),
      List.getElem?_append_right (by omega), List.getElem?_append_right (by omega), h]

/-- **Patching in place does not damage a file**: after every epoch and after the close the file is
the one a straight-line writer writes; an epoch changes no byte outside the record of the last
observation, and its lines come exactly at the end, where the cursor stays. -/
theorem patched_in_place (c : Clib) {l : RinexLogger} (hopen : l.opens 0 = true) {week : ℤ}
    {tow : Float64} (h : FourDigits (withGmtime c) week tow) (es : List Epoch)
    (hes : ∀ e ∈ es, FourDigits (withGmtime c) e.week e.tow) :
    let l' := es.foldl (write (withGmtime c)) (l.openFile (withGmtime c) week tow)
    let bytes := straightLine (withGmtime c) l week tow es
    let slot := (headerRecords (withGmtime c) l (gpsToCalendar (withGmtime c) week tow)).flatten.length
    l'.file = some ⟨bytes, bytes.length⟩ ∧
    (l'.closeFile (withGmtime c)).closed =
      l.closed ++ [(fileName (withGmtime c) (gpsToCalendar (withGmtime c) week tow), bytes)] ∧
    ∀ e, FourDigits (withGmtime c) e.week e.tow → l.epochSats e.sats ≠ [] →
      ∃ f, (write (withGmtime c) l' e).file = some f ∧ f.pos = f.bytes.length ∧
        f.bytes.drop bytes.length = block (withGmtime c) l e ∧
        ∀ i, (i < slot ∨ slot + recordLength ≤ i) → i < bytes.length → f.bytes[i]? = bytes[i]? := by
  have hrun := straight_run c hopen h es hes
  refine ⟨?_, hrun.close, fun e he hne => ?_⟩
  · rw [hrun.holds.file, bytes_contentsOf]
    rfl
  · have hstep := (hrun.write h hes he).holds.file
    rw [bytes_contentsOf] at hstep
    refine ⟨_, hstep, rfl, ?_⟩
    obtain ⟨before, record, record', after, hbefore, hrecord, hrecord', hold, hnew⟩ :=
      straightLine_append c h hes he hne
    dsimp only [atEnd]
    rw [hold, hnew, ← hbefore, ← hrecord]
    exact outside_record (hrecord.trans hrecord'.symm)

/-- A file opened at the start of GPS week 2371, and one epoch. -/
theorem patched_in_place_week :
    let c := withGmtime sampleClib
    let l : RinexLogger := { opens := fun _ => true, presentMask := 1 }
    let e : Epoch := ⟨2371, ofInt 30, [{ prn := 5 }]⟩
    ((write c (l.openFile c 2371 (ofInt 0)) e).closeFile c).closed =
      [(fileName c (gpsToCalendar c 2371 (ofInt 0)), straightLine c l 2371 (ofInt 0) [e])] := by
  have h : FourDigits (withGmtime sampleClib) 2371 (ofInt 0) := by
    unfold FourDigits
    decide +kernel
  have he : FourDigits (withGmtime sampleClib) 2371 (ofInt 30) := by
    unfold FourDigits
    decide +kernel
  exact (patched_in_place sampleClib (l := { opens := fun _ => true, presentMask := 1 }) rfl h
    [⟨2371, ofInt 30, [{ prn := 5 }]⟩] (by
      intro e hmem
      rw [List.mem_singleton.mp hmem]
      exact he)).2.1

end GpsBase.Rinex.Patching
