import GpsBase.Rinex.Epochs
import GpsBase.Rinex.Header

/-! # What a file holds

A file as its parts: the records of its header, the slot the record of the last observation is written
to, and its epochs. The slot reaches to the label of `END OF HEADER`, so that a record that has become
longer stays in it. The writes of the logger append an epoch or replace the front of the slot. -/

namespace GpsBase.Rinex.Parts

open GpsBase.Lib.Binary64 GpsBase.Lib.Binary64.Float64 GpsBase.Lib.CText GpsBase.Lib.Lines
open GpsBase.Rinex.SatId GpsBase.Rinex.Logger GpsBase.Rinex.Logger.RinexLogger
open GpsBase.Rinex.Validator GpsBase.Rinex.Header GpsBase.Rinex.Epochs

/-! ### Parts -/

/-- The parts of a file; an epoch is its line and its rows, without their line ends. -/
structure Contents where
  header : List UInt8
  slot : List UInt8
  epochs : List (List UInt8 × List (List UInt8))

namespace Contents

/-- The bytes behind the slot. -/
def body (x : Contents) : List UInt8 :=
  ascii "END OF HEADER    " ++ ([lf] ++ (x.epochs.flatMap epochLines).flatten)

def bytes (x : Contents) : List UInt8 := x.header ++ (x.slot ++ x.body)

/-- A record written to the front of the slot. -/
def stamp (x : Contents) (r : List UInt8) : Contents := { x with slot := r ++ x.slot.drop r.length }

def addEpoch (x : Contents) (e : List UInt8 × List (List UInt8)) : Contents :=
  { x with epochs := x.epochs ++ [e] }

@[simp] theorem header_stamp (x : Contents) (r : List UInt8) : (x.stamp r).header = x.header := rfl

@[simp] theorem epochs_stamp (x : Contents) (r : List UInt8) : (x.stamp r).epochs = x.epochs := rfl

@[simp] theorem header_addEpoch (x : Contents) (e : List UInt8 × List (List UInt8)) :
    (x.addEpoch e).header = x.header := rfl

@[simp] theorem slot_addEpoch (x : Contents) (e : List UInt8 × List (List UInt8)) :
    (x.addEpoch e).slot = x.slot := rfl

@[simp] theorem epochs_addEpoch (x : Contents) (e : List UInt8 × List (List UInt8)) :
    (x.addEpoch e).epochs = x.epochs ++ [e] := rfl

theorem mem_slot_stamp {x : Contents} {r : List UInt8} {b : UInt8} (h : b ∈ (x.stamp r).slot) :
    b ∈ r ∨ b ∈ x.slot :=
  (List.mem_append.mp h).imp_right List.mem_of_mem_drop

theorem length_slot_stamp (x : Contents) {r : List UInt8} (h : r.length ≤ x.slot.length) :
    (x.stamp r).slot.length = x.slot.length := by
  show (r ++ x.slot.drop r.length).length = x.slot.length
  rw [List.length_append, List.length_drop]
  omega

theorem bytes_addEpoch (x : Contents) (e : List UInt8 × List (List UInt8)) :
    (x.addEpoch e).bytes = x.bytes ++ (epochLines e).flatten := by
  unfold bytes body addEpoch
  simp only [List.flatMap_append, List.flatMap_cons, List.flatMap_nil, List.append_nil,
    List.flatten_append, List.append_assoc]

theorem length_bytes_stamp (x : Contents) {r : List UInt8} (h : r.length ≤ x.slot.length) :
    (x.stamp r).bytes.length = x.bytes.length := by
  have hslot := length_slot_stamp x h
  unfold bytes
  rw [List.length_append, List.length_append, List.length_append, List.length_append, hslot]
  rfl

end Contents

/-! ### Writes -/

def atEnd (bytes : List UInt8) : File := ⟨bytes, bytes.length⟩

theorem fprintf_atEnd (b s : List UInt8) : (atEnd b).fprintf s = atEnd (b ++ s) := by
  unfold File.fprintf atEnd
  rw [List.take_length, List.drop_eq_nil_of_le (Nat.le_add_right _ _), List.append_nil,
    List.length_append]

theorem foldl_fprintf_atEnd {α : Type} (g : α → List UInt8) : ∀ (as : List α) (b : List UInt8),
    as.foldl (fun f a => File.fprintf f (g a)) (atEnd b) = atEnd (b ++ as.flatMap g)
  | [], b => by rw [List.flatMap_nil, List.append_nil, List.foldl_nil]
  | a :: as, b => by
    rw [List.foldl_cons, fprintf_atEnd, foldl_fprintf_atEnd g as, List.flatMap_cons,
      List.append_assoc]

theorem fprintf_slot (x : Contents) {r : List UInt8} (h : r.length ≤ x.slot.length) (pos : ℕ) :
    ((⟨x.bytes, pos⟩ : File).fseek x.header.length).fprintf r =
      ⟨(x.stamp r).bytes, x.header.length + r.length⟩ := by
  unfold File.fprintf File.fseek
  dsimp only
  congr 1
  have hdrop : x.bytes.drop (x.header.length + r.length) = x.slot.drop r.length ++ x.body := by
    unfold Contents.bytes
    rw [← List.drop_drop, List.drop_left, List.drop_append_of_le_length h]
  have htake : x.bytes.take x.header.length = x.header := by
    unfold Contents.bytes
    rw [List.take_left]
  rw [hdrop, htake, Contents.bytes, List.append_assoc, ← List.append_assoc r]
  rfl

/-! ### The record of the last observation -/

def slotRoom : ℕ := 108

theorem length_timeRecord_le (c : Clib) (week : ℤ) (tow : Float64) :
    (timeRecord (gpsToCalendar c week tow) "TIME OF LAST OBS").length ≤ slotRoom := by
  have hint : ∀ n : Int32, (padInt 6 n.toInt).length ≤ 11 := fun n => by
    refine length_padInt_le ?_ (by norm_num)
    have h1 := n.le_toInt
    have h2 := n.toInt_lt
    omega
  have hsec : (padFixed 13 7 (gpsToCalendar c week tow).s).length ≤ 19 := by
    refine length_padFixed_le (atMost_add_fmod (k := 31) (by norm_num) ?_ tow) (by norm_num)
    have h1 := (c.gmtime (315964800 + week * 604800 + tow.toInt 64 c.castOther)).sec.le_toInt
    have h2 := (c.gmtime (315964800 + week * 604800 + tow.toInt 64 c.castOther)).sec.toInt_lt
    rw [abs_le]
    omega
  have hlabel : (ascii "     GPS         ").length + (ascii "TIME OF LAST OBS").length = 33 := by
    decide
  have h1 := hint (gpsToCalendar c week tow).Y
  have h2 := hint (gpsToCalendar c week tow).Mo
  have h3 := hint (gpsToCalendar c week tow).D
  have h4 := hint (gpsToCalendar c week tow).h
  have h5 := hint (gpsToCalendar c week tow).m
  unfold timeRecord slotRoom
  simp only [List.length_append, List.length_singleton]
  omega

theorem slotByte_timeRecord (t : Calendar) : ∀ b ∈ timeRecord t "TIME OF LAST OBS", SlotByte b := by
  have hnum : ∀ s : List UInt8, (∀ b ∈ s, numeric b = true) → ∀ b ∈ s, SlotByte b :=
    fun s h b hb => Or.inl (h b hb)
  have hlit : ∀ b ∈ ascii "     GPS         " ++ ascii "TIME OF LAST OBS" ++ [lf], SlotByte b := by
    unfold SlotByte
    decide +kernel
  intro b hb
  unfold timeRecord at hb
  rw [List.append_assoc, List.append_assoc, ← List.append_assoc (ascii "     GPS         ")] at hb
  rcases List.mem_append.mp hb with hb | hb
  · simp only [List.mem_append] at hb
    rcases hb with ((((hb | hb) | hb) | hb) | hb) | hb
    · exact hnum _ (numeric_padInt _ _) b hb
    · exact hnum _ (numeric_padInt _ _) b hb
    · exact hnum _ (numeric_padInt _ _) b hb
    · exact hnum _ (numeric_padInt _ _) b hb
    · exact hnum _ (numeric_padInt _ _) b hb
    · exact hnum _ (numeric_padFixed _ _ _) b hb
  · exact hlit b hb

/-! ### The logger on parts -/

/-- A file as `open_file` leaves it. -/
def newContents (c : Clib) (l : RinexLogger) (t : Calendar) : Contents where
  header := (headerRecords c l t).flatten
  slot := timeRecord t "TIME OF LAST OBS" ++ text 60 []
  epochs := []

/-- The file of the logger holds `x`, and the logger knows where the slot is. -/
structure HoldsFile (l : RinexLogger) (x : Contents) : Prop where
  file : l.file = some (atEnd x.bytes)
  slot : l.lastObsPos = x.header.length
  header : 0 < x.header.length
  room : slotRoom ≤ x.slot.length

theorem length_slot_newContents (c : Clib) (l : RinexLogger) (t : Calendar) :
    slotRoom ≤ (newContents c l t).slot.length := by
  have hpad : ∀ (w : ℕ) (n : ℤ), w ≤ (padInt w n).length := fun w n => by
    unfold padInt
    rw [length_padLeft]
    exact le_max_left _ _
  have hsec : 13 ≤ (padFixed 13 7 t.s).length := by
    unfold padFixed
    rw [length_padLeft]
    exact le_max_left _ _
  have hlabel : (ascii "     GPS         ").length + (ascii "TIME OF LAST OBS").length = 33 := by
    decide
  have hblank : (text 60 []).length = 60 := by decide +kernel
  have h1 := hpad 6 t.Y.toInt
  have h2 := hpad 6 t.Mo.toInt
  have h3 := hpad 6 t.D.toInt
  have h4 := hpad 6 t.h.toInt
  have h5 := hpad 6 t.m.toInt
  unfold newContents timeRecord slotRoom
  simp only [List.length_append, List.length_singleton]
  omega

theorem header_pos (c : Clib) (l : RinexLogger) (t : Calendar) :
    0 < (newContents c l t).header.length := by
  show 0 < (headerRecords c l t).flatten.length
  rw [headerRecords_eq, recordsBefore, List.cons_append, List.flatten_cons]
  simp only [List.length_append, List.length_singleton]
  omega

theorem openFile_eq (c : Clib) {l : RinexLogger} (h : l.opens 0 = true) (week : ℤ) (tow : Float64) :
    l.openFile c week tow =
      { l with
        opens := fun i => l.opens (i + 1)
        currentFile := fileName c (gpsToCalendar c week tow)
        epochs := 0, gpsWeekOpen := week, towOpen := tow, lastObsWeek := week, lastObsTow := tow
        lastObsPos := (newContents c l (gpsToCalendar c week tow)).header.length
        file := some (atEnd (newContents c l (gpsToCalendar c week tow)).bytes) } := by
  have hempty : (⟨[], 0⟩ : File) = atEnd [] := rfl
  have hrecords : ∀ l' : RinexLogger, (headerRecords c l' (gpsToCalendar c week tow)).foldl
      File.fprintf (atEnd []) = atEnd (headerRecords c l' (gpsToCalendar c week tow)).flatten := by
    intro l'
    have := foldl_fprintf_atEnd id (headerRecords c l' (gpsToCalendar c week tow)) []
    rwa [List.nil_append, List.flatMap_id] at this
  unfold openFile writeHeader
  rw [h]
  dsimp only
  rw [Bool.not_true, if_neg Bool.false_ne_true, hempty, hrecords, fprintf_atEnd, fprintf_atEnd]
  have hbytes : ((headerRecords c l (gpsToCalendar c week tow)).flatten ++
      timeRecord (gpsToCalendar c week tow) "TIME OF LAST OBS") ++ endOfHeader =
        (newContents c l (gpsToCalendar c week tow)).bytes := by
    unfold newContents Contents.bytes Contents.body endOfHeader
    simp only [List.flatMap_nil, List.flatten_nil, List.append_nil, List.append_assoc]
  rw [← hbytes]
  rfl

theorem holdsFile_openFile (c : Clib) {l : RinexLogger} (h : l.opens 0 = true) (week : ℤ)
    (tow : Float64) :
    HoldsFile (l.openFile c week tow) (newContents c l (gpsToCalendar c week tow)) := by
  rw [openFile_eq c h]
  exact ⟨rfl, rfl, header_pos _ _ _, length_slot_newContents _ _ _⟩

theorem openFile_none (c : Clib) {l : RinexLogger} (h : l.opens 0 = false) (week : ℤ) (tow : Float64) :
    l.openFile c week tow = { l with opens := fun i => l.opens (i + 1) } := by
  unfold openFile
  rw [h]
  rfl

theorem writeEpoch_eq (c : Clib) {l : RinexLogger} {x : Contents} (h : HoldsFile l x) (week : ℤ)
    (tow : Float64) {sats : List SatObs} (hne : l.epochSats sats ≠ []) :
    l.writeEpoch c week tow sats =
      { l with
        file := some (atEnd ((x.addEpoch (epochOf (gpsToCalendar c week tow)
          (l.epochSats sats))).stamp (timeRecord (gpsToCalendar c week tow) "TIME OF LAST OBS")).bytes)
        lastObsWeek := week, lastObsTow := tow, epochs := l.epochs + 1 } := by
  have hlen := (length_timeRecord_le c week tow).trans h.room
  have hpos : 0 < l.lastObsPos := h.slot ▸ h.header
  have hflat : ∀ t : Calendar, epochLine t (l.epochSats sats).length ++
      (l.epochSats sats).flatMap (fun e => obsRow e.1 e.2) =
        (epochLines (epochOf t (l.epochSats sats))).flatten := fun t => by
    rw [epochLines_epochOf, List.flatten_cons, List.flatMap_def]
  unfold writeEpoch
  rw [h.file]
  dsimp only
  rw [if_neg (by simpa using hne), fprintf_atEnd, foldl_fprintf_atEnd, if_pos hpos, List.append_assoc,
    hflat, ← Contents.bytes_addEpoch]
  generalize epochOf (gpsToCalendar c week tow) (l.epochSats sats) = e
  unfold patchLastObs
  rw [h.slot]
  have hpatch := fprintf_slot (x.addEpoch e) hlen (x.addEpoch e).bytes.length
  have hatEnd : atEnd (x.addEpoch e).bytes = ⟨(x.addEpoch e).bytes, (x.addEpoch e).bytes.length⟩ := rfl
  rw [hatEnd]
  dsimp only
  rw [show x.header = (x.addEpoch e).header from rfl, hpatch]
  unfold File.fseek atEnd
  rw [Contents.length_bytes_stamp (x.addEpoch e) hlen]

theorem holdsFile_writeEpoch (c : Clib) {l : RinexLogger} {x : Contents} (h : HoldsFile l x) (week : ℤ)
    (tow : Float64) {sats : List SatObs} (hne : l.epochSats sats ≠ []) :
    HoldsFile (l.writeEpoch c week tow sats) ((x.addEpoch (epochOf (gpsToCalendar c week tow)
      (l.epochSats sats))).stamp (timeRecord (gpsToCalendar c week tow) "TIME OF LAST OBS")) := by
  have hlen := (length_timeRecord_le c week tow).trans h.room
  rw [writeEpoch_eq c h week tow hne]
  generalize epochOf (gpsToCalendar c week tow) (l.epochSats sats) = e
  generalize timeRecord (gpsToCalendar c week tow) "TIME OF LAST OBS" = r at hlen ⊢
  refine ⟨rfl, h.slot, h.header, ?_⟩
  rw [Contents.length_slot_stamp (x.addEpoch e) hlen]
  exact h.room

theorem writeEpoch_open (c : Clib) {l : RinexLogger} {x : Contents} (h : HoldsFile l x) (week : ℤ)
    (tow : Float64) {sats : List SatObs} (hne : l.epochSats sats ≠ []) :
    ∃ x', HoldsFile (l.writeEpoch c week tow sats) x' ∧
      x'.epochs = x.epochs ++ [epochOf (gpsToCalendar c week tow) (l.epochSats sats)] ∧
      (l.writeEpoch c week tow sats).currentFile = l.currentFile ∧
      (l.writeEpoch c week tow sats).gpsWeekOpen = l.gpsWeekOpen ∧
      (l.writeEpoch c week tow sats).towOpen = l.towOpen ∧
      (l.writeEpoch c week tow sats).closed = l.closed := by
  have hwrite := writeEpoch_eq c h week tow hne
  have hname := congrArg RinexLogger.currentFile hwrite
  have hweek := congrArg RinexLogger.gpsWeekOpen hwrite
  have htow := congrArg RinexLogger.towOpen hwrite
  have hclosed := congrArg RinexLogger.closed hwrite
  exact ⟨_, holdsFile_writeEpoch c h week tow hne, rfl, hname, hweek, htow, hclosed⟩

theorem writeEpoch_openFile (c : Clib) {l : RinexLogger} (hopens : l.opens 0 = true) (week : ℤ)
    (tow : Float64) {sats : List SatObs} (hne : l.epochSats sats ≠ []) :
    ∃ x, HoldsFile ((l.openFile c week tow).writeEpoch c week tow sats) x ∧
      x.epochs = [epochOf (gpsToCalendar c week tow) (l.epochSats sats)] ∧
      ((l.openFile c week tow).writeEpoch c week tow sats).currentFile =
        fileName c (gpsToCalendar c week tow) ∧
      ((l.openFile c week tow).writeEpoch c week tow sats).gpsWeekOpen = week ∧
      ((l.openFile c week tow).writeEpoch c week tow sats).towOpen = tow ∧
      ((l.openFile c week tow).writeEpoch c week tow sats).closed = l.closed := by
  have hopen := openFile_eq c hopens week tow
  have hmask := congrArg RinexLogger.presentMask hopen
  have hname₀ := congrArg RinexLogger.currentFile hopen
  have hweek₀ := congrArg RinexLogger.gpsWeekOpen hopen
  have htow₀ := congrArg RinexLogger.towOpen hopen
  have hclosed₀ := congrArg RinexLogger.closed hopen
  have hsats : (l.openFile c week tow).epochSats sats = l.epochSats sats := by
    unfold epochSats
    rw [hmask]
  obtain ⟨x, hholds, hepochs, hname, hweek, htow, hclosed⟩ :=
    writeEpoch_open c (holdsFile_openFile c hopens week tow) week tow (hsats ▸ hne)
  rw [hsats] at hepochs
  exact ⟨x, hholds, hepochs, hname.trans hname₀, hweek.trans hweek₀, htow.trans htow₀,
    hclosed.trans hclosed₀⟩

theorem writeEpoch_none (c : Clib) {l : RinexLogger} (week : ℤ) (tow : Float64) {sats : List SatObs}
    (h : l.epochSats sats = []) : l.writeEpoch c week tow sats = l := by
  unfold writeEpoch
  rw [h]
  split <;> rfl

theorem closeFile_eq (c : Clib) {l : RinexLogger} {x : Contents} (h : HoldsFile l x) :
    l.closeFile c =
      { l with
        file := none, files := l.files + 1, currentFile := []
        closed := l.closed ++ [(l.currentFile, (x.stamp (timeRecord
          (gpsToCalendar c l.lastObsWeek l.lastObsTow) "TIME OF LAST OBS")).bytes)] } := by
  have hpos : 0 < l.lastObsPos := h.slot ▸ h.header
  unfold closeFile patchLastObs
  rw [h.file]
  dsimp only
  rw [if_pos hpos, h.slot, atEnd, fprintf_slot x ((length_timeRecord_le c _ _).trans h.room)]

theorem closeFile_none (c : Clib) {l : RinexLogger} (h : l.file = none) : l.closeFile c = l := by
  unfold closeFile
  rw [h]

/-- The logger `write_epoch` is called on: the file is rotated, and one is opened if none is. -/
def ready (c : Clib) (l : RinexLogger) (week : ℤ) (rounded : Float64) (sats : List SatObs) : RinexLogger :=
  let l := l.rotateIfNeeded c week rounded
  if l.file.isNone then { l with presentMask := systemMask sats }.openFile c week rounded else l

theorem logEpoch_ready (c : Clib) (l : RinexLogger) (week : ℤ) (rounded : Float64) (sats : List SatObs) :
    l.logEpoch c week rounded sats =
      if (ready c l week rounded sats).file.isSome then
        (ready c l week rounded sats).writeEpoch c week rounded sats
      else ready c l week rounded sats := rfl

/-- **An epoch logged**: the file is rotated; then it goes into the file that is open, or into a new
one with its mask, unless that cannot be opened. -/
theorem logEpoch_cases (c : Clib) (l : RinexLogger) (week : ℤ) (rounded : Float64)
    (sats : List SatObs) :
    ∃ l₁ l₂, l₁ = l.rotateIfNeeded c week rounded ∧ l₂ = { l₁ with presentMask := systemMask sats } ∧
      ((l₁.file ≠ none ∧ l.logEpoch c week rounded sats = l₁.writeEpoch c week rounded sats) ∨
        (l₁.file = none ∧ l₁.opens 0 = false ∧
          l.logEpoch c week rounded sats = l₂.openFile c week rounded) ∨
        (l₁.file = none ∧ l₁.opens 0 = true ∧
          l.logEpoch c week rounded sats = (l₂.openFile c week rounded).writeEpoch c week rounded sats)) := by
  refine ⟨_, _, rfl, rfl, ?_⟩
  unfold logEpoch
  generalize l.rotateIfNeeded c week rounded = l₁
  dsimp only
  rcases hfile : l₁.file with _ | f
  · rw [Option.isNone_none, if_pos rfl]
    generalize hl₂ : RinexLogger.mk _ _ _ _ _ _ _ _ _ _ _ _ _ _ _ _ _ _ _ _ _ = l₂
    by_cases hopen : l₁.opens 0 = true
    · have hopen₂ : l₂.opens 0 = true := by
        rw [← hl₂]
        exact hopen
      rw [(holdsFile_openFile c hopen₂ week rounded).file, Option.isSome_some, if_pos rfl]
      exact Or.inr (Or.inr ⟨rfl, hopen, rfl⟩)
    · rw [Bool.not_eq_true] at hopen
      have hopen₂ : l₂.opens 0 = false := by
        rw [← hl₂]
        exact hopen
      have hnone : (l₂.openFile c week rounded).file = none := by
        rw [openFile_none c hopen₂, ← hl₂]
      rw [hnone]
      exact Or.inr (Or.inl ⟨rfl, hopen, rfl⟩)
  · rw [Option.isNone_some, if_neg Bool.false_ne_true, hfile, Option.isSome_some, if_pos rfl]
    exact Or.inl ⟨Option.some_ne_none f, rfl⟩

theorem active_closeFile (c : Clib) (l : RinexLogger) : (l.closeFile c).active = l.active := by
  unfold closeFile
  split <;> rfl

theorem active_rotateIfNeeded (c : Clib) (l : RinexLogger) (week : ℤ) (tow : Float64) :
    (l.rotateIfNeeded c week tow).active = l.active := by
  unfold rotateIfNeeded
  dsimp only
  split_ifs
  · rfl
  · exact active_closeFile c l
  · rfl

theorem active_openFile (c : Clib) (l : RinexLogger) (week : ℤ) (tow : Float64) :
    (l.openFile c week tow).active = l.active := by
  rcases hopen : l.opens 0 with _ | _
  · rw [openFile_none c hopen]
  · rw [openFile_eq c hopen]

theorem active_writeEpoch (c : Clib) (l : RinexLogger) (week : ℤ) (tow : Float64)
    (sats : List SatObs) : (l.writeEpoch c week tow sats).active = l.active := by
  unfold writeEpoch
  split
  · rfl
  · dsimp only
    split_ifs <;> rfl

theorem active_logEpoch (c : Clib) (l : RinexLogger) (week : ℤ) (rounded : Float64)
    (sats : List SatObs) : (l.logEpoch c week rounded sats).active = l.active := by
  obtain ⟨l₁, l₂, h₁, h₂, hcases⟩ := logEpoch_cases c l week rounded sats
  have hl₁ : l₁.active = l.active := by
    rw [h₁, active_rotateIfNeeded]
  have hl₂ : l₂.active = l.active := by
    rw [h₂]
    exact hl₁
  rcases hcases with ⟨-, h⟩ | ⟨-, -, h⟩ | ⟨-, -, h⟩
  · rw [h, active_writeEpoch, hl₁]
  · rw [h, active_openFile, hl₂]
  · rw [h, active_writeEpoch, active_openFile, hl₂]

theorem active_feed (c : Clib) (data : List UInt8) (l : RinexLogger) :
    (l.feed c data).active = l.active :=
  feed_induction c (P := fun l' => l'.active = l.active) (fun _ _ _ h => h)
    (fun l' week rounded sats h _ _ _ => (active_logEpoch c l' week rounded sats).trans h) data rfl

end GpsBase.Rinex.Parts
