import GpsBase.Web.Forms
import GpsBase.Web.Selection

/-! # Months outside the table

The dates that `utc_to_unix` is called with: by `parse_datetime_input`, which checks the month, for the two
texts of a request to export, and by `parse_rinex_filename_utc`, which does not, for the files the request and
the page of the export see. -/

namespace GpsBase.Web.Months

open GpsBase.Lib.CText GpsBase.Lib.Search GpsBase.Lib.Calendar GpsBase.Rinex.Parts GpsBase.Web.FileTimes
open GpsBase.Web.Forms GpsBase.Web.Selection

/-! ### The calls -/

/-- The index into `moff` is in the table. -/
def InTable (d : DateTime) : Prop := 1 ≤ d.month ∧ d.month ≤ 12

instance (d : DateTime) : Decidable (InTable d) := inferInstanceAs (Decidable (_ ∧ _))

/-- The date `parse_rinex_filename_utc` calls `utc_to_unix` with. -/
def nameCall (name : List UInt8) : Option DateTime := (scanFilename name).filter fun d => 2020 ≤ d.year

/-- `%d` of `scanf`. -/
def scanNumber (s : List UInt8) : Option (ℤ × List UInt8) := scanInt s.length s

/-- What `parse_datetime_input` reads of a text; `stored` is what the library makes of a number, also of one
that is too large. -/
def scanDatetime (stored : ℤ → Int32) (s : List UInt8) : Option Scanned := do
  let (Y, s) ← scanNumber s
  let s ← scanText (ascii "-") s
  let (Mo, s) ← scanNumber s
  let s ← scanText (ascii "-") s
  let (D, s) ← scanNumber s
  let s ← scanText (ascii "T") s
  let (h, s) ← scanNumber s
  let s ← scanText (ascii ":") s
  let (m, s) ← scanNumber s
  let sec := ((scanText (ascii ":") s).bind scanNumber).map fun (sec, _) => stored sec
  return ⟨stored Y, stored Mo, stored D, stored h, stored m, sec.getD 0⟩

/-- The date `parse_datetime_input` calls `utc_to_unix` with. -/
def inputCall (stored : ℤ → Int32) (text : List UInt8) : Option DateTime :=
  ((scanDatetime stored text).map Scanned.date).filter fun d =>
    ¬ (d.year < 2020 ∨ 2099 < d.year ∨ d.month < 1 ∨ 12 < d.month ∨ d.day < 1 ∨ 31 < d.day)

/-- What a parser returns that makes the call. -/
def callValue (model : DataModel) : Option DateTime → Option ℤ
  | none => some (-1)
  | some d => unixOf model d

def extractField (body : List UInt8) (key : String) : List UInt8 :=
  let needle := 34 :: ascii key ++ [34, 58, 34]
  match findText needle body with
  | none => []
  | some p =>
    let rest := body.drop (p + needle.length)
    match findText [34] rest with
    | none => []
    | some q => rest.take q

def dirCalls (dir : List DirEntry) : List DateTime :=
  (dir.filter fun ent => ent.regular).filterMap fun ent => nameCall ent.name

/-- The calls of `rinex_export_page_handler`. -/
def pageCalls (dir : List DirEntry) : List DateTime := dirCalls dir

/-- The calls of `rinex_export_handler`. -/
def exportCalls (model : DataModel) (stored : ℤ → Int32) (dir : List DirEntry) (received : List UInt8) :
    List DateTime :=
  let body := readBody 256 received
  if body = [] then []
  else
    let start := inputCall stored (cStr (extractField body "start"))
    let stop := inputCall stored (cStr (extractField body "end"))
    let calls := start.toList ++ stop.toList
    match callValue model start, callValue model stop with
    | some s, some e => if s < 0 ∨ e < 0 ∨ e ≤ s then calls else calls ++ dirCalls dir
    | _, _ => calls

theorem parseRinexFilenameUtc_eq (model : DataModel) (name : List UInt8) :
    parseRinexFilenameUtc model name = callValue model (nameCall name) := by
  unfold parseRinexFilenameUtc nameCall
  rcases scanFilename name with _ | d
  · rfl
  · by_cases hyear : d.year < 2020
    · rw [Option.filter_some_neg (by simpa using hyear)]
      exact if_pos hyear
    · rw [Option.filter_some_pos (by simpa using hyear)]
      exact if_neg hyear

theorem parseDatetimeInput_eq (stored : ℤ → Int32) (text : List UInt8) :
    parseDatetimeInput (scanDatetime stored text) =
      match inputCall stored text with
      | none => -1
      | some d => d.unix := by
  unfold parseDatetimeInput inputCall
  rcases scanDatetime stored text with _ | t
  · rfl
  · rw [Option.map_some, Option.filter_some]
    dsimp only
    split_ifs with hbad hcall hcall
    · exact absurd hbad (of_decide_eq_true hcall)
    · rfl
    · rfl
    · exact absurd (decide_eq_true hbad) hcall

/-- The result of a call exists if the month is in the table. -/
theorem unixOf_isSome_iff (model : DataModel) (d : DateTime) : (unixOf model d).isSome ↔ InTable d := by
  unfold unixOf utcToUnix InTable
  split_ifs with h
  · exact iff_of_true rfl h
  · exact iff_of_false (by simp) h

/-! ### The texts of a request -/

/-- **The month of a request is checked.** -/
theorem inTable_inputCall {stored : ℤ → Int32} {text : List UInt8} {d : DateTime}
    (h : inputCall stored text = some d) : InTable d := by
  have hchecks := (Option.filter_eq_some_iff.mp h).2
  rw [decide_eq_true_iff] at hchecks
  unfold InTable
  omega

/-! ### The names of files -/

theorem scanInt_two_bounds {s rest : List UInt8} {n : ℤ} (h : scanInt 2 s = some (n, rest)) :
    -9 ≤ n ∧ n ≤ 99 := by
  unfold scanInt at h
  set t := s.dropWhile isSpace
  dsimp only at h
  set digits := ((signOf t).2.take (2 - (t.length - (signOf t).2.length))).takeWhile isDigit with hdigits
  have hdigit : ∀ b ∈ digits, isDigit b = true := fun b hb => List.mem_takeWhile_imp hb
  have hvalue := decimalValue_lt hdigit
  have hlength : digits.length ≤ 2 - (t.length - (signOf t).2.length) :=
    (List.takeWhile_sublist _).length_le.trans (List.length_take_le _ _)
  have hsign : ∀ t : List UInt8, (signOf t).1 = true → t.length = (signOf t).2.length + 1 := by
    intro t ht
    unfold signOf at ht ⊢
    split at ht
    · rfl
    · cases ht
    · cases ht
  split_ifs at h with hnil hneg
  · obtain ⟨rfl, -⟩ := Prod.mk.inj (Option.some.inj h)
    have hone : digits.length ≤ 1 := by
      have := hsign t hneg
      omega
    have hpow : 10 ^ digits.length ≤ 10 ^ 1 := Nat.pow_le_pow_right (by norm_num) hone
    omega
  · obtain ⟨rfl, -⟩ := Prod.mk.inj (Option.some.inj h)
    have hpow : 10 ^ digits.length ≤ 10 ^ 2 := Nat.pow_le_pow_right (by norm_num) (by omega)
    omega

/-- The index of a name is ten places before the table at most, and less than a hundred behind its start. -/
theorem month_nameCall {name : List UInt8} {d : DateTime} (h : nameCall name = some d) :
    -10 ≤ d.month - 1 ∧ d.month - 1 ≤ 98 := by
  obtain ⟨hscan, -⟩ := Option.filter_eq_some_iff.mp h
  unfold scanFilename at hscan
  simp only [Option.bind_eq_bind, Option.bind_eq_some_iff, Prod.exists] at hscan
  obtain ⟨_, _, _, _, _, Mo, _, hmonth, _, _, _, _, _, _, _, _, _, _, _, _, _, _, hd⟩ := hscan
  obtain ⟨h1, h2⟩ := scanInt_two_bounds hmonth
  cases hd
  dsimp only
  omega

/-- The names of the regular files from 2020 on have a month of the calendar. -/
def MonthsNamed (dir : List DirEntry) : Prop :=
  ∀ ent ∈ dir, ent.regular = true → ∀ d, scanFilename ent.name = some d → 2020 ≤ d.year →
    1 ≤ d.month ∧ d.month ≤ 12

theorem mem_dirCalls {dir : List DirEntry} {d : DateTime} : d ∈ dirCalls dir ↔
    ∃ ent ∈ dir, ent.regular = true ∧ scanFilename ent.name = some d ∧ 2020 ≤ d.year := by
  unfold dirCalls nameCall
  simp only [List.mem_filterMap, List.mem_filter, Option.filter_eq_some_iff, decide_eq_true_eq, and_assoc]

/-- **Every call has a month of the table exactly if the names of the files have one.** -/
theorem inTable_iff (model : DataModel) (stored : ℤ → Int32) (dir : List DirEntry) :
    ((∀ d ∈ pageCalls dir, InTable d) ∧
      ∀ received, ∀ d ∈ exportCalls model stored dir received, InTable d) ↔ MonthsNamed dir := by
  have hdir : (∀ d ∈ dirCalls dir, InTable d) ↔ MonthsNamed dir := by
    constructor
    · intro h ent hent hregular d hscan hyear
      exact h d (mem_dirCalls.mpr ⟨ent, hent, hregular, hscan, hyear⟩)
    · intro h d hd
      obtain ⟨ent, hent, hregular, hscan, hyear⟩ := mem_dirCalls.mp hd
      exact h ent hent hregular d hscan hyear
  refine ⟨fun h => hdir.mp h.1, fun h => ⟨hdir.mpr h, fun received d hd => ?_⟩⟩
  unfold exportCalls at hd
  dsimp only at hd
  set start := inputCall stored (cStr (extractField (readBody 256 received) "start")) with hstart
  set stop := inputCall stored (cStr (extractField (readBody 256 received) "end")) with hstop
  have htexts : ∀ d ∈ start.toList ++ stop.toList, InTable d := by
    intro d hd
    rcases List.mem_append.mp hd with hd | hd
    · exact inTable_inputCall (Option.mem_toList.mp hd)
    · exact inTable_inputCall (Option.mem_toList.mp hd)
  split_ifs at hd with hbody
  · cases hd
  · split at hd
    · split_ifs at hd
      · exact htexts d hd
      · rcases List.mem_append.mp hd with hd | hd
        · exact htexts d hd
        · exact hdir.mpr h d hd
    · exact htexts d hd

def thirteenth : DirEntry := ⟨ascii "BASE_20251301_000000.rnx", true, by decide⟩

def twoDays : List UInt8 := ascii "\x7b\"start\":\"2025-01-01T00:00\",\"end\":\"2025-01-03T00:00\"\x7d"

/-- **The table is read behind its end** for a file of a thirteenth month, by the page and by a request. -/
theorem month_outside :
    pageCalls [thirteenth] = [⟨2025, 13, 1, 0, 0, 0⟩] ∧
      exportCalls .ilp32 Int32.ofInt [thirteenth] twoDays =
        [⟨2025, 1, 1, 0, 0, 0⟩, ⟨2025, 1, 3, 0, 0, 0⟩, ⟨2025, 13, 1, 0, 0, 0⟩] ∧
      ¬ InTable ⟨2025, 13, 1, 0, 0, 0⟩ := by
  decide +kernel

end GpsBase.Web.Months
