import GpsBase.Rinex.Sessions
import GpsBase.Rinex.Times
import GpsBase.Web.Export

/-! # File names as times

`utc_to_unix` and `parse_rinex_filename_utc`, which turn a date back into a second. The leap days are
counted with an offset that fits two years out of four, and the sum is a `long`; the results say on
which dates this gives the second of the date, which pairs of dates it keeps in order, and which file
names it reads as the second the file was opened at. -/

namespace GpsBase.Web.FileTimes

open GpsBase.Lib.Binary64 GpsBase.Lib.Binary64.Float64 GpsBase.Lib.CText GpsBase.Lib.Calendar
open GpsBase.Rinex.Logger GpsBase.Rinex.Logger.RinexLogger GpsBase.Rinex.Times GpsBase.Rinex.Parts
open GpsBase.Rinex.Sessions GpsBase.Web.Export

/-! ### The conversions -/

/-- The size of a `long`; the ESP32-P4 is `ilp32`. -/
inductive DataModel
  | ilp32
  | lp64

def DataModel.longBits : DataModel → ℕ
  | ilp32 => 32
  | lp64 => 64

def moff : List ℤ := [0, 31, 59, 90, 120, 151, 181, 212, 243, 273, 304, 334]

/-- `utc_to_unix`; a month outside the table has no result, and the sums wrap around as a `long`. -/
def utcToUnix (model : DataModel) (Y Mo D h m s : ℤ) : Option ℤ :=
  if 1 ≤ Mo ∧ Mo ≤ 12 then
    let y := Y - 1970
    let leaps := if 0 < y then (y - 1) / 4 + 1 else 0
    let isleap : Bool := Y % 4 = 0 && (Y % 100 ≠ 0 || Y % 400 = 0)
    let days := y * 365 + leaps + moff.getD (Mo - 1).toNat 0 +
      (if 2 < Mo && isleap then 1 else 0) + (D - 1)
    some ((days * 86400 + h * 3600 + m * 60 + s).bmod (2 ^ model.longBits))
  else none

/-- The six numbers `parse_rinex_filename_utc` reads. -/
def scanFilename (name : List UInt8) : Option DateTime := do
  let s ← scanText (ascii "BASE_") name
  let (Y, s) ← scanInt 4 s
  let (Mo, s) ← scanInt 2 s
  let (D, s) ← scanInt 2 s
  let s ← scanText (ascii "_") s
  let (h, s) ← scanInt 2 s
  let (m, s) ← scanInt 2 s
  let (sec, _) ← scanInt 2 s
  return ⟨Y, Mo, D, h, m, sec⟩

/-- `utc_to_unix` of a date. -/
def unixOf (model : DataModel) (d : DateTime) : Option ℤ :=
  utcToUnix model d.year d.month d.day d.hour d.minute d.second

def parseRinexFilenameUtc (model : DataModel) (name : List UInt8) : Option ℤ :=
  match scanFilename name with
  | none => some (-1)
  | some d => if d.year < 2020 then some (-1) else unixOf model d

/-! ### Leap days -/

/-- The years whose dates come out a day late. -/
def Late (d : DateTime) : Prop := d.year % 4 = 0 ∨ d.year % 4 = 3

instance (d : DateTime) : Decidable (Late d) := inferInstanceAs (Decidable (_ ∨ _))

/-- The seconds a date comes out late. -/
def delay (d : DateTime) : ℤ := if Late d then 86400 else 0

theorem moff_eq (leap : Bool) {m : ℤ} (h1 : 1 ≤ m) (h2 : m ≤ 12) :
    moff.getD (m - 1).toNat 0 + (if 2 < m && leap then 1 else 0) = monthStart leap m := by
  have hall : ∀ leap : Bool, ∀ m < 13, 1 ≤ m →
      moff.getD (((m : ℕ) : ℤ) - 1).toNat 0 + (if 2 < ((m : ℕ) : ℤ) && leap then 1 else 0) =
        monthStart leap ((m : ℕ) : ℤ) := by
    decide +kernel
  obtain ⟨m, rfl⟩ := Int.eq_ofNat_of_zero_le (show 0 ≤ m by omega)
  exact hall leap m (by omega) (by omega)

/-- **The second that comes out**, before it wraps around. -/
theorem unixOf_eq (model : DataModel) {d : DateTime} (h : d.Valid) (h1 : 2000 ≤ d.year)
    (h2 : d.year ≤ 2099) :
    unixOf model d = some ((d.unix + delay d).bmod (2 ^ model.longBits)) := by
  have hmonth := moff_eq (isLeap d.year) h.month.1 h.month.2
  have hleap : (d.year % 4 = 0 && (d.year % 100 ≠ 0 || d.year % 400 = 0) : Bool) = isLeap d.year := rfl
  have hdays : (d.year - 1970) * 365 + ((d.year - 1970 - 1) / 4 + 1) + monthStart (isLeap d.year) d.month +
      (d.day - 1) = d.days + if Late d then 1 else 0 := by
    unfold DateTime.days yearStart Late
    split_ifs <;> omega
  unfold unixOf utcToUnix
  rw [if_pos h.month]
  dsimp only
  rw [if_pos (show 0 < d.year - 1970 by omega), hleap, add_assoc _ (moff.getD _ 0), hmonth, hdays]
  have hsum : (d.days + if Late d then 1 else 0) * 86400 + d.hour * 3600 + d.minute * 60 + d.second =
      d.unix + delay d := by
    unfold delay DateTime.unix
    split_ifs <;> omega
  rw [hsum]

/-! ### Bounds -/

theorem unix_bounds {d : DateTime} (h : d.Valid) :
    yearStart d.year * 86400 ≤ d.unix ∧ d.unix < yearStart (d.year + 1) * 86400 := by
  obtain ⟨h1, h2⟩ := DateTime.days_bounds h
  obtain ⟨hh1, hh2⟩ := h.hour
  obtain ⟨hm1, hm2⟩ := h.minute
  obtain ⟨hs1, hs2⟩ := h.second
  unfold DateTime.unix
  omega

theorem unix_century {d : DateTime} (h : d.Valid) (h1 : 2000 ≤ d.year) (h2 : d.year ≤ 2099) :
    0 ≤ d.unix ∧ d.unix < 2 ^ 32 - 86400 := by
  obtain ⟨g1, g2⟩ := unix_bounds h
  have hlow : yearStart 2000 ≤ yearStart d.year := yearStart_le h1
  have hhigh : yearStart (d.year + 1) ≤ yearStart 2100 := yearStart_le (by omega)
  have hs : yearStart 2000 = 10957 := by decide
  have ht : yearStart 2100 = 47482 := by decide
  omega

/-- The second `2 ^ 31` falls into a year that is not late. -/
theorem late_side {d : DateTime} (h : d.Valid) (hlate : Late d) :
    d.unix + 86400 < 2 ^ 31 ∨ 2 ^ 31 ≤ d.unix := by
  obtain ⟨g1, g2⟩ := unix_bounds h
  rcases le_or_gt d.year 2036 with hle | hgt
  · have hhigh : yearStart (d.year + 1) ≤ yearStart 2037 := yearStart_le (by omega)
    have ht : yearStart 2037 = 24472 := by decide
    left
    omega
  · have hlow : yearStart 2039 ≤ yearStart d.year := by
      refine yearStart_le ?_
      unfold Late at hlate
      omega
    have ht : yearStart 2039 = 25202 := by decide
    right
    omega

/-- The side of `2 ^ 31` a date comes out on is its own. -/
theorem delay_side {d : DateTime} (h : d.Valid) :
    d.unix + delay d < 2 ^ 31 ↔ d.unix < 2 ^ 31 := by
  unfold delay
  split_ifs with hlate
  · have := late_side h hlate
    omega
  · rw [add_zero]

theorem delay_side_long (model : DataModel) {d : DateTime} (h : d.Valid) (h1 : 2000 ≤ d.year)
    (h2 : d.year ≤ 2099) :
    d.unix + delay d < 2 ^ (model.longBits - 1) ↔ d.unix < 2 ^ (model.longBits - 1) := by
  cases model with
  | ilp32 => exact delay_side h
  | lp64 =>
    obtain ⟨g1, g2⟩ := unix_century h h1 h2
    have hdelay : delay d ≤ 86400 := by
      unfold delay
      split_ifs <;> omega
    have hhalf : (2 : ℤ) ^ (DataModel.lp64.longBits - 1) = 2 ^ 63 := rfl
    rw [hhalf]
    omega

theorem bmod_long (model : DataModel) {n : ℤ} (h0 : 0 ≤ n) (h1 : n < 2 ^ 32) :
    (n < 2 ^ (model.longBits - 1) ∧ n.bmod (2 ^ model.longBits) = n) ∨
      (2 ^ (model.longBits - 1) ≤ n ∧ n.bmod (2 ^ model.longBits) = n - 2 ^ 32) := by
  rw [Int.bmod_def]
  cases model with
  | ilp32 =>
    show (n < 2 ^ 31 ∧ (if n % 4294967296 < (4294967296 + 1) / 2 then n % 4294967296
      else n % 4294967296 - 4294967296) = n) ∨ (2 ^ 31 ≤ n ∧ (if n % 4294967296 < (4294967296 + 1) / 2
        then n % 4294967296 else n % 4294967296 - 4294967296) = n - 2 ^ 32)
    split_ifs <;> omega
  | lp64 =>
    show (n < 2 ^ 63 ∧ (if n % 18446744073709551616 < (18446744073709551616 + 1) / 2 then
      n % 18446744073709551616 else n % 18446744073709551616 - 18446744073709551616) = n) ∨ _
    left
    split_ifs <;> omega

/-! ### The two conversions against each other -/

/-- A date comes out as its own second exactly if its year is not late and the second fits. -/
theorem unixOf_eq_unix_iff (model : DataModel) {d : DateTime} (h : d.Valid) (h1 : 2000 ≤ d.year)
    (h2 : d.year ≤ 2099) :
    unixOf model d = some d.unix ↔ ¬ Late d ∧ d.unix < 2 ^ (model.longBits - 1) := by
  obtain ⟨g1, g2⟩ := unix_century h h1 h2
  rw [unixOf_eq model h h1 h2, Option.some.injEq]
  unfold delay
  split_ifs with hlate
  · have := bmod_long model (show 0 ≤ d.unix + 86400 by omega) (by omega)
    constructor
    · intro heq
      omega
    · exact fun hand => absurd hlate hand.1
  · rw [add_zero]
    have := bmod_long model g1 (by omega)
    constructor
    · intro heq
      exact ⟨hlate, by omega⟩
    · intro hand
      omega

/-- The conversion keeps the order of two dates exactly if they lie on the same side of the last
second of a `long`, and the later one is not the first day of a year behind the last day of a late
one. -/
theorem unixOf_lt_iff (model : DataModel) {d e : DateTime} (hd : d.Valid) (he : e.Valid)
    (hd1 : 2000 ≤ d.year) (hd2 : d.year ≤ 2099) (he1 : 2000 ≤ e.year) (he2 : e.year ≤ 2099)
    (hlt : d.unix < e.unix) :
    (∃ m n, unixOf model d = some m ∧ unixOf model e = some n ∧ m < n) ↔
      (e.unix < 2 ^ (model.longBits - 1) ∨ 2 ^ (model.longBits - 1) ≤ d.unix) ∧
        ¬ (Late d ∧ ¬ Late e ∧ e.unix ≤ d.unix + 86400) := by
  obtain ⟨gd1, gd2⟩ := unix_century hd hd1 hd2
  obtain ⟨ge1, ge2⟩ := unix_century he he1 he2
  have hbd : 0 ≤ delay d ∧ delay d ≤ 86400 := by
    unfold delay
    split_ifs <;> omega
  have hbe : 0 ≤ delay e ∧ delay e ≤ 86400 := by
    unfold delay
    split_ifs <;> omega
  have hsd := delay_side_long model hd hd1 hd2
  have hse := delay_side_long model he he1 he2
  have horder : d.unix + delay d < e.unix + delay e ↔
      ¬ (Late d ∧ ¬ Late e ∧ e.unix ≤ d.unix + 86400) := by
    unfold delay
    split_ifs with h1 h2 h2
    · exact ⟨fun _ h => h.2.1 h2, fun _ => by omega⟩
    · exact ⟨fun h hand => by omega, fun h => by by_contra hle; exact h ⟨h1, h2, by omega⟩⟩
    · exact ⟨fun _ h => h1 h.1, fun _ => by omega⟩
    · exact ⟨fun _ h => h1 h.1, fun _ => by omega⟩
  rw [unixOf_eq model hd hd1 hd2, unixOf_eq model he he1 he2, ← horder]
  have hwd := bmod_long model (show 0 ≤ d.unix + delay d by omega) (by omega)
  have hwe := bmod_long model (show 0 ≤ e.unix + delay e by omega) (by omega)
  generalize (2 : ℤ) ^ (model.longBits - 1) = half at hsd hse hwd hwe ⊢
  constructor
  · rintro ⟨m, n, hm, hn, hmn⟩
    rw [Option.some.injEq] at hm hn
    constructor <;> omega
  · rintro ⟨hside, hlate⟩
    refine ⟨_, _, rfl, rfl, ?_⟩
    omega

/-! ### File names -/

theorem scanFilename_baseName {d : DateTime} (h : d.Valid) (h0 : 0 ≤ d.year) (h1 : d.year < 10000) :
    scanFilename (baseName d) = some d := by
  obtain ⟨⟨hmo0, hmo1⟩, ⟨hd0, hd1⟩, ⟨hh0, hh1⟩, ⟨hm0, hm1⟩, ⟨hs0, hs1⟩⟩ := smallFields_of_valid h
  obtain ⟨Y, Mo, D, hour, m, s⟩ := d
  dsimp only at *
  obtain ⟨Y, rfl⟩ := Int.eq_ofNat_of_zero_le h0
  obtain ⟨Mo, rfl⟩ := Int.eq_ofNat_of_zero_le hmo0
  obtain ⟨D, rfl⟩ := Int.eq_ofNat_of_zero_le hd0
  obtain ⟨hour, rfl⟩ := Int.eq_ofNat_of_zero_le hh0
  obtain ⟨m, rfl⟩ := Int.eq_ofNat_of_zero_le hm0
  obtain ⟨s, rfl⟩ := Int.eq_ofNat_of_zero_le hs0
  have hfour : (0 : ℕ) < 4 := by omega
  have htwo : (0 : ℕ) < 2 := by omega
  unfold scanFilename baseName
  rw [scanText_append, Option.bind_eq_bind, Option.bind_some]
  simp only [Option.bind_eq_bind, scanInt_zeroInt hfour (show Y < 10 ^ 4 by norm_num; omega),
    scanInt_zeroInt htwo (show Mo < 10 ^ 2 by norm_num; omega),
    scanInt_zeroInt htwo (show D < 10 ^ 2 by norm_num; omega),
    scanInt_zeroInt htwo (show hour < 10 ^ 2 by norm_num; omega),
    scanInt_zeroInt htwo (show m < 10 ^ 2 by norm_num; omega),
    scanInt_zeroInt htwo (show s < 10 ^ 2 by norm_num; omega), scanText_append, Option.bind_some,
    Option.pure_def]

theorem pathBasename_append {name : List UInt8} (h : '/'.toUInt8 ∉ name) (dir : List UInt8) :
    pathBasename (dir ++ '/'.toUInt8 :: name) = name := by
  unfold pathBasename
  rw [List.reverse_append, List.reverse_cons, List.append_assoc, List.takeWhile_append_of_pos]
  · rw [List.singleton_append, List.takeWhile_cons_of_neg (by decide), List.append_nil,
      List.reverse_reverse]
  · intro b hb
    refine decide_eq_true fun heq => h ?_
    rw [← heq]
    exact List.mem_reverse.mp hb

theorem pathBasename_baseName {d : DateTime} : pathBasename (ascii "/sdcard/rawdata/" ++ baseName d) =
    baseName d := by
  have hdir : ascii "/sdcard/rawdata/" = ascii "/sdcard/rawdata" ++ ['/'.toUInt8] := by decide
  rw [hdir, List.append_assoc, List.singleton_append]
  refine pathBasename_append (fun hmem => ?_) _
  have hnum : ∀ (w : ℕ) (n : ℤ), '/'.toUInt8 ∉ zeroInt w n := by
    intro w n hmem
    have := numeric_zeroInt w n _ hmem
    exact absurd this (by decide)
  have hbase : '/'.toUInt8 ∉ ascii "BASE_" := by decide
  have hscore : '/'.toUInt8 ∉ ascii "_" := by decide
  have hrnx : '/'.toUInt8 ∉ ascii ".rnx" := by decide
  unfold baseName at hmem
  simp only [List.mem_append, hnum, hbase, hscore, hrnx, or_self] at hmem

theorem parse_openFile (model : DataModel) (c : Clib) {l : RinexLogger} (hopen : l.opens 0 = true)
    (week : Int32) {neg : Bool} {m : ℚ≥0} (hm : nearest m = m) (hneg : neg = false ∨ m = 0)
    (h1 : 2020 ≤ (gpsDate week.toInt m).year) (h2 : (gpsDate week.toInt m).year ≤ 2099) :
    parseRinexFilenameUtc model (pathBasename
      (l.openFile (withGmtime c) week.toInt (fin neg m)).currentFile) =
        unixOf model (gpsDate week.toInt m) := by
  have hvalid : (gpsDate week.toInt m).Valid := DateTime.valid_ofUnix _
  have hfit : ⌊m⌋₊ < 2 ^ 63 := by
    have hcentury := (unix_century hvalid (by omega) h2).2
    have hunix : (gpsDate week.toInt m).unix = gpsSecond week.toInt m := DateTime.unix_ofUnix _
    have hweek := week.le_toInt
    unfold gpsSecond at hunix
    omega
  rw [openFile_eq _ hopen]
  dsimp only
  rw [fileName_gmtime c week.toInt hm hneg hfit ⟨by omega, by omega⟩, pathBasename_baseName]
  unfold parseRinexFilenameUtc
  rw [scanFilename_baseName hvalid (by omega) (by omega)]
  exact if_neg (by omega)

/-- **Dates and seconds.** A date of the century comes out as its second, the inverse of `gmtime_r`,
exactly if its year is not late and the second fits a `long`; two dates stay in order exactly if they
lie on one side of the end of `long` and are not the days around the end of a late year; and the name
`open_file` gives a file is read as the second it is opened at in the first case only. -/
theorem conversions_iff (model : DataModel) (c : Clib) :
    (∀ d : DateTime, d.Valid → 2000 ≤ d.year → d.year ≤ 2099 → gmtime d.unix = tmOf d ∧
      (unixOf model d = some d.unix ↔ ¬ Late d ∧ d.unix < 2 ^ (model.longBits - 1))) ∧
    (∀ d e : DateTime, d.Valid → e.Valid → 2000 ≤ d.year → d.year ≤ 2099 → 2000 ≤ e.year →
      e.year ≤ 2099 → d.Before e →
      ((∃ m n, unixOf model d = some m ∧ unixOf model e = some n ∧ m < n) ↔
        (e.unix < 2 ^ (model.longBits - 1) ∨ 2 ^ (model.longBits - 1) ≤ d.unix) ∧
          ¬ (Late d ∧ ¬ Late e ∧ e.unix ≤ d.unix + 86400))) ∧
    (∀ (l : RinexLogger) (week : Int32) (neg : Bool) (m : ℚ≥0), l.opens 0 = true → nearest m = m →
      (neg = false ∨ m = 0) → 2020 ≤ (gpsDate week.toInt m).year →
      (gpsDate week.toInt m).year ≤ 2099 →
      (parseRinexFilenameUtc model (pathBasename
          (l.openFile (withGmtime c) week.toInt (fin neg m)).currentFile) =
        some (gpsSecond week.toInt m) ↔
          ¬ Late (gpsDate week.toInt m) ∧ gpsSecond week.toInt m < 2 ^ (model.longBits - 1))) := by
  refine ⟨fun d hd h1 h2 => ⟨gmtime_unix hd, unixOf_eq_unix_iff model hd h1 h2⟩,
    fun d e hd he hd1 hd2 he1 he2 hlt => ?_, fun l week neg m hopen hm hneg h1 h2 => ?_⟩
  · exact unixOf_lt_iff model hd he hd1 hd2 he1 he2 (DateTime.unix_lt_of_before hd he hlt)
  · have hunix : (gpsDate week.toInt m).unix = gpsSecond week.toInt m := DateTime.unix_ofUnix _
    rw [parse_openFile model c hopen week hm hneg h1 h2, ← hunix]
    exact unixOf_eq_unix_iff model (DateTime.valid_ofUnix _) (by omega) h2

/-- A date in 2025 as the second of a date, and of a file. -/
theorem conversions_iff_summer :
    unixOf .ilp32 ⟨2025, 6, 15, 12, 0, 30⟩ = some 1749988830 ∧
      parseRinexFilenameUtc .ilp32 (pathBasename (RinexLogger.openFile (withGmtime sampleClib)
        { opens := fun _ => true } (Int32.toInt 2371) (fin false 43230)).currentFile) =
          some 1749988830 := by
  have hdate : gpsSecond (Int32.toInt 2371) 43230 = 1749988830 := by
    unfold gpsSecond
    rw [show (43230 : ℚ≥0) = ((43230 : ℕ) : ℚ≥0) from rfl, Nat.floor_natCast]
    decide
  have hyear : (gpsDate (Int32.toInt 2371) 43230) = ⟨2025, 6, 15, 12, 0, 30⟩ := by
    unfold gpsDate
    rw [hdate]
    decide +kernel
  obtain ⟨hdates, -, hfiles⟩ := conversions_iff .ilp32 sampleClib
  refine ⟨(hdates ⟨2025, 6, 15, 12, 0, 30⟩ ?_ (by decide) (by decide)).2.mpr (by decide +kernel), ?_⟩
  · rw [← hyear]
    exact DateTime.valid_ofUnix _
  · rw [← hdate]
    refine (hfiles { opens := fun _ => true } 2371 false 43230 rfl ?_ (Or.inl rfl) ?_ ?_).mpr ?_
    · decide +kernel
    · rw [hyear]
      decide
    · rw [hyear]
      decide
    · rw [hyear, hdate]
      decide +kernel

/-- The last day of 2024 and the first day of 2025 come out as one second. -/
theorem year_end_collides :
    unixOf .ilp32 ⟨2024, 12, 31, 0, 0, 0⟩ = some 1735689600 ∧
      unixOf .ilp32 ⟨2025, 1, 1, 0, 0, 0⟩ = some 1735689600 ∧
      DateTime.unix ⟨2024, 12, 31, 0, 0, 0⟩ = 1735603200 ∧
      DateTime.unix ⟨2025, 1, 1, 0, 0, 0⟩ = 1735689600 := by
  decide +kernel

end GpsBase.Web.FileTimes
