import GpsBase.Lib.Calendar
import GpsBase.Rinex.Parts

/-! # Times of the logger

`gmtime_r` as the Gregorian calendar, and what the logger makes of a time with it: the fields of
`gps_to_calendar` are those of the date at that second of GPS time, and `open_file` names its file by
them. A file name is read back field by field, so it determines the second. -/

namespace GpsBase.Rinex.Times

open GpsBase.Lib.Binary64 GpsBase.Lib.Binary64.Float64 GpsBase.Lib.CText GpsBase.Lib.Calendar
open GpsBase.Rinex.Logger GpsBase.Rinex.Logger.RinexLogger

/-! ### gmtime -/

/-- The fields of a date in a `struct tm`. -/
def tmOf (d : DateTime) : Tm where
  year := Int32.ofInt (d.year - 1900)
  mon := Int32.ofInt (d.month - 1)
  mday := Int32.ofInt d.day
  hour := Int32.ofInt d.hour
  min := Int32.ofInt d.minute
  sec := Int32.ofInt d.second

/-- `gmtime_r`. -/
def gmtime (n : ℤ) : Tm := tmOf (DateTime.ofUnix n)

/-- The C library with this `gmtime_r`. -/
def withGmtime (c : Clib) : Clib := { c with gmtime := gmtime }

theorem gmtime_unix {d : DateTime} (h : d.Valid) : gmtime d.unix = tmOf d := by
  unfold gmtime
  rw [DateTime.ofUnix_unix h]

/-! ### GPS time -/

/-- The second a time of week falls into, as GPS time counts it. -/
def gpsSecond (week : ℤ) (m : ℚ≥0) : ℤ := 315964800 + 604800 * week + ⌊m⌋₊

def gpsDate (week : ℤ) (m : ℚ≥0) : DateTime := DateTime.ofUnix (gpsSecond week m)

theorem toInt_ofInt_small {n : ℤ} (h0 : 0 ≤ n) (h1 : n < 100) : (Int32.ofInt n).toInt = n :=
  Int32.toInt_ofInt_of_le (by omega) (by omega)

/-- The date `gps_to_calendar` asks for. -/
def dateOf (c : Clib) (week : ℤ) (tow : Float64) : DateTime :=
  DateTime.ofUnix (315964800 + week * 604800 + tow.toInt 64 c.castOther)

theorem valid_dateOf (c : Clib) (week : ℤ) (tow : Float64) : (dateOf c week tow).Valid :=
  DateTime.valid_ofUnix _

theorem gpsToCalendar_gmtime (c : Clib) (week : ℤ) (tow : Float64) :
    gpsToCalendar (withGmtime c) week tow =
      { Y := Int32.ofInt (dateOf c week tow).year, Mo := Int32.ofInt (dateOf c week tow).month
        D := Int32.ofInt (dateOf c week tow).day, h := Int32.ofInt (dateOf c week tow).hour
        m := Int32.ofInt (dateOf c week tow).minute
        s := (ofInt (dateOf c week tow).second).add (tow.fmod (ofInt 1)) } := by
  obtain ⟨h0, h1⟩ := (valid_dateOf c week tow).second
  have hsec : (Int32.ofInt (dateOf c week tow).second).toInt = (dateOf c week tow).second :=
    toInt_ofInt_small h0 (by omega)
  have hyear : Int32.ofInt ((dateOf c week tow).year - 1900) + 1900 =
      Int32.ofInt (dateOf c week tow).year := by
    rw [show (1900 : Int32) = Int32.ofInt 1900 from rfl, ← Int32.ofInt_add, sub_add_cancel]
  have hmonth : Int32.ofInt ((dateOf c week tow).month - 1) + 1 =
      Int32.ofInt (dateOf c week tow).month := by
    rw [show (1 : Int32) = Int32.ofInt 1 from rfl, ← Int32.ofInt_add, sub_add_cancel]
  have htime : (withGmtime c).gmtime (315964800 + week * 604800 +
      tow.toInt 64 (withGmtime c).castOther) = tmOf (dateOf c week tow) := rfl
  unfold gpsToCalendar
  rw [htime]
  unfold tmOf
  dsimp only
  rw [hyear, hmonth, hsec]

theorem dateOf_fin (c : Clib) (week : ℤ) {neg : Bool} {m : ℚ≥0} (hneg : neg = false ∨ m = 0)
    (hfit : ⌊m⌋₊ < 2 ^ 63) : dateOf c week (fin neg m) = gpsDate week m := by
  have htow : (fin neg m).toInt 64 c.castOther = ⌊m⌋₊ := by
    have hpow : (2 : ℤ) ^ (64 - 1) = 2 ^ 63 := rfl
    unfold toInt
    dsimp only
    rw [hpow]
    rcases hneg with rfl | rfl
    · rw [if_neg Bool.false_ne_true, if_pos ⟨by omega, by omega⟩]
    · rw [Nat.floor_zero, Nat.cast_zero, neg_zero, ite_self, if_pos ⟨by norm_num, by norm_num⟩]
  unfold dateOf gpsDate gpsSecond
  rw [htow, mul_comm]

/-- Below a minute the seconds of a date are those of the time of week. -/
theorem second_gpsDate (week : ℤ) (m : ℚ≥0) :
    ∃ k : ℕ, (gpsDate week m).second = k ∧ k < 60 ∧ (m < 32 → k = ⌊m⌋₊) := by
  have hsec : (gpsDate week m).second = (⌊m⌋₊ % 60 : ℕ) := by
    unfold gpsDate gpsSecond DateTime.ofUnix
    dsimp only
    omega
  refine ⟨⌊m⌋₊ % 60, hsec, Nat.mod_lt _ (by norm_num), fun hlt => ?_⟩
  have hfloor : ⌊m⌋₊ < 32 := (Nat.floor_lt zero_le).mpr (by exact_mod_cast hlt)
  omega

/-! ### File names -/

/-- The name of a file below its directory. -/
def baseName (d : DateTime) : List UInt8 :=
  ascii "BASE_" ++ (zeroInt 4 d.year ++ (zeroInt 2 d.month ++ (zeroInt 2 d.day ++ (ascii "_" ++
    (zeroInt 2 d.hour ++ (zeroInt 2 d.minute ++ (zeroInt 2 d.second ++ ascii ".rnx")))))))

/-- A year that an `int` holds. -/
def YearFits (d : DateTime) : Prop := -2 ^ 31 ≤ d.year ∧ d.year < 2 ^ 31

theorem length_zeroInt_two {n : ℤ} (h0 : 0 ≤ n) (h1 : n < 100) : (zeroInt 2 n).length = 2 := by
  obtain ⟨k, rfl⟩ := Int.eq_ofNat_of_zero_le h0
  exact length_zeroInt (by norm_num) (by norm_num; omega)

/-- The fields of a valid date, as small numbers. -/
structure SmallFields (d : DateTime) : Prop where
  month : 0 ≤ d.month ∧ d.month < 100
  day : 0 ≤ d.day ∧ d.day < 100
  hour : 0 ≤ d.hour ∧ d.hour < 100
  minute : 0 ≤ d.minute ∧ d.minute < 100
  second : 0 ≤ d.second ∧ d.second < 100

theorem monthLength_le (leap : Bool) {m : ℤ} (h1 : 1 ≤ m) (h2 : m ≤ 12) : monthLength leap m ≤ 31 := by
  have hall : ∀ leap : Bool, ∀ m < 13, 1 ≤ m → monthLength leap ((m : ℕ) : ℤ) ≤ 31 := by
    decide +kernel
  obtain ⟨m, rfl⟩ := Int.eq_ofNat_of_zero_le (show 0 ≤ m by omega)
  exact hall leap m (by omega) (by omega)

theorem smallFields_of_valid {d : DateTime} (h : d.Valid) : SmallFields d := by
  obtain ⟨hmo1, hmo2⟩ := h.month
  obtain ⟨hd1, hd2⟩ := h.day
  obtain ⟨hh1, hh2⟩ := h.hour
  obtain ⟨hm1, hm2⟩ := h.minute
  obtain ⟨hs1, hs2⟩ := h.second
  have hlength := monthLength_le (isLeap d.year) hmo1 hmo2
  exact ⟨⟨by omega, by omega⟩, ⟨by omega, by omega⟩, ⟨by omega, by omega⟩, ⟨by omega, by omega⟩,
    ⟨by omega, by omega⟩⟩

theorem fileName_dateOf (c : Clib) (week : ℤ) (tow : Float64)
    (hsecond : (gpsToCalendar (withGmtime c) week tow).second (withGmtime c) = (dateOf c week tow).second)
    (hyear : YearFits (dateOf c week tow)) :
    fileName (withGmtime c) (gpsToCalendar (withGmtime c) week tow) =
      ascii "/sdcard/rawdata/" ++ baseName (dateOf c week tow) := by
  obtain ⟨⟨hmo0, hmo1⟩, ⟨hd0, hd1⟩, ⟨hh0, hh1⟩, ⟨hm0, hm1⟩, ⟨hs0, hs1⟩⟩ :=
    smallFields_of_valid (valid_dateOf c week tow)
  have hpre : ascii "/sdcard/rawdata/BASE_" = ascii "/sdcard/rawdata/" ++ ascii "BASE_" := by
    decide
  have hlength : (zeroInt 4 (dateOf c week tow).year).length ≤ 15 := by
    have h1 := length_minus_le (decide ((dateOf c week tow).year < 0))
    have h2 : (decimal (dateOf c week tow).year.natAbs).length ≤ 10 :=
      length_decimal_le (by norm_num) (by have := hyear.1; have := hyear.2; omega)
    unfold zeroInt
    rw [List.length_append, length_padZero]
    split_ifs <;> omega
  unfold fileName
  rw [hsecond, gpsToCalendar_gmtime]
  dsimp only
  rw [Int32.toInt_ofInt_of_le hyear.1 hyear.2, toInt_ofInt_small hmo0 hmo1, toInt_ofInt_small hd0 hd1,
    toInt_ofInt_small hh0 hh1, toInt_ofInt_small hm0 hm1, hpre]
  rw [List.take_of_length_le]
  · unfold baseName
    simp only [List.append_assoc]
  · have hdir : (ascii "/sdcard/rawdata/").length = 16 := by decide
    have hbase : (ascii "BASE_").length = 5 := by decide
    have hscore : (ascii "_").length = 1 := by decide
    have hrnx : (ascii ".rnx").length = 4 := by decide
    simp only [List.length_append, hdir, hbase, hscore, hrnx, length_zeroInt_two hmo0 hmo1,
      length_zeroInt_two hd0 hd1, length_zeroInt_two hh0 hh1, length_zeroInt_two hm0 hm1,
      length_zeroInt_two hs0 hs1]
    omega

theorem fileName_gmtime (c : Clib) (week : ℤ) {neg : Bool} {m : ℚ≥0} (hm : nearest m = m)
    (hneg : neg = false ∨ m = 0) (hfit : ⌊m⌋₊ < 2 ^ 63) (hyear : YearFits (gpsDate week m)) :
    fileName (withGmtime c) (gpsToCalendar (withGmtime c) week (fin neg m)) =
      ascii "/sdcard/rawdata/" ++ baseName (gpsDate week m) := by
  obtain ⟨k, hk, hk60, hfloor⟩ := second_gpsDate week m
  have hdate := dateOf_fin c week hneg hfit
  rw [← hdate] at hyear hk ⊢
  refine fileName_dateOf c week (fin neg m) ?_ hyear
  rw [gpsToCalendar_gmtime, Calendar.second, hk]
  exact toInt_add_fmod hm hneg (by omega) hfloor (by norm_num) _

theorem dateOf_isInt (c : Clib) (week : ℤ) {tow : Float64} {n : ℤ} (h : IsInt tow n)
    (hn : n.natAbs < 2 ^ 53) :
    dateOf c week tow = DateTime.ofUnix (315964800 + 604800 * week + n) := by
  unfold dateOf
  rw [h.toInt (by norm_num; omega) (by norm_num; omega), mul_comm]

/-- **The name of a file that begins at a whole second.** -/
theorem fileName_isInt (c : Clib) {week : ℤ} (hweek : 0 < week ∧ week < 2 ^ 31) {tow : Float64} {n : ℤ}
    (h : IsInt tow n) (hn : n.natAbs < 2 ^ 53) :
    fileName (withGmtime c) (gpsToCalendar (withGmtime c) week tow) =
      ascii "/sdcard/rawdata/" ++ baseName (DateTime.ofUnix (315964800 + 604800 * week + n)) := by
  have hdate := dateOf_isInt c week h hn
  obtain ⟨h0, h1⟩ := (valid_dateOf c week tow).second
  rw [← hdate]
  refine fileName_dateOf c week tow ?_ ?_
  · have hsum := (isInt_ofInt (n := (dateOf c week tow).second) (by omega)).add h.fmod_one (by omega)
    rw [add_zero] at hsum
    rw [gpsToCalendar_gmtime, Calendar.second]
    exact hsum.toInt (by norm_num; omega) (by norm_num; omega) _
  · obtain ⟨h2, h3⟩ := yearOf_spec ((315964800 + 604800 * week + n) / 86400)
    have hyear : (dateOf c week tow).year = yearOf ((315964800 + 604800 * week + n) / 86400) := by
      rw [hdate]
      rfl
    unfold YearFits
    rw [hyear]
    unfold yearStart at h2 h3
    omega

end GpsBase.Rinex.Times
