import GpsBase.Rinex.Times

/-! # The grid of epochs

The times the logger works with are doubles, but those it keeps are whole: a time of week is rounded to
a multiple of 30 s, accepted within half a second of it, and the age of a file is then computed without
error. The names of two files opened at different seconds differ. -/

namespace GpsBase.Rinex.Grid

open GpsBase.Lib.Binary64 GpsBase.Lib.Binary64.Float64 GpsBase.Lib.CText GpsBase.Lib.Calendar
open GpsBase.Rinex.Logger GpsBase.Rinex.Logger.RinexLogger GpsBase.Rinex.Times

/-! ### Times of week -/

/-- A double that is a time of week, of magnitude `m`. -/
structure TimeOfWeek (tow : Float64) (m : ℚ≥0) : Prop where
  eq : ∃ neg, tow = fin neg m ∧ (neg = false ∨ m = 0)
  representable : nearest m = m
  lt : m < 604800

theorem ofInt_thirty : ofInt kEpochInterval = fin false 30 := by decide +kernel

theorem signed_thirty : signed false 30 = 30 := by decide +kernel

theorem signed_half : signed false (1 / 2) = 1 / 2 := by decide +kernel

theorem div_thirty {neg : Bool} {m : ℚ≥0} (hneg : neg = false ∨ m = 0) (hm : m < 604800) :
    ∃ s q, (fin neg m).div (fin false 30) = fin s q ∧ signed s q = q ∧ (q : ℚ) ≤ 2 ^ 15 := by
  have hlt : (m : ℚ) < 604800 := by exact_mod_cast hm
  have hquot : signed neg m / signed false 30 = m / 30 := by
    rw [signed_of_nonneg hneg, signed_thirty]
  have h0 : (0 : ℚ) ≤ m / 30 := div_nonneg m.coe_nonneg (by norm_num)
  obtain ⟨s, q, hq, -, hle, hs⟩ := ofRat_nonneg (neg ^^ false) h0 (k := 15) (by norm_num) (by
    rw [div_le_iff₀ (by norm_num)]
    linarith)
  refine ⟨s, q, ?_, ?_, hle⟩
  · show (if (30 : ℚ≥0) = 0 then (if m = 0 then nan false else inf (neg ^^ false)) else
      ofRat (neg ^^ false) (signed neg m / signed false 30)) = _
    rw [if_neg (by norm_num), hquot, hq]
  · rcases hs with rfl | hzero
    · rfl
    · refine signed_of_nonneg (Or.inr ?_)
      unfold ofRat at hq
      rw [if_pos hzero] at hq
      exact (fin.inj hq).2.symm

theorem add_half {s : Bool} {q : ℚ≥0} (hs : signed s q = q) (hq : (q : ℚ) ≤ 2 ^ 15) :
    ∃ r : ℚ≥0, (fin s q).add (fin false (1 / 2)) = fin false r ∧ (r : ℚ) ≤ 2 ^ 16 := by
  have h0 : (0 : ℚ) ≤ q := q.coe_nonneg
  obtain ⟨t, r, hr, -, hle, ht⟩ := ofRat_nonneg (s && false) (q := q + 1 / 2) (by linarith) (k := 16)
    (by norm_num) (by
      have hpow : (2 : ℚ) ^ 15 + 1 / 2 ≤ 2 ^ 16 := by norm_num
      linarith)
  obtain rfl : t = false := by
    rcases ht with ht | hzero
    · exact ht
    · linarith
  refine ⟨r, ?_, hle⟩
  show ofRat (s && false) (signed s q + signed false (1 / 2)) = _
  rw [hs, signed_half, hr]

theorem floor_le {r : ℚ≥0} (hr : (r : ℚ) ≤ 2 ^ 16) :
    ∃ n : ℕ, (fin false r).floor = fin false n ∧ n ≤ 2 ^ 16 := by
  refine ⟨(signed false r).floor.natAbs, rfl, ?_⟩
  have hfloor : ((signed false r).floor : ℚ) ≤ 2 ^ 16 := (Rat.floor_le _).trans hr
  have hnonneg : 0 ≤ (signed false r).floor := Rat.le_floor_iff.mpr (by
    rw [Int.cast_zero]
    exact r.coe_nonneg)
  have hle : (signed false r).floor ≤ 2 ^ 16 := by exact_mod_cast hfloor
  omega

theorem mul_thirty {n : ℕ} (hn : n ≤ 2 ^ 16) :
    (fin false n).mul (fin false 30) = fin false ((30 * n : ℕ) : ℚ≥0) := by
  have hprod : signed false n * signed false 30 = ((30 * n : ℕ) : ℤ) := by
    rw [signed_thirty, signed_of_nonneg (Or.inl rfl), mul_comm]
    push_cast
    rfl
  rw [← ofInt_natCast (k := 30 * n) (by omega)]
  show ofRat (false ^^ false) (signed false n * signed false 30) = ofRat false ((30 * n : ℕ) : ℤ)
  rw [hprod]
  rfl

/-- **A time of week is rounded to a multiple of 30 s.** -/
theorem roundedTow_eq {tow : Float64} {m : ℚ≥0} (h : TimeOfWeek tow m) :
    ∃ k : ℕ, k ≤ 2 ^ 16 ∧ roundedTow tow = fin false ((30 * k : ℕ) : ℚ≥0) := by
  obtain ⟨⟨neg, rfl, hneg⟩, -, hlt⟩ := h
  have hhalf : ofRat false (1 / 2) = fin false (1 / 2) := by decide +kernel
  obtain ⟨s, q, hdiv, hs, hq⟩ := div_thirty hneg hlt
  obtain ⟨r, hadd, hr⟩ := add_half hs hq
  obtain ⟨n, hfloor, hn⟩ := floor_le hr
  refine ⟨n, hn, ?_⟩
  unfold roundedTow
  rw [ofInt_thirty, hhalf, hdiv, hadd, hfloor, mul_thirty hn]

/-- **A time that is accepted** is within half a second of the multiple. -/
theorem accepted {tow : Float64} {m : ℚ≥0} (h : TimeOfWeek tow m) {k : ℕ} (hk : k ≤ 2 ^ 16)
    (hlt : kEpochHalfWidth.lt (tow.sub (fin false ((30 * k : ℕ) : ℚ≥0))).abs = false) :
    |(m : ℚ) - (30 * k : ℕ)| ≤ 1 / 2 := by
  obtain ⟨⟨neg, rfl, hneg⟩, hrep, hm⟩ := h
  have hdiff : signed neg m + signed true ((30 * k : ℕ) : ℚ≥0) = (m : ℚ) - (30 * k : ℕ) := by
    rw [signed_of_nonneg hneg, sub_eq_add_neg]
    rfl
  have hsub : (fin neg m).sub (fin false ((30 * k : ℕ) : ℚ≥0)) =
      ofRat (neg && true) ((m : ℚ) - (30 * k : ℕ)) := by
    rw [← hdiff]
    rfl
  have hwidth : kEpochHalfWidth = fin false (1 / 2) := by decide +kernel
  have hbound : |(m : ℚ) - (30 * k : ℕ)| ≤ 2 ^ 21 := by
    have h1 : (m : ℚ) < 604800 := by exact_mod_cast hm
    have h2 : ((30 * k : ℕ) : ℚ) ≤ 2 ^ 21 := by exact_mod_cast (show 30 * k ≤ 2 ^ 21 by omega)
    have h3 : (0 : ℚ) ≤ (30 * k : ℕ) := Nat.cast_nonneg _
    have h4 : (0 : ℚ) ≤ m := m.coe_nonneg
    rw [abs_le]
    constructor
    · linarith
    · have h5 : (604800 : ℚ) ≤ 2 ^ 21 := by norm_num
      linarith
  obtain ⟨a, ha, hnear⟩ := abs_ofRat (neg && true) (by norm_num) hbound
  rw [hsub, ha, hwidth] at hlt
  have hle : nearest |(m : ℚ) - (30 * k : ℕ)| ≤ 1 / 2 := by
    have hdec : decide (signed false (1 / 2) < signed false a) = false := hlt
    rw [decide_eq_false_iff_not, not_lt, signed_half, signed_of_nonneg (Or.inl rfl), hnear] at hdec
    exact hdec
  rcases lt_or_ge |(m : ℚ) - (30 * k : ℕ)| 1 with hone | hone
  · rcases le_or_gt 1 (m : ℚ) with hm1 | hm1
    · rwa [nearest_sub hrep hm1 hone] at hle
    · -- below one second only the start of the week is near
      have hk0 : k = 0 := by
        have h1 : ((30 * k : ℕ) : ℚ) < 2 := by
          have := (abs_lt.mp hone).1
          linarith
        have h2 : 30 * k < 2 := by exact_mod_cast h1
        omega
      rw [hk0, Nat.mul_zero, Nat.cast_zero, sub_zero, abs_of_nonneg m.coe_nonneg] at hle ⊢
      rwa [hrep] at hle
  · have hge := le_nearest (q := |(m : ℚ) - (30 * k : ℕ)|) (k := 0) (by norm_num) (by
      rw [zpow_zero]
      exact hone)
    rw [zpow_zero] at hge
    linarith

/-! ### The age of a file -/

/-- **The age of a file** is computed without error. -/
theorem elapsed_le {week week' : ℤ} {k k' : ℕ} (hweek : 0 < week ∧ week < 2 ^ 31)
    (hweek' : 0 < week' ∧ week' < 2 ^ 31) (hk : k ≤ 2 ^ 16) (hk' : k' ≤ 2 ^ 16) :
    (ofInt kSecondsPerFile).le (((ofInt (week - week')).mul (ofInt 604800)).add
      ((fin false ((30 * k : ℕ) : ℚ≥0)).sub (fin false ((30 * k' : ℕ) : ℚ≥0)))) =
        decide (604800 * week' + 30 * k' + 3600 ≤ 604800 * week + 30 * k) := by
  have hnat : ∀ n : ℕ, n ≤ 2 ^ 21 → IsInt (fin false (n : ℚ≥0)) n := fun n hn => by
    rw [← ofInt_natCast (by omega)]
    exact isInt_ofInt (by omega)
  have hweeks : IsInt ((ofInt (week - week')).mul (ofInt 604800)) ((week - week') * 604800) :=
    (isInt_ofInt (by omega)).mul (isInt_ofInt (by norm_num)) (by omega)
  have htows : IsInt ((fin false ((30 * k : ℕ) : ℚ≥0)).sub (fin false ((30 * k' : ℕ) : ℚ≥0)))
      (((30 * k : ℕ) : ℤ) - (30 * k' : ℕ)) := (hnat _ (by omega)).sub (hnat _ (by omega)) (by omega)
  rw [(isInt_ofInt (by decide)).le (hweeks.add htows (by omega))]
  refine decide_eq_decide.mpr ?_
  unfold kSecondsPerFile
  constructor <;> intro h <;> omega

/-! ### Names -/

theorem zeroInt_inj {w : ℕ} {a b : ℤ} (ha : 0 ≤ a) (hb : 0 ≤ b) (h : zeroInt w a = zeroInt w b) :
    a = b := by
  obtain ⟨a, rfl⟩ := Int.eq_ofNat_of_zero_le ha
  obtain ⟨b, rfl⟩ := Int.eq_ofNat_of_zero_le hb
  have hvalue := congrArg decimalValue h
  rw [zeroInt_natCast, zeroInt_natCast, decimalValue_padZero, decimalValue_padZero,
    decimalValue_decimal, decimalValue_decimal] at hvalue
  exact congrArg _ hvalue

/-- **The name of a file determines the date.** -/
theorem baseName_inj {d e : DateTime} (hd : d.Valid) (he : e.Valid) (hd0 : 0 ≤ d.year)
    (he0 : 0 ≤ e.year) (h : baseName d = baseName e) : d = e := by
  obtain ⟨⟨dmo0, dmo1⟩, ⟨dd0, dd1⟩, ⟨dh0, dh1⟩, ⟨dm0, dm1⟩, ⟨ds0, ds1⟩⟩ := smallFields_of_valid hd
  obtain ⟨⟨emo0, emo1⟩, ⟨ed0, ed1⟩, ⟨eh0, eh1⟩, ⟨em0, em1⟩, ⟨es0, es1⟩⟩ := smallFields_of_valid he
  have htwo : ∀ {a b : ℤ}, 0 ≤ a → a < 100 → 0 ≤ b → b < 100 →
      (zeroInt 2 a).length = (zeroInt 2 b).length := fun ha ha' hb hb' => by
    rw [length_zeroInt_two ha ha', length_zeroInt_two hb hb']
  unfold baseName at h
  have h1 := List.append_cancel_left h
  obtain ⟨hyear, h2⟩ := List.append_inj' h1 (by
    simp only [List.length_append, length_zeroInt_two dmo0 dmo1, length_zeroInt_two dd0 dd1,
      length_zeroInt_two dh0 dh1, length_zeroInt_two dm0 dm1, length_zeroInt_two ds0 ds1,
      length_zeroInt_two emo0 emo1, length_zeroInt_two ed0 ed1, length_zeroInt_two eh0 eh1,
      length_zeroInt_two em0 em1, length_zeroInt_two es0 es1])
  obtain ⟨hmonth, h3⟩ := List.append_inj h2 (htwo dmo0 dmo1 emo0 emo1)
  obtain ⟨hday, h4⟩ := List.append_inj h3 (htwo dd0 dd1 ed0 ed1)
  obtain ⟨hhour, h5⟩ := List.append_inj (List.append_cancel_left h4) (htwo dh0 dh1 eh0 eh1)
  obtain ⟨hminute, h6⟩ := List.append_inj h5 (htwo dm0 dm1 em0 em1)
  obtain ⟨hsecond, -⟩ := List.append_inj h6 (htwo ds0 ds1 es0 es1)
  obtain ⟨dY, dMo, dD, dH, dM, dS⟩ := d
  obtain ⟨eY, eMo, eD, eH, eM, eS⟩ := e
  dsimp only at *
  rw [zeroInt_inj hd0 he0 hyear, zeroInt_inj dmo0 emo0 hmonth, zeroInt_inj dd0 ed0 hday,
    zeroInt_inj dh0 eh0 hhour, zeroInt_inj dm0 em0 hminute, zeroInt_inj ds0 es0 hsecond]

theorem year_bounds {week : ℤ} {m : ℚ≥0} (hweek : 0 < week ∧ week < 2 ^ 31) (hm : ⌊m⌋₊ ≤ 2 ^ 21) :
    0 ≤ (gpsDate week m).year ∧ (gpsDate week m).year < 2 ^ 31 := by
  have hsecond : 0 ≤ gpsSecond week m ∧ gpsSecond week m < 2 ^ 31 * 604801 := by
    unfold gpsSecond
    omega
  obtain ⟨h1, h2⟩ := yearOf_spec (gpsSecond week m / 86400)
  have hyear : (gpsDate week m).year = yearOf (gpsSecond week m / 86400) := rfl
  rw [hyear]
  unfold yearStart at h1 h2
  omega

/-- **Files opened at different seconds have different names.** -/
theorem fileName_inj (c : Clib) {week week' : ℤ} {k k' : ℕ} (hweek : 0 < week ∧ week < 2 ^ 31)
    (hweek' : 0 < week' ∧ week' < 2 ^ 31) (hk : k ≤ 2 ^ 16) (hk' : k' ≤ 2 ^ 16)
    (h : fileName (withGmtime c) (gpsToCalendar (withGmtime c) week (fin false ((30 * k : ℕ) : ℚ≥0))) =
      fileName (withGmtime c) (gpsToCalendar (withGmtime c) week' (fin false ((30 * k' : ℕ) : ℚ≥0)))) :
    604800 * week + 30 * k = 604800 * week' + 30 * k' := by
  have hrep : ∀ n : ℕ, n < 2 ^ 53 → nearest ((n : ℚ≥0) : ℚ) = (n : ℚ≥0) := fun n hn => by
    have hmul := nearest_multiple (j := n) (p := 0) (by norm_num) hn
    rw [zpow_zero, mul_one] at hmul
    rw [NNRat.cast_natCast]
    exact hmul
  have hyear := year_bounds (m := ((30 * k : ℕ) : ℚ≥0)) hweek (by rw [Nat.floor_natCast]; omega)
  have hyear' := year_bounds (m := ((30 * k' : ℕ) : ℚ≥0)) hweek' (by rw [Nat.floor_natCast]; omega)
  rw [fileName_gmtime c week (hrep _ (by omega)) (Or.inl rfl) (by rw [Nat.floor_natCast]; omega)
      ⟨by omega, hyear.2⟩,
    fileName_gmtime c week' (hrep _ (by omega)) (Or.inl rfl) (by rw [Nat.floor_natCast]; omega)
      ⟨by omega, hyear'.2⟩] at h
  have hdate := baseName_inj (DateTime.valid_ofUnix _) (DateTime.valid_ofUnix _) hyear.1 hyear'.1
    (List.append_cancel_left h)
  have hsecond := congrArg DateTime.unix hdate
  rw [DateTime.unix_ofUnix, DateTime.unix_ofUnix] at hsecond
  unfold gpsSecond at hsecond
  rw [Nat.floor_natCast, Nat.floor_natCast] at hsecond
  omega

end GpsBase.Rinex.Grid
