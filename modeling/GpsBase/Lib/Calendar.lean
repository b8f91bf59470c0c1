import Mathlib.Tactic

/-! # The Gregorian calendar

Days and seconds since 1970 as dates of the proleptic Gregorian calendar and back. The two directions
are inverse to each other on valid dates, and the seconds are ordered as the dates are. -/

namespace GpsBase.Lib.Calendar

/-! ### Years -/

def isLeap (y : ℤ) : Bool := y % 4 = 0 && (y % 100 ≠ 0 || y % 400 = 0)

/-- The day a year begins, counted from the first of January 1970. -/
def yearStart (y : ℤ) : ℤ := 365 * (y - 1970) + (y - 1) / 4 - (y - 1) / 100 + (y - 1) / 400 - 477

def yearLength (y : ℤ) : ℤ := if isLeap y then 366 else 365

theorem isLeap_iff (y : ℤ) : isLeap y = true ↔ y % 4 = 0 ∧ (y % 100 ≠ 0 ∨ y % 400 = 0) := by
  simp [isLeap]

theorem yearStart_succ (y : ℤ) : yearStart (y + 1) = yearStart y + yearLength y := by
  unfold yearStart yearLength
  split_ifs with h
  · rw [isLeap_iff] at h
    omega
  · rw [isLeap_iff, not_and_or, not_or] at h
    omega

theorem yearStart_lt (y : ℤ) : yearStart y < yearStart (y + 1) := by
  rw [yearStart_succ]
  unfold yearLength
  split_ifs <;> omega

theorem yearStart_le {y z : ℤ} (h : y ≤ z) : yearStart y ≤ yearStart z :=
  (strictMono_int_of_lt_succ yearStart_lt).monotone h

/-- The year of a day: an estimate by the mean length, and a step where it is off. -/
def yearOf (d : ℤ) : ℤ :=
  let y := 1970 + 400 * d / 146097
  if d < yearStart y then y - 1 else if yearStart (y + 1) ≤ d then y + 1 else y

theorem yearOf_spec (d : ℤ) : yearStart (yearOf d) ≤ d ∧ d < yearStart (yearOf d + 1) := by
  unfold yearOf
  dsimp only
  split_ifs with h1 h2
  · refine ⟨?_, by rwa [sub_add_cancel]⟩
    unfold yearStart
    omega
  · refine ⟨h2, ?_⟩
    unfold yearStart
    omega
  · exact ⟨not_lt.mp h1, not_le.mp h2⟩

theorem yearOf_eq {y d : ℤ} (h1 : yearStart y ≤ d) (h2 : d < yearStart (y + 1)) : yearOf d = y := by
  obtain ⟨g1, g2⟩ := yearOf_spec d
  have hmono := (strictMono_int_of_lt_succ yearStart_lt)
  have hle : y < yearOf d + 1 := hmono.lt_iff_lt.mp (h1.trans_lt g2)
  have hge : yearOf d < y + 1 := hmono.lt_iff_lt.mp (g1.trans_lt h2)
  omega

/-! ### Months -/

/-- The day of the year a month begins, for the months from 1 to 13. -/
def monthStart (leap : Bool) (m : ℤ) : ℤ :=
  [0, 31, 59, 90, 120, 151, 181, 212, 243, 273, 304, 334, 365].getD (m - 1).toNat 0 +
    if leap && 2 < m then 1 else 0

def monthOf (leap : Bool) (yday : ℤ) : ℤ :=
  1 + ((List.range 11).filter fun k : ℕ => monthStart leap ((k : ℤ) + 2) ≤ yday).length

theorem monthStart_lt (leap : Bool) {m n : ℤ} (h1 : 1 ≤ m) (h2 : m < n) (h3 : n ≤ 13) :
    monthStart leap m < monthStart leap n := by
  have hall : ∀ leap : Bool, ∀ m < 14, ∀ n < 14, 1 ≤ m → m < n →
      monthStart leap ((m : ℕ) : ℤ) < monthStart leap ((n : ℕ) : ℤ) := by
    decide +kernel
  obtain ⟨m, rfl⟩ := Int.eq_ofNat_of_zero_le (show 0 ≤ m by omega)
  obtain ⟨n, rfl⟩ := Int.eq_ofNat_of_zero_le (show 0 ≤ n by omega)
  exact hall leap m (by omega) n (by omega) (by omega) (by omega)

theorem monthStart_le (leap : Bool) {m n : ℤ} (h1 : 1 ≤ m) (h2 : m ≤ n) (h3 : n ≤ 13) :
    monthStart leap m ≤ monthStart leap n := by
  rcases h2.eq_or_lt with rfl | h2
  · exact le_rfl
  · exact (monthStart_lt leap h1 h2 h3).le

theorem monthOf_eq {leap : Bool} {m yday : ℤ} (h1 : 1 ≤ m) (h2 : m ≤ 12) (hle : monthStart leap m ≤ yday)
    (hlt : yday < monthStart leap (m + 1)) : monthOf leap yday = m := by
  -- the months that have begun are those up to `m`
  have hbegun : ∀ k ∈ List.range 11,
      decide (monthStart leap ((k : ℤ) + 2) ≤ yday) = decide (k < (m - 1).toNat) := by
    intro k hk
    rw [List.mem_range] at hk
    rw [decide_eq_decide]
    constructor
    · intro h
      by_contra hnot
      have := monthStart_le leap (m := m + 1) (n := k + 2) (by omega) (by omega) (by omega)
      omega
    · intro h
      exact (monthStart_le leap (by omega) (by omega) (by omega)).trans hle
  have hcount : ∀ j ≤ 11, ((List.range 11).filter fun k => decide (k < j)).length = j := by decide
  unfold monthOf
  rw [List.filter_congr hbegun, hcount _ (by omega)]
  omega

theorem monthOf_spec (leap : Bool) {yday : ℤ} (h0 : 0 ≤ yday) (h1 : yday < if leap then 366 else 365) :
    1 ≤ monthOf leap yday ∧ monthOf leap yday ≤ 12 ∧ monthStart leap (monthOf leap yday) ≤ yday ∧
      yday < monthStart leap (monthOf leap yday + 1) := by
  have hends : ∀ leap, monthStart leap 1 = 0 ∧ monthStart leap 13 = if leap then 366 else 365 := by
    decide
  obtain ⟨m, hm1, hm2, hle, hlt⟩ : ∃ m : ℤ, 1 ≤ m ∧ m ≤ 12 ∧ monthStart leap m ≤ yday ∧
      yday < monthStart leap (m + 1) := by
    by_contra hnone
    push Not at hnone
    have hbegun : ∀ m : ℕ, m ≤ 12 → monthStart leap (m + 1) ≤ yday := by
      intro m hm
      induction m with
      | zero => exact (hends leap).1.le.trans h0
      | succ m ih =>
        have := hnone (m + 1) (by omega) (by omega) (ih (by omega))
        push_cast
        exact this
    have := hbegun 12 le_rfl
    exact absurd h1 (not_lt.mpr ((hends leap).2 ▸ this))
  rw [monthOf_eq hm1 hm2 hle hlt]
  exact ⟨hm1, hm2, hle, hlt⟩

/-! ### Dates -/

structure DateTime where
  year : ℤ
  month : ℤ
  day : ℤ
  hour : ℤ
  minute : ℤ
  second : ℤ
  deriving DecidableEq

def monthLength (leap : Bool) (m : ℤ) : ℤ := monthStart leap (m + 1) - monthStart leap m

namespace DateTime

/-- A date that exists, without leap seconds. -/
structure Valid (t : DateTime) : Prop where
  month : 1 ≤ t.month ∧ t.month ≤ 12
  day : 1 ≤ t.day ∧ t.day ≤ monthLength (isLeap t.year) t.month
  hour : 0 ≤ t.hour ∧ t.hour < 24
  minute : 0 ≤ t.minute ∧ t.minute < 60
  second : 0 ≤ t.second ∧ t.second < 60

def days (t : DateTime) : ℤ :=
  yearStart t.year + monthStart (isLeap t.year) t.month + (t.day - 1)

/-- The seconds since 1970. -/
def unix (t : DateTime) : ℤ := t.days * 86400 + t.hour * 3600 + t.minute * 60 + t.second

def ofUnix (n : ℤ) : DateTime :=
  let d := n / 86400
  let y := yearOf d
  let m := monthOf (isLeap y) (d - yearStart y)
  { year := y, month := m, day := d - yearStart y - monthStart (isLeap y) m + 1
    hour := n % 86400 / 3600, minute := n % 3600 / 60, second := n % 60 }

theorem day_of_year (d : ℤ) : 0 ≤ d - yearStart (yearOf d) ∧
    d - yearStart (yearOf d) < if isLeap (yearOf d) then 366 else 365 := by
  obtain ⟨h1, h2⟩ := yearOf_spec d
  rw [yearStart_succ, yearLength] at h2
  exact ⟨by omega, by omega⟩

theorem valid_ofUnix (n : ℤ) : (ofUnix n).Valid := by
  obtain ⟨h1, h2⟩ := day_of_year (n / 86400)
  obtain ⟨m1, m2, m3, m4⟩ := monthOf_spec _ h1 h2
  refine ⟨⟨m1, m2⟩, ⟨?_, ?_⟩, ⟨?_, ?_⟩, ⟨?_, ?_⟩, ⟨?_, ?_⟩⟩
  · unfold ofUnix
    dsimp only
    omega
  · unfold ofUnix monthLength
    dsimp only
    omega
  all_goals
    unfold ofUnix
    dsimp only
    omega

/-- **A second is recovered from its date.** -/
theorem unix_ofUnix (n : ℤ) : (ofUnix n).unix = n := by
  unfold unix days ofUnix
  dsimp only
  omega

theorem days_bounds {t : DateTime} (h : t.Valid) :
    yearStart t.year ≤ t.days ∧ t.days < yearStart (t.year + 1) := by
  have hlow := monthStart_le (isLeap t.year) le_rfl h.month.1 (by have := h.month.2; omega)
  have hhigh := monthStart_le (isLeap t.year) (show 1 ≤ t.month + 1 by have := h.month.1; omega)
    (show t.month + 1 ≤ 13 by have := h.month.2; omega) le_rfl
  have h1 : monthStart (isLeap t.year) 1 = 0 := by
    rcases isLeap t.year with _ | _ <;> decide
  have h13 : monthStart (isLeap t.year) 13 = yearLength t.year := by
    unfold yearLength
    rcases isLeap t.year with _ | _ <;> decide
  have hday := h.day
  unfold monthLength at hday
  rw [yearStart_succ]
  unfold days
  omega

/-- **A valid date is recovered from its second.** -/
theorem ofUnix_unix {t : DateTime} (h : t.Valid) : ofUnix t.unix = t := by
  obtain ⟨hh1, hh2⟩ := h.hour
  obtain ⟨hm1, hm2⟩ := h.minute
  obtain ⟨hs1, hs2⟩ := h.second
  have hdays : t.unix / 86400 = t.days := by
    unfold unix
    omega
  obtain ⟨hy1, hy2⟩ := days_bounds h
  have hyear : yearOf t.days = t.year := yearOf_eq hy1 hy2
  have hyday : t.days - yearStart t.year = monthStart (isLeap t.year) t.month + (t.day - 1) := by
    unfold days
    omega
  obtain ⟨g1, g2⟩ := day_of_year t.days
  rw [hyear] at g1 g2
  obtain ⟨k1, k2, k3, k4⟩ := monthOf_spec _ g1 g2
  have hmonth : monthOf (isLeap t.year) (t.days - yearStart t.year) = t.month := by
    have hday := h.day
    unfold monthLength at hday
    generalize monthOf (isLeap t.year) (t.days - yearStart t.year) = m at k1 k2 k3 k4
    rw [hyday] at k3 k4
    by_contra hne
    rcases lt_or_gt_of_ne hne with hlt | hgt
    · have := monthStart_le (isLeap t.year) (show 1 ≤ m + 1 by omega)
        (show m + 1 ≤ t.month by omega) (by have := h.month.2; omega)
      omega
    · have := monthStart_le (isLeap t.year) (show 1 ≤ t.month + 1 by have := h.month.1; omega)
        (show t.month + 1 ≤ m by omega) (by omega)
      omega
  have hsec : t.unix % 86400 = t.hour * 3600 + t.minute * 60 + t.second := by
    unfold unix
    omega
  have h1 : t.unix % 86400 / 3600 = t.hour := by
    rw [hsec]
    omega
  have h2 : t.unix % 3600 / 60 = t.minute := by
    unfold unix
    omega
  have h3 : t.unix % 60 = t.second := by
    unfold unix
    omega
  unfold ofUnix
  dsimp only
  rw [hdays, hyear, hmonth, hyday, h1, h2, h3]
  have hd : monthStart (isLeap t.year) t.month + (t.day - 1) - monthStart (isLeap t.year) t.month + 1 =
      t.day := by omega
  rw [hd]

/-- One date is before another, compared field by field. -/
def Before (t u : DateTime) : Prop :=
  t.year < u.year ∨ t.year = u.year ∧ (t.month < u.month ∨ t.month = u.month ∧ (t.day < u.day ∨
    t.day = u.day ∧ (t.hour < u.hour ∨ t.hour = u.hour ∧ (t.minute < u.minute ∨
      t.minute = u.minute ∧ t.second < u.second))))

/-- **Seconds are ordered as their dates are.** -/
theorem unix_lt_of_before {t u : DateTime} (ht : t.Valid) (hu : u.Valid) (h : t.Before u) :
    t.unix < u.unix := by
  obtain ⟨hh1, hh2⟩ := ht.hour
  obtain ⟨hm1, hm2⟩ := ht.minute
  obtain ⟨hs1, hs2⟩ := ht.second
  obtain ⟨gh1, gh2⟩ := hu.hour
  obtain ⟨gm1, gm2⟩ := hu.minute
  obtain ⟨gs1, gs2⟩ := hu.second
  have hdays : t.days < u.days ∨ t.days = u.days ∧ (t.hour < u.hour ∨ t.hour = u.hour ∧
      (t.minute < u.minute ∨ t.minute = u.minute ∧ t.second < u.second)) := by
    rcases h with hyear | ⟨hyear, hmonth | ⟨hmonth, hday | ⟨hday, htime⟩⟩⟩
    · left
      have h1 := (days_bounds ht).2
      have h2 := (days_bounds hu).1
      have h3 : yearStart (t.year + 1) ≤ yearStart u.year := yearStart_le (by omega)
      omega
    · left
      have hstart := monthStart_le (isLeap t.year) (show 1 ≤ t.month + 1 by have := ht.month.1; omega)
        (show t.month + 1 ≤ u.month by omega) (by have := hu.month.2; omega)
      have hday := ht.day
      have gday := hu.day
      unfold monthLength at hday
      unfold days
      rw [← hyear]
      omega
    · left
      unfold days
      rw [hyear, hmonth]
      omega
    · right
      refine ⟨?_, htime⟩
      unfold days
      rw [hyear, hmonth, hday]
  unfold unix
  omega

end DateTime

end GpsBase.Lib.Calendar
