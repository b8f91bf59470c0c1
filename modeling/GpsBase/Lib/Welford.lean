import Mathlib.Tactic

/-! # Running mean and squared deviations

Welford's recurrence keeps the mean of the values so far and the sum of their squared deviations from
it. `Tracks` says what the two numbers are of a list of values, and one update tracks one value more
(`Tracks.update`). Over any field of characteristic zero; the mean of no values is `0`. -/

namespace GpsBase.Lib.Welford

variable {K : Type*} [Field K]

def average (xs : List K) : K := xs.sum / xs.length

/-- The sum of the squared deviations from the mean. -/
def deviation (xs : List K) : K := (xs.map fun x => (x - average xs) ^ 2).sum

/-- A running mean and sum of squared deviations. -/
structure Running (K : Type*) where
  mean : K
  m2 : K

/-- The update with the value that makes them `count`. -/
def Running.update (w : Running K) (value : K) (count : ℕ) : Running K :=
  let delta := value - w.mean
  let mean := w.mean + delta / count
  { mean := mean, m2 := w.m2 + delta * (value - mean) }

/-- The two numbers are those of the values. -/
structure Tracks (w : Running K) (xs : List K) : Prop where
  mean : w.mean = average xs
  m2 : w.m2 = deviation xs

@[simp] theorem average_nil : average ([] : List K) = 0 := by simp [average]

@[simp] theorem deviation_nil : deviation ([] : List K) = 0 := by simp [deviation]

theorem tracks_nil : Tracks (⟨0, 0⟩ : Running K) [] := ⟨by simp, by simp⟩

/-- Squared deviations from any number: expand the square and collect. -/
theorem sum_sq_sub (xs : List K) (m : K) : (xs.map fun x => (x - m) ^ 2).sum =
    (xs.map (· ^ 2)).sum - 2 * m * xs.sum + xs.length * m ^ 2 := by
  induction xs with
  | nil => simp
  | cons x xs ih =>
    simp only [List.map_cons, List.sum_cons, List.length_cons, Nat.cast_add, Nat.cast_one, ih]
    ring

theorem deviation_nonneg {K : Type*} [Field K] [LinearOrder K] [IsStrictOrderedRing K] (xs : List K) :
    0 ≤ deviation xs := by
  refine List.sum_nonneg fun y hy => ?_
  obtain ⟨x, -, rfl⟩ := List.mem_map.mp hy
  exact sq_nonneg _

variable [CharZero K]

theorem average_mul_length (xs : List K) : average xs * xs.length = xs.sum := by
  rcases xs with _ | ⟨x, xs⟩
  · simp
  · have hlength : ((x :: xs).length : K) ≠ 0 := Nat.cast_ne_zero.mpr (by simp)
    unfold average
    exact div_mul_cancel₀ _ hlength

/-- The squares less the square of the mean, once for each value. -/
theorem deviation_eq (xs : List K) :
    deviation xs = (xs.map (· ^ 2)).sum - xs.length * average xs ^ 2 := by
  unfold deviation
  rw [sum_sq_sub, ← average_mul_length xs]
  ring

theorem average_append (xs : List K) (v : K) :
    average (xs ++ [v]) = average xs + (v - average xs) / ((xs.length + 1 : ℕ) : K) := by
  have hlength : ((xs.length + 1 : ℕ) : K) ≠ 0 := Nat.cast_ne_zero.mpr (by omega)
  have hsum := average_mul_length xs
  have hnew : average (xs ++ [v]) = (xs.sum + v) / ((xs.length + 1 : ℕ) : K) := by
    simp [average]
  rw [hnew, ← hsum]
  field_simp
  push_cast
  ring

theorem deviation_append (xs : List K) (v : K) :
    deviation (xs ++ [v]) = deviation xs + (v - average xs) * (v - average (xs ++ [v])) := by
  have hlength : ((xs.length + 1 : ℕ) : K) ≠ 0 := Nat.cast_ne_zero.mpr (by omega)
  have hsquares : ((xs ++ [v]).map (· ^ 2)).sum = (xs.map (· ^ 2)).sum + v ^ 2 := by simp
  rw [deviation_eq, deviation_eq, hsquares, average_append, List.length_append, List.length_singleton]
  field_simp
  push_cast
  ring

theorem Tracks.update {w : Running K} {xs : List K} (h : Tracks w xs) (v : K) :
    Tracks (w.update v (xs.length + 1)) (xs ++ [v]) := by
  have hmean : (w.update v (xs.length + 1)).mean = average (xs ++ [v]) := by
    rw [average_append, ← h.mean]
    rfl
  refine ⟨hmean, ?_⟩
  rw [deviation_append, ← hmean, ← h.mean, ← h.m2]
  rfl

end GpsBase.Lib.Welford
