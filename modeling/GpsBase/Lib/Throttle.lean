import Mathlib.Data.List.Infix
import Mathlib.Data.Int.Order.Basic
import Mathlib.Tactic.Common
import Mathlib.Tactic.Linarith

/-! # Throttled attempts

Attempts with a growing delay: after the `k`-th attempt the next one comes `delay k` later or still
later. How many attempts fit into an interval follows from a credit: `credit k` is what the `k`-th attempt
and those after it still save against one attempt in each `unit` (`Spaced.length_le`). In a list of
things that happened in order the ones of an interval stand together (`window`). -/

namespace GpsBase.Lib.Throttle

variable {delay credit : ℕ → ℤ} {unit : ℤ}

/-- After the `k`-th time the next one is `delay k` later or still later. -/
def Spaced (delay : ℕ → ℤ) (times : List ℤ) : Prop :=
  ∀ (k : ℕ) (s t : ℤ), times[k]? = some s → times[k + 1]? = some t → s + delay (k + 1) ≤ t

theorem spaced_nil : Spaced delay [] := fun _ _ _ h => by cases h

theorem Spaced.concat {times : List ℤ} (h : Spaced delay times) {t : ℤ}
    (ht : ∀ s, times.getLast? = some s → s + delay times.length ≤ t) : Spaced delay (times ++ [t]) := by
  intro k s t' hs ht'
  have hlt : k + 1 < (times ++ [t]).length := (List.getElem?_eq_some_iff.mp ht').1
  rw [List.length_append, List.length_singleton] at hlt
  by_cases hlast : k + 1 < times.length
  · rw [List.getElem?_append_left hlast] at ht'
    rw [List.getElem?_append_left (by omega)] at hs
    exact h k s t' hs ht'
  · have hlength : times.length = k + 1 := by omega
    rw [List.getElem?_append_right (by omega), hlength, Nat.sub_self] at ht'
    rw [List.getElem?_append_left (by omega)] at hs
    cases ht'
    have hgo := ht s (by rw [List.getLast?_eq_getElem?, hlength]; exact hs)
    rwa [hlength] at hgo

theorem Spaced.next {early late : List ℤ} {s t : ℤ} (h : Spaced delay (early ++ s :: t :: late)) :
    s + delay (early.length + 1) ≤ t := by
  refine h early.length s t ?_ ?_
  · rw [List.getElem?_append_right (Nat.le_refl _), Nat.sub_self]
    rfl
  · rw [List.getElem?_append_right (Nat.le_add_right _ 1), Nat.add_sub_cancel_left]
    rfl

/-- Not only the next time is late enough, but every later one. -/
theorem Spaced.later (hdelay : ∀ k, 0 ≤ delay k) {early mid late : List ℤ} {s t : ℤ}
    (h : Spaced delay (early ++ s :: mid ++ t :: late)) : s + delay (early.length + 1) ≤ t := by
  induction mid generalizing early s with
  | nil => exact Spaced.next (by rwa [List.append_assoc] at h)
  | cons m mid ih =>
    have hnext : s + delay (early.length + 1) ≤ m := by
      rw [List.append_assoc] at h
      exact Spaced.next h
    have hlater := @ih (early ++ [s]) m (by rwa [List.append_assoc early])
    have hpos := hdelay ((early ++ [s]).length + 1)
    omega

/-- **The times of an interval**: of times that stand together all but the first take a `unit` each, less
what the credit allows. -/
theorem Spaced.length_le (hcredit : ∀ k, unit + credit (k + 1) ≤ delay k + credit k) {early late : List ℤ}
    {s t : ℤ} (h : Spaced delay (early ++ s :: late)) (hlast : (s :: late).getLast? = some t) :
    unit * late.length + credit (early.length + 1 + late.length) ≤ t - s + credit (early.length + 1) := by
  induction late generalizing early s with
  | nil =>
    obtain rfl : s = t := Option.some.inj hlast
    rw [List.length_nil, Nat.cast_zero, mul_zero, sub_self]
  | cons m late ih =>
    have hnext := h.next
    have hrest := @ih (early ++ [s]) m (by rwa [List.append_assoc]) (by rwa [List.getLast?_cons_cons] at hlast)
    have hstep := hcredit (early.length + 1)
    rw [List.length_append, List.length_singleton] at hrest
    rw [List.length_cons, Nat.cast_succ, mul_add, mul_one,
      show early.length + 1 + (late.length + 1) = early.length + 1 + 1 + late.length by omega]
    linarith only [hnext, hrest, hstep]

/-! ### Intervals -/

variable {α : Type*} {time : α → Option ℤ}

/-- What happened before a time stands before what happened from then on. -/
theorem split_at (u : ℤ) {l : List α} (h : (l.filterMap time).Pairwise (· ≤ ·)) :
    ∃ early late, l = early ++ late ∧ (∀ m ∈ early, ∀ t, time m = some t → t < u) ∧
      ∀ m ∈ late, ∀ t, time m = some t → u ≤ t := by
  induction l with
  | nil => exact ⟨[], [], rfl, fun _ h => absurd h List.not_mem_nil, fun _ h => absurd h List.not_mem_nil⟩
  | cons m l ih =>
    have hrest : (l.filterMap time).Pairwise (· ≤ ·) :=
      h.sublist ((List.sublist_cons_self m l).filterMap time)
    by_cases hm : ∃ t, time m = some t ∧ u ≤ t
    · obtain ⟨t, hm, hu⟩ := hm
      rw [List.filterMap_cons_some hm, List.pairwise_cons] at h
      refine ⟨[], m :: l, rfl, fun _ h => absurd h List.not_mem_nil, fun k hk s hs => ?_⟩
      rcases List.mem_cons.mp hk with rfl | hk
      · rw [hm] at hs
        cases hs
        exact hu
      · exact hu.trans (h.1 s (List.mem_filterMap.mpr ⟨k, hk, hs⟩))
    · obtain ⟨early, late, rfl, hearly, hlate⟩ := ih hrest
      refine ⟨m :: early, late, rfl, fun k hk s hs => ?_, hlate⟩
      rcases List.mem_cons.mp hk with rfl | hk
      · by_contra hle
        exact hm ⟨s, hs, not_lt.mp hle⟩
      · exact hearly k hk s hs

/-- **What happened in an interval stands together.** -/
theorem window (u v : ℤ) {l : List α} (h : (l.filterMap time).Pairwise (· ≤ ·)) :
    ∃ early mid late, l = early ++ mid ++ late ∧ (∀ m ∈ early, ∀ t, time m = some t → t < u) ∧
      (∀ m ∈ mid, ∀ t, time m = some t → u ≤ t ∧ t ≤ v) ∧ ∀ m ∈ late, ∀ t, time m = some t → v < t := by
  obtain ⟨early, rest, rfl, hearly, hrest⟩ := split_at u h
  rw [List.filterMap_append, List.pairwise_append] at h
  obtain ⟨mid, late, rfl, hmid, hlate⟩ := split_at (v + 1) h.2.1
  refine ⟨early, mid, late, (List.append_assoc ..).symm, hearly, fun m hm t ht => ⟨?_, ?_⟩,
    fun m hm t ht => Int.lt_of_add_one_le (hlate m hm t ht)⟩
  · exact hrest m (List.mem_append_left _ hm) t ht
  · exact Int.lt_add_one_iff.mp (hmid m hm t ht)

end GpsBase.Lib.Throttle
