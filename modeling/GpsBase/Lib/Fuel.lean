import Mathlib.Data.List.TakeWhile

/-! # Functions with fuel

A loop that need not end is a function of its fuel, which has no result as long as the fuel is not enough.
More fuel does not change a result (`Grows`). `Returns` says that some fuel gives a result; it goes through
one function after the other (`returns_bind_iff`) and through one round of a loop (`returns_succ`). -/

namespace GpsBase.Lib.Fuel

variable {α β : Type*}

/-- More fuel keeps the result. -/
def Grows (f : ℕ → Option α) : Prop := ∀ n a, f n = some a → f (n + 1) = some a

/-- Enough fuel gives the result. -/
def Returns (f : ℕ → Option α) (a : α) : Prop := ∃ n, f n = some a

theorem Grows.le {f : ℕ → Option α} (h : Grows f) {m n : ℕ} (hle : m ≤ n) {a : α} (hm : f m = some a) :
    f n = some a := by
  induction n, hle using Nat.le_induction with
  | base => exact hm
  | succ n _ ih => exact h n a ih

theorem Returns.unique {f : ℕ → Option α} (h : Grows f) {a b : α} (ha : Returns f a) (hb : Returns f b) :
    a = b := by
  obtain ⟨m, hm⟩ := ha
  obtain ⟨n, hn⟩ := hb
  have ha := h.le (Nat.le_max_left m n) hm
  have hb := h.le (Nat.le_max_right m n) hn
  exact Option.some.inj (ha.symm.trans hb)

theorem grows_const (a : Option α) : Grows fun _ => a := fun _ _ h => h

theorem Grows.bind {f : ℕ → Option α} {g : α → ℕ → Option β} (hf : Grows f) (hg : ∀ a, Grows (g a)) :
    Grows fun n => (f n).bind fun a => g a n := by
  intro n b h
  obtain ⟨a, ha, hb⟩ := Option.bind_eq_some_iff.mp h
  exact Option.bind_eq_some_iff.mpr ⟨a, hf n a ha, hg a n b hb⟩

theorem returns_const {a b : α} : Returns (fun _ => some a) b ↔ a = b :=
  ⟨fun ⟨_, h⟩ => Option.some.inj h, fun h => ⟨0, congrArg some h⟩⟩

/-- **One function after the other.** -/
theorem returns_bind_iff {f : ℕ → Option α} {g : α → ℕ → Option β} (hf : Grows f) (hg : ∀ a, Grows (g a))
    {b : β} :
    Returns (fun n => (f n).bind fun a => g a n) b ↔ ∃ a, Returns f a ∧ Returns (g a) b := by
  constructor
  · rintro ⟨n, h⟩
    obtain ⟨a, ha, hb⟩ := Option.bind_eq_some_iff.mp h
    exact ⟨a, ⟨n, ha⟩, n, hb⟩
  · rintro ⟨a, ⟨m, hm⟩, n, hn⟩
    exact ⟨max m n, Option.bind_eq_some_iff.mpr
      ⟨a, hf.le (Nat.le_max_left m n) hm, (hg a).le (Nat.le_max_right m n) hn⟩⟩

theorem returns_succ {f g : ℕ → Option α} (h0 : f 0 = none) (h : ∀ n, f (n + 1) = g n) {a : α} :
    Returns f a ↔ Returns g a := by
  constructor
  · rintro ⟨n, hn⟩
    rcases n with _ | n
    · rw [h0] at hn
      cases hn
    · exact ⟨n, (h n).symm.trans hn⟩
  · rintro ⟨n, hn⟩
    exact ⟨n + 1, (h n).trans hn⟩

end GpsBase.Lib.Fuel
