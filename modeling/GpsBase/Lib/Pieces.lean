import Mathlib.Data.List.Basic
import Mathlib.Tactic

/-! # Pieces of a string, in order

`Spaced fs s` says that the strings `fs` are disjoint contiguous pieces of `s`, in the order of `s`,
with arbitrary gaps before, between and after them. -/

namespace GpsBase.Lib.Pieces

variable {α : Type*}

/-- The strings of `fs` are disjoint pieces of `s`, in order. -/
inductive Spaced : List (List α) → List α → Prop
  | gap (g : List α) : Spaced [] g
  | piece (g f : List α) {fs : List (List α)} {s : List α} (h : Spaced fs s) :
      Spaced (f :: fs) (g ++ f ++ s)

theorem Spaced.append_gap {fs : List (List α)} {s : List α} (h : Spaced fs s) (t : List α) :
    Spaced fs (s ++ t) := by
  induction h with
  | gap g => exact .gap (g ++ t)
  | piece g f h ih =>
    rw [List.append_assoc (g ++ f)]
    exact .piece g f ih

theorem Spaced.append_piece {fs : List (List α)} {s : List α} (h : Spaced fs s) (f : List α) :
    Spaced (fs ++ [f]) (s ++ f) := by
  induction h with
  | gap g =>
    have := Spaced.piece g f (.gap ([] : List α))
    rwa [List.append_nil] at this
  | piece g f' h ih =>
    rw [List.append_assoc (g ++ f'), List.cons_append]
    exact .piece g f' ih

theorem Spaced.prepend {fs : List (List α)} {s : List α} (h : Spaced fs s) (t : List α) :
    Spaced fs (t ++ s) := by
  cases h with
  | gap => exact .gap (t ++ s)
  | piece g f h =>
    rw [← List.append_assoc, ← List.append_assoc]
    exact .piece (t ++ g) f h

/-- **Some of the pieces, in the same order.** -/
theorem Spaced.sublist {fs gs : List (List α)} {s : List α} (h : Spaced fs s) (hsub : gs.Sublist fs) :
    Spaced gs s := by
  induction h generalizing gs with
  | gap g =>
    rw [List.sublist_nil.mp hsub]
    exact .gap g
  | piece g f h ih =>
    cases hsub with
    | cons _ hrest => exact (ih hrest).prepend (g ++ f)
    | cons_cons _ hrest => exact .piece g f (ih hrest)

theorem Spaced.isInfix {fs : List (List α)} {s : List α} (h : Spaced fs s) {f : List α} (hf : f ∈ fs) :
    f <:+: s := by
  induction h with
  | gap g => cases hf
  | piece g f' h ih =>
    rcases List.mem_cons.mp hf with rfl | hf
    · exact ⟨g, _, rfl⟩
    · exact (ih hf).trans (List.suffix_append _ _).isInfix

end GpsBase.Lib.Pieces
