import Mathlib.Data.List.Nodup
import Mathlib.Logic.Function.Basic
import Mathlib.Tactic.Common

/-! # Handles

Handles are opened one after the other, and each is under way, held in a slot or closed. A handle that was
opened goes under way; from there it goes to a free slot or is closed; a slot can be emptied, its handle
closed, and so can all at once. However a pool does this, each handle is in one place, and closed at most
once (`Step.sound`). -/

namespace GpsBase.Lib.Handles

variable {ι : Type*}

/-- The slots, the handle under way, the number of handles opened so far and those closed, in order. -/
structure Pool (ι : Type*) where
  held : ι → Option ℕ
  transit : Option ℕ
  opened : ℕ
  closes : List ℕ

/-- **What a pool does.** -/
inductive Step [DecidableEq ι] (p : Pool ι) : Pool ι → Prop
  | accept (h : p.transit = none) : Step p { p with transit := some p.opened, opened := p.opened + 1 }
  | settle (i : ι) (c : ℕ) (hc : p.transit = some c) (hi : p.held i = none) :
    Step p { p with held := Function.update p.held i (some c), transit := none }
  | refuse (c : ℕ) (hc : p.transit = some c) : Step p { p with transit := none, closes := p.closes ++ [c] }
  | release (i : ι) (c : ℕ) (hc : p.held i = some c) :
    Step p { p with held := Function.update p.held i none, closes := p.closes ++ [c] }
  | clear (cs : List ℕ) (hnodup : cs.Nodup) (hcs : ∀ c, c ∈ cs ↔ ∃ i, p.held i = some c) :
    Step p { p with held := fun _ => none, closes := p.closes ++ cs }

/-- **Each handle is in one place**, and none is closed twice. -/
structure Sound (p : Pool ι) : Prop where
  held_lt : ∀ i c, p.held i = some c → c < p.opened
  held_open : ∀ i c, p.held i = some c → c ∉ p.closes
  injective : ∀ i j c, p.held i = some c → p.held j = some c → i = j
  transit_lt : ∀ c, p.transit = some c → c < p.opened
  transit_open : ∀ c, p.transit = some c → c ∉ p.closes
  transit_free : ∀ c, p.transit = some c → ∀ i, p.held i ≠ some c
  closes_lt : ∀ c ∈ p.closes, c < p.opened
  nodup : p.closes.Nodup
  placed : ∀ c < p.opened, (∃ i, p.held i = some c) ∨ c ∈ p.closes ∨ p.transit = some c

theorem sound_new : Sound (⟨fun _ => none, none, 0, []⟩ : Pool ι) where
  held_lt := fun _ _ h => nomatch h
  held_open := fun _ _ h => nomatch h
  injective := fun _ _ _ h => nomatch h
  transit_lt := fun _ h => nomatch h
  transit_open := fun _ h => nomatch h
  transit_free := fun _ h => nomatch h
  closes_lt := fun _ h => absurd h List.not_mem_nil
  nodup := List.nodup_nil
  placed := fun _ h => absurd h (Nat.not_lt_zero _)

theorem mem_update [DecidableEq ι] {held : ι → Option ℕ} {i j : ι} {c d : ℕ}
    (h : Function.update held i (some c) j = some d) : j = i ∧ d = c ∨ j ≠ i ∧ held j = some d := by
  rcases eq_or_ne j i with rfl | hne
  · rw [Function.update_self] at h
    exact Or.inl ⟨rfl, (Option.some.inj h).symm⟩
  · rw [Function.update_of_ne hne] at h
    exact Or.inr ⟨hne, h⟩

theorem mem_update_none [DecidableEq ι] {held : ι → Option ℕ} {i j : ι} {d : ℕ}
    (h : Function.update held i none j = some d) : j ≠ i ∧ held j = some d := by
  rcases eq_or_ne j i with rfl | hne
  · rw [Function.update_self] at h
    cases h
  · rw [Function.update_of_ne hne] at h
    exact ⟨hne, h⟩

theorem nodup_concat {closes : List ℕ} (h : closes.Nodup) {c : ℕ} (hc : c ∉ closes) :
    (closes ++ [c]).Nodup :=
  List.nodup_append.mpr ⟨h, List.nodup_singleton c, fun _ hd _ he heq =>
    hc (List.mem_singleton.mp he ▸ heq ▸ hd)⟩

theorem Sound.accept {p : Pool ι} (h : Sound p) (hnone : p.transit = none) :
    Sound { p with transit := some p.opened, opened := p.opened + 1 } where
  held_lt i c hi := Nat.lt_succ_of_lt (h.held_lt i c hi)
  held_open := h.held_open
  injective := h.injective
  transit_lt c hc := by
    cases hc
    exact Nat.lt_succ_self _
  transit_open c hc := by
    cases hc
    exact fun hmem => absurd (h.closes_lt _ hmem) (Nat.lt_irrefl _)
  transit_free c hc i hi := by
    cases hc
    exact absurd (h.held_lt i _ hi) (Nat.lt_irrefl _)
  closes_lt c hc := Nat.lt_succ_of_lt (h.closes_lt c hc)
  nodup := h.nodup
  placed c hc := by
    rcases Nat.lt_succ_iff_lt_or_eq.mp hc with hc | rfl
    · rcases h.placed c hc with hi | hmem | htransit
      · exact Or.inl hi
      · exact Or.inr (Or.inl hmem)
      · rw [hnone] at htransit
        cases htransit
    · exact Or.inr (Or.inr rfl)

theorem Sound.settle [DecidableEq ι] {p : Pool ι} (h : Sound p) {i : ι} {c : ℕ} (hc : p.transit = some c)
    (hi : p.held i = none) :
    Sound { p with held := Function.update p.held i (some c), transit := none } where
  held_lt j d hj := by
    rcases mem_update hj with ⟨-, rfl⟩ | ⟨-, hj⟩
    · exact h.transit_lt d hc
    · exact h.held_lt j d hj
  held_open j d hj := by
    rcases mem_update hj with ⟨-, rfl⟩ | ⟨-, hj⟩
    · exact h.transit_open d hc
    · exact h.held_open j d hj
  injective j k d hj hk := by
    rcases mem_update hj with ⟨rfl, rfl⟩ | ⟨-, hheld⟩
    · rcases mem_update hk with ⟨rfl, -⟩ | ⟨-, hheld⟩
      · rfl
      · exact absurd hheld (h.transit_free d hc k)
    · rcases mem_update hk with ⟨-, rfl⟩ | ⟨-, hheld'⟩
      · exact absurd hheld (h.transit_free d hc j)
      · exact h.injective j k d hheld hheld'
  transit_lt := fun _ hno => nomatch hno
  transit_open := fun _ hno => nomatch hno
  transit_free := fun _ hno => nomatch hno
  closes_lt := h.closes_lt
  nodup := h.nodup
  placed d hd := by
    rcases h.placed d hd with ⟨j, hj⟩ | hmem | htransit
    · refine Or.inl ⟨j, ?_⟩
      have hne : j ≠ i := by
        rintro rfl
        rw [hi] at hj
        cases hj
      exact (Function.update_of_ne hne _ _).trans hj
    · exact Or.inr (Or.inl hmem)
    · rw [hc] at htransit
      cases htransit
      exact Or.inl ⟨i, Function.update_self i _ _⟩

theorem Sound.refuse {p : Pool ι} (h : Sound p) {c : ℕ} (hc : p.transit = some c) :
    Sound { p with transit := none, closes := p.closes ++ [c] } where
  held_lt := h.held_lt
  held_open i d hi hmem := by
    rcases List.mem_append.mp hmem with hmem | hmem
    · exact h.held_open i d hi hmem
    · rw [List.mem_singleton.mp hmem] at hi
      exact h.transit_free c hc i hi
  injective := h.injective
  transit_lt := fun _ hno => nomatch hno
  transit_open := fun _ hno => nomatch hno
  transit_free := fun _ hno => nomatch hno
  closes_lt d hmem := by
    rcases List.mem_append.mp hmem with hmem | hmem
    · exact h.closes_lt d hmem
    · rw [List.mem_singleton.mp hmem]
      exact h.transit_lt c hc
  nodup := nodup_concat h.nodup (h.transit_open c hc)
  placed d hd := by
    rcases h.placed d hd with hi | hmem | htransit
    · exact Or.inl hi
    · exact Or.inr (Or.inl (List.mem_append_left _ hmem))
    · rw [hc] at htransit
      cases htransit
      exact Or.inr (Or.inl (List.mem_append_right _ List.mem_cons_self))

theorem Sound.release [DecidableEq ι] {p : Pool ι} (h : Sound p) {i : ι} {c : ℕ} (hc : p.held i = some c) :
    Sound { p with held := Function.update p.held i none, closes := p.closes ++ [c] } where
  held_lt j d hj := h.held_lt j d (mem_update_none hj).2
  held_open j d hj hmem := by
    obtain ⟨hne, hj⟩ := mem_update_none hj
    rcases List.mem_append.mp hmem with hmem | hmem
    · exact h.held_open j d hj hmem
    · rw [List.mem_singleton.mp hmem] at hj
      exact hne (h.injective j i c hj hc)
  injective j k d hj hk := h.injective j k d (mem_update_none hj).2 (mem_update_none hk).2
  transit_lt := h.transit_lt
  transit_open d hd hmem := by
    rcases List.mem_append.mp hmem with hmem | hmem
    · exact h.transit_open d hd hmem
    · rw [List.mem_singleton.mp hmem] at hd
      exact h.transit_free c hd i hc
  transit_free d hd j hj := h.transit_free d hd j (mem_update_none hj).2
  closes_lt d hmem := by
    rcases List.mem_append.mp hmem with hmem | hmem
    · exact h.closes_lt d hmem
    · rw [List.mem_singleton.mp hmem]
      exact h.held_lt i c hc
  nodup := nodup_concat h.nodup (h.held_open i c hc)
  placed d hd := by
    rcases h.placed d hd with ⟨j, hj⟩ | hmem | htransit
    · rcases eq_or_ne j i with rfl | hne
      · rw [hc] at hj
        cases hj
        exact Or.inr (Or.inl (List.mem_append_right _ List.mem_cons_self))
      · exact Or.inl ⟨j, (Function.update_of_ne hne _ _).trans hj⟩
    · exact Or.inr (Or.inl (List.mem_append_left _ hmem))
    · exact Or.inr (Or.inr htransit)

theorem Sound.clear {p : Pool ι} (h : Sound p) {cs : List ℕ} (hnodup : cs.Nodup)
    (hcs : ∀ c, c ∈ cs ↔ ∃ i, p.held i = some c) :
    Sound ({ p with held := fun _ => none, closes := p.closes ++ cs } : Pool ι) where
  held_lt := fun _ _ hno => nomatch hno
  held_open := fun _ _ hno => nomatch hno
  injective := fun _ _ _ hno => nomatch hno
  transit_lt := h.transit_lt
  transit_open d hd hmem := by
    rcases List.mem_append.mp hmem with hmem | hmem
    · exact h.transit_open d hd hmem
    · obtain ⟨i, hi⟩ := (hcs d).mp hmem
      exact h.transit_free d hd i hi
  transit_free := fun _ _ _ hno => nomatch hno
  closes_lt d hmem := by
    rcases List.mem_append.mp hmem with hmem | hmem
    · exact h.closes_lt d hmem
    · obtain ⟨i, hi⟩ := (hcs d).mp hmem
      exact h.held_lt i d hi
  nodup := by
    refine List.nodup_append.mpr ⟨h.nodup, hnodup, fun d hd e he heq => ?_⟩
    obtain ⟨i, hi⟩ := (hcs e).mp he
    exact h.held_open i e hi (heq ▸ hd)
  placed d hd := by
    rcases h.placed d hd with hi | hmem | htransit
    · exact Or.inr (Or.inl (List.mem_append_right _ ((hcs d).mpr hi)))
    · exact Or.inr (Or.inl (List.mem_append_left _ hmem))
    · exact Or.inr (Or.inr htransit)

/-- **Whatever a pool does, each handle stays in one place.** -/
theorem Step.sound [DecidableEq ι] {p q : Pool ι} (hstep : Step p q) (h : Sound p) : Sound q := by
  cases hstep with
  | accept hnone => exact h.accept hnone
  | settle i c hc hi => exact h.settle hc hi
  | refuse c hc => exact h.refuse hc
  | release i c hc => exact h.release hc
  | clear cs hnodup hcs => exact h.clear hnodup hcs

/-- While no handle is under way each is either held in exactly one slot or closed exactly once. -/
theorem Sound.exact {p : Pool ι} (h : Sound p) (hnone : p.transit = none) {c : ℕ} (hc : c < p.opened) :
    (∃! i, p.held i = some c) ∧ c ∉ p.closes ∨ (∀ i, p.held i ≠ some c) ∧ p.closes.count c = 1 := by
  rcases h.placed c hc with ⟨i, hi⟩ | hmem | htransit
  · exact Or.inl ⟨⟨i, hi, fun j hj => h.injective j i c hj hi⟩, h.held_open i c hi⟩
  · exact Or.inr ⟨fun i hi => h.held_open i c hi hmem, List.count_eq_one_of_mem h.nodup hmem⟩
  · rw [hnone] at htransit
    cases htransit

end GpsBase.Lib.Handles
