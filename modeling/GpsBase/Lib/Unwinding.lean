import GpsBase.Lib.Machine

/-! # Two runs, one with more inputs

A list of inputs of which some are inserted (`true`) stands for two runs of one machine: the first takes
only the inputs that were not inserted, the second takes all. `both` is the machine that takes the two
runs in step. What an inserted input keeps in the second run alone, and a common input keeps in both,
holds between the ends of the two runs (`unwinding`). -/

namespace GpsBase.Lib.Unwinding

open GpsBase.Lib.Machine

variable {σ ι : Type*} {step : σ → ι → Option σ}

/-- The inputs that both runs take. -/
def common (inputs : List (Bool × ι)) : List ι := (inputs.filter fun i => !i.1).map Prod.snd

/-- The inputs of the second run. -/
def all (inputs : List (Bool × ι)) : List ι := inputs.map Prod.snd

def both (step : σ → ι → Option σ) (s : σ × σ) : Bool × ι → Option (σ × σ)
  | (true, i) => (step s.2 i).map fun t => (s.1, t)
  | (false, i) => (step s.1 i).bind fun s' => (step s.2 i).map fun t => (s', t)

theorem common_inserted (i : ι) (is : List (Bool × ι)) : common ((true, i) :: is) = common is := rfl

theorem common_cons (i : ι) (is : List (Bool × ι)) : common ((false, i) :: is) = i :: common is := rfl

theorem all_cons (i : Bool × ι) (is : List (Bool × ι)) : all (i :: is) = i.2 :: all is := rfl

theorem run_both {s t s' t' : σ} {is : List (Bool × ι)} (hs : run step s (common is) = some s')
    (ht : run step t (all is) = some t') : run (both step) (s, t) is = some (s', t') := by
  induction is generalizing s t with
  | nil =>
    cases hs
    cases ht
    rfl
  | cons i is ih =>
    obtain ⟨u, hu, hall⟩ := run_cons_eq_some.mp ((all_cons i is).symm ▸ ht)
    rcases i with ⟨_ | _, i⟩
    · rw [common_cons] at hs
      obtain ⟨v, hv, hrest⟩ := run_cons_eq_some.mp hs
      refine run_cons_eq_some.mpr ⟨(v, u), ?_, ih hrest hall⟩
      simp only [both, hv, Option.bind_some]
      rw [hu]
      rfl
    · rw [common_inserted] at hs
      refine run_cons_eq_some.mpr ⟨(s, u), ?_, ih hs hall⟩
      simp only [both]
      rw [hu]
      rfl

/-- **The rule of unwinding**: a relation between the two runs that an inserted input keeps, and a common
input keeps, holds between the ends. -/
theorem unwinding {R : σ → σ → Prop} {C : σ × σ → Bool × ι → Prop}
    (hinserted : ∀ s t i t', R s t → C (s, t) (true, i) → step t i = some t' → R s t')
    (hcommon : ∀ s t i s' t', R s t → C (s, t) (false, i) → step s i = some s' → step t i = some t' →
      R s' t')
    {s t s' t' : σ} {is : List (Bool × ι)} (h : R s t) (hC : Along (both step) C (s, t) is)
    (hs : run step s (common is) = some s') (ht : run step t (all is) = some t') : R s' t' := by
  refine run_invariant_along (I := fun p => R p.1 p.2) (fun p i p' hR hi hp => ?_) is h hC
    (run_both hs ht)
  rcases i with ⟨_ | _, i⟩
  · obtain ⟨u, hu, hp⟩ := Option.bind_eq_some_iff.mp hp
    obtain ⟨v, hv, rfl⟩ := Option.map_eq_some_iff.mp hp
    exact hcommon p.1 p.2 i u v hR hi hu hv
  · obtain ⟨v, hv, rfl⟩ := Option.map_eq_some_iff.mp hp
    exact hinserted p.1 p.2 i v hR hi hv

end GpsBase.Lib.Unwinding
