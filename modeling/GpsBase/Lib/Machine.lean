import Mathlib.Tactic

/-! # Runs of a machine

A machine is a partial step function: `step s i` is the state after input `i`, or `none` if the input
is not possible in `s`. `run` follows a list of inputs. What a step preserves a run preserves
(`run_invariant`), also when the steps are only known to meet a condition on the state before them
and the input (`Along`, `run_invariant_along`, `along_of_invariant`), and a reflexive and transitive
relation between the two states of a step holds between the ends of a run (`run_relation`). -/

namespace GpsBase.Lib.Machine

variable {σ ι : Type*}

/-- The state after the inputs, if each is possible in its turn. -/
def run (step : σ → ι → Option σ) : σ → List ι → Option σ
  | s, [] => some s
  | s, i :: is => (step s i).bind fun s' => run step s' is

/-- `s'` can be reached from `s`. -/
def Reaches (step : σ → ι → Option σ) (s s' : σ) : Prop := ∃ is, run step s is = some s'

/-- Every step of the run from `s` meets the condition `C`. -/
def Along (step : σ → ι → Option σ) (C : σ → ι → Prop) : σ → List ι → Prop
  | _, [] => True
  | s, i :: is => C s i ∧ ∀ s', step s i = some s' → Along step C s' is

variable {step : σ → ι → Option σ}

@[simp] theorem run_nil (s : σ) : run step s [] = some s := rfl

theorem run_cons_eq_some {s s' : σ} {i : ι} {is : List ι} :
    run step s (i :: is) = some s' ↔ ∃ t, step s i = some t ∧ run step t is = some s' := by
  simp only [run, Option.bind_eq_some_iff]

theorem run_append (s : σ) (is js : List ι) :
    run step s (is ++ js) = (run step s is).bind fun t => run step t js := by
  induction is generalizing s with
  | nil => rfl
  | cons i is ih =>
    simp only [List.cons_append, run, Option.bind_assoc]
    congr 1
    funext t
    exact ih t

theorem Reaches.refl (s : σ) : Reaches step s s := ⟨[], rfl⟩

theorem Reaches.trans {s t u : σ} (h1 : Reaches step s t) (h2 : Reaches step t u) :
    Reaches step s u := by
  obtain ⟨is, hi⟩ := h1
  obtain ⟨js, hj⟩ := h2
  exact ⟨is ++ js, by rw [run_append, hi]; exact hj⟩

theorem Reaches.single {s t : σ} {i : ι} (h : step s i = some t) : Reaches step s t :=
  ⟨[i], by simp [run, h]⟩

/-- **The run rule with a condition on the steps.** -/
theorem run_invariant_along {I : σ → Prop} {C : σ → ι → Prop}
    (hI : ∀ s i s', I s → C s i → step s i = some s' → I s') :
    ∀ (is : List ι) {s s' : σ}, I s → Along step C s is → run step s is = some s' → I s'
  | [], s, s', h, _, hr => by
    cases hr
    exact h
  | i :: is, s, s', h, hC, hr => by
    obtain ⟨t, ht, hr⟩ := run_cons_eq_some.mp hr
    exact run_invariant_along hI is (hI s i t h hC.1 ht) (hC.2 t ht) hr

/-- **The run rule for steps**: what follows of every step from the invariant and a condition on the
step holds of every step of a run that meets the condition. -/
theorem along_of_invariant {I : σ → Prop} {C P : σ → ι → Prop}
    (hI : ∀ s i s', I s → C s i → step s i = some s' → I s') (hP : ∀ s i, I s → C s i → P s i) :
    ∀ (is : List ι) {s : σ}, I s → Along step C s is → Along step P s is
  | [], _, _, _ => trivial
  | i :: is, s, h, hC =>
    ⟨hP s i h hC.1, fun t ht => along_of_invariant hI hP is (hI s i t h hC.1 ht) (hC.2 t ht)⟩

/-- `Along` for a condition that can be computed. -/
def checkAlong (step : σ → ι → Option σ) (c : σ → ι → Bool) : σ → List ι → Bool
  | _, [] => true
  | s, i :: is => c s i && ((step s i).elim true fun s' => checkAlong step c s' is)

theorem along_of_check {C : σ → ι → Prop} {c : σ → ι → Bool}
    (h : ∀ s i, c s i = true → C s i) :
    ∀ (is : List ι) (s : σ), checkAlong step c s is = true → Along step C s is
  | [], _, _ => trivial
  | i :: is, s, hc => by
    rw [checkAlong, Bool.and_eq_true] at hc
    refine ⟨h s i hc.1, fun t ht => along_of_check h is t ?_⟩
    have hrest := hc.2
    rwa [ht] at hrest

/-- Two conditions that agree wherever the invariant holds are met along the same runs. -/
theorem along_congr {I : σ → Prop} {C C' : σ → ι → Prop}
    (hI : ∀ s i s', I s → step s i = some s' → I s') (h : ∀ s i, I s → (C s i ↔ C' s i)) :
    ∀ (is : List ι) {s : σ}, I s → (Along step C s is ↔ Along step C' s is)
  | [], _, _ => Iff.rfl
  | i :: is, s, hs => by
    refine and_congr (h s i hs) (forall_congr' fun t => ?_)
    exact imp_congr_right fun ht => along_congr hI h is (hI s i t hs ht)

/-- A condition that each input meets in every state. -/
theorem along_of_forall {C : σ → ι → Prop} :
    ∀ (is : List ι) (s : σ), (∀ i ∈ is, ∀ s, C s i) → Along step C s is
  | [], _, _ => trivial
  | i :: is, s, h => ⟨h i List.mem_cons_self s,
      fun t _ => along_of_forall is t fun j hj => h j (List.mem_cons_of_mem _ hj)⟩

theorem along_true : ∀ (is : List ι) (s : σ), Along step (fun _ _ => True) s is
  | [], _ => trivial
  | _ :: is, _ => ⟨trivial, fun t _ => along_true is t⟩

/-- **The run rule**: what every step preserves holds in every state reached. -/
theorem run_invariant {I : σ → Prop} (hI : ∀ s i s', I s → step s i = some s' → I s')
    {is : List ι} {s s' : σ} (h : I s) (hr : run step s is = some s') : I s' :=
  run_invariant_along (C := fun _ _ => True) (fun s i s' h _ => hI s i s' h) is h
    (along_true is s) hr

theorem Reaches.invariant {I : σ → Prop} (hI : ∀ s i s', I s → step s i = some s' → I s')
    {s s' : σ} (h : I s) (hr : Reaches step s s') : I s' :=
  run_invariant hI h hr.choose_spec

/-- A relation that every step respects, where the invariant `I` holds, relates the ends of a
run. -/
theorem Reaches.relation {I : σ → Prop} {R : σ → σ → Prop}
    (hI : ∀ s i s', I s → step s i = some s' → I s') (hrefl : ∀ s, R s s)
    (htrans : ∀ s t u, R s t → R t u → R s u)
    (hR : ∀ s i s', I s → step s i = some s' → R s s') {s s' : σ} (h : I s)
    (hr : Reaches step s s') : R s s' := by
  have hgo : I s' ∧ R s s' :=
    hr.invariant (I := fun t => I t ∧ R s t)
      (fun t i u ht hu => ⟨hI t i u ht.1 hu, htrans s t u ht.2 (hR t i u ht.1 hu)⟩) ⟨h, hrefl s⟩
  exact hgo.2

end GpsBase.Lib.Machine
