import Mathlib.Tactic

/-! # Stores of keys and values

A store holds at most one value for each key. `putAll` writes a list of values in order, and a key
then holds the value written if the keys are distinct (`putAll_take`). `Survives` is what may be found
after a loss of power when each write may already be durable: every key holds its durable value or one
written since. -/

namespace GpsBase.Lib.KeyValue

variable {K V : Type*}

/-- A value for some of the keys. -/
abbrev Store (K V : Type*) := K → Option V

section Writes

variable [DecidableEq K]

def put (s : Store K V) (k : K) (v : V) : Store K V := Function.update s k (some v)

/-- Values written in order. -/
def putAll (s : Store K V) : List (K × V) → Store K V
  | [] => s
  | (k, v) :: kvs => putAll (put s k v) kvs

theorem putAll_of_notMem {k : K} : ∀ (kvs : List (K × V)) (s : Store K V),
    k ∉ kvs.map Prod.fst → putAll s kvs k = s k
  | [], _, _ => rfl
  | (k', v') :: kvs, s, h => by
    rw [List.map_cons, List.mem_cons, not_or] at h
    rw [putAll, putAll_of_notMem kvs _ h.2]
    exact Function.update_of_ne h.1 _ _

theorem putAll_of_mem {k : K} {v : V} : ∀ (kvs : List (K × V)) (s : Store K V),
    (kvs.map Prod.fst).Nodup → (k, v) ∈ kvs → putAll s kvs k = some v
  | (k', v') :: kvs, s, hnodup, h => by
    rw [List.map_cons, List.nodup_cons] at hnodup
    rcases List.mem_cons.mp h with h | h
    · cases h
      rw [putAll, putAll_of_notMem kvs _ hnodup.1]
      exact Function.update_self _ _ _
    · exact putAll_of_mem kvs _ hnodup.2 h

/-- After the first `j` of a list of writes a key of the list holds its new value if its place is
among them, and its old value otherwise. -/
theorem putAll_take {kvs : List (K × V)} (hnodup : (kvs.map Prod.fst).Nodup) {i : ℕ} {k : K} {v : V}
    (hi : kvs[i]? = some (k, v)) (s : Store K V) (j : ℕ) :
    putAll s (kvs.take j) k = if i < j then some v else s k := by
  obtain ⟨hlt, hget⟩ := List.getElem?_eq_some_iff.mp hi
  have hmap : ((kvs.take j).map Prod.fst) = (kvs.map Prod.fst).take j := List.map_take
  split_ifs with hij
  · refine putAll_of_mem _ s ?_ ?_
    · rw [hmap]
      exact hnodup.sublist (List.take_sublist _ _)
    · exact hget ▸ List.mem_take_iff_getElem.mpr ⟨i, by omega, rfl⟩
  · refine putAll_of_notMem _ s fun hmem => hij ?_
    rw [hmap] at hmem
    obtain ⟨i', hi', hk⟩ := List.mem_take_iff_getElem.mp hmem
    rw [List.length_map] at hi'
    have hbound : i < (kvs.map Prod.fst).length := by simpa using hlt
    have hsame : (kvs.map Prod.fst)[i'] = (kvs.map Prod.fst)[i] := by
      rw [hk, List.getElem_map, hget]
    have := (hnodup.getElem_inj_iff).mp hsame
    omega

end Writes

/-! ### Loss of power -/

/-- `s` may be found after a loss of power. -/
def Survives (durable : Store K V) (pending : List (K × V)) (s : Store K V) : Prop :=
  ∀ k, s k = durable k ∨ ∃ v, (k, v) ∈ pending ∧ s k = some v

/-- More writes change a store that survives only at their keys, and only to their values. -/
theorem Survives.of_append {durable s : Store K V} {pending more : List (K × V)}
    (h : Survives durable (pending ++ more) s) :
    ∃ s', Survives durable pending s' ∧ ∀ k, s k = s' k ∨ ∃ v, (k, v) ∈ more ∧ s k = some v := by
  classical
  refine ⟨fun k => if ∃ v, (k, v) ∈ pending ∧ s k = some v then s k else durable k, fun k => ?_,
    fun k => ?_⟩
  · dsimp only
    split_ifs with hk
    · exact Or.inr hk
    · exact Or.inl rfl
  · dsimp only
    split_ifs with hk
    · exact Or.inl rfl
    · rcases h k with h | ⟨v, hv, hs⟩
      · exact Or.inl h
      · rcases List.mem_append.mp hv with hv | hv
        · exact absurd ⟨v, hv, hs⟩ hk
        · exact Or.inr ⟨v, hv, hs⟩

theorem survives_nil {durable s : Store K V} (h : Survives durable [] s) : s = durable := by
  funext k
  rcases h k with h | ⟨v, hv, -⟩
  · exact h
  · cases hv

end GpsBase.Lib.KeyValue
