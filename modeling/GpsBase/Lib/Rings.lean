import Mathlib.Tactic

/-! # Rings that overwrite

A ring of `c` cells that keeps the last `c` elements put into it. `Holds` says which history a ring has: the
element put at `i` is in the cell `i % c` until `c` more were put. Reading from the oldest element gives a
part of the history (`Holds.read`). -/

namespace GpsBase.Lib.Rings

variable {α : Type*} {c : ℕ}

/-- The cells, the index of the next element to be put, and how many there are. -/
structure Ring (α : Type*) (c : ℕ) where
  cells : Fin c → α
  head : Fin c
  count : ℕ

def place (hc : 0 < c) (i : ℕ) : Fin c := ⟨i % c, Nat.mod_lt i hc⟩

def Ring.push (r : Ring α c) (hc : 0 < c) (a : α) : Ring α c where
  cells := Function.update r.cells r.head a
  head := place hc (r.head + 1)
  count := if r.count < c then r.count + 1 else r.count

/-- Where the oldest element is. -/
def Ring.start (r : Ring α c) : ℕ := if r.count = c then r.head else 0

/-- Elements read from an offset behind the oldest one. -/
def Ring.read (r : Ring α c) (hc : 0 < c) (offset n : ℕ) : List α :=
  (List.range n).map fun i => r.cells (place hc (r.start + offset + i))

/-- The ring after the elements of a history. -/
structure Holds (hc : 0 < c) (r : Ring α c) (h : List α) : Prop where
  count : r.count = min h.length c
  head : r.head = place hc h.length
  cells : ∀ i (hi : i < h.length), h.length ≤ i + c → r.cells (place hc i) = h[i]

theorem holds_new (hc : 0 < c) (cells : Fin c → α) : Holds hc ⟨cells, place hc 0, 0⟩ [] where
  count := (Nat.zero_min c).symm
  head := rfl
  cells := fun i hi => absurd hi (Nat.not_lt_zero i)

/-- Less than `c` elements apart, two places differ. -/
theorem place_ne (hc : 0 < c) {i j : ℕ} (hij : i < j) (hj : j < i + c) : place hc i ≠ place hc j := by
  intro heq
  have hmod : i % c = j % c := congrArg Fin.val heq
  have hdvd : c ∣ j - i := (Nat.modEq_iff_dvd' hij.le).mp hmod
  have := Nat.le_of_dvd (by omega) hdvd
  omega

/-- **An element is put at the end of the history.** -/
theorem Holds.push {hc : 0 < c} {r : Ring α c} {h : List α} (hr : Holds hc r h) (a : α) :
    Holds hc (r.push hc a) (h ++ [a]) where
  count := by
    unfold Ring.push
    rw [hr.count, List.length_append, List.length_singleton]
    dsimp only
    split_ifs <;> omega
  head := by
    unfold Ring.push
    rw [hr.head, List.length_append, List.length_singleton]
    exact Fin.ext (Nat.mod_add_mod _ _ _)
  cells := by
    intro i hi hlast
    rw [List.length_append, List.length_singleton] at hi hlast
    unfold Ring.push
    rw [hr.head]
    dsimp only
    rcases Nat.lt_or_ge i h.length with hlt | hge
    · rw [Function.update_of_ne (place_ne hc hlt (by omega)), hr.cells i hlt (by omega),
        List.getElem_append_left hlt]
    · obtain rfl : i = h.length := by omega
      rw [Function.update_self, List.getElem_append_right (le_refl _)]
      simp

theorem Holds.pushAll {hc : 0 < c} {r : Ring α c} {h : List α} (hr : Holds hc r h) (as : List α) :
    Holds hc (as.foldl (fun r a => r.push hc a) r) (h ++ as) := by
  induction as generalizing r h with
  | nil => rwa [List.append_nil]
  | cons a as ih =>
    rw [List.foldl_cons, List.append_cons]
    exact ih (hr.push a)

/-- **What is read is the part of the history** that begins `offset` behind the oldest element. -/
theorem Holds.read {hc : 0 < c} {r : Ring α c} {h : List α} (hr : Holds hc r h) {offset n : ℕ}
    (hn : offset + n ≤ r.count) :
    r.read hc offset n = (h.drop (h.length - r.count + offset)).take n := by
  have hcount := hr.count
  refine List.ext_getElem ?_ fun i hi hi' => ?_
  · unfold Ring.read
    rw [List.length_map, List.length_range, List.length_take, List.length_drop]
    omega
  · unfold Ring.read at hi ⊢
    rw [List.length_map, List.length_range] at hi
    rw [List.getElem_map, List.getElem_range, List.getElem_take, List.getElem_drop,
      ← hr.cells _ (by omega) (by omega)]
    congr 1
    refine Fin.ext ?_
    show (r.start + offset + i) % c = (h.length - r.count + offset + i) % c
    unfold Ring.start
    split_ifs with hfull
    · have hhead : (r.head : ℕ) = h.length % c := congrArg Fin.val hr.head
      have hsum : h.length = h.length - c + c := by omega
      rw [hhead, hfull, add_assoc, add_assoc, Nat.mod_add_mod]
      nth_rewrite 1 [hsum]
      rw [add_right_comm, Nat.add_mod_right]
    · have hall : h.length - r.count = 0 := by omega
      rw [hall]

end GpsBase.Lib.Rings
