import Mathlib.Data.List.Induction
import Mathlib.Data.List.Nodup
import Mathlib.Order.Basic
import Mathlib.Data.Int.Order.Basic
import Mathlib.Tactic.Common

/-! # The best of each kind

Items come one after the other, each of a key and for a slot of it, with a preference. A table with an
entry for each key, in the order of the first items, keeps in each slot the item of the highest preference,
the first of equal ones: an item is put in its slot if it is preferred to what is there (`put`), and the
table of one more item is known from the table so far (`Chosen.concat`). -/

namespace GpsBase.Lib.Preference

variable {κ ι α ε : Type*}

structure Item (κ ι α : Type*) where
  key : κ
  slot : ι
  pref : ℤ
  value : α

/-- **The best item of a key for a slot**: no other one is preferred to it, and none before it is as good. -/
def Best (items : List (Item κ ι α)) (k : κ) (b : ι) (r : Item κ ι α) : Prop :=
  ∃ before after, items = before ++ r :: after ∧ r.key = k ∧ r.slot = b ∧
    (∀ q ∈ before, q.key = k → q.slot = b → q.pref < r.pref) ∧
    ∀ q ∈ after, q.key = k → q.slot = b → q.pref ≤ r.pref

/-- What a slot holds, with its preference: the best item, or nothing. -/
def Cell (blank : α) (items : List (Item κ ι α)) (k : κ) (b : ι) (cell : α × ℤ) : Prop :=
  (∃ r, Best items k b r ∧ cell = (r.value, r.pref)) ∨
    (∀ r ∈ items, r.key = k → r.slot ≠ b) ∧ cell = (blank, -1)

/-- An item comes to a slot of a key. -/
def put [DecidableEq κ] [DecidableEq ι] (r : Item κ ι α) (k : κ) (b : ι) (cell : α × ℤ) : α × ℤ :=
  if r.key = k ∧ r.slot = b ∧ cell.2 < r.pref then (r.value, r.pref) else cell

variable {blank : α} {items : List (Item κ ι α)} {k : κ} {b : ι}

theorem Cell.le {cell : α × ℤ} (h : Cell blank items k b cell) {q : Item κ ι α} (hq : q ∈ items)
    (hk : q.key = k) (hb : q.slot = b) : q.pref ≤ cell.2 := by
  rcases h with ⟨r, ⟨before, after, rfl, -, -, hbefore, hafter⟩, rfl⟩ | ⟨hnone, -⟩
  · rcases List.mem_append.mp hq with hq | hq
    · exact (hbefore q hq hk hb).le
    · rcases List.mem_cons.mp hq with rfl | hq
      · exact le_refl _
      · exact hafter q hq hk hb
  · exact absurd hb (hnone q hq hk)

theorem Cell.concat [DecidableEq κ] [DecidableEq ι] {cell : α × ℤ} (h : Cell blank items k b cell)
    {r : Item κ ι α} (hr : 0 ≤ r.pref) :
    Cell blank (items ++ [r]) k b (put r k b cell) := by
  unfold put
  by_cases hput : r.key = k ∧ r.slot = b ∧ cell.2 < r.pref
  · rw [if_pos hput]
    obtain ⟨hk, hb, hlt⟩ := hput
    refine Or.inl ⟨r, ⟨items, [], rfl, hk, hb, fun q hq hqk hqb => ?_, ?_⟩, rfl⟩
    · exact lt_of_le_of_lt (h.le hq hqk hqb) hlt
    · exact fun q hq => absurd hq List.not_mem_nil
  · rw [if_neg hput]
    rcases h with ⟨q, ⟨before, after, rfl, hk, hb, hbefore, hafter⟩, rfl⟩ | ⟨hnone, rfl⟩
    · refine Or.inl ⟨q, ⟨before, after ++ [r], ?_, hk, hb, hbefore, fun p hp hpk hpb => ?_⟩, rfl⟩
      · rw [List.append_assoc, List.cons_append]
      · rcases List.mem_append.mp hp with hp | hp
        · exact hafter p hp hpk hpb
        · rw [List.mem_singleton.mp hp] at hpk hpb ⊢
          exact not_lt.mp fun hlt => hput ⟨hpk, hpb, hlt⟩
    · refine Or.inr ⟨fun p hp hpk hpb => ?_, rfl⟩
      rcases List.mem_append.mp hp with hp | hp
      · exact hnone p hp hpk hpb
      · rw [List.mem_singleton.mp hp] at hpk hpb
        exact hput ⟨hpk, hpb, by show (-1 : ℤ) < r.pref; omega⟩

theorem cell_new (k : κ) (b : ι) (h : ∀ r ∈ items, r.key ≠ k) : Cell blank items k b (blank, -1) :=
  Or.inr ⟨fun r hr hk => absurd hk (h r hr), rfl⟩

/-! ### Tables -/

variable [DecidableEq κ]

theorem eraseDups_concat (l : List κ) (k : κ) :
    (l ++ [k]).eraseDups = if k ∈ l then l.eraseDups else l.eraseDups ++ [k] := by
  rw [List.eraseDups_append]
  unfold List.removeAll
  by_cases hk : k ∈ l
  · rw [if_pos hk, List.filter_cons_of_neg (by simpa using hk), List.filter_nil]
    exact List.append_nil _
  · rw [if_neg hk, List.filter_cons_of_pos (by simpa using hk), List.filter_nil]
    rfl

theorem nodup_eraseDups (l : List κ) : l.eraseDups.Nodup := by
  induction l using List.reverseRecOn with
  | nil => exact List.nodup_nil
  | append_singleton l k ih =>
    rw [eraseDups_concat]
    split_ifs with hk
    · exact ih
    · refine List.nodup_append.mpr ⟨ih, List.nodup_singleton k, fun a ha b hb heq => hk ?_⟩
      rw [← List.mem_singleton.mp hb, ← heq]
      exact List.mem_eraseDups.mp ha

/-- **The table of some items.** -/
structure Chosen (blank : α) (key : ε → κ) (cell : ε → ι → α × ℤ) (items : List (Item κ ι α))
    (entries : List ε) : Prop where
  keys : entries.map key = (items.map Item.key).eraseDups
  cells : ∀ e ∈ entries, ∀ b, Cell blank items (key e) b (cell e b)

variable {key : ε → κ} {cell : ε → ι → α × ℤ} {entries : List ε}

theorem chosen_nil : Chosen blank key cell [] [] where
  keys := rfl
  cells := fun _ he => absurd he List.not_mem_nil

theorem Chosen.mem_keys (h : Chosen blank key cell items entries) {k : κ} :
    k ∈ entries.map key ↔ ∃ r ∈ items, r.key = k := by
  rw [h.keys, List.mem_eraseDups, List.mem_map]

theorem Chosen.nodup (h : Chosen blank key cell items entries) : (entries.map key).Nodup := by
  rw [h.keys]
  exact nodup_eraseDups _

/-- **The table of one more item**: each entry is one that was there, or a new one, and the item came to
its slots. -/
theorem Chosen.concat [DecidableEq ι] (h : Chosen blank key cell items entries) {r : Item κ ι α}
    (hr : 0 ≤ r.pref)
    {entries' : List ε} (hkeys : entries'.map key =
      if r.key ∈ entries.map key then entries.map key else entries.map key ++ [r.key])
    (hcells : ∀ e ∈ entries', (∃ e₀ ∈ entries, key e₀ = key e ∧ ∀ b, cell e b = put r (key e) b (cell e₀ b)) ∨
      key e ∉ entries.map key ∧ ∀ b, cell e b = put r (key e) b (blank, -1)) :
    Chosen blank key cell (items ++ [r]) entries' := by
  refine ⟨?_, fun e he b => ?_⟩
  · rw [hkeys, List.map_append, List.map_singleton, eraseDups_concat, h.keys]
    exact if_congr List.mem_eraseDups rfl rfl
  · rcases hcells e he with ⟨e₀, he₀, hkey, hcell⟩ | ⟨hnew, hcell⟩
    · rw [hcell]
      have hold := h.cells e₀ he₀ b
      rw [hkey] at hold
      exact hold.concat hr
    · rw [hcell]
      exact (cell_new (key e) b fun q hq hk => hnew (h.mem_keys.mpr ⟨q, hq, hk⟩)).concat hr

end GpsBase.Lib.Preference
