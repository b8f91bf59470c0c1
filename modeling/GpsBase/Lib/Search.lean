import Mathlib.Data.List.TakeWhile
import Mathlib.Tactic

/-! # Texts found in a text

The first place of a text in another (`findText`), and what stands at the front of a text up to a
separator. -/

namespace GpsBase.Lib.Search

variable {α : Type*}

/-! ### The bytes of a front -/

theorem drop_length_takeWhile (p : α → Bool) (s : List α) :
    s.drop (s.takeWhile p).length = s.dropWhile p := by
  have hdrop : (s.takeWhile p ++ s.dropWhile p).drop (s.takeWhile p).length = s.dropWhile p := List.drop_left
  rwa [List.takeWhile_append_dropWhile] at hdrop

theorem mem_dropWhile {p : α → Bool} {b : α} {s : List α} (hb : p b = false) (h : b ∈ s) :
    b ∈ s.dropWhile p := by
  rw [← List.takeWhile_append_dropWhile (p := p) (l := s), List.mem_append] at h
  rcases h with h | h
  · have hp := List.mem_takeWhile_imp h
    rw [hb] at hp
    cases hp
  · exact h

/-! ### The first place -/

/-- A text is not found behind another byte unless it has that byte. -/
theorem isPrefix_append_iff {pat s rest : List α} {b : α} (h : b ∉ pat) :
    pat <+: s ++ b :: rest ↔ pat <+: s := by
  refine ⟨fun hpat => ?_, fun hpat => hpat.trans (List.prefix_append _ _)⟩
  rcases List.prefix_or_prefix_of_prefix hpat (List.prefix_append s (b :: rest)) with hle | ⟨more, rfl⟩
  · exact hle
  · cases more with
    | nil => rw [List.append_nil]
    | cons m more =>
      obtain ⟨t, ht⟩ := hpat
      rw [List.append_assoc, List.append_cancel_left_eq, List.cons_append] at ht
      exact absurd (List.mem_append_right s ((List.cons.inj ht).1 ▸ List.mem_cons_self)) h

variable [DecidableEq α]

def findText (pat s : List α) : Option ℕ :=
  (List.range (s.length + 1)).find? fun i => pat.isPrefixOf (s.drop i)

theorem findText_eq_some_iff {pat s : List α} {i : ℕ} : findText pat s = some i ↔
    i ≤ s.length ∧ pat <+: s.drop i ∧ ∀ j < i, ¬ pat <+: s.drop j := by
  unfold findText
  rw [List.find?_range_eq_some]
  simp only [List.isPrefixOf_iff_prefix, List.mem_range, Nat.lt_succ_iff, Bool.not_eq_true',
    ← Bool.not_eq_true]
  constructor
  · rintro ⟨h1, h2, h3⟩
    exact ⟨h2, h1, h3⟩
  · rintro ⟨h1, h2, h3⟩
    exact ⟨h2, h1, h3⟩

theorem findText_eq_none_iff {pat s : List α} : findText pat s = none ↔
    ∀ i ≤ s.length, ¬ pat <+: s.drop i := by
  unfold findText
  rw [List.find?_eq_none]
  simp only [List.mem_range, Nat.lt_succ_iff, List.isPrefixOf_iff_prefix]

theorem findText_append_singleton {pat s : List α} {b : α} (h : b ∉ pat) (hne : pat ≠ []) :
    findText pat (s ++ [b]) = findText pat s := by
  have hiff : ∀ i ≤ s.length, pat <+: (s ++ [b]).drop i ↔ pat <+: s.drop i := by
    intro i hi
    rw [List.drop_append_of_le_length hi]
    exact isPrefix_append_iff h
  have hlast : ∀ i, s.length < i → ¬ pat <+: (s ++ [b]).drop i := by
    intro i hi hpat
    rw [List.drop_of_length_le (by rw [List.length_append, List.length_singleton]; omega),
      List.prefix_nil] at hpat
    exact hne hpat
  rcases hfind : findText pat s with _ | i
  · rw [findText_eq_none_iff] at hfind ⊢
    intro i _ hpat
    rcases Nat.lt_or_ge s.length i with hi | hi
    · exact hlast i hi hpat
    · exact hfind i hi ((hiff i hi).mp hpat)
  · rw [findText_eq_some_iff] at hfind ⊢
    obtain ⟨h1, h2, h3⟩ := hfind
    exact ⟨h1.trans (by rw [List.length_append]; omega), (hiff i h1).mpr h2,
      fun j hj hpat => h3 j hj ((hiff j (hj.le.trans h1)).mp hpat)⟩

/-! ### Separators -/

theorem splitOn_cons_self (s : List α) (sep : α) : (sep :: s).splitOn sep = [] :: s.splitOn sep := by
  unfold List.splitOn
  rw [List.splitOnP_cons_eq_if_modifyHead, if_pos (beq_self_eq_true sep)]

theorem splitOn_cons_of_ne {b sep : α} (h : b ≠ sep) (s : List α) :
    (b :: s).splitOn sep = (s.splitOn sep).modifyHead (List.cons b) := by
  unfold List.splitOn
  rw [List.splitOnP_cons_eq_if_modifyHead, if_neg (by simpa using h)]

theorem splitOn_eq (sep : α) (s : List α) : s.splitOn sep =
    (s.takeWhile fun b => b ≠ sep) ::
      if (s.takeWhile fun b => b ≠ sep).length < s.length then
        (s.drop ((s.takeWhile fun b => b ≠ sep).length + 1)).splitOn sep
      else [] := by
  induction s with
  | nil => rfl
  | cons b s ih =>
    by_cases hb : b = sep
    · subst hb
      rw [splitOn_cons_self, List.takeWhile_cons_of_neg (by simp)]
      rfl
    · rw [splitOn_cons_of_ne hb, List.takeWhile_cons_of_pos (by simpa using hb), ih]
      simp only [List.modifyHead_cons, List.length_cons, Nat.add_lt_add_iff_right, List.drop_succ_cons]

/-- A text without a separator is at the front of a text if it is at the front of what comes before the
first separator. -/
theorem isPrefixOf_takeWhile {pat s : List α} {sep : α} (h : sep ∉ pat) :
    pat.isPrefixOf (s.takeWhile fun b => b ≠ sep) = pat.isPrefixOf s := by
  induction pat generalizing s with
  | nil => rfl
  | cons w pat ih =>
    cases s with
    | nil => rfl
    | cons b s =>
      rw [List.mem_cons, not_or] at h
      obtain ⟨hw, hpat⟩ := h
      by_cases hb : b = sep
      · subst hb
        rw [List.takeWhile_cons_of_neg (by simp)]
        have hne : (w == b) = false := by simpa using Ne.symm hw
        simp only [List.isPrefixOf, hne, Bool.false_and]
      · rw [List.takeWhile_cons_of_pos (by simpa using hb)]
        simp only [List.isPrefixOf, ih hpat]

theorem takeWhile_append_sep {s rest : List α} {sep : α} (h : sep ∉ s) :
    ((s ++ sep :: rest).takeWhile fun b => b ≠ sep) = s := by
  have hpos : ∀ b ∈ s, decide (b ≠ sep) = true := fun b hb => decide_eq_true fun heq => h (heq ▸ hb)
  rw [List.takeWhile_append_of_pos hpos, List.takeWhile_cons_of_neg (by simp), List.append_nil]

theorem takeWhile_eq_self {s : List α} {sep : α} (h : sep ∉ s) : (s.takeWhile fun b => b ≠ sep) = s :=
  List.takeWhile_eq_self_iff.mpr fun _ hb => decide_eq_true fun heq => h (heq ▸ hb)

end GpsBase.Lib.Search
