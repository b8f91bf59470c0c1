import Mathlib.Tactic

/-! # Lines of a request

A request is lines that end with CR and LF, and an empty one behind them. `parse` reads them, and takes a CR
or LF anywhere else for an error; it inverts `render` (`parse_eq_some_iff`). -/

namespace GpsBase.Lib.Crlf

/-! ### Cutting a text -/

section Cut

variable {α : Type*} [DecidableEq α]

/-- What is behind the beginning of a text. -/
def after (front s : List α) : Option (List α) :=
  if front.isPrefixOf s then some (s.drop front.length) else none

/-- A text before and behind the first separator. -/
def splitFirst (sep : α) : List α → Option (List α × List α)
  | [] => none
  | b :: s => if b = sep then some ([], s) else (splitFirst sep s).map fun r => (b :: r.1, r.2)

theorem after_eq_some_iff {front s rest : List α} : after front s = some rest ↔ s = front ++ rest := by
  unfold after
  split_ifs with h
  · obtain ⟨t, rfl⟩ := List.isPrefixOf_iff_prefix.mp h
    rw [List.drop_left, Option.some.injEq, List.append_cancel_left_eq]
  · refine iff_of_false (by simp) ?_
    rintro rfl
    exact h (List.isPrefixOf_iff_prefix.mpr (List.prefix_append _ _))

theorem splitFirst_eq_some_iff {sep : α} {s x y : List α} :
    splitFirst sep s = some (x, y) ↔ s = x ++ sep :: y ∧ sep ∉ x := by
  induction s generalizing x with
  | nil => simp [splitFirst]
  | cons b s ih =>
    rw [splitFirst]
    split_ifs with hb
    · subst hb
      rcases x with _ | ⟨c, x⟩
      · simp [eq_comm]
      · refine iff_of_false (by simp) ?_
        rintro ⟨heq, hx⟩
        exact hx ((List.cons.inj heq).1 ▸ List.mem_cons_self)
    · rcases x with _ | ⟨c, x⟩
      · refine iff_of_false (by simp) ?_
        rintro ⟨heq, -⟩
        exact hb (List.cons.inj heq).1
      · rw [Option.map_eq_some_iff, List.cons_append, List.cons.injEq, List.mem_cons, not_or]
        constructor
        · rintro ⟨⟨x', y'⟩, hsplit, heq⟩
          cases heq
          obtain ⟨hs, hx⟩ := ih.mp hsplit
          exact ⟨⟨rfl, hs⟩, fun h => hb h.symm, hx⟩
        · rintro ⟨⟨rfl, hs⟩, -, hx⟩
          exact ⟨(x, y), ih.mpr ⟨hs, hx⟩, rfl⟩

end Cut

/-! ### Lines -/

/-- Text for a line: there is no CR or LF in it. -/
def Plain (line : List UInt8) : Prop := 13 ∉ line ∧ 10 ∉ line

instance (line : List UInt8) : Decidable (Plain line) := inferInstanceAs (Decidable (_ ∧ _))

theorem plain_append {x y : List UInt8} : Plain (x ++ y) ↔ Plain x ∧ Plain y := by
  unfold Plain
  simp only [List.mem_append, not_or]
  tauto

/-- Lines, each with its end. -/
def render (lines : List (List UInt8)) : List UInt8 := lines.flatMap fun line => line ++ [13, 10]

/-- The lines up to an empty one, and what is behind it; `cur` is what has been read of a line. -/
def parse : List UInt8 → List UInt8 → Option (List (List UInt8) × List UInt8)
  | cur, 13 :: 10 :: s =>
    if cur = [] then some ([], s) else (parse [] s).map fun r => (cur :: r.1, r.2)
  | cur, b :: s => if b = 13 ∨ b = 10 then none else parse (cur ++ [b]) s
  | _, [] => none

/-- What is read is lines without a line break in them. -/
theorem of_parse {cur s rest : List UInt8} {lines : List (List UInt8)} (h : parse cur s = some (lines, rest))
    (hcur : Plain cur) : cur ++ s = render lines ++ 13 :: 10 :: rest ∧ ∀ line ∈ lines, line ≠ [] ∧ Plain line := by
  induction cur, s using parse.induct generalizing lines with
  | case1 s =>
    rw [parse, if_pos rfl] at h
    cases h
    exact ⟨rfl, fun _ h => absurd h List.not_mem_nil⟩
  | case2 cur s hne ih =>
    rw [parse, if_neg hne] at h
    obtain ⟨⟨more, rest'⟩, hmore, heq⟩ := Option.map_eq_some_iff.mp h
    cases heq
    obtain ⟨htext, hlines⟩ := ih hmore ⟨List.not_mem_nil, List.not_mem_nil⟩
    rw [List.nil_append] at htext
    refine ⟨?_, List.forall_mem_cons.mpr ⟨⟨hne, hcur⟩, hlines⟩⟩
    rw [htext]
    unfold render
    simp
  | case3 cur b s hshape hb =>
    rw [parse.eq_2 _ _ _ hshape, if_pos hb] at h
    cases h
  | case4 cur b s hshape hb ih =>
    rw [parse.eq_2 _ _ _ hshape, if_neg hb] at h
    have hplain : Plain (cur ++ [b]) := by
      rw [not_or] at hb
      refine plain_append.mpr ⟨hcur, ?_⟩
      exact ⟨fun h => hb.1 (List.mem_singleton.mp h).symm, fun h => hb.2 (List.mem_singleton.mp h).symm⟩
    have hrest := ih h hplain
    rwa [List.append_assoc, List.singleton_append] at hrest
  | case5 cur =>
    rw [parse] at h
    cases h

theorem parse_line {line : List UInt8} (hline : Plain line) : ∀ (cur s : List UInt8),
    parse cur (line ++ 13 :: 10 :: s) = parse (cur ++ line) (13 :: 10 :: s) := by
  induction line with
  | nil =>
    intro cur s
    rw [List.append_nil, List.nil_append]
  | cons b line ih =>
    intro cur s
    obtain ⟨h13, h10⟩ := hline
    rw [List.mem_cons, not_or] at h13 h10
    have hstep : parse cur (b :: (line ++ 13 :: 10 :: s)) = parse (cur ++ [b]) (line ++ 13 :: 10 :: s) := by
      rw [parse.eq_2 _ _ _ fun s' hb _ => h13.1 hb.symm, if_neg]
      rintro (hb | hb)
      · exact h13.1 hb.symm
      · exact h10.1 hb.symm
    rw [List.cons_append, hstep, ih ⟨h13.2, h10.2⟩, List.append_assoc, List.singleton_append]

/-- **The lines that are read are those that were written.** -/
theorem parse_render {lines : List (List UInt8)} (hlines : ∀ line ∈ lines, line ≠ [] ∧ Plain line)
    (rest : List UInt8) : parse [] (render lines ++ 13 :: 10 :: rest) = some (lines, rest) := by
  induction lines with
  | nil => rfl
  | cons line lines ih =>
    obtain ⟨⟨hne, hplain⟩, hlines⟩ := List.forall_mem_cons.mp hlines
    have hshape : render (line :: lines) ++ 13 :: 10 :: rest =
        line ++ 13 :: 10 :: (render lines ++ 13 :: 10 :: rest) := by
      unfold render
      simp
    rw [hshape, parse_line hplain, List.nil_append, parse, if_neg hne, ih hlines]
    rfl

theorem parse_eq_some_iff {s rest : List UInt8} {lines : List (List UInt8)} : parse [] s = some (lines, rest) ↔
    s = render lines ++ 13 :: 10 :: rest ∧ ∀ line ∈ lines, line ≠ [] ∧ Plain line := by
  constructor
  · intro h
    have hof := of_parse h ⟨List.not_mem_nil, List.not_mem_nil⟩
    rwa [List.nil_append] at hof
  · rintro ⟨rfl, hlines⟩
    exact parse_render hlines rest

end GpsBase.Lib.Crlf
