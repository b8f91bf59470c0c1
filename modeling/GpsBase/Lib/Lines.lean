import Mathlib.Tactic

/-! # Lines of a text file

What `readlines` of a Python file opened for text gives: every `\n`, `\r` and `\r\n` ends a line and is
read as `\n`. Text is kept as bytes; a byte from 128 on is part of some character that is neither a
line end nor any of the ASCII characters. A piece of text without a line end is in the text exactly if
it is in one of the lines (`infix_iff_line`). -/

namespace GpsBase.Lib.Lines

def lf : UInt8 := 10

def cr : UInt8 := 13

/-- The text with its line ends as `\n`, after a carriage return if `afterCr`. -/
def newlines : Bool → List UInt8 → List UInt8
  | _, [] => []
  | afterCr, b :: s =>
    if b = cr then lf :: newlines true s
    else if b = lf ∧ afterCr = true then newlines false s
    else b :: newlines false s

/-- The lines of a text, each with its end. -/
def splitLines : List UInt8 → List (List UInt8)
  | [] => []
  | b :: s =>
    if b = lf then [lf] :: splitLines s
    else match splitLines s with
      | [] => [[b]]
      | l :: ls => (b :: l) :: ls

def readlines (s : List UInt8) : List (List UInt8) := splitLines (newlines false s)

/-- A piece of a line: no byte of it ends one. -/
structure Inline (s : List UInt8) : Prop where
  lf : lf ∉ s
  cr : cr ∉ s

instance (s : List UInt8) : Decidable (Inline s) :=
  decidable_of_iff (lf ∉ s ∧ cr ∉ s) ⟨fun h => ⟨h.1, h.2⟩, fun h => ⟨h.lf, h.cr⟩⟩

theorem Inline.tail {b : UInt8} {s : List UInt8} (h : Inline (b :: s)) : Inline s :=
  ⟨fun hm => h.lf (List.mem_cons_of_mem _ hm), fun hm => h.cr (List.mem_cons_of_mem _ hm)⟩

theorem Inline.head {b : UInt8} {s : List UInt8} (h : Inline (b :: s)) : b ≠ Lines.lf ∧ b ≠ Lines.cr :=
  ⟨fun hb => h.lf (hb ▸ List.mem_cons_self), fun hb => h.cr (hb ▸ List.mem_cons_self)⟩

theorem Inline.append {s t : List UInt8} (hs : Inline s) (ht : Inline t) : Inline (s ++ t) :=
  ⟨fun h => (List.mem_append.mp h).elim hs.lf ht.lf, fun h => (List.mem_append.mp h).elim hs.cr ht.cr⟩

theorem inline_append_iff {s t : List UInt8} : Inline (s ++ t) ↔ Inline s ∧ Inline t :=
  ⟨fun h => ⟨⟨fun hm => h.lf (List.mem_append_left _ hm), fun hm => h.cr (List.mem_append_left _ hm)⟩,
    fun hm => h.lf (List.mem_append_right _ hm), fun hm => h.cr (List.mem_append_right _ hm)⟩,
    fun h => h.1.append h.2⟩

theorem Inline.take {s : List UInt8} (h : Inline s) (n : ℕ) : Inline (s.take n) :=
  ⟨fun hm => h.lf (List.mem_of_mem_take hm), fun hm => h.cr (List.mem_of_mem_take hm)⟩

theorem Inline.flatMap {α : Type} {as : List α} {f : α → List UInt8} (h : ∀ a ∈ as, Inline (f a)) :
    Inline (as.flatMap f) := by
  constructor
  · intro hm
    obtain ⟨a, ha, hm⟩ := List.mem_flatMap.mp hm
    exact (h a ha).lf hm
  · intro hm
    obtain ⟨a, ha, hm⟩ := List.mem_flatMap.mp hm
    exact (h a ha).cr hm

/-! ### Appending -/

theorem newlines_cons {b : UInt8} (hcr : b ≠ cr) (hlf : b ≠ lf) (afterCr : Bool) (s : List UInt8) :
    newlines afterCr (b :: s) = b :: newlines false s := by
  rw [newlines, if_neg hcr, if_neg fun h => hlf h.1]

theorem newlines_append (b : List UInt8) : ∀ (a : List UInt8) (afterCr : Bool),
    newlines afterCr (a ++ lf :: b) = newlines afterCr (a ++ [lf]) ++ newlines false b
  | [], afterCr => by
    have hne : lf ≠ cr := by decide
    simp only [List.nil_append, newlines, if_neg hne, true_and]
    split_ifs <;> rfl
  | c :: a, afterCr => by
    simp only [List.cons_append, newlines]
    split_ifs
    · rw [newlines_append b a, List.cons_append]
    · rw [newlines_append b a]
    · rw [newlines_append b a, List.cons_append]

theorem splitLines_cons {b : UInt8} (hb : b ≠ lf) {s l : List UInt8} {ls : List (List UInt8)}
    (h : splitLines s = l :: ls) : splitLines (b :: s) = (b :: l) :: ls := by
  rw [splitLines, if_neg hb, h]

theorem splitLines_ne_nil {s : List UInt8} (h : s ≠ []) : splitLines s ≠ [] := by
  cases s with
  | nil => exact absurd rfl h
  | cons b s =>
    rw [splitLines]
    split_ifs
    · exact List.cons_ne_nil _ _
    · split <;> exact List.cons_ne_nil _ _

/-- The lines of a text that follows `s` do not depend on `s`. -/
def Ended (s : List UInt8) : Prop := ∀ t, splitLines (s ++ t) = splitLines s ++ splitLines t

theorem ended_nil : Ended [] := fun _ => rfl

theorem Ended.lf {s : List UInt8} (h : Ended s) : Ended (lf :: s) := fun t => by
  rw [List.cons_append, splitLines, splitLines, if_pos rfl, if_pos rfl, h t, List.cons_append]

theorem Ended.cons {s : List UInt8} (h : Ended s) (hs : s ≠ []) (b : UInt8) : Ended (b :: s) := by
  by_cases hb : b = Lines.lf
  · rw [hb]
    exact h.lf
  · intro t
    obtain ⟨l, ls, hl⟩ := List.exists_cons_of_ne_nil (splitLines_ne_nil hs)
    have ht : splitLines (s ++ t) = l :: (ls ++ splitLines t) := by
      rw [h t, hl, List.cons_append]
    rw [List.cons_append, splitLines_cons hb hl, splitLines_cons hb ht, List.cons_append]

theorem newlines_ne_nil {s : List UInt8} (h : s ≠ []) : newlines false s ≠ [] := by
  cases s with
  | nil => exact absurd rfl h
  | cons b s =>
    rw [newlines, if_neg (by simp : ¬ (b = lf ∧ false = true))]
    split_ifs <;> exact List.cons_ne_nil _ _

theorem ended_newlines : ∀ (a : List UInt8) (afterCr : Bool), Ended (newlines afterCr (a ++ [lf]))
  | [], afterCr => by
    have hne : lf ≠ cr := by decide
    simp only [List.nil_append, newlines, if_neg hne, true_and]
    split_ifs
    · exact ended_nil
    · exact ended_nil.lf
  | b :: a, afterCr => by
    simp only [List.cons_append, newlines]
    split_ifs
    · exact (ended_newlines a true).lf
    · exact ended_newlines a false
    · exact (ended_newlines a false).cons (newlines_ne_nil (by simp)) b

/-- **A line end separates.** -/
theorem readlines_append (a b : List UInt8) :
    readlines (a ++ lf :: b) = readlines (a ++ [lf]) ++ readlines b := by
  unfold readlines
  rw [newlines_append, ended_newlines a false]

theorem newlines_inline : ∀ {s : List UInt8}, Inline s → ∀ (afterCr : Bool) (t : List UInt8),
    newlines afterCr (s ++ t) = s ++ newlines (afterCr && s.isEmpty) t
  | [], _, afterCr, t => by simp
  | b :: s, h, afterCr, t => by
    rw [List.cons_append, newlines_cons h.head.2 h.head.1, newlines_inline h.tail]
    simp

theorem splitLines_line : ∀ {s : List UInt8}, Inline s → splitLines (s ++ [lf]) = [s ++ [lf]]
  | [], _ => rfl
  | _ :: _, h => splitLines_cons h.head.1 (splitLines_line h.tail)

theorem readlines_line {s : List UInt8} (h : Inline s) : readlines (s ++ [lf]) = [s ++ [lf]] := by
  unfold readlines
  rw [newlines_inline h, Bool.false_and]
  exact splitLines_line h

theorem readlines_lines : ∀ {ls : List (List UInt8)}, (∀ l ∈ ls, ∃ s, Inline s ∧ l = s ++ [lf]) →
    ∀ t : List UInt8, readlines (ls.flatten ++ t) = ls ++ readlines t
  | [], _, _ => rfl
  | l :: ls, h, t => by
    obtain ⟨s, hs, rfl⟩ := h l List.mem_cons_self
    have ih := readlines_lines (fun l hl => h l (List.mem_cons_of_mem _ hl)) t
    rw [List.flatten_cons, List.append_assoc, List.append_assoc, List.singleton_append,
      readlines_append, readlines_line hs, ih]
    rfl

/-! ### Pieces of lines -/

theorem prefix_newlines : ∀ {p : List UInt8}, Inline p → ∀ t : List UInt8,
    p <+: newlines false t ↔ p <+: t
  | [], _, _ => by simp
  | c :: p, _, [] => by simp [newlines]
  | c :: p, h, b :: s => by
    rw [newlines, if_neg (by simp : ¬ (b = lf ∧ false = true))]
    split_ifs with hb
    · rw [List.cons_prefix_cons, List.cons_prefix_cons, hb]
      exact iff_of_false (fun h' => h.head.1 h'.1) fun h' => h.head.2 h'.1
    · rw [List.cons_prefix_cons, List.cons_prefix_cons, prefix_newlines h.tail s]

theorem not_prefix_lineEnd {p : List UInt8} (h : Inline p) (hp : p ≠ []) {b : UInt8}
    (hb : b = lf ∨ b = cr) (s : List UInt8) : ¬ p <+: b :: s := by
  obtain ⟨c, p, rfl⟩ := List.exists_cons_of_ne_nil hp
  rw [List.cons_prefix_cons]
  rintro ⟨rfl, -⟩
  rcases hb with hb | hb
  · exact h.head.1 hb
  · exact h.head.2 hb

theorem infix_newlines {p : List UInt8} (h : Inline p) (hp : p ≠ []) :
    ∀ (t : List UInt8) (afterCr : Bool), p <:+: newlines afterCr t ↔ p <:+: t
  | [], _ => Iff.rfl
  | b :: s, afterCr => by
    rw [newlines]
    split_ifs with hcr hlf
    · rw [List.infix_cons_iff, List.infix_cons_iff, infix_newlines h hp s true,
        or_iff_right (not_prefix_lineEnd h hp (Or.inl rfl) _),
        or_iff_right (not_prefix_lineEnd h hp (Or.inr hcr) _)]
    · rw [List.infix_cons_iff, infix_newlines h hp s false,
        or_iff_right (not_prefix_lineEnd h hp (Or.inl hlf.1) _)]
    · have hcons : newlines false (b :: s) = b :: newlines false s := by
        rw [newlines, if_neg hcr, if_neg (by simp)]
      rw [List.infix_cons_iff, List.infix_cons_iff, infix_newlines h hp s false, ← hcons,
        prefix_newlines h]

theorem flatten_splitLines : ∀ s : List UInt8, (splitLines s).flatten = s
  | [] => rfl
  | b :: s => by
    have ih := flatten_splitLines s
    rw [splitLines]
    split_ifs with hb
    · rw [List.flatten_cons, ih, hb]
      rfl
    · split
      · rename_i h
        rw [h] at ih
        rw [← ih]
        rfl
      · rename_i l ls h
        rw [h, List.flatten_cons] at ih
        rw [← ih, List.flatten_cons, List.cons_append]

theorem splitLines_ended : ∀ {s : List UInt8} {a b : List (List UInt8)} {l : List UInt8},
    splitLines s = a ++ l :: b → b ≠ [] → ∃ t, l = t ++ [lf]
  | [], a, b, l, h, _ => by
    rw [splitLines] at h
    exact absurd h.symm (List.append_ne_nil_of_right_ne_nil _ (List.cons_ne_nil _ _))
  | c :: s, a, b, l, h, hb => by
    rw [splitLines] at h
    split_ifs at h with hc
    · rcases a with _ | ⟨l', a⟩
      · exact ⟨[], (List.cons.inj h).1.symm⟩
      · exact splitLines_ended (List.cons.inj h).2 hb
    · split at h
      · rcases a with _ | ⟨l', a⟩
        · exact absurd (List.cons.inj h).2.symm hb
        · exact absurd (List.cons.inj h).2.symm
            (List.append_ne_nil_of_right_ne_nil _ (List.cons_ne_nil _ _))
      · rename_i l' ls hs
        rcases a with _ | ⟨l'', a⟩
        · obtain ⟨rfl, rfl⟩ := List.cons.inj h
          obtain ⟨t, rfl⟩ := splitLines_ended (a := []) hs hb
          exact ⟨c :: t, rfl⟩
        · rw [(List.cons.inj h).2] at hs
          exact splitLines_ended (a := l' :: a) hs hb

theorem prefix_first : ∀ {p : List UInt8}, Inline p → p ≠ [] → ∀ {t : List UInt8}, p <+: t →
    ∃ l ls, splitLines t = l :: ls ∧ p <+: l
  | c :: p, h, _, t, ht => by
    obtain ⟨r, rfl⟩ := ht
    rw [List.cons_append]
    rcases List.eq_nil_or_concat p with rfl | hne
    · obtain ⟨l, ls, hl⟩ := List.exists_cons_of_ne_nil
        (splitLines_ne_nil (List.cons_ne_nil c ([] ++ r)))
      refine ⟨l, ls, hl, ?_⟩
      have hflat := flatten_splitLines (c :: ([] ++ r))
      rw [hl, List.flatten_cons] at hflat
      rw [splitLines, if_neg h.head.1] at hl
      split at hl <;> cases hl <;> exact ⟨_, rfl⟩
    · have hp : p ≠ [] := by
        obtain ⟨q, x, rfl⟩ := hne
        simp
      obtain ⟨l, ls, hl, hpre⟩ := prefix_first h.tail hp ⟨r, rfl⟩
      exact ⟨c :: l, ls, splitLines_cons h.head.1 hl, List.cons_prefix_cons.mpr ⟨rfl, hpre⟩⟩

theorem exists_line {p : List UInt8} (h : Inline p) (hp : p ≠ []) : ∀ {t : List UInt8}, p <:+: t →
    ∃ l ∈ splitLines t, p <:+: l
  | [], ht => absurd (List.infix_nil.mp ht) hp
  | b :: s, ht => by
    rcases List.infix_cons_iff.mp ht with hpre | hin
    · obtain ⟨l, ls, hl, hpl⟩ := prefix_first h hp hpre
      exact ⟨l, by rw [hl]; exact List.mem_cons_self, hpl.isInfix⟩
    · obtain ⟨l, hl, hpl⟩ := exists_line h hp hin
      rw [splitLines]
      split_ifs
      · exact ⟨l, List.mem_cons_of_mem _ hl, hpl⟩
      · split
        · rename_i hnil
          rw [hnil] at hl
          cases hl
        · rename_i l' ls hcons
          rw [hcons] at hl
          rcases List.mem_cons.mp hl with rfl | hl
          · exact ⟨b :: l, List.mem_cons_self, List.infix_cons hpl⟩
          · exact ⟨l, List.mem_cons_of_mem _ hl, hpl⟩

/-- **A piece of text without a line end is in a text exactly if it is in one of its lines.** -/
theorem infix_iff_line {p : List UInt8} (h : Inline p) (hp : p ≠ []) (t : List UInt8) :
    (∃ l ∈ readlines t, p <:+: l) ↔ p <:+: t := by
  rw [← infix_newlines h hp t false]
  constructor
  · rintro ⟨l, hl, hpl⟩
    have hflat := flatten_splitLines (newlines false t)
    exact hpl.trans (hflat ▸ List.infix_of_mem_flatten hl)
  · exact exists_line h hp

/-- A field between two texts that share no end with the piece. -/
theorem infix_field {p a b : List UInt8} (x : List UInt8)
    (ha : ∀ q ∈ p.inits, q ≠ [] → ¬ q <:+ a) (hb : ∀ q ∈ p.tails, q ≠ [] → ¬ q <+: b)
    (hpa : ¬ p <:+: a) (hpb : ¬ p <:+: b) : p <:+: a ++ (x ++ b) ↔ p <:+: x := by
  rw [List.infix_append_iff_ne_nil, List.infix_append_iff_ne_nil]
  constructor
  · rintro (h | (h | h | ⟨l₁, l₂, -, hne, rfl, -, h⟩) | ⟨l₁, l₂, hne, -, rfl, h, -⟩)
    · exact absurd h hpa
    · exact h
    · exact absurd h hpb
    · exact absurd h (hb _ ((List.mem_tails _ _).mpr (List.suffix_append _ _)) hne)
    · exact absurd h (ha _ ((List.mem_inits _ _).mpr (List.prefix_append _ _)) hne)
  · exact fun h => Or.inr (Or.inl (Or.inl h))

/-- Two pieces that share no end and of which none is in the other stand side by side. -/
theorem length_add_le {p q a : List UInt8} (htail : ∀ r ∈ q.tails, r ≠ [] → ¬ r <+: p)
    (hinit : ∀ r ∈ q.inits, r ≠ [] → ¬ r <:+ p) (hqp : ¬ q <:+: p) (hpq : ¬ p <:+: q)
    (hp : p <:+: a) (hq : q <:+: a) : p.length + q.length ≤ a.length := by
  obtain ⟨s, t, rfl⟩ := hp
  rw [List.length_append, List.length_append]
  rw [List.infix_append_iff_ne_nil, List.infix_append_iff_ne_nil] at hq
  rcases hq with (h | h | ⟨r₁, r₂, -, hne, rfl, -, h⟩) | h | ⟨r₁, r₂, hne, -, rfl, h, -⟩
  · have := h.length_le
    omega
  · exact absurd h hqp
  · exact absurd h (htail _ ((List.mem_tails _ _).mpr (List.suffix_append _ _)) hne)
  · have := h.length_le
    omega
  · rcases List.suffix_or_suffix_of_suffix h (List.suffix_append s p) with h | h
    · exact absurd h (hinit _ ((List.mem_inits _ _).mpr (List.prefix_append _ _)) hne)
    · exact absurd (h.isInfix.trans (List.prefix_append _ _).isInfix) hpq

/-! ### The last line -/

theorem newlines_noCr : ∀ {s : List UInt8}, cr ∉ s → newlines false s = s
  | [], _ => rfl
  | b :: s, h => by
    rw [List.mem_cons, not_or] at h
    rw [newlines, if_neg (Ne.symm h.1), if_neg (by simp), newlines_noCr h.2]

theorem splitLines_last {e : List UInt8} (he : Inline e) : ∀ z : List UInt8,
    ∃ ls l, splitLines (z ++ (e ++ [lf])) = ls ++ [l ++ (e ++ [lf])] ∧ (∀ b ∈ l, b ∈ z) ∧
      ∀ m ∈ ls, ∀ b ∈ m, b ∈ z
  | [] => ⟨[], [], splitLines_line he, by simp, by simp⟩
  | b :: z => by
    obtain ⟨ls, l, h, hl, hls⟩ := splitLines_last he z
    by_cases hb : b = lf
    · refine ⟨[lf] :: ls, l, ?_, fun c hc => List.mem_cons_of_mem _ (hl c hc), ?_⟩
      · rw [List.cons_append, splitLines, if_pos hb, h, List.cons_append]
      · intro m hm c hc
        rcases List.mem_cons.mp hm with rfl | hm
        · rw [List.mem_singleton.mp hc, hb]
          exact List.mem_cons_self
        · exact List.mem_cons_of_mem _ (hls m hm c hc)
    · -- the first byte joins the first line, which is the last one if there is no other
      rcases ls with _ | ⟨m, ls⟩
      · refine ⟨[], b :: l, splitLines_cons hb h, fun c hc => ?_, by simp⟩
        rcases List.mem_cons.mp hc with rfl | hc
        · exact List.mem_cons_self
        · exact List.mem_cons_of_mem _ (hl c hc)
      · refine ⟨(b :: m) :: ls, l, splitLines_cons hb h,
          fun c hc => List.mem_cons_of_mem _ (hl c hc), ?_⟩
        intro n hn c hc
        rcases List.mem_cons.mp hn with rfl | hn
        · rcases List.mem_cons.mp hc with rfl | hc
          · exact List.mem_cons_self
          · exact List.mem_cons_of_mem _ (hls m List.mem_cons_self c hc)
        · exact List.mem_cons_of_mem _ (hls n (List.mem_cons_of_mem _ hn) c hc)

/-- The last line of a text without carriage returns holds what follows the last line feed; the
others are made of the text before it. -/
theorem readlines_last {z e : List UInt8} (hz : cr ∉ z) (he : Inline e) :
    ∃ ls l, readlines (z ++ (e ++ [lf])) = ls ++ [l ++ (e ++ [lf])] ∧ (∀ b ∈ l, b ∈ z) ∧
      ∀ m ∈ ls, ∀ b ∈ m, b ∈ z := by
  have hcr : cr ∉ z ++ (e ++ [lf]) := by
    simp only [List.mem_append, List.mem_singleton, not_or]
    exact ⟨hz, he.cr, by decide⟩
  unfold readlines
  rw [newlines_noCr hcr]
  exact splitLines_last he z

/-! ### Counting -/

theorem newlines_cr (t : List UInt8) : ∀ (s : List UInt8) (afterCr : Bool),
    newlines afterCr (s ++ cr :: t) = newlines afterCr s ++ lf :: newlines true t
  | [], afterCr => by simp only [List.nil_append, newlines, if_true]
  | b :: s, afterCr => by
    simp only [List.cons_append, newlines]
    split_ifs
    · rw [newlines_cr t s, List.cons_append]
    · rw [newlines_cr t s]
    · rw [newlines_cr t s, List.cons_append]

theorem splitLines_append (t : List UInt8) : ∀ s : List UInt8,
    splitLines (s ++ lf :: t) = splitLines (s ++ [lf]) ++ splitLines t
  | [] => by
    rw [List.nil_append, List.nil_append, splitLines, if_pos rfl]
    rfl
  | b :: s => by
    rcases eq_or_ne b lf with rfl | hb
    · rw [List.cons_append, List.cons_append, splitLines, if_pos rfl, splitLines_append t s,
        splitLines, if_pos rfl, List.cons_append]
    · obtain ⟨l, ls, hl⟩ := List.exists_cons_of_ne_nil
        (splitLines_ne_nil (List.append_ne_nil_of_right_ne_nil s (List.cons_ne_nil lf [])))
      have ht : splitLines (s ++ lf :: t) = l :: (ls ++ splitLines t) := by
        rw [splitLines_append t s, hl, List.cons_append]
      rw [List.cons_append, List.cons_append, splitLines_cons hb hl, splitLines_cons hb ht,
        List.cons_append]

/-- **A piece of a text that is one line** does not end a line, if some text of the line follows it. -/
theorem inline_of_one_line {s t : List UInt8} (hne : t ≠ [])
    (h : (readlines (s ++ (t ++ [lf]))).length = 1) : Inline s := by
  have hpos : ∀ {u : List UInt8}, u ≠ [] → 0 < (splitLines u).length := fun hu =>
    List.length_pos_of_ne_nil (splitLines_ne_nil hu)
  have htail : ∀ (u : List UInt8) (afterCr : Bool), newlines afterCr (u ++ (t ++ [lf])) ≠ [] := by
    have hlong : ∀ (u : List UInt8) (afterCr : Bool), 2 ≤ u.length → newlines afterCr u ≠ [] := by
      rintro (_ | ⟨b, u⟩) afterCr hu
      · exact absurd hu (by simp)
      · rw [newlines]
        split_ifs
        · exact List.cons_ne_nil _ _
        · exact newlines_ne_nil (List.ne_nil_of_length_pos (by simp at hu; omega))
        · exact List.cons_ne_nil _ _
    have hlength := List.length_pos_of_ne_nil hne
    intro u afterCr
    refine hlong _ _ ?_
    simp only [List.length_append, List.length_singleton]
    omega
  unfold readlines at h
  constructor
  · intro hmem
    obtain ⟨a, b, rfl⟩ := List.append_of_mem hmem
    rw [List.append_assoc, List.cons_append, newlines_append, ended_newlines a false,
      List.length_append] at h
    have h1 := hpos (newlines_ne_nil (List.append_ne_nil_of_right_ne_nil a (List.cons_ne_nil lf [])))
    have h2 := hpos (htail b false)
    omega
  · intro hmem
    obtain ⟨a, b, rfl⟩ := List.append_of_mem hmem
    rw [List.append_assoc, List.cons_append, newlines_cr, splitLines_append, List.length_append] at h
    have h1 := hpos (List.append_ne_nil_of_right_ne_nil (newlines false a) (List.cons_ne_nil lf []))
    have h2 := hpos (htail b true)
    omega

end GpsBase.Lib.Lines
