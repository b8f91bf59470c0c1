import GpsBase.Lib.Lines

/-! # Reading a file in pieces

What `fgets` and `fread` return one after the other. A piece of `fgets` ends with a line feed, when the
buffer is full, or at the end of the file; a piece of `fread` when the block is full or at the end.
Put together the pieces are the file, and where its lines fit the buffer they are what `fgets`
returns. -/

namespace GpsBase.Lib.Reads

open GpsBase.Lib.Lines

/-! ### fgets -/

/-- The pieces of a file that ends with `s`, read with a buffer of `size` bytes; `cur` is what the
piece that has begun holds. -/
def fgetsFrom (size : ℕ) : List UInt8 → List UInt8 → List (List UInt8)
  | cur, [] => if cur = [] then [] else [cur]
  | cur, b :: s =>
    if b = lf ∨ size ≤ cur.length + 2 then (cur ++ [b]) :: fgetsFrom size [] s
    else fgetsFrom size (cur ++ [b]) s

/-- What `fgets` returns until the end of the file. -/
def fgets (size : ℕ) (s : List UInt8) : List (List UInt8) := fgetsFrom size [] s

theorem flatten_fgetsFrom (size : ℕ) : ∀ s cur : List UInt8,
    (fgetsFrom size cur s).flatten = cur ++ s
  | [], cur => by
    rw [fgetsFrom]
    split_ifs with h
    · rw [h]
      rfl
    · simp
  | b :: s, cur => by
    rw [fgetsFrom]
    split_ifs
    · rw [List.flatten_cons, flatten_fgetsFrom size s [], List.nil_append, List.append_assoc]
      rfl
    · rw [flatten_fgetsFrom size s _, List.append_assoc]
      rfl

theorem flatten_fgets (size : ℕ) (s : List UInt8) : (fgets size s).flatten = s :=
  flatten_fgetsFrom size s []

theorem fgetsFrom_ne_nil (size : ℕ) : ∀ s cur : List UInt8, ∀ p ∈ fgetsFrom size cur s, p ≠ []
  | [], cur, p, hp => by
    rw [fgetsFrom] at hp
    split_ifs at hp with h
    · cases hp
    · rw [List.mem_singleton.mp hp]
      exact h
  | b :: s, cur, p, hp => by
    rw [fgetsFrom] at hp
    split_ifs at hp
    · rcases List.mem_cons.mp hp with rfl | hp
      · exact List.append_ne_nil_of_right_ne_nil _ (List.cons_ne_nil _ _)
      · exact fgetsFrom_ne_nil size s [] p hp
    · exact fgetsFrom_ne_nil size s _ p hp

theorem fgets_ne_nil {size : ℕ} {s p : List UInt8} (h : p ∈ fgets size s) : p ≠ [] :=
  fgetsFrom_ne_nil size s [] p h

/-! ### fread -/

/-- The blocks of a file that ends with `s`; `cur` is what the block that has begun holds. -/
def freadFrom (size : ℕ) : List UInt8 → List UInt8 → List (List UInt8)
  | cur, [] => if cur = [] then [] else [cur]
  | cur, b :: s =>
    if size ≤ cur.length + 1 then (cur ++ [b]) :: freadFrom size [] s
    else freadFrom size (cur ++ [b]) s

/-- What `fread` returns until the end of the file, in blocks of `size` bytes. -/
def fread (size : ℕ) (s : List UInt8) : List (List UInt8) := freadFrom size [] s

theorem flatten_freadFrom (size : ℕ) : ∀ s cur : List UInt8,
    (freadFrom size cur s).flatten = cur ++ s
  | [], cur => by
    rw [freadFrom]
    split_ifs with h
    · rw [h]
      rfl
    · simp
  | b :: s, cur => by
    rw [freadFrom]
    split_ifs
    · rw [List.flatten_cons, flatten_freadFrom size s [], List.nil_append, List.append_assoc]
      rfl
    · rw [flatten_freadFrom size s _, List.append_assoc]
      rfl

theorem flatten_fread (size : ℕ) (s : List UInt8) : (fread size s).flatten = s :=
  flatten_freadFrom size s []

theorem freadFrom_ne_nil (size : ℕ) : ∀ s cur : List UInt8, ∀ p ∈ freadFrom size cur s, p ≠ []
  | [], cur, p, hp => by
    rw [freadFrom] at hp
    split_ifs at hp with h
    · cases hp
    · rw [List.mem_singleton.mp hp]
      exact h
  | b :: s, cur, p, hp => by
    rw [freadFrom] at hp
    split_ifs at hp
    · rcases List.mem_cons.mp hp with rfl | hp
      · exact List.append_ne_nil_of_right_ne_nil _ (List.cons_ne_nil _ _)
      · exact freadFrom_ne_nil size s [] p hp
    · exact freadFrom_ne_nil size s _ p hp

theorem fread_ne_nil {size : ℕ} {s p : List UInt8} (h : p ∈ fread size s) : p ≠ [] :=
  freadFrom_ne_nil size s [] p h

/-! ### Lines that fit -/

theorem splitLines_head_ne_nil {s l : List UInt8} {ls : List (List UInt8)}
    (h : splitLines s = l :: ls) : l ≠ [] := by
  cases s with
  | nil => cases h
  | cons b s =>
    rw [splitLines] at h
    split_ifs at h
    · exact (List.cons.inj h).1 ▸ List.cons_ne_nil _ _
    · split at h <;> exact (List.cons.inj h).1 ▸ List.cons_ne_nil _ _

theorem fgetsFrom_fits {size : ℕ} : ∀ {s l : List UInt8} {ls : List (List UInt8)} (cur : List UInt8),
    splitLines s = l :: ls → cur.length + l.length + 1 ≤ size →
      ∃ u, s = l ++ u ∧ splitLines u = ls ∧ fgetsFrom size cur s = (cur ++ l) :: fgets size u
  | [], _, _, _, h, _ => by cases h
  | b :: s, l, ls, cur, h, hsize => by
    rw [splitLines] at h
    split_ifs at h with hb
    · obtain ⟨rfl, rfl⟩ := List.cons.inj h
      refine ⟨s, by rw [hb]; rfl, rfl, ?_⟩
      rw [fgetsFrom, if_pos (Or.inl hb), hb]
      rfl
    · split at h
      · rename_i hnil
        obtain ⟨rfl, rfl⟩ := List.cons.inj h
        obtain rfl : s = [] := by
          by_contra hs
          exact splitLines_ne_nil hs hnil
        refine ⟨[], rfl, rfl, ?_⟩
        rw [fgetsFrom]
        split_ifs
        · rfl
        · rw [fgetsFrom, if_neg (by simp)]
          rfl
      · rename_i l' ls' hcons
        obtain ⟨rfl, rfl⟩ := List.cons.inj h
        have hl' : 0 < l'.length := List.length_pos_iff.mpr (splitLines_head_ne_nil hcons)
        rw [List.length_cons] at hsize
        have hsize' : (cur ++ [b]).length + l'.length + 1 ≤ size := by
          rw [List.length_append, List.length_singleton]
          omega
        obtain ⟨u, hu, hlines, hpieces⟩ := fgetsFrom_fits (cur ++ [b]) hcons hsize'
        refine ⟨u, by rw [hu]; rfl, hlines, ?_⟩
        rw [fgetsFrom, if_neg (by rw [not_or]; exact ⟨hb, by omega⟩), hpieces, List.append_assoc]
        rfl

/-- A line that does not fit is cut where the buffer is full. -/
theorem fgetsFrom_cut {size : ℕ} : ∀ {s l : List UInt8} {ls : List (List UInt8)} (cur : List UInt8),
    splitLines s = l :: ls → size ≤ cur.length + l.length → cur.length + 2 ≤ size →
      ∃ p ps, fgetsFrom size cur s = p :: ps ∧ p.length + 1 = size ∧ p.getLast? ≠ some lf ∧
        p <+: cur ++ l
  | [], _, _, _, h, _, _ => by cases h
  | b :: s, l, ls, cur, h, hsize, hcur => by
    rw [splitLines] at h
    split_ifs at h with hb
    · obtain ⟨rfl, -⟩ := List.cons.inj h
      rw [List.length_singleton] at hsize
      omega
    · split at h
      · obtain ⟨rfl, -⟩ := List.cons.inj h
        rw [List.length_singleton] at hsize
        omega
      · rename_i l' ls' hcons
        obtain ⟨rfl, -⟩ := List.cons.inj h
        rw [List.length_cons] at hsize
        rw [fgetsFrom, List.append_cons cur b l']
        by_cases hfull : size ≤ cur.length + 2
        · rw [if_pos (Or.inr hfull)]
          refine ⟨_, _, rfl, ?_, ?_, List.prefix_append _ _⟩
          · rw [List.length_append, List.length_singleton]
            omega
          · rw [List.getLast?_concat]
            simpa using hb
        · rw [if_neg (by rw [not_or]; exact ⟨hb, hfull⟩)]
          exact fgetsFrom_cut (cur ++ [b]) hcons (by rw [List.length_append, List.length_singleton]; omega)
            (by rw [List.length_append, List.length_singleton]; omega)

theorem fgets_line {size : ℕ} (hsize : 2 ≤ size) {s l : List UInt8} {ls : List (List UInt8)}
    (h : splitLines s = l :: ls) : ∃ p ps, fgets size s = p :: ps ∧ p <+: l := by
  by_cases hfit : l.length + 1 ≤ size
  · obtain ⟨u, -, -, hpieces⟩ := fgetsFrom_fits [] h (by simpa using hfit)
    exact ⟨_, _, hpieces, List.prefix_rfl⟩
  · obtain ⟨p, ps, hcut, -, -, hpre⟩ := fgetsFrom_cut [] h (by rw [List.length_nil]; omega) hsize
    exact ⟨p, ps, hcut, hpre⟩

/-- A piece that does not fill the buffer, or ends a line. -/
def Whole (size : ℕ) (p : List UInt8) : Prop := p.length + 1 ≠ size ∨ p.getLast? = some lf

theorem fgets_whole {size : ℕ} (hsize : 2 ≤ size) {s p : List UInt8} {ps : List (List UInt8)}
    (h : fgets size s = p :: ps) (hp : Whole size p) :
    ∃ u, s = p ++ u ∧ ps = fgets size u ∧ splitLines s = p :: splitLines u ∧ p.length + 1 ≤ size := by
  have hs : s ≠ [] := by
    rintro rfl
    cases h
  obtain ⟨l, ls, hl⟩ := List.exists_cons_of_ne_nil (splitLines_ne_nil hs)
  by_cases hfit : l.length + 1 ≤ size
  · obtain ⟨u, hu, hlines, hpieces⟩ := fgetsFrom_fits [] hl (by simpa using hfit)
    rw [fgets, hpieces] at h
    obtain ⟨rfl, rfl⟩ := List.cons.inj h
    exact ⟨u, hu, rfl, by rw [hl, hlines]; rfl, hfit⟩
  · obtain ⟨p', ps', hcut, hlen, hlast, -⟩ := fgetsFrom_cut [] hl
      (by rw [List.length_nil]; omega) hsize
    rw [fgets, hcut] at h
    obtain ⟨rfl, -⟩ := List.cons.inj h
    exact absurd hp (not_or.mpr ⟨not_not.mpr hlen, hlast⟩)

/-- **The same line is read with a buffer that is larger.** -/
theorem fgets_of_line {size : ℕ} {s p u : List UInt8} (hu : s = p ++ u)
    (h : splitLines s = p :: splitLines u) (hp : p.length + 1 ≤ size) :
    fgets size s = p :: fgets size u := by
  obtain ⟨u', hu', -, hpieces⟩ := fgetsFrom_fits [] h (by simpa using hp)
  rw [fgets, hpieces, List.append_cancel_left (hu.symm.trans hu')]
  rfl

end GpsBase.Lib.Reads
