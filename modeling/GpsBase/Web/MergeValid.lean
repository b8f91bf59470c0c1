import GpsBase.Rinex.Validator
import GpsBase.Web.ExportExact

/-! # What a merge is worth

The stream of an export, read by the validator. The merge keeps the header of the first file, in which
it replaces `TIME OF LAST OBS`, and what is behind the header of every file. So it declares the systems
of the first hour: it is valid exactly if no later hour has another one, or text before its first
epoch. The headers have to be readable for that: the code stops at a NUL byte, and a line that it
replaces must not be one that the validator looks for. -/

namespace GpsBase.Web.MergeValid

open GpsBase.Lib.CText GpsBase.Lib.Lines GpsBase.Rinex.Validator
open GpsBase.Web.Export GpsBase.Web.ExportExact

/-! ### Bodies behind each other -/

/-- A text that is nothing, or ends with its line. -/
def EndsLine (s : List UInt8) : Prop := s = [] ∨ [lf] <:+ s

theorem EndsLine.append {s t : List UInt8} (hs : EndsLine s) (ht : EndsLine t) : EndsLine (s ++ t) := by
  rcases ht with rfl | ht
  · rwa [List.append_nil]
  · exact Or.inr (ht.trans (List.suffix_append s t))

theorem EndsLine.flatten : ∀ {ls : List (List UInt8)}, (∀ l ∈ ls, EndsLine l) → EndsLine ls.flatten
  | [], _ => Or.inl rfl
  | l :: _, h => (h l List.mem_cons_self).append
      (EndsLine.flatten fun l hl => h l (List.mem_cons_of_mem _ hl))

theorem readlines_endsLine {s : List UInt8} (h : EndsLine s) (u : List UInt8) :
    readlines (s ++ u) = readlines s ++ readlines u := by
  rcases h with rfl | ⟨t, rfl⟩
  · rfl
  · rw [List.append_assoc, List.singleton_append, readlines_append]

theorem readlines_flatten : ∀ {ls : List (List UInt8)}, (∀ l ∈ ls, EndsLine l) → ∀ u : List UInt8,
    readlines (ls.flatten ++ u) = ls.flatMap readlines ++ readlines u
  | [], _, _ => rfl
  | l :: _, h, u => by
    rw [List.flatten_cons, List.append_assoc, readlines_endsLine (h l List.mem_cons_self),
      readlines_flatten fun l hl => h l (List.mem_cons_of_mem _ hl), List.flatMap_cons,
      List.append_assoc]

/-- The texts that the validator looks for in a header. -/
def sought : List (List UInt8) :=
  [ascii "END OF HEADER", ascii "TIME OF FIRST OBS", ascii "INTERVAL", ascii "SYS / # / OBS TYPES"]

/-- A text that holds none of them. -/
def Plain (s : List UInt8) : Prop := ∀ p ∈ sought, ¬ p <:+: s

instance (s : List UInt8) : Decidable (Plain s) :=
  inferInstanceAs (Decidable (∀ p ∈ sought, ¬ p <:+: s))

theorem mem_sought : ascii "END OF HEADER" ∈ sought ∧ ascii "TIME OF FIRST OBS" ∈ sought ∧
    ascii "INTERVAL" ∈ sought ∧ ascii "SYS / # / OBS TYPES" ∈ sought :=
  ⟨.head _, .tail _ (.head _), .tail _ (.tail _ (.head _)), .tail _ (.tail _ (.tail _ (.head _)))⟩

theorem inline_sought : ∀ p ∈ sought, Inline p ∧ p ≠ [] := by decide

/-- A sought text is in one of the lines of a text exactly if it is in the text. -/
theorem sought_flatMap {p : List UInt8} (hp : p ∈ sought) (ls : List (List UInt8)) :
    (∃ l ∈ ls.flatMap readlines, p <:+: l) ↔ ∃ l ∈ ls, p <:+: l := by
  obtain ⟨hin, hne⟩ := inline_sought p hp
  constructor
  · rintro ⟨l, hl, hpl⟩
    obtain ⟨t, ht, hl⟩ := List.mem_flatMap.mp hl
    exact ⟨t, ht, (infix_iff_line hin hne t).mp ⟨l, hl, hpl⟩⟩
  · rintro ⟨t, ht, hpt⟩
    obtain ⟨l, hl, hpl⟩ := (infix_iff_line hin hne t).mpr hpt
    exact ⟨l, List.mem_flatMap.mpr ⟨t, ht, hl⟩, hpl⟩

/-- A file in its parts, as the validator divides it: `k` is the first line that holds
`END OF HEADER`. -/
structure Divided (s : List UInt8) (pre : List (List UInt8)) (k rest : List UInt8) : Prop where
  bytes : s = pre.flatten ++ (k ++ rest)
  ended : ∀ l ∈ pre, EndsLine l
  endsLine : EndsLine k
  notEnd : ∀ l ∈ pre, ¬ ascii "END OF HEADER" <:+: l
  ends : ascii "END OF HEADER" <:+: k

theorem Divided.lines {s : List UInt8} {pre : List (List UInt8)} {k rest : List UInt8}
    (h : Divided s pre k rest) :
    (∃ l ∈ readlines s, ascii "END OF HEADER" <:+: l) ∧
      headerOf (readlines s) = pre.flatMap readlines ++ headerOf (readlines k) ∧
        bodyOf (readlines s) = bodyOf (readlines k) ++ readlines rest := by
  have hp := mem_sought.1
  have hk : ∃ l ∈ readlines k, ascii "END OF HEADER" <:+: l :=
    (infix_iff_line (inline_sought _ hp).1 (inline_sought _ hp).2 k).mpr h.ends
  have hpre : ∀ l ∈ pre.flatMap readlines, ¬ ascii "END OF HEADER" <:+: l := by
    intro l hl hin
    obtain ⟨l', hl', hin'⟩ := (sought_flatMap hp pre).mp ⟨l, hl, hin⟩
    exact h.notEnd l' hl' hin'
  rw [h.bytes, readlines_flatten h.ended, readlines_endsLine h.endsLine, (headerOf_skip hpre _).1,
    (headerOf_skip hpre _).2, (headerOf_append hk _).1, (headerOf_append hk _).2]
  obtain ⟨l, hl, hin⟩ := hk
  exact ⟨⟨l, List.mem_append_right _ (List.mem_append_left _ hl), hin⟩, rfl, rfl⟩

/-- The systems that the header of a file declares. -/
def declared (f : SourceFile) : List UInt8 := (headerOf (readlines f.bytes)).filterMap declares

end GpsBase.Web.MergeValid
