import GpsBase.Lib.CText
import GpsBase.Lib.Lines
import Mathlib.Data.List.TakeWhile

/-! # The validator

`tools/validate_rinex.py` on the bytes of a file. A file is valid if `validate` finds no problem. -/

namespace GpsBase.Rinex.Validator

open GpsBase.Lib.CText GpsBase.Lib.Lines

/-! ### Python -/

/-- The whitespace of `str.split` and `str.strip`, as far as it is ASCII. -/
def isPySpace (b : UInt8) : Bool := b = 32 || (9 ≤ b && b ≤ 13) || (28 ≤ b && b ≤ 31)

/-- The digits of an integer literal behind its first one, with `_` between digits. -/
def digitsFrom (n : ℕ) : List UInt8 → Option ℕ
  | [] => some n
  | [d] => if isDigit d then some (10 * n + (d.toNat - 48)) else none
  | u :: d :: s =>
    if isDigit u then digitsFrom (10 * n + (u.toNat - 48)) (d :: s)
    else if u = '_'.toUInt8 ∧ isDigit d then digitsFrom n (d :: s)
    else none

/-- `int` of a text without whitespace. -/
def pyInt (s : List UInt8) : Option ℤ :=
  let (neg, s) := signOf s
  match s with
  | [] => none
  | d :: s =>
    if isDigit d then (digitsFrom (d.toNat - 48) s).map fun n => if neg then -(n : ℤ) else n else none

/-! ### The checks -/

def maxPrn : List (UInt8 × ℕ) :=
  [('G'.toUInt8, 32), ('R'.toUInt8, 24), ('E'.toUInt8, 36), ('C'.toUInt8, 63), ('J'.toUInt8, 10),
    ('S'.toUInt8, 99)]

/-- A message of `validate`, with what it names. -/
inductive Problem
  | noEndOfHeader
  | missingRecord (record : String)
  | noCount (epoch : ℕ)
  | malformedId (epoch : ℕ) (rec : List UInt8)
  | illegalId (epoch : ℕ) (sys : UInt8) (prn : ℕ)
  | rowCount (epoch : ℕ) (nsat : ℤ) (rows : ℕ)
  | noEpochs
  | noRecords (sys : UInt8)
  | notDeclared (sys : UInt8)
  deriving DecidableEq, Repr

/-- `SAT_ID_RE.match`. -/
def satId : List UInt8 → Option (UInt8 × ℕ)
  | c :: a :: b :: _ =>
    if c ∈ ascii "GRECJS" && isDigit a && isDigit b then
      some (c, 10 * (a.toNat - 48) + (b.toNat - 48))
    else none
  | _ => none

/-- What the walk over the epochs has found. -/
structure Walk where
  problems : List Problem
  seen : List UInt8
  epochs : ℕ

/-- `ln.rstrip("\n")`. -/
def rstripLf (ln : List UInt8) : List UInt8 := (ln.reverse.dropWhile (· = lf)).reverse

/-- `rec.strip()` is not empty. -/
def isRow (ln : List UInt8) : Bool := ln.any fun b => !isPySpace b

def checkRow (w : Walk) (ln : List UInt8) : Walk :=
  match satId (rstripLf ln) with
  | none => { w with problems := w.problems ++ [Problem.malformedId w.epochs ((rstripLf ln).take 3)] }
  | some (c, prn) =>
    { w with
      seen := c :: w.seen
      problems := if prn < 1 ∨ (maxPrn.lookup c).getD 0 < prn
        then w.problems ++ [Problem.illegalId w.epochs c prn] else w.problems }

/-- `ln.startswith(">")`. -/
def startsEpoch (ln : List UInt8) : Bool := ln.head? = some '>'.toUInt8

/-- The walk over the body. The rows of an epoch are passed over again by the outer loop, which skips
what does not start with `>`. -/
def walk : List (List UInt8) → Walk → Walk
  | [], w => w
  | ln :: rest, w =>
    if !startsEpoch ln then walk rest w
    else
      let w := { w with epochs := w.epochs + 1 }
      match (tokens isPySpace ln.tail).getLast?.bind pyInt with
      | none => walk rest { w with problems := w.problems ++ [Problem.noCount w.epochs] }
      | some nsat =>
        let rows := (rest.takeWhile fun ln => !startsEpoch ln).filter isRow
        let w := rows.foldl checkRow w
        let w := if (rows.length : ℤ) ≠ nsat then
            { w with problems := w.problems ++ [Problem.rowCount w.epochs nsat rows.length] }
          else w
        walk rest w

/-- The system a header line declares. -/
def declares (ln : List UInt8) : Option UInt8 :=
  if ascii "SYS / # / OBS TYPES" <:+: ln then ln.head?.filter fun c => (maxPrn.lookup c).isSome
  else none

/-- `validate`, on the lines of the file. -/
def validateLines (lines : List (List UInt8)) : List Problem :=
  let before := lines.takeWhile fun ln => decide (¬ ascii "END OF HEADER" <:+: ln)
  match lines.drop before.length with
  | [] => [.noEndOfHeader]
  | e :: body =>
    let header := before ++ [e]
    let declared := header.filterMap declares
    let missing := ["TIME OF FIRST OBS", "INTERVAL"].filter fun required =>
      !header.any fun ln => decide (ascii required <:+: ln)
    let w := walk body ⟨missing.map .missingRecord, [], 0⟩
    w.problems ++ (if w.epochs = 0 then [.noEpochs] else []) ++
      (declared.dedup.filter (· ∉ w.seen)).map .noRecords ++
      (w.seen.dedup.filter (· ∉ declared)).map .notDeclared

def validate (bytes : List UInt8) : List Problem := validateLines (readlines bytes)

/-! ### Epochs -/

def epochsOf : List (List UInt8) → List (List UInt8 × List (List UInt8))
  | [] => []
  | ln :: rest =>
    if startsEpoch ln then (ln, rest.takeWhile fun ln => !startsEpoch ln) :: epochsOf rest
    else epochsOf rest

theorem epochsOf_skip : ∀ {ls : List (List UInt8)}, (∀ l ∈ ls, startsEpoch l = false) →
    ∀ rest : List (List UInt8), epochsOf (ls ++ rest) = epochsOf rest
  | [], _, _ => rfl
  | l :: ls, h, rest => by
    rw [List.cons_append, epochsOf, h l List.mem_cons_self, if_neg Bool.false_ne_true,
      epochsOf_skip fun l hl => h l (List.mem_cons_of_mem _ hl)]

/-- The lines before the first epoch. -/
def leadOf (ls : List (List UInt8)) : List (List UInt8) := ls.takeWhile fun ln => !startsEpoch ln

/-- The satellite count of the line of an epoch. -/
def countOf (ln : List UInt8) : Option ℤ := (tokens isPySpace ln.tail).getLast?.bind pyInt

/-- A row with a legal id. -/
def GoodRow (ln : List UInt8) : Prop :=
  ∃ c prn, satId (rstripLf ln) = some (c, prn) ∧ 1 ≤ prn ∧ prn ≤ (maxPrn.lookup c).getD 0

/-- An epoch with as many rows as its line says, all of them legal. -/
def GoodEpoch (e : List UInt8 × List (List UInt8)) : Prop :=
  countOf e.1 = some ((e.2.filter isRow).length : ℤ) ∧ ∀ r ∈ e.2, isRow r = true → GoodRow r

/-- A system that occurs in the rows of an epoch. -/
def Occurs (c : UInt8) (e : List UInt8 × List (List UInt8)) : Prop :=
  ∃ r ∈ e.2, isRow r = true ∧ ∃ prn, satId (rstripLf r) = some (c, prn)

/-- A body of good epochs. -/
def GoodBody (ls : List (List UInt8)) : Prop := ∀ e ∈ epochsOf ls, GoodEpoch e

def OccursIn (c : UInt8) (ls : List (List UInt8)) : Prop := ∃ e ∈ epochsOf ls, Occurs c e

/-! ### The walk -/

def checkEpoch (w : Walk) (e : List UInt8 × List (List UInt8)) : Walk :=
  let w := { w with epochs := w.epochs + 1 }
  match countOf e.1 with
  | none => { w with problems := w.problems ++ [Problem.noCount w.epochs] }
  | some nsat =>
    let rows := e.2.filter isRow
    let w := rows.foldl checkRow w
    if (rows.length : ℤ) ≠ nsat then
      { w with problems := w.problems ++ [Problem.rowCount w.epochs nsat rows.length] }
    else w

theorem walk_eq_foldl : ∀ (ls : List (List UInt8)) (w : Walk),
    walk ls w = (epochsOf ls).foldl checkEpoch w
  | [], _ => rfl
  | ln :: rest, w => by
    rw [walk, epochsOf]
    by_cases h : startsEpoch ln = true
    · rw [h, if_pos rfl, List.foldl_cons, Bool.not_true, if_neg Bool.false_ne_true,
        ← walk_eq_foldl rest]
      unfold checkEpoch countOf
      dsimp only
      rcases (tokens isPySpace ln.tail).getLast?.bind pyInt with _ | nsat <;> rfl
    · rw [Bool.not_eq_true] at h
      rw [h, Bool.not_false, if_pos rfl, if_neg Bool.false_ne_true]
      exact walk_eq_foldl rest w

theorem checkRow_silent (w : Walk) (r : List UInt8) :
    (checkRow w r).problems = w.problems ↔ GoodRow r := by
  unfold checkRow GoodRow
  split
  · rename_i h
    refine iff_of_false (fun h' => ?_) ?_
    · have := congrArg List.length h'
      simp at this
    · rintro ⟨c, prn, hid, -⟩
      rw [h] at hid
      cases hid
  · rename_i c prn h
    dsimp only
    split_ifs with hout
    · refine iff_of_false (fun h' => ?_) ?_
      · have := congrArg List.length h'
        simp at this
      · rintro ⟨c', prn', hid, h1, h2⟩
        rw [h] at hid
        obtain ⟨rfl, rfl⟩ := Prod.mk.inj (Option.some.inj hid)
        rcases hout with hout | hout <;> omega
    · rw [not_or, not_lt, not_lt] at hout
      exact iff_of_true rfl ⟨c, prn, h, hout.1, hout.2⟩

theorem checkRow_seen (w : Walk) (r : List UInt8) (c : UInt8) :
    c ∈ (checkRow w r).seen ↔ c ∈ w.seen ∨ ∃ prn, satId (rstripLf r) = some (c, prn) := by
  unfold checkRow
  split
  · rename_i h
    rw [h]
    simp
  · rename_i c' prn h
    rw [h]
    simp only [List.mem_cons, Option.some.injEq, Prod.mk.injEq]
    constructor
    · rintro (rfl | h)
      · exact Or.inr ⟨prn, rfl, rfl⟩
      · exact Or.inl h
    · rintro (h | ⟨_, rfl, -⟩)
      · exact Or.inr h
      · exact Or.inl rfl

theorem checkRow_problems (w : Walk) (ln : List UInt8) : w.problems <+: (checkRow w ln).problems := by
  unfold checkRow
  split
  · exact List.prefix_append _ _
  · dsimp only
    split_ifs
    · exact List.prefix_append _ _
    · exact List.prefix_rfl

theorem checkRows_problems : ∀ (rows : List (List UInt8)) (w : Walk),
    w.problems <+: (rows.foldl checkRow w).problems
  | [], _ => List.prefix_rfl
  | ln :: rows, w => (checkRow_problems w ln).trans (checkRows_problems rows (checkRow w ln))

/-- What a walk that only appends problems says of one step followed by others. -/
theorem silent_trans {a b c : List Problem} (hab : a <+: b) (hbc : b <+: c) :
    c = a ↔ b = a ∧ c = b := by
  constructor
  · rintro rfl
    have hle := hab.length_le
    have heq : b = c := hbc.eq_of_length (le_antisymm hbc.length_le hle)
    exact ⟨heq, heq.symm⟩
  · rintro ⟨rfl, rfl⟩
    rfl

theorem checkRows_silent : ∀ (rows : List (List UInt8)) (w : Walk),
    (rows.foldl checkRow w).problems = w.problems ↔ ∀ r ∈ rows, GoodRow r
  | [], w => by simp
  | r :: rows, w => by
    rw [List.foldl_cons, silent_trans (checkRow_problems w r) (checkRows_problems rows _),
      checkRow_silent, checkRows_silent rows, List.forall_mem_cons]

theorem checkRows_seen (c : UInt8) : ∀ (rows : List (List UInt8)) (w : Walk),
    c ∈ (rows.foldl checkRow w).seen ↔
      c ∈ w.seen ∨ ∃ r ∈ rows, ∃ prn, satId (rstripLf r) = some (c, prn)
  | [], w => by simp
  | r :: rows, w => by
    rw [List.foldl_cons, checkRows_seen c rows, checkRow_seen, or_assoc]
    simp only [List.mem_cons, exists_eq_or_imp]

theorem checkRow_epochs (w : Walk) (r : List UInt8) : (checkRow w r).epochs = w.epochs := by
  unfold checkRow
  split <;> rfl

theorem checkRows_epochs : ∀ (rows : List (List UInt8)) (w : Walk),
    (rows.foldl checkRow w).epochs = w.epochs
  | [], _ => rfl
  | r :: rows, w => by rw [List.foldl_cons, checkRows_epochs rows, checkRow_epochs]

theorem checkEpoch_problems (w : Walk) (e : List UInt8 × List (List UInt8)) :
    w.problems <+: (checkEpoch w e).problems := by
  unfold checkEpoch
  dsimp only
  split
  · exact List.prefix_append _ _
  · split_ifs
    · exact (checkRows_problems _ { w with epochs := w.epochs + 1 }).trans (List.prefix_append _ _)
    · exact checkRows_problems _ { w with epochs := w.epochs + 1 }

theorem checkEpoch_silent (w : Walk) (e : List UInt8 × List (List UInt8)) :
    (checkEpoch w e).problems = w.problems ↔ GoodEpoch e := by
  have hrows := checkRows_silent (e.2.filter isRow) { w with epochs := w.epochs + 1 }
  have hall : (∀ r ∈ e.2.filter isRow, GoodRow r) ↔ ∀ r ∈ e.2, isRow r = true → GoodRow r := by
    simp only [List.mem_filter, and_imp]
  unfold checkEpoch GoodEpoch
  dsimp only
  rw [← hall, ← hrows]
  have hpre := checkRows_problems (e.2.filter isRow) { w with epochs := w.epochs + 1 }
  generalize (e.2.filter isRow).foldl checkRow { w with epochs := w.epochs + 1 } = w' at hpre ⊢
  split
  · rename_i h
    rw [h]
    refine iff_of_false (fun h' => ?_) fun h' => by cases h'.1
    have := congrArg List.length h'
    simp at this
  · rename_i nsat h
    rw [h]
    split_ifs with hne
    · refine iff_of_false (fun h' => ?_) fun h' => hne (Option.some.inj h'.1).symm
      have hle := hpre.length_le
      have := congrArg List.length h'
      rw [List.length_append, List.length_singleton] at this
      dsimp only at hle
      omega
    · rw [not_not] at hne
      rw [hne]
      exact (and_iff_right rfl).symm

theorem checkEpoch_seen {e : List UInt8 × List (List UInt8)} (he : GoodEpoch e) (w : Walk) (c : UInt8) :
    c ∈ (checkEpoch w e).seen ↔ c ∈ w.seen ∨ Occurs c e := by
  have hseen := checkRows_seen c (e.2.filter isRow) { w with epochs := w.epochs + 1 }
  unfold checkEpoch Occurs
  dsimp only
  rw [he.1]
  dsimp only
  rw [if_neg (not_not.mpr rfl), hseen]
  simp only [List.mem_filter, and_assoc]

theorem checkEpoch_epochs (w : Walk) (e : List UInt8 × List (List UInt8)) :
    (checkEpoch w e).epochs = w.epochs + 1 := by
  unfold checkEpoch
  dsimp only
  split
  · rfl
  · split_ifs <;> exact checkRows_epochs _ _

theorem checkEpochs_problems : ∀ (es : List (List UInt8 × List (List UInt8))) (w : Walk),
    w.problems <+: (es.foldl checkEpoch w).problems
  | [], _ => List.prefix_rfl
  | e :: es, w => (checkEpoch_problems w e).trans (checkEpochs_problems es (checkEpoch w e))

theorem checkEpochs_silent : ∀ (es : List (List UInt8 × List (List UInt8))) (w : Walk),
    (es.foldl checkEpoch w).problems = w.problems ↔ ∀ e ∈ es, GoodEpoch e
  | [], w => by simp
  | e :: es, w => by
    rw [List.foldl_cons, silent_trans (checkEpoch_problems w e) (checkEpochs_problems es _),
      checkEpoch_silent, checkEpochs_silent es, List.forall_mem_cons]

theorem checkEpochs_seen (c : UInt8) : ∀ {es : List (List UInt8 × List (List UInt8))},
    (∀ e ∈ es, GoodEpoch e) → ∀ w : Walk,
      c ∈ (es.foldl checkEpoch w).seen ↔ c ∈ w.seen ∨ ∃ e ∈ es, Occurs c e
  | [], _, w => by simp
  | e :: es, h, w => by
    rw [List.foldl_cons, checkEpochs_seen c (fun e he => h e (List.mem_cons_of_mem _ he)),
      checkEpoch_seen (h e List.mem_cons_self), or_assoc]
    simp only [List.mem_cons, exists_eq_or_imp]

theorem checkEpochs_epochs : ∀ (es : List (List UInt8 × List (List UInt8))) (w : Walk),
    (es.foldl checkEpoch w).epochs = w.epochs + es.length
  | [], _ => rfl
  | e :: es, w => by
    rw [List.foldl_cons, checkEpochs_epochs es, checkEpoch_epochs, List.length_cons]
    omega

theorem walk_problems (ls : List (List UInt8)) (w : Walk) : w.problems <+: (walk ls w).problems := by
  rw [walk_eq_foldl]
  exact checkEpochs_problems _ w

/-! ### Files -/

theorem splitHeader {before : List (List UInt8)} {e : List UInt8} {body : List (List UInt8)}
    (hbefore : ∀ l ∈ before, ¬ ascii "END OF HEADER" <:+: l) (he : ascii "END OF HEADER" <:+: e) :
    (before ++ e :: body).takeWhile (fun ln => decide (¬ ascii "END OF HEADER" <:+: ln)) = before := by
  rw [List.takeWhile_append_of_pos fun l hl => decide_eq_true (hbefore l hl), List.takeWhile_cons,
    if_neg (by simpa using he), List.append_nil]

/-- **What makes a file valid**, by the lines of its header and the epochs of its body. -/
theorem validateLines_iff {before : List (List UInt8)} {e : List UInt8} {body : List (List UInt8)}
    (hbefore : ∀ l ∈ before, ¬ ascii "END OF HEADER" <:+: l) (he : ascii "END OF HEADER" <:+: e) :
    validateLines (before ++ e :: body) = [] ↔
      (∃ l ∈ before ++ [e], ascii "TIME OF FIRST OBS" <:+: l) ∧
      (∃ l ∈ before ++ [e], ascii "INTERVAL" <:+: l) ∧ epochsOf body ≠ [] ∧ GoodBody body ∧
      ∀ c, c ∈ (before ++ [e]).filterMap declares ↔ OccursIn c body := by
  unfold validateLines
  rw [splitHeader hbefore he]
  simp only [List.drop_left]
  have hrequired : ∀ required : String,
      (¬ (!(before ++ [e]).any fun ln => decide (ascii required <:+: ln)) = true) ↔
        ∃ l ∈ before ++ [e], ascii required <:+: l := fun required => by
    rw [Bool.not_eq_true', Bool.not_eq_false, List.any_eq_true]
    simp only [decide_eq_true_eq]
  generalize hmissing : (["TIME OF FIRST OBS", "INTERVAL"].filter fun required =>
    !(before ++ [e]).any fun ln => decide (ascii required <:+: ln)).map Problem.missingRecord = missing
  have hpresent : missing = [] ↔ (∃ l ∈ before ++ [e], ascii "TIME OF FIRST OBS" <:+: l) ∧
      ∃ l ∈ before ++ [e], ascii "INTERVAL" <:+: l := by
    rw [← hmissing, List.map_eq_nil_iff, List.filter_eq_nil_iff, List.forall_mem_cons,
      List.forall_mem_singleton, hrequired, hrequired]
  rw [walk_eq_foldl]
  have hsilent := checkEpochs_silent (epochsOf body) ⟨missing, [], 0⟩
  have hpre := checkEpochs_problems (epochsOf body) ⟨missing, [], 0⟩
  have hepochs := checkEpochs_epochs (epochsOf body) ⟨missing, [], 0⟩
  have hseen := fun (h : GoodBody body) c => checkEpochs_seen c h ⟨missing, [], 0⟩
  generalize (epochsOf body).foldl checkEpoch ⟨missing, [], 0⟩ = w at hsilent hpre hepochs hseen ⊢
  have hproblems : w.problems = [] ↔ missing = [] ∧ GoodBody body := by
    constructor
    · intro h
      rw [h] at hpre
      have hnil : missing = [] := List.prefix_nil.mp hpre
      exact ⟨hnil, hsilent.mp (h.trans hnil.symm)⟩
    · rintro ⟨hnil, hgood⟩
      exact (hsilent.mpr hgood).trans hnil
  have hcount : (if w.epochs = 0 then [Problem.noEpochs] else []) = [] ↔ epochsOf body ≠ [] := by
    have hzero : w.epochs = 0 ↔ epochsOf body = [] := by
      rw [← List.length_eq_zero_iff, hepochs, Nat.zero_add]
    split_ifs with h
    · exact iff_of_false (by simp) fun h' => h' (hzero.mp h)
    · exact iff_of_true rfl fun h' => h (hzero.mpr h')
  have hdeclared : (∀ c ∈ ((before ++ [e]).filterMap declares).dedup, ¬ decide (c ∉ w.seen) = true) ↔
      ∀ c ∈ (before ++ [e]).filterMap declares, c ∈ w.seen := by
    simp only [List.mem_dedup, decide_eq_true_eq, not_not]
  have hfound : (∀ c ∈ w.seen.dedup, ¬ decide (c ∉ (before ++ [e]).filterMap declares) = true) ↔
      ∀ c ∈ w.seen, c ∈ (before ++ [e]).filterMap declares := by
    simp only [List.mem_dedup, decide_eq_true_eq, not_not]
  simp only [List.append_eq_nil_iff, List.map_eq_nil_iff, List.filter_eq_nil_iff, hproblems, hcount,
    hdeclared, hfound, hpresent]
  constructor
  · rintro ⟨⟨⟨⟨⟨h1, h2⟩, hgood⟩, h3⟩, h4⟩, h5⟩
    have hsys : ∀ c, c ∈ w.seen ↔ OccursIn c body := fun c => (hseen hgood c).trans (by simp [OccursIn])
    exact ⟨h1, h2, h3, hgood, fun c => ⟨fun h => (hsys c).mp (h4 c h), fun h => h5 c ((hsys c).mpr h)⟩⟩
  · rintro ⟨h1, h2, h3, hgood, h⟩
    have hsys : ∀ c, c ∈ w.seen ↔ OccursIn c body := fun c => (hseen hgood c).trans (by simp [OccursIn])
    exact ⟨⟨⟨⟨⟨h1, h2⟩, hgood⟩, h3⟩, fun c hc => (hsys c).mpr ((h c).mp hc)⟩,
      fun c hc => (h c).mpr ((hsys c).mp hc)⟩

/-- The header of a file and its body, as the validator divides the lines. -/
def headerOf (lines : List (List UInt8)) : List (List UInt8) :=
  (lines.takeWhile fun ln => decide (¬ ascii "END OF HEADER" <:+: ln)) ++
    (lines.dropWhile fun ln => decide (¬ ascii "END OF HEADER" <:+: ln)).take 1

def bodyOf (lines : List (List UInt8)) : List (List UInt8) :=
  (lines.dropWhile fun ln => decide (¬ ascii "END OF HEADER" <:+: ln)).drop 1

theorem headerOf_bodyOf {before : List (List UInt8)} {e : List UInt8} {body : List (List UInt8)}
    (hbefore : ∀ l ∈ before, ¬ ascii "END OF HEADER" <:+: l) (he : ascii "END OF HEADER" <:+: e) :
    headerOf (before ++ e :: body) = before ++ [e] ∧ bodyOf (before ++ e :: body) = body := by
  have hpos : ∀ l ∈ before, decide (¬ ascii "END OF HEADER" <:+: l) = true :=
    fun l hl => decide_eq_true (hbefore l hl)
  unfold headerOf bodyOf
  rw [splitHeader hbefore he, List.dropWhile_append_of_pos hpos, List.dropWhile_cons,
    if_neg (by simpa using he)]
  exact ⟨rfl, rfl⟩

theorem exists_end {lines : List (List UInt8)} (h : ∃ l ∈ lines, ascii "END OF HEADER" <:+: l) :
    ∃ before e body, lines = before ++ e :: body ∧
      (∀ l ∈ before, ¬ ascii "END OF HEADER" <:+: l) ∧ ascii "END OF HEADER" <:+: e := by
  have hfind : (lines.find? fun ln => decide (ascii "END OF HEADER" <:+: ln)).isSome := by
    simpa only [List.find?_isSome, decide_eq_true_eq] using h
  obtain ⟨e, he⟩ := Option.isSome_iff_exists.mp hfind
  obtain ⟨hend, before, body, hlines, hbefore⟩ := List.find?_eq_some_iff_append.mp he
  exact ⟨before, e, body, hlines, fun l hl => by simpa using hbefore l hl, by simpa using hend⟩

theorem headerOf_skip {a : List (List UInt8)} (h : ∀ l ∈ a, ¬ ascii "END OF HEADER" <:+: l)
    (b : List (List UInt8)) : headerOf (a ++ b) = a ++ headerOf b ∧ bodyOf (a ++ b) = bodyOf b := by
  have hpos : ∀ l ∈ a, decide (¬ ascii "END OF HEADER" <:+: l) = true :=
    fun l hl => decide_eq_true (h l hl)
  unfold headerOf bodyOf
  rw [List.takeWhile_append_of_pos hpos, List.dropWhile_append_of_pos hpos, List.append_assoc]
  exact ⟨rfl, rfl⟩

theorem headerOf_append {a : List (List UInt8)} (h : ∃ l ∈ a, ascii "END OF HEADER" <:+: l)
    (b : List (List UInt8)) : headerOf (a ++ b) = headerOf a ∧ bodyOf (a ++ b) = bodyOf a ++ b := by
  obtain ⟨before, e, body, rfl, hbefore, he⟩ := exists_end h
  rw [List.append_assoc, List.cons_append, (headerOf_bodyOf hbefore he).1, (headerOf_bodyOf hbefore he).2,
    (headerOf_bodyOf hbefore he).1, (headerOf_bodyOf hbefore he).2]
  exact ⟨rfl, rfl⟩

/-! ### A body that is well formed -/

/-- A row with a legal id, without its line end. -/
structure LegalRow (r : List UInt8) : Prop where
  inline : Inline r
  id : ∃ c prn, satId r = some (c, prn) ∧ 1 ≤ prn ∧ prn ≤ (maxPrn.lookup c).getD 0

/-- The line of an epoch and its rows, without their line ends; the line counts the rows. -/
structure LegalEpoch (e : List UInt8 × List (List UInt8)) : Prop where
  inline : Inline e.1
  starts : startsEpoch (e.1 ++ [lf]) = true
  count : (tokens isPySpace (e.1 ++ [lf]).tail).getLast?.bind pyInt = some (e.2.length : ℤ)
  rows : ∀ r ∈ e.2, LegalRow r

def epochLines (e : List UInt8 × List (List UInt8)) : List (List UInt8) :=
  (e.1 ++ [lf]) :: e.2.map (· ++ [lf])

theorem satId_eq_some {r : List UInt8} {c : UInt8} {prn : ℕ} (h : satId r = some (c, prn)) :
    r.head? = some c ∧ c ∈ ascii "GRECJS" := by
  rcases r with _ | ⟨c', _ | ⟨a, _ | ⟨b, r⟩⟩⟩
  · cases h
  · cases h
  · cases h
  · simp only [satId] at h
    split_ifs at h with hc
    simp only [Option.some.injEq, Prod.mk.injEq] at h
    rw [Bool.and_eq_true, Bool.and_eq_true, decide_eq_true_eq] at hc
    rw [← h.1]
    exact ⟨rfl, hc.1.1⟩

theorem rstripLf_line {s : List UInt8} (h : Inline s) : rstripLf (s ++ [lf]) = s := by
  unfold rstripLf
  rw [List.reverse_append, List.reverse_singleton, List.singleton_append, List.dropWhile_cons,
    if_pos (by simp)]
  rcases hs : s.reverse with _ | ⟨b, t⟩
  · rw [List.reverse_eq_nil_iff.mp hs]
    rfl
  · have hb : b ≠ lf := by
      rintro rfl
      exact h.lf (List.mem_reverse.mp (hs ▸ List.mem_cons_self))
    rw [List.dropWhile_cons, if_neg (by simpa using hb), ← hs, List.reverse_reverse]

theorem LegalRow.starts {r : List UInt8} (h : LegalRow r) : startsEpoch (r ++ [lf]) = false := by
  obtain ⟨c, prn, hid, -⟩ := h.id
  obtain ⟨hhead, hc⟩ := satId_eq_some hid
  obtain ⟨t, rfl⟩ := List.head?_eq_some_iff.mp hhead
  have hne : ∀ c ∈ ascii "GRECJS", c ≠ '>'.toUInt8 := by decide +kernel
  simpa [startsEpoch] using hne c hc

theorem LegalRow.isRow {r : List UInt8} (h : LegalRow r) : isRow (r ++ [lf]) = true := by
  obtain ⟨c, prn, hid, -⟩ := h.id
  obtain ⟨hhead, hc⟩ := satId_eq_some hid
  obtain ⟨t, rfl⟩ := List.head?_eq_some_iff.mp hhead
  have hspace : ∀ c ∈ ascii "GRECJS", isPySpace c = false := by decide +kernel
  simp [Validator.isRow, hspace c hc]

theorem LegalRow.good {r : List UInt8} (h : LegalRow r) : GoodRow (r ++ [lf]) := by
  obtain ⟨c, prn, hid, h1, h2⟩ := h.id
  refine ⟨c, prn, ?_, h1, h2⟩
  rw [rstripLf_line h.inline]
  exact hid

def lineEpoch (e : List UInt8 × List (List UInt8)) : List UInt8 × List (List UInt8) :=
  (e.1 ++ [lf], e.2.map (· ++ [lf]))

theorem LegalEpoch.good {e : List UInt8 × List (List UInt8)} (h : LegalEpoch e) :
    GoodEpoch (lineEpoch e) := by
  have hfilter : (e.2.map (· ++ [lf])).filter isRow = e.2.map (· ++ [lf]) := by
    refine List.filter_eq_self.mpr fun l hl => ?_
    obtain ⟨r, hr, rfl⟩ := List.mem_map.mp hl
    exact (h.rows r hr).isRow
  refine ⟨?_, fun l hl _ => ?_⟩
  · show countOf (e.1 ++ [lf]) = some ((((e.2.map (· ++ [lf])).filter isRow).length : ℕ) : ℤ)
    rw [hfilter, List.length_map]
    exact h.count
  · obtain ⟨r, hr, rfl⟩ := List.mem_map.mp hl
    exact (h.rows r hr).good

theorem LegalEpoch.occurs {e : List UInt8 × List (List UInt8)} (h : LegalEpoch e) (c : UInt8) :
    Occurs c (lineEpoch e) ↔ ∃ r ∈ e.2, r.head? = some c := by
  constructor
  · rintro ⟨l, hl, -, prn, hid⟩
    obtain ⟨r, hr, rfl⟩ := List.mem_map.mp hl
    rw [rstripLf_line (h.rows r hr).inline] at hid
    exact ⟨r, hr, (satId_eq_some hid).1⟩
  · rintro ⟨r, hr, hc⟩
    obtain ⟨c', prn, hid, -⟩ := (h.rows r hr).id
    refine ⟨r ++ [lf], List.mem_map.mpr ⟨r, hr, rfl⟩, (h.rows r hr).isRow, prn, ?_⟩
    rw [rstripLf_line (h.rows r hr).inline, hid, ← Option.some.inj ((satId_eq_some hid).1.symm.trans hc)]

theorem epochsOf_epochLines : ∀ {es : List (List UInt8 × List (List UInt8))},
    (∀ e ∈ es, LegalEpoch e) → epochsOf (es.flatMap epochLines) = es.map lineEpoch ∧
      leadOf (es.flatMap epochLines) = []
  | [], _ => ⟨rfl, rfl⟩
  | e :: es, h => by
    have he := h e List.mem_cons_self
    obtain ⟨ih, hlead⟩ := epochsOf_epochLines fun e he => h e (List.mem_cons_of_mem _ he)
    have hrows : ∀ l ∈ e.2.map (· ++ [lf]), startsEpoch l = false := by
      intro l hl
      obtain ⟨r, hr, rfl⟩ := List.mem_map.mp hl
      exact (he.rows r hr).starts
    rw [List.flatMap_cons, epochLines, List.cons_append]
    constructor
    · rw [epochsOf, if_pos he.starts, epochsOf_skip hrows, ih,
        List.takeWhile_append_of_pos fun l hl => by rw [hrows l hl]; rfl,
        show (es.flatMap epochLines).takeWhile (fun ln => !startsEpoch ln) = [] from hlead,
        List.append_nil]
      rfl
    · unfold leadOf
      rw [List.takeWhile_cons, he.starts]
      rfl

/-- **What makes a file with legal epochs valid**, by the lines of its header. -/
theorem validateLines_eq_nil {before : List (List UInt8)} {e : List UInt8}
    {es : List (List UInt8 × List (List UInt8))}
    (hbefore : ∀ l ∈ before, ¬ ascii "END OF HEADER" <:+: l) (he : ascii "END OF HEADER" <:+: e)
    (hes : ∀ e ∈ es, LegalEpoch e) :
    validateLines (before ++ e :: es.flatMap epochLines) = [] ↔
      (∃ l ∈ before ++ [e], ascii "TIME OF FIRST OBS" <:+: l) ∧
      (∃ l ∈ before ++ [e], ascii "INTERVAL" <:+: l) ∧ es ≠ [] ∧
      ∀ c, c ∈ (before ++ [e]).filterMap declares ↔ ∃ e ∈ es, ∃ r ∈ e.2, r.head? = some c := by
  obtain ⟨hepochs, -⟩ := epochsOf_epochLines hes
  have hgood : GoodBody (es.flatMap epochLines) := by
    intro e' he'
    rw [hepochs] at he'
    obtain ⟨e, he, rfl⟩ := List.mem_map.mp he'
    exact (hes e he).good
  have hoccurs : ∀ c, OccursIn c (es.flatMap epochLines) ↔ ∃ e ∈ es, ∃ r ∈ e.2, r.head? = some c := by
    intro c
    unfold OccursIn
    rw [hepochs]
    constructor
    · rintro ⟨e', he', hc⟩
      obtain ⟨e, he, rfl⟩ := List.mem_map.mp he'
      exact ⟨e, he, ((hes e he).occurs c).mp hc⟩
    · rintro ⟨e, he, hc⟩
      exact ⟨lineEpoch e, List.mem_map.mpr ⟨e, he, rfl⟩, ((hes e he).occurs c).mpr hc⟩
  rw [validateLines_iff hbefore he, hepochs]
  simp only [hoccurs, ne_eq, List.map_eq_nil_iff, and_iff_right hgood]

/-! ### One body behind another -/

theorem validateLines_ne_nil {before : List (List UInt8)} {e : List UInt8} {body : List (List UInt8)}
    (hbefore : ∀ l ∈ before, ¬ ascii "END OF HEADER" <:+: l) (he : ascii "END OF HEADER" <:+: e)
    (h : ∀ l ∈ before ++ [e], ¬ ascii "INTERVAL" <:+: l) :
    validateLines (before ++ e :: body) ≠ [] := by
  have hmissing : Problem.missingRecord "INTERVAL" ∈
      (["TIME OF FIRST OBS", "INTERVAL"].filter fun required =>
        !(before ++ [e]).any fun ln => decide (ascii required <:+: ln)).map .missingRecord := by
    refine List.mem_map.mpr ⟨"INTERVAL", List.mem_filter.mpr ⟨by simp, ?_⟩, rfl⟩
    rw [Bool.not_eq_true', List.any_eq_false]
    intro l hl
    rw [decide_eq_true_eq]
    exact h l hl
  unfold validateLines
  rw [splitHeader hbefore he]
  simp only [List.drop_left]
  intro hnil
  rw [List.append_eq_nil_iff, List.append_eq_nil_iff, List.append_eq_nil_iff] at hnil
  have hmem := (walk_problems body ⟨_, [], 0⟩).subset hmissing
  rw [hnil.1.1.1] at hmem
  cases hmem

end GpsBase.Rinex.Validator
