import GpsBase.Lib.CText
import GpsBase.Lib.Lines
import GpsBase.Lib.Search

/-! # The lines of the survey manager

`feed` puts the bytes of the receiver together to lines for `parse_line`. It keeps a line in a buffer
of `kMaxLine` bytes; the byte that does not fit empties the buffer and is dropped, and nothing says
that the rest of the line is to be dropped too. What `parse_line` makes of a line is a parameter
here, on the other members of the manager.

A line comes out as its last bytes, as many as its length modulo `kMaxLine + 1` (`feed_eq`). -/

namespace GpsBase.Survey.LineFeed

open GpsBase.Lib.CText GpsBase.Lib.Lines GpsBase.Lib.Search

/-! ### The bytes fed -/

def kMaxLine : ℕ := 512

/-- `line_` up to `line_len_`, and the other members. -/
structure SurveyManager (ρ : Type*) where
  line : List UInt8
  rest : ρ

section

variable {ρ : Type*} (parseLine : ρ → List UInt8 → ρ)

/-- `start`, as far as the line goes. -/
def start (s : SurveyManager ρ) : SurveyManager ρ := { s with line := [] }

def feedByte (s : SurveyManager ρ) (byte : UInt8) : SurveyManager ρ :=
  if byte = lf then { line := [], rest := parseLine s.rest s.line }
  else if byte ≠ cr then
    if s.line.length < kMaxLine then { s with line := s.line ++ [byte] } else { s with line := [] }
  else s

def feed (s : SurveyManager ρ) (data : List UInt8) : SurveyManager ρ := data.foldl (feedByte parseLine) s

/-- One call of `feed` after the other. -/
def feedAll (s : SurveyManager ρ) (chunks : List (List UInt8)) : SurveyManager ρ :=
  chunks.foldl (feed parseLine) s

end

/-- What `parse_line` gets of the chunks fed after `start`, in order, whatever the line held before. -/
def parsed (line : List UInt8) (chunks : List (List UInt8)) : List (List UInt8) :=
  (feedAll (fun ls l => ls ++ [l]) (start ⟨line, []⟩) chunks).rest

/-! ### The lines of a stream -/

def withoutCr (s : List UInt8) : List UInt8 := s.filter (· ≠ cr)

/-- The lines of a stream that an LF ends, without CR. -/
def endedLines (s : List UInt8) : List (List UInt8) := ((withoutCr s).splitOn lf).dropLast

theorem endedLines_line {l : List UInt8} (hl : Inline l) (s : List UInt8) :
    endedLines (l ++ [cr, lf] ++ s) = l :: endedLines s := by
  have htext : withoutCr (l ++ [cr, lf] ++ s) = l ++ lf :: withoutCr s := by
    have hkeep : l.filter (· ≠ cr) = l :=
      List.filter_eq_self.mpr fun b hb => decide_eq_true fun hcr => hl.cr (hcr ▸ hb)
    unfold withoutCr
    rw [List.filter_append, List.filter_append, hkeep, List.append_assoc]
    rfl
  unfold endedLines
  rw [htext, splitOn_eq, takeWhile_append_sep hl.lf, if_pos (by simp)]
  have hdrop : (l ++ lf :: withoutCr s).drop (l.length + 1) = withoutCr s := by
    rw [← List.drop_drop, List.drop_left]
    rfl
  rw [hdrop, List.dropLast_cons_of_ne_nil (List.splitOn_ne_nil _ _)]

/-- What the buffer holds after the bytes of a line. -/
def held (l : List UInt8) : List UInt8 := l.drop ((kMaxLine + 1) * (l.length / (kMaxLine + 1)))

@[simp] theorem length_held (l : List UInt8) : (held l).length = l.length % (kMaxLine + 1) := by
  unfold held kMaxLine
  rw [List.length_drop]
  omega

theorem held_of_le {l : List UInt8} (h : l.length ≤ kMaxLine) : held l = l := by
  unfold held
  rw [Nat.div_eq_of_lt (by omega)]
  rfl

/-- **A byte of a line**: it is appended, or it empties the buffer. -/
theorem held_append (l : List UInt8) (b : UInt8) :
    held (l ++ [b]) = if (held l).length < kMaxLine then held l ++ [b] else [] := by
  rw [length_held]
  split_ifs with h
  · have hkeep : (l.length + 1) / (kMaxLine + 1) = l.length / (kMaxLine + 1) := by
      unfold kMaxLine at h ⊢
      omega
    unfold held
    rw [List.length_append, List.length_singleton, hkeep,
      List.drop_append_of_le_length (Nat.mul_div_le _ _)]
  · apply List.eq_nil_of_length_eq_zero
    rw [length_held, List.length_append, List.length_singleton]
    unfold kMaxLine at h ⊢
    omega

/-- The line that has begun with `cur`, before the lines of `s`. -/
def behind (cur s : List UInt8) : List (List UInt8) := ((withoutCr s).splitOn lf).modifyHead (cur ++ ·)

theorem behind_ne_nil (cur s : List UInt8) : behind cur s ≠ [] := by
  unfold behind
  rw [← List.length_pos_iff, List.length_modifyHead, List.length_pos_iff]
  exact List.splitOn_ne_nil _ _

theorem behind_nil (s : List UInt8) : behind [] s = (withoutCr s).splitOn lf := by
  unfold behind
  rcases (withoutCr s).splitOn lf with _ | ⟨l, ls⟩ <;> rfl

theorem behind_lf (cur s : List UInt8) : behind cur (lf :: s) = cur :: behind [] s := by
  have hkeep : withoutCr (lf :: s) = lf :: withoutCr s := rfl
  rw [behind_nil]
  unfold behind
  rw [hkeep, splitOn_cons_self, List.modifyHead_cons, List.append_nil]

theorem behind_cr (cur s : List UInt8) : behind cur (cr :: s) = behind cur s := rfl

theorem behind_cons {b : UInt8} (hlf : b ≠ lf) (hcr : b ≠ cr) (cur s : List UInt8) :
    behind cur (b :: s) = behind (cur ++ [b]) s := by
  have hkeep : withoutCr (b :: s) = b :: withoutCr s := List.filter_cons_of_pos (by simpa using hcr)
  unfold behind
  rw [hkeep, splitOn_cons_of_ne hlf]
  rcases (withoutCr s).splitOn lf with _ | ⟨l, ls⟩
  · rfl
  · simp

/-! ### Every stream -/

section

variable {ρ : Type*} (parseLine : ρ → List UInt8 → ρ)

/-- **The run of `feed`**, from what is held of the line that has begun. -/
theorem feed_eq : ∀ (s cur : List UInt8) (r : ρ), feed parseLine ⟨held cur, r⟩ s =
    ⟨held ((behind cur s).getLast (behind_ne_nil cur s)),
      ((behind cur s).dropLast.map held).foldl parseLine r⟩
  | [], cur, r => by
    have hone : behind cur [] = [cur] := by
      unfold behind
      simp [withoutCr]
    simp only [hone]
    rfl
  | b :: s, cur, r => by
    have hstep : feed parseLine ⟨held cur, r⟩ (b :: s) =
        feed parseLine (feedByte parseLine ⟨held cur, r⟩ b) s := rfl
    rw [hstep]
    unfold feedByte
    dsimp only
    split_ifs with hlf hcr hfull
    · have hne := behind_ne_nil [] s
      have hnil : ([] : List UInt8) = held [] := rfl
      rw [hnil, feed_eq s [] _]
      simp only [hlf, behind_lf, List.dropLast_cons_of_ne_nil hne, List.getLast_cons hne, List.map_cons,
        List.foldl_cons]
    · have happ : held cur ++ [b] = held (cur ++ [b]) := by rw [held_append, if_pos hfull]
      rw [happ, feed_eq s (cur ++ [b]) r]
      simp only [behind_cons hlf hcr]
    · have happ : ([] : List UInt8) = held (cur ++ [b]) := by rw [held_append, if_neg hfull]
      rw [happ, feed_eq s (cur ++ [b]) r]
      simp only [behind_cons hlf hcr]
    · have hb : b = cr := not_not.mp hcr
      rw [feed_eq s cur r]
      simp only [hb, behind_cr]

theorem feedAll_eq (s : SurveyManager ρ) (chunks : List (List UInt8)) :
    feedAll parseLine s chunks = feed parseLine s chunks.flatten := by
  unfold feedAll feed
  rw [List.foldl_flatten]

/-- **What `parse_line` gets**: every line of the stream, as the buffer holds it. -/
theorem rest_feedAll (s : SurveyManager ρ) (chunks : List (List UInt8)) :
    (feedAll parseLine (start s) chunks).rest =
      ((endedLines chunks.flatten).map held).foldl parseLine s.rest := by
  have h := feed_eq parseLine chunks.flatten [] s.rest
  rw [feedAll_eq]
  unfold start
  have hnil : ([] : List UInt8) = held [] := rfl
  rw [hnil, h]
  simp only [behind_nil]
  rfl

/-- **The buffer is never overrun**, whatever is fed. -/
theorem length_line_le (s : SurveyManager ρ) (chunks : List (List UInt8)) :
    (feedAll parseLine (start s) chunks).line.length ≤ kMaxLine := by
  have h := feed_eq parseLine chunks.flatten [] s.rest
  have hnil : ([] : List UInt8) = held [] := rfl
  rw [feedAll_eq]
  unfold start
  rw [hnil, h, length_held]
  exact Nat.le_of_lt_succ (Nat.mod_lt _ (Nat.succ_pos _))

end

/-- `parse_line` gets a line for every line of the stream. -/
theorem parsed_eq (line : List UInt8) (chunks : List (List UInt8)) :
    parsed line chunks = (endedLines chunks.flatten).map held := by
  have hfold : ∀ ls out : List (List UInt8), ls.foldl (fun ls l => ls ++ [l]) out = out ++ ls := by
    intro ls
    induction ls with
    | nil => simp
    | cons l ls ih => intro out; rw [List.foldl_cons, ih]; simp
  unfold parsed
  rw [rest_feedAll, hfold]
  rfl

/-- **The lines of a stream are framed right exactly if none of them is too long**: then, and only
then, `parse_line` gets the lines that fit, in order, and nothing else. -/
theorem parsed_iff (line : List UInt8) (chunks : List (List UInt8)) :
    (parsed line chunks = (endedLines chunks.flatten).filter (fun l => l.length ≤ kMaxLine) ∧
      ∀ p, p <+: chunks.flatten →
        (feed (fun ls l => ls ++ [l]) (start ⟨line, []⟩) p).line.length ≤ kMaxLine) ↔
      ∀ l ∈ endedLines chunks.flatten, l.length ≤ kMaxLine := by
  rw [parsed_eq]
  constructor
  · rintro ⟨hlines, -⟩ l hl
    have hcount := congrArg List.length hlines
    rw [List.length_map] at hcount
    have hself := List.filter_sublist.eq_of_length hcount.symm
    rw [← hself] at hl
    simpa using (List.mem_filter.mp hl).2
  · intro h
    refine ⟨?_, fun p _ => ?_⟩
    · rw [List.filter_eq_self.mpr (by simpa using h)]
      exact (List.map_congr_left fun l hl => held_of_le (h l hl)).trans (List.map_id _)
    · have hone := length_line_le (fun ls l => ls ++ [l]) ⟨line, []⟩ [p]
      rwa [feedAll_eq, List.flatten_singleton] at hone

/-- A position record behind bytes that fill the buffer and one more. -/
def overlong : List UInt8 :=
  List.replicate 513 120 ++ ascii "#BESTPOSA;SOL_COMPUTED,SINGLE,1,2,3,0,0,1,1,1*" ++ [lf]

/-- The end of a line that is too long is parsed as a position record. -/
theorem overlong_parsed :
    parsed [] [overlong] = [ascii "#BESTPOSA;SOL_COMPUTED,SINGLE,1,2,3,0,0,1,1,1*"] ∧
      (endedLines [overlong].flatten).filter (fun l => l.length ≤ kMaxLine) = [] := by
  constructor <;> decide +kernel

end GpsBase.Survey.LineFeed
