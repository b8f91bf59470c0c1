import GpsBase.Lib.Binary64
import Mathlib.Data.List.TakeWhile

/-! # Text in C

Strings of bytes and the functions of C on them: tokens, `atoi`, `strtoul`, and the conversions of
`printf`. The lemmas say which bytes a printed number is made of and how long it is. -/

namespace GpsBase.Lib.CText

open GpsBase.Lib.Binary64

/-! ### Strings -/

/-- The bytes of a literal. -/
def ascii (s : String) : List UInt8 := s.toByteArray.data.toList

theorem ascii_ofList (l : List Char) : ascii (String.ofList l) = l.flatMap String.utf8EncodeChar := by
  rw [ascii, String.toByteArray_ofList, List.utf8Encode, List.data_toByteArray]

/-- The bytes of a buffer up to its first NUL. -/
def cStr (s : List UInt8) : List UInt8 := s.takeWhile (· ≠ 0)

theorem cStr_eq_self {s : List UInt8} (h : 0 ∉ s) : cStr s = s :=
  List.takeWhile_eq_self_iff.mpr fun _ hb => decide_eq_true fun h0 => h (h0 ▸ hb)

def isSpace (b : UInt8) : Bool := b = 32 || (9 ≤ b && b ≤ 13)

def isDigit (b : UInt8) : Bool := 48 ≤ b && b ≤ 57

def isAlpha (b : UInt8) : Bool := (65 ≤ b && b ≤ 90) || (97 ≤ b && b ≤ 122)

/-- A small letter for a capital one. -/
def lower (b : UInt8) : UInt8 := if 65 ≤ b && b ≤ 90 then b + 32 else b

def hexDigit (b : UInt8) : Option ℕ :=
  if isDigit b then some (b.toNat - 48)
  else if 65 ≤ b && b ≤ 70 then some (b.toNat - 55)
  else if 97 ≤ b && b ≤ 102 then some (b.toNat - 87)
  else none

/-- The tokens behind `cur`, the bytes of a token that has begun. -/
def tokensFrom (sep : UInt8 → Bool) : List UInt8 → List UInt8 → List (List UInt8)
  | cur, [] => if cur = [] then [] else [cur]
  | cur, b :: bs =>
    if sep b then if cur = [] then tokensFrom sep [] bs else cur :: tokensFrom sep [] bs
    else tokensFrom sep (cur ++ [b]) bs

/-- The tokens `strtok_r` returns one after the other: the longest runs without a separator. -/
def tokens (sep : UInt8 → Bool) (s : List UInt8) : List (List UInt8) := tokensFrom sep [] s

theorem tokensFrom_append (sep : UInt8 → Bool) {b : UInt8} (hb : sep b = true) (y : List UInt8) :
    ∀ (x cur : List UInt8),
      tokensFrom sep cur (x ++ b :: y) = tokensFrom sep cur x ++ tokensFrom sep [] y
  | [], cur => by
    simp only [List.nil_append, tokensFrom, hb, if_true]
    split_ifs <;> rfl
  | c :: x, cur => by
    simp only [List.cons_append, tokensFrom]
    split_ifs with hc hcur
    · exact tokensFrom_append sep hb y x []
    · rw [tokensFrom_append sep hb y x [], List.cons_append]
    · exact tokensFrom_append sep hb y x _

theorem tokens_append (sep : UInt8 → Bool) {b : UInt8} (hb : sep b = true) (x y : List UInt8) :
    tokens sep (x ++ b :: y) = tokens sep x ++ tokens sep y := tokensFrom_append sep hb y x []

theorem tokensFrom_self (sep : UInt8 → Bool) : ∀ {s cur : List UInt8}, (∀ b ∈ s, sep b = false) →
    cur ++ s ≠ [] → tokensFrom sep cur s = [cur ++ s]
  | [], cur, _, hne => by
    rw [List.append_nil] at hne ⊢
    unfold tokensFrom
    rw [if_neg hne]
  | b :: s, cur, hs, _ => by
    unfold tokensFrom
    rw [hs b List.mem_cons_self, if_neg Bool.false_ne_true,
      tokensFrom_self sep (fun c hc => hs c (List.mem_cons_of_mem _ hc)) (by simp),
      List.append_assoc, List.singleton_append]

theorem tokens_self (sep : UInt8 → Bool) {s : List UInt8} (hs : ∀ b ∈ s, sep b = false) (hne : s ≠ []) :
    tokens sep s = [s] := tokensFrom_self sep hs hne

/-! ### Numbers read -/

def signOf : List UInt8 → Bool × List UInt8
  | 45 :: s => (true, s)
  | 43 :: s => (false, s)
  | s => (false, s)

def decimalValue (s : List UInt8) : ℕ := s.foldl (fun n b => 10 * n + (b.toNat - 48)) 0

/-- `atoi` with a `long` of 32 bits: `strtol` stops at its limits. -/
def atoi (s : List UInt8) : ℤ :=
  let (neg, s) := signOf (s.dropWhile isSpace)
  let n : ℤ := decimalValue (s.takeWhile isDigit)
  if neg then max (-n) (-2 ^ 31) else min n (2 ^ 31 - 1)

/-- `strtoul` to base 16, with an `unsigned long` of 32 bits. -/
def strtoul16 (s : List UInt8) : ℕ :=
  let (neg, s) := signOf (s.dropWhile isSpace)
  let s := match s with
    | 48 :: x :: d :: s => if (x = 120 || x = 88) && (hexDigit d).isSome then d :: s else 48 :: x :: d :: s
    | s => s
  let n := (s.takeWhile fun b => (hexDigit b).isSome).foldl (fun n b => 16 * n + (hexDigit b).getD 0) 0
  if 2 ^ 32 ≤ n then 2 ^ 32 - 1 else if neg then (2 ^ 32 - n) % 2 ^ 32 else n

/-- `%<width>d` of `scanf`, and what is left of the text. -/
def scanInt (width : ℕ) (s : List UInt8) : Option (ℤ × List UInt8) :=
  let s := s.dropWhile isSpace
  let (neg, rest) := signOf s
  let digits := (rest.take (width - (s.length - rest.length))).takeWhile isDigit
  if digits = [] then none
  else some (if neg then -decimalValue digits else decimalValue digits, rest.drop digits.length)

/-- A text in the format of `scanf`, without blanks. -/
def scanText (lit s : List UInt8) : Option (List UInt8) :=
  if lit <+: s then some (s.drop lit.length) else none

/-! ### Numbers printed -/

def decimal (n : ℕ) : List UInt8 := (Nat.toDigits 10 n).map fun c => UInt8.ofNat c.toNat

def minus (neg : Bool) : List UInt8 := if neg then [45] else []

/-- `%d`. -/
def intText (n : ℤ) : List UInt8 := minus (decide (n < 0)) ++ decimal n.natAbs

/-- Blanks before a text up to a width. -/
def padLeft (width : ℕ) (s : List UInt8) : List UInt8 := List.replicate (width - s.length) 32 ++ s

/-- Blanks behind a text up to a width. -/
def padRight (width : ℕ) (s : List UInt8) : List UInt8 := s ++ List.replicate (width - s.length) 32

/-- Zeros before digits up to a width. -/
def padZero (width : ℕ) (s : List UInt8) : List UInt8 := List.replicate (width - s.length) 48 ++ s

/-- `%<width>d`. -/
def padInt (width : ℕ) (n : ℤ) : List UInt8 := padLeft width (intText n)

/-- `%0<width>d`. -/
def zeroInt (width : ℕ) (n : ℤ) : List UInt8 :=
  minus (decide (n < 0)) ++ padZero (if n < 0 then width - 1 else width) (decimal n.natAbs)

/-- `%.<prec>f` for a precision that is not zero. -/
def fixedText (prec : ℕ) : Float64 → List UInt8
  | .nan s => minus s ++ ascii "nan"
  | .inf s => minus s ++ ascii "inf"
  | .fin s m =>
    let n := roundEven (m * 10 ^ prec)
    minus s ++ decimal (n / 10 ^ prec) ++ 46 :: padZero prec (decimal (n % 10 ^ prec))

/-- `%<width>.<prec>f`. -/
def padFixed (width prec : ℕ) (x : Float64) : List UInt8 := padLeft width (fixedText prec x)

/-! ### The bytes of a printed number -/

/-- A byte of a printed number: a digit, a blank, a sign, a point, or a letter of `nan` and `inf`. -/
def numeric (b : UInt8) : Bool := isDigit b || b ∈ [32, 45, 46, 97, 102, 105, 110]

theorem isDigit_decimal (n : ℕ) : ∀ b ∈ decimal n, isDigit b = true := by
  intro b hb
  obtain ⟨c, hc, rfl⟩ := List.mem_map.mp hb
  have hdigit := Nat.isDigit_of_mem_toDigits (by norm_num) (by norm_num) hc
  obtain ⟨h1, h2⟩ : 48 ≤ c.toNat ∧ c.toNat ≤ 57 := by
    rw [Char.isDigit, Bool.and_eq_true, decide_eq_true_eq, decide_eq_true_eq] at hdigit
    exact hdigit
  generalize c.toNat = k at h1 h2 ⊢
  interval_cases k <;> decide

theorem numeric_of_digit {b : UInt8} (h : isDigit b = true) : numeric b = true := by
  unfold numeric
  rw [h, Bool.true_or]

theorem numeric_minus (neg : Bool) : ∀ b ∈ minus neg, numeric b = true := by
  rcases neg with _ | _ <;> decide +kernel

theorem numeric_intText (n : ℤ) : ∀ b ∈ intText n, numeric b = true := by
  intro b hb
  rcases List.mem_append.mp hb with hb | hb
  · exact numeric_minus _ b hb
  · exact numeric_of_digit (isDigit_decimal _ b hb)

theorem numeric_padLeft {s : List UInt8} (h : ∀ b ∈ s, numeric b = true) (width : ℕ) :
    ∀ b ∈ padLeft width s, numeric b = true := by
  intro b hb
  rcases List.mem_append.mp hb with hb | hb
  · rw [List.eq_of_mem_replicate hb]
    decide
  · exact h b hb

theorem numeric_padZero {s : List UInt8} (h : ∀ b ∈ s, numeric b = true) (width : ℕ) :
    ∀ b ∈ padZero width s, numeric b = true := by
  intro b hb
  rcases List.mem_append.mp hb with hb | hb
  · rw [List.eq_of_mem_replicate hb]
    decide
  · exact h b hb

theorem numeric_padInt (width : ℕ) (n : ℤ) : ∀ b ∈ padInt width n, numeric b = true :=
  numeric_padLeft (numeric_intText n) width

theorem numeric_zeroInt (width : ℕ) (n : ℤ) : ∀ b ∈ zeroInt width n, numeric b = true := by
  intro b hb
  rcases List.mem_append.mp hb with hb | hb
  · exact numeric_minus _ b hb
  · exact numeric_padZero (fun b hb => numeric_of_digit (isDigit_decimal _ b hb)) _ b hb

theorem numeric_fixedText (prec : ℕ) (x : Float64) : ∀ b ∈ fixedText prec x, numeric b = true := by
  intro b hb
  cases x with
  | nan s =>
    rcases List.mem_append.mp hb with hb | hb
    · exact numeric_minus _ b hb
    · exact (by decide +kernel : ∀ b ∈ ascii "nan", numeric b = true) b hb
  | inf s =>
    rcases List.mem_append.mp hb with hb | hb
    · exact numeric_minus _ b hb
    · exact (by decide +kernel : ∀ b ∈ ascii "inf", numeric b = true) b hb
  | fin s m =>
    rcases List.mem_append.mp hb with hb | hb
    · rcases List.mem_append.mp hb with hb | hb
      · exact numeric_minus _ b hb
      · exact numeric_of_digit (isDigit_decimal _ b hb)
    · rcases List.mem_cons.mp hb with rfl | hb
      · decide
      · exact numeric_padZero (fun b hb => numeric_of_digit (isDigit_decimal _ b hb)) _ b hb

theorem numeric_padFixed (width prec : ℕ) (x : Float64) :
    ∀ b ∈ padFixed width prec x, numeric b = true :=
  numeric_padLeft (numeric_fixedText prec x) width

/-! ### Printed numbers read -/

theorem decimalValue_decimal (n : ℕ) : decimalValue (decimal n) = n := by
  have hdigits : ∀ c ∈ Nat.toDigits 10 n, (UInt8.ofNat c.toNat).toNat = c.toNat := by
    intro c hc
    have hdigit := Nat.isDigit_of_mem_toDigits (by norm_num) (by norm_num) hc
    rw [Char.isDigit, Bool.and_eq_true, decide_eq_true_eq, decide_eq_true_eq] at hdigit
    have hle : c.toNat ≤ 57 := hdigit.2
    rw [UInt8.toNat_ofNat_of_lt' (by norm_num; omega)]
  have hfold : ∀ (cs : List Char) (init : ℕ), (∀ c ∈ cs, (UInt8.ofNat c.toNat).toNat = c.toNat) →
      (cs.map fun c => UInt8.ofNat c.toNat).foldl (fun n b => 10 * n + (b.toNat - 48)) init =
        Nat.ofDigitChars 10 cs init := by
    intro cs
    induction cs with
    | nil => exact fun _ _ => rfl
    | cons c cs ih =>
      intro init h
      rw [List.map_cons, List.foldl_cons, h c List.mem_cons_self,
        ih _ fun c hc => h c (List.mem_cons_of_mem _ hc), Nat.ofDigitChars_cons]
      rfl
  unfold decimalValue decimal
  rw [hfold _ _ hdigits, Nat.ofDigitChars_ten_toDigits]

theorem decimalValue_lt {s : List UInt8} (h : ∀ b ∈ s, isDigit b = true) : decimalValue s < 10 ^ s.length := by
  induction s using List.reverseRecOn with
  | nil => decide
  | append_singleton s b ih =>
    have hs := ih fun c hc => h c (List.mem_append_left _ hc)
    have hb : b.toNat ≤ 57 := by
      have hdigit := h b (List.mem_append_right _ (List.mem_singleton_self b))
      unfold isDigit at hdigit
      rw [Bool.and_eq_true, decide_eq_true_eq, decide_eq_true_eq] at hdigit
      exact hdigit.2
    unfold decimalValue at hs ⊢
    rw [List.foldl_append, List.foldl_cons, List.foldl_nil, List.length_append, List.length_singleton, pow_succ]
    omega

theorem decimalValue_padZero (width : ℕ) (s : List UInt8) :
    decimalValue (padZero width s) = decimalValue s := by
  unfold padZero decimalValue
  rw [List.foldl_append]
  congr 1
  induction width - s.length with
  | zero => rfl
  | succ k ih =>
    rw [List.replicate_succ, List.foldl_cons]
    exact ih

theorem zeroInt_natCast (width n : ℕ) : zeroInt width n = padZero width (decimal n) := by
  have hn : ¬ (n : ℤ) < 0 := by omega
  unfold zeroInt
  rw [decide_eq_false hn, if_neg hn, Int.natAbs_natCast]
  rfl

theorem isDigit_zeroInt (width n : ℕ) : ∀ b ∈ zeroInt width (n : ℤ), isDigit b = true := by
  intro b hb
  rw [zeroInt_natCast] at hb
  rcases List.mem_append.mp hb with hb | hb
  · rw [List.eq_of_mem_replicate hb]
    decide
  · exact isDigit_decimal n b hb

theorem length_zeroInt {width n : ℕ} (hw : 0 < width) (h : n < 10 ^ width) :
    (zeroInt width (n : ℤ)).length = width := by
  have hle : (decimal n).length ≤ width := by
    unfold decimal
    rw [List.length_map]
    exact (Nat.length_toDigits_le_iff (by norm_num) hw).mpr h
  rw [zeroInt_natCast]
  unfold padZero
  rw [List.length_append, List.length_replicate]
  omega

theorem signOf_digit {b : UInt8} (h : isDigit b = true) (s : List UInt8) :
    signOf (b :: s) = (false, b :: s) := by
  unfold signOf
  split
  · next heq =>
    rw [(List.cons.inj heq).1] at h
    cases h
  · next heq =>
    rw [(List.cons.inj heq).1] at h
    cases h
  · rfl

theorem isSpace_digit {b : UInt8} (h : isDigit b = true) : isSpace b = false := by
  unfold isDigit at h
  unfold isSpace
  rw [Bool.and_eq_true, decide_eq_true_eq, decide_eq_true_eq] at h
  rw [Bool.or_eq_false_iff, decide_eq_false_iff_not, Bool.and_eq_false_iff,
    decide_eq_false_iff_not, decide_eq_false_iff_not]
  have h1 : (48 : ℕ) ≤ b.toNat := h.1
  refine ⟨fun heq => ?_, Or.inr fun hle => ?_⟩
  · rw [heq] at h1
    exact absurd h1 (by decide)
  · have h2 : b.toNat ≤ 13 := hle
    omega

theorem scanInt_digits {width : ℕ} (hw : 0 < width) {ds : List UInt8} (hds : ∀ b ∈ ds, isDigit b = true)
    (hlength : width ≤ ds.length) (rest : List UInt8) :
    scanInt width (ds ++ rest) = some ((decimalValue (ds.take width) : ℤ), ds.drop width ++ rest) := by
  obtain ⟨b, s, rfl⟩ : ∃ b s, ds = b :: s := List.exists_cons_of_length_pos (by omega)
  have hb : isDigit b = true := hds b List.mem_cons_self
  have hdrop : ((b :: s) ++ rest).dropWhile isSpace = (b :: s) ++ rest := by
    rw [List.cons_append, List.dropWhile_cons, isSpace_digit hb]
    rfl
  have hsign : signOf ((b :: s) ++ rest) = (false, (b :: s) ++ rest) := signOf_digit hb _
  have htake : ((b :: s).take width).takeWhile isDigit = (b :: s).take width :=
    List.takeWhile_eq_self_iff.mpr fun x hx => hds x (List.mem_of_mem_take hx)
  have hcount : ((b :: s).take width).length = width := List.length_take_of_le hlength
  have hne : (b :: s).take width ≠ [] := fun hnil => by
    rw [hnil] at hcount
    exact absurd hcount hw.ne
  unfold scanInt
  rw [hdrop]
  dsimp only
  rw [hsign]
  dsimp only
  rw [Nat.sub_self, Nat.sub_zero, List.take_append_of_le_length hlength, htake, if_neg hne, hcount,
    List.drop_append_of_le_length hlength]
  rfl

/-- **A number printed with leading zeros is read back**, and what follows it is left. -/
theorem scanInt_zeroInt {width n : ℕ} (hw : 0 < width) (h : n < 10 ^ width) (rest : List UInt8) :
    scanInt width (zeroInt width (n : ℤ) ++ rest) = some ((n : ℤ), rest) := by
  have hlength := length_zeroInt hw h
  rw [scanInt_digits hw (isDigit_zeroInt width n) hlength.ge, List.take_of_length_le hlength.le,
    List.drop_of_length_le hlength.le, zeroInt_natCast, decimalValue_padZero, decimalValue_decimal]
  rfl

theorem scanText_append (lit rest : List UInt8) : scanText lit (lit ++ rest) = some rest := by
  unfold scanText
  rw [if_pos (List.prefix_append lit rest), List.drop_left]

/-! ### Lengths -/

theorem length_decimal_le {n k : ℕ} (hk : 0 < k) (h : n < 10 ^ k) : (decimal n).length ≤ k := by
  unfold decimal
  rw [List.length_map]
  exact (Nat.length_toDigits_le_iff (by norm_num) hk).mpr h

theorem length_minus_le (neg : Bool) : (minus neg).length ≤ 1 := by
  rcases neg with _ | _ <;> decide

theorem length_padLeft (width : ℕ) (s : List UInt8) :
    (padLeft width s).length = max width s.length := by
  unfold padLeft
  rw [List.length_append, List.length_replicate]
  omega

theorem length_padRight (width : ℕ) (s : List UInt8) :
    (padRight width s).length = max width s.length := by
  unfold padRight
  rw [List.length_append, List.length_replicate]
  omega

theorem length_padZero (width : ℕ) (s : List UInt8) :
    (padZero width s).length = max width s.length := by
  unfold padZero
  rw [List.length_append, List.length_replicate]
  omega

theorem length_padInt_le {n : ℤ} (h : n.natAbs ≤ 2 ^ 31) {width : ℕ} (hw : width ≤ 11) :
    (padInt width n).length ≤ 11 := by
  have h1 := length_minus_le (decide (n < 0))
  have h2 : (decimal n.natAbs).length ≤ 10 := length_decimal_le (by norm_num) (by omega)
  unfold padInt intText
  rw [length_padLeft, List.length_append]
  omega

theorem length_padInt {n : ℤ} {width : ℕ} (hw : 0 < width) (h0 : 0 ≤ n) (h1 : n < 10 ^ width) :
    (padInt width n).length = width := by
  obtain ⟨n, rfl⟩ := Int.eq_ofNat_of_zero_le h0
  have hle : (decimal n).length ≤ width := length_decimal_le hw (by exact_mod_cast h1)
  have hneg : decide ((n : ℤ) < 0) = false := decide_eq_false (by omega)
  unfold padInt intText
  rw [length_padLeft, hneg, Int.natAbs_natCast]
  exact max_eq_left hle

theorem length_fixedText_le {x : Float64} {k d : ℕ} (hd : 0 < d) (hkd : 2 ^ k < 10 ^ d)
    (h : x.AtMost k) : (fixedText 7 x).length ≤ d + 9 := by
  cases x with
  | nan s =>
    have h1 := length_minus_le s
    have h2 : (ascii "nan").length = 3 := by decide
    unfold fixedText
    rw [List.length_append]
    omega
  | inf s => exact h.elim
  | fin s m =>
    have hm : (m : ℚ) * 10 ^ 7 ≤ ((2 ^ k * 10 ^ 7 : ℕ) : ℚ) := by
      have : (m : ℚ) ≤ 2 ^ k := h
      push_cast
      linarith
    have hn := roundEven_le hm
    set n := roundEven (m * 10 ^ 7) with hdef
    have hdiv : n / 10 ^ 7 ≤ 2 ^ k := Nat.div_le_of_le_mul (by rwa [mul_comm])
    have h1 := length_minus_le s
    have h2 : (decimal (n / 10 ^ 7)).length ≤ d := length_decimal_le hd (hdiv.trans_lt hkd)
    have h3 : (decimal (n % 10 ^ 7)).length ≤ 7 :=
      length_decimal_le (by norm_num) (Nat.mod_lt _ (by norm_num))
    unfold fixedText
    simp only [← hdef, List.length_append, List.length_cons, length_padZero]
    omega

/-- A number of magnitude at most `2 ^ 32` with seven places takes at most nineteen bytes. -/
theorem length_padFixed_le {x : Float64} (h : x.AtMost 32) {width : ℕ} (hw : width ≤ 19) :
    (padFixed width 7 x).length ≤ 19 := by
  unfold padFixed
  rw [length_padLeft]
  exact max_le hw (length_fixedText_le (d := 10) (by norm_num) (by norm_num) h)

/-- Seconds with seven places take the width they are given. -/
theorem length_padFixed {x : Float64} (h : x.AtMost 7) : (padFixed 13 7 x).length = 13 := by
  unfold padFixed
  rw [length_padLeft]
  have hle := length_fixedText_le (d := 3) (by norm_num) (by norm_num) h
  omega

/-! ### Widths that suffice -/

theorem length_decimal_le_iff {n k : ℕ} (hk : 0 < k) : (decimal n).length ≤ k ↔ n < 10 ^ k := by
  unfold decimal
  rw [List.length_map]
  exact Nat.length_toDigits_le_iff (by norm_num) hk

theorem length_minus (neg : Bool) : (minus neg).length = if neg then 1 else 0 := by
  rcases neg <;> rfl

/-- An integer is printed in `width` columns. -/
def IntFits (width : ℕ) (n : ℤ) : Prop := -10 ^ (width - 1) < n ∧ n < 10 ^ width

theorem length_intText_le_iff {n : ℤ} {width : ℕ} (hw : 1 < width) :
    (intText n).length ≤ width ↔ IntFits width n := by
  unfold intText IntFits
  rw [List.length_append, length_minus]
  rcases lt_or_ge n 0 with h | h
  · have hpow : (0 : ℤ) < 10 ^ width := by positivity
    have hcount : 1 + (decimal n.natAbs).length ≤ width ↔ (decimal n.natAbs).length ≤ width - 1 := by
      omega
    rw [decide_eq_true h, if_pos rfl, hcount, length_decimal_le_iff (by omega),
      and_iff_left (h.trans hpow), ← Nat.cast_lt (α := ℤ), Nat.cast_pow, Int.natCast_natAbs,
      abs_of_neg h]
    push_cast
    omega
  · have hpow : (0 : ℤ) < 10 ^ (width - 1) := by positivity
    rw [decide_eq_false (by omega), if_neg Bool.false_ne_true, zero_add,
      length_decimal_le_iff (by omega), and_iff_right (by omega), ← Nat.cast_lt (α := ℤ),
      Nat.cast_pow, Int.natCast_natAbs, abs_of_nonneg h]
    push_cast
    rfl

/-- A number rounded to `prec` places has at most `digits` digits before its point, or one less behind
a minus sign. -/
def Fits (digits prec : ℕ) : Float64 → Prop
  | .nan _ => True
  | .inf _ => True
  | .fin s m => (m : ℚ) + 1 / (2 * 10 ^ prec) < 10 ^ (if s then digits - 1 else digits)

theorem length_fixedText_le_iff {x : Float64} {digits prec : ℕ} (hd : 1 < digits) (hp : 0 < prec) :
    (fixedText prec x).length ≤ digits + 1 + prec ↔ Fits digits prec x := by
  cases x with
  | nan s =>
    have h1 := length_minus_le s
    have h2 : (ascii "nan").length = 3 := by decide
    refine iff_of_true ?_ trivial
    unfold fixedText
    rw [List.length_append]
    omega
  | inf s =>
    have h1 := length_minus_le s
    have h2 : (ascii "inf").length = 3 := by decide
    refine iff_of_true ?_ trivial
    unfold fixedText
    rw [List.length_append]
    omega
  | fin s m =>
    set k := if s then digits - 1 else digits with hk
    have hk0 : 0 < k := by
      rw [hk]
      split_ifs <;> omega
    have hsum : (minus s).length + k = digits := by
      rw [length_minus, hk]
      split_ifs <;> omega
    set n := roundEven (m * 10 ^ prec) with hn
    have hplaces : (decimal (n % 10 ^ prec)).length ≤ prec :=
      length_decimal_le hp (Nat.mod_lt _ (by positivity))
    have hlength : (fixedText prec (.fin s m)).length =
        (minus s).length + (decimal (n / 10 ^ prec)).length + 1 + prec := by
      unfold fixedText
      simp only [← hn, List.length_append, List.length_cons, length_padZero]
      omega
    have hcount : (fixedText prec (.fin s m)).length ≤ digits + 1 + prec ↔
        (decimal (n / 10 ^ prec)).length ≤ k := by
      rw [hlength]
      omega
    have heven : Even (10 ^ (k + prec)) := (by decide : Even 10).pow_of_ne_zero (by omega)
    rw [hcount, length_decimal_le_iff hk0, Nat.div_lt_iff_lt_mul (by positivity), ← pow_add, hn,
      roundEven_lt_iff heven (by positivity)]
    have hpow : (0 : ℚ) < 10 ^ prec := by positivity
    have hhalf : ((m : ℚ) + 1 / (2 * 10 ^ prec)) * 10 ^ prec = m * 10 ^ prec + 1 / 2 := by
      field_simp
    have hfits : Fits digits prec (.fin s m) ↔ (m : ℚ) + 1 / (2 * 10 ^ prec) < 10 ^ k := Iff.rfl
    have hscaled : (m : ℚ) + 1 / (2 * 10 ^ prec) < 10 ^ k ↔
        (m : ℚ) * 10 ^ prec + 1 / 2 < 10 ^ k * 10 ^ prec := by
      rw [← hhalf]
      exact (mul_lt_mul_iff_left₀ hpow).symm
    rw [hfits, hscaled, Nat.cast_pow, Nat.cast_ofNat, pow_add, lt_sub_iff_add_lt]

end GpsBase.Lib.CText
