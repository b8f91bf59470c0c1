import GpsBase.Lib.CText

/-! # Numbers of C read as doubles

`strtod`: blanks, a sign, and a decimal or hexadecimal number, an infinity or a NaN, in any case of the
letters. The longest beginning of that form is converted and rounded to nearest. A result that is too large
or has fewer bits than a double sets `ERANGE`. -/

namespace GpsBase.Lib.Strtod

open GpsBase.Lib.CText GpsBase.Lib.Binary64

/-- What `strtod` returns: the value, the text its end pointer points at, and whether it sets `ERANGE`. -/
structure Read where
  value : Float64
  rest : List UInt8
  erange : Bool
  deriving DecidableEq

def isFinite : Float64 → Bool
  | .fin _ _ => true
  | _ => false

/-- `base ^ e`. -/
def scale (base : ℕ) (e : ℤ) : ℚ :=
  if 0 ≤ e then ((base ^ e.toNat : ℕ) : ℚ) else 1 / ((base ^ (-e).toNat : ℕ) : ℚ)

def decimalDigit (b : UInt8) : Option ℕ := if isDigit b then some (b.toNat - 48) else none

/-- What is behind a word, in any case of its letters. -/
def word (lit : String) (s : List UInt8) : Option (List UInt8) :=
  if (s.take (ascii lit).length).map lower = ascii lit then some (s.drop (ascii lit).length) else none

/-- Digits with at most one point among them: their value, how many are behind the point, and the rest. -/
def digits (digit : UInt8 → Option ℕ) (base : ℕ) (s : List UInt8) : Option (ℕ × ℕ × List UInt8) :=
  let isDigit := fun b => (digit b).isSome
  let value := fun ds : List UInt8 => ds.foldl (fun n b => base * n + (digit b).getD 0) 0
  let whole := s.takeWhile isDigit
  match s.drop whole.length with
  | 46 :: rest =>
    let fraction := rest.takeWhile isDigit
    if whole = [] ∧ fraction = [] then none
    else some (value (whole ++ fraction), fraction.length, rest.drop fraction.length)
  | rest => if whole = [] then none else some (value whole, 0, rest)

/-- An exponent behind its letter, and the rest; without digits there is none. -/
def exponent (letter : UInt8) (s : List UInt8) : ℤ × List UInt8 :=
  match s with
  | b :: rest =>
    let (neg, rest) := signOf rest
    let ds := rest.takeWhile isDigit
    if lower b ≠ letter ∨ ds = [] then (0, s)
    else (if neg then -decimalValue ds else decimalValue ds, rest.drop ds.length)
  | [] => (0, [])

/-- The double nearest to a number. -/
def convert (neg : Bool) (q : ℚ) (rest : List UInt8) : Read :=
  let value := Float64.ofRat neg (if neg then -q else q)
  { value := value, rest := rest
    erange := match value with
      | .fin _ mag => q ≠ 0 ∧ (mag : ℚ) < pow2 (-1022)
      | _ => true }

def decimalNumber (neg : Bool) (s : List UInt8) : Option Read :=
  (digits decimalDigit 10 s).map fun (n, places, rest) =>
    let (e, rest) := exponent 101 rest
    convert neg (n * scale 10 (e - places)) rest

/-- A hexadecimal number; `0x` without a digit is the number zero before an `x`. -/
def hexNumber (neg : Bool) (s : List UInt8) : Option Read :=
  (word "0x" s).bind fun rest =>
    (digits hexDigit 16 rest).map fun (n, places, rest) =>
      let (e, rest) := exponent 112 rest
      convert neg (n * scale 2 (e - 4 * places)) rest

def infinity (neg : Bool) (s : List UInt8) : Option Read :=
  ((word "infinity" s).or (word "inf" s)).map fun rest => ⟨.inf neg, rest, false⟩

/-- The text in parentheses behind a NaN. -/
def payload (s : List UInt8) : List UInt8 :=
  match s with
  | 40 :: rest =>
    match rest.dropWhile (fun b => isAlpha b || isDigit b || b = 95) with
    | 41 :: rest => rest
    | _ => s
  | _ => s

def nan (neg : Bool) (s : List UInt8) : Option Read :=
  (word "nan" s).map fun rest => ⟨.nan neg, payload rest, false⟩

/-- `strtod` of a text without NUL. -/
def strtod (s : List UInt8) : Read :=
  let (neg, text) := signOf (s.dropWhile isSpace)
  ((((hexNumber neg text).or (decimalNumber neg text)).or (infinity neg text)).or (nan neg text)).getD
    ⟨.fin false 0, s, false⟩

example : strtod (ascii " -12.5e1x") = ⟨.fin true 125, ascii "x", false⟩ := by decide +kernel

example : strtod (ascii "0x1.8p3") = ⟨.fin false 12, [], false⟩ := by decide +kernel

example : strtod (ascii "1e999") = ⟨.inf false, [], true⟩ := by decide +kernel

example : strtod (ascii "nan(7)") = ⟨.nan false, [], false⟩ := by decide +kernel

theorem isFinite_of_le {x : Float64} {s t : Bool} {m n : ℚ≥0} (hlo : (Float64.fin s m).le x = true)
    (hhi : x.le (.fin t n) = true) : isFinite x = true := by
  cases x with
  | nan => cases hlo
  | inf neg =>
    -- the upper bound leaves minus infinity, the lower bound plus infinity
    cases neg
    · cases hhi
    · cases hlo
  | fin => rfl

theorem lt_eq_not_le {x y : Float64} (hx : isFinite x = true) (hy : isFinite y = true) :
    x.lt y = !y.le x := by
  cases x with
  | fin s m =>
    cases y with
    | fin t n => simp [Float64.lt, Float64.le, ← not_le]
    | nan => cases hy
    | inf => cases hy
  | nan => cases hx
  | inf => cases hx

end GpsBase.Lib.Strtod
