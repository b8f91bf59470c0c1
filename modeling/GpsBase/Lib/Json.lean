import GpsBase.Lib.CText
import Mathlib.Data.Rat.Defs

/-! # JSON

Strings as a browser writes them: the characters in UTF-8, and escapes for quotes, backslashes and control
characters. Byte by byte this is the escape of each byte of the UTF-8 text (`escapeChar_eq`).

Texts are read by `parse`, on bytes: a byte that is not escaped stands for itself. That a text is in UTF-8
is a property of its own (`IsUtf8`); what ASCII characters separate is in UTF-8 if each part is
(`isUtf8_append_cons`). -/

namespace GpsBase.Lib.Json

open GpsBase.Lib.CText

/-! ### Strings written -/

/-- The bytes of a text in UTF-8. -/
def utf8 (s : String) : List UInt8 := s.toList.flatMap String.utf8EncodeChar

def hexLow (n : ℕ) : UInt8 := UInt8.ofNat (if n < 10 then 48 + n else 87 + n)

/-- The letter behind the backslash of a short escape. -/
def shortEscape (n : ℕ) : Option UInt8 :=
  match n with
  | 34 => some 34
  | 92 => some 92
  | 8 => some 98
  | 12 => some 102
  | 10 => some 110
  | 13 => some 114
  | 9 => some 116
  | _ => none

def escapeChar (c : Char) : List UInt8 :=
  match shortEscape c.toNat with
  | some letter => [92, letter]
  | none =>
    if c.toNat < 32 then [92, 117, 48, 48, hexLow (c.toNat / 16), hexLow (c.toNat % 16)]
    else String.utf8EncodeChar c

/-- A string, as `JSON.stringify` writes it. -/
def quote (s : String) : List UInt8 := 34 :: s.toList.flatMap escapeChar ++ [34]

def escapeByte (b : UInt8) : List UInt8 :=
  match shortEscape b.toNat with
  | some letter => [92, letter]
  | none =>
    if b.toNat < 32 then [92, 117, 48, 48, hexLow (b.toNat / 16), hexLow (b.toNat % 16)] else [b]

theorem shortEscape_large {n : ℕ} (h : 93 ≤ n) : shortEscape n = none := by
  unfold shortEscape
  split <;> first | omega | rfl

theorem escapeByte_large {n : ℕ} (h1 : 128 ≤ n) (h2 : n < 256) :
    escapeByte (UInt8.ofNat n) = [UInt8.ofNat n] := by
  have hn : (UInt8.ofNat n).toNat = n := UInt8.toNat_ofNat_of_lt' h2
  unfold escapeByte
  rw [hn, shortEscape_large (by omega)]
  dsimp only
  rw [if_neg (by omega)]

/-- **A character is escaped byte by byte**: all bytes of one that is not ASCII are large. -/
theorem escapeChar_eq (c : Char) : escapeChar c = (String.utf8EncodeChar c).flatMap escapeByte := by
  have hval : c.val.toNat = c.toNat := rfl
  unfold String.utf8EncodeChar
  dsimp only
  rw [hval]
  split_ifs with h1 h2 h3
  · have hn : (UInt8.ofNat c.toNat).toNat = c.toNat := UInt8.toNat_ofNat_of_lt' (by
      show c.toNat < 256
      omega)
    rw [List.flatMap_singleton]
    unfold escapeChar escapeByte
    rw [hn]
    rcases shortEscape c.toNat with _ | letter
    · dsimp only
      split_ifs
      · rfl
      · unfold String.utf8EncodeChar
        dsimp only
        rw [hval, if_pos h1]
    · rfl
  all_goals
    have hlong : escapeChar c = String.utf8EncodeChar c := by
      unfold escapeChar
      rw [shortEscape_large (by omega)]
      dsimp only
      rw [if_neg (by omega)]
    rw [hlong]
    unfold String.utf8EncodeChar
    dsimp only
    rw [hval]
  · rw [if_neg h1, if_pos h2]
    simp only [List.flatMap_cons, List.flatMap_nil, List.append_nil]
    rw [escapeByte_large (by omega) (by omega), escapeByte_large (by omega) (by omega)]
    rfl
  · rw [if_neg h1, if_neg h2, if_pos h3]
    simp only [List.flatMap_cons, List.flatMap_nil, List.append_nil]
    rw [escapeByte_large (by omega) (by omega), escapeByte_large (by omega) (by omega),
      escapeByte_large (by omega) (by omega)]
    rfl
  · rw [if_neg h1, if_neg h2, if_neg h3]
    simp only [List.flatMap_cons, List.flatMap_nil, List.append_nil]
    rw [escapeByte_large (by omega) (by omega), escapeByte_large (by omega) (by omega),
      escapeByte_large (by omega) (by omega), escapeByte_large (by omega) (by omega)]
    rfl

theorem quote_eq (s : String) : quote s = 34 :: (utf8 s).flatMap escapeByte ++ [34] := by
  unfold quote utf8
  rw [List.flatMap_assoc]
  congr 2
  refine List.flatMap_congr fun c _ => escapeChar_eq c

/-! ### UTF-8 -/

/-- The bytes are the UTF-8 of a text. -/
def IsUtf8 (b : List UInt8) : Prop := ∃ s : String, utf8 s = b

theorem isUtf8_iff {b : List UInt8} : IsUtf8 b ↔ ∃ cs : List Char, cs.flatMap String.utf8EncodeChar = b := by
  constructor
  · rintro ⟨s, h⟩
    exact ⟨s.toList, h⟩
  · rintro ⟨cs, h⟩
    refine ⟨String.ofList cs, ?_⟩
    unfold utf8
    rw [String.toList_ofList, h]

theorem isUtf8_nil : IsUtf8 [] := isUtf8_iff.mpr ⟨[], rfl⟩

theorem IsUtf8.append {b b' : List UInt8} (h : IsUtf8 b) (h' : IsUtf8 b') : IsUtf8 (b ++ b') := by
  obtain ⟨cs, rfl⟩ := isUtf8_iff.mp h
  obtain ⟨cs', rfl⟩ := isUtf8_iff.mp h'
  exact isUtf8_iff.mpr ⟨cs ++ cs', List.flatMap_append⟩

theorem large_byte {n : ℕ} (h1 : 128 ≤ n) (h2 : n < 256) : ¬ UInt8.ofNat n < 128 := by
  intro h
  have hlt : (UInt8.ofNat n).toNat < 128 := h
  rw [UInt8.toNat_ofNat_of_lt' h2] at hlt
  omega

theorem utf8EncodeChar_ascii {c : Char} {b : UInt8} (hb : b < 128) (h : b ∈ String.utf8EncodeChar c) :
    String.utf8EncodeChar c = [b] := by
  unfold String.utf8EncodeChar at h ⊢
  dsimp only at h ⊢
  split_ifs at h ⊢ with h1 h2 h3
  · rw [List.mem_singleton.mp h]
  all_goals
    simp only [List.mem_cons, List.not_mem_nil, or_false] at h
  · rcases h with rfl | rfl
    · exact absurd hb (large_byte (by omega) (by omega))
    · exact absurd hb (large_byte (by omega) (by omega))
  · rcases h with rfl | rfl | rfl
    · exact absurd hb (large_byte (by omega) (by omega))
    · exact absurd hb (large_byte (by omega) (by omega))
    · exact absurd hb (large_byte (by omega) (by omega))
  · rcases h with rfl | rfl | rfl | rfl
    · exact absurd hb (large_byte (by omega) (by omega))
    · exact absurd hb (large_byte (by omega) (by omega))
    · exact absurd hb (large_byte (by omega) (by omega))
    · exact absurd hb (large_byte (by omega) (by omega))

theorem isUtf8_singleton {b : UInt8} (hb : b < 128) : IsUtf8 [b] := by
  have hall : ∀ n < 128, String.utf8EncodeChar (Char.ofNat n) = [UInt8.ofNat n] := by decide +kernel
  refine isUtf8_iff.mpr ⟨[Char.ofNat b.toNat], ?_⟩
  rw [List.flatMap_singleton, hall b.toNat hb, UInt8.ofNat_toNat]

theorem isUtf8_split {b : UInt8} (hb : b < 128) : ∀ {cs : List Char} {x y : List UInt8},
    cs.flatMap String.utf8EncodeChar = x ++ b :: y → IsUtf8 x ∧ IsUtf8 y
  | [], x, y, h => by
    rw [List.flatMap_nil] at h
    exact absurd h.symm (List.append_ne_nil_of_right_ne_nil _ (List.cons_ne_nil _ _))
  | c :: cs, x, y, h => by
    rw [List.flatMap_cons] at h
    rcases List.append_eq_append_iff.mp h with ⟨x', rfl, hrest⟩ | ⟨d, hc, hrest⟩
    · obtain ⟨hx, hy⟩ := isUtf8_split hb hrest
      exact ⟨(isUtf8_iff.mpr ⟨[c], List.flatMap_singleton _ _⟩).append hx, hy⟩
    · rcases d with _ | ⟨d, ds⟩
      · rw [List.append_nil] at hc
        rw [List.nil_append] at hrest
        obtain ⟨-, hy⟩ := isUtf8_split (x := []) hb hrest.symm
        exact ⟨isUtf8_iff.mpr ⟨[c], by rw [List.flatMap_singleton, hc]⟩, hy⟩
      · rw [List.cons_append] at hrest
        obtain ⟨rfl, rfl⟩ := List.cons.inj hrest
        -- the byte is in the character, and so it is the character
        have hone := utf8EncodeChar_ascii hb (hc ▸ List.mem_append_right _ List.mem_cons_self)
        rw [hone] at hc
        rcases x with _ | ⟨a, x⟩
        · cases hc
          exact ⟨isUtf8_nil, isUtf8_iff.mpr ⟨cs, rfl⟩⟩
        · exact absurd (congrArg List.length hc) (by simp)

/-- **Texts that an ASCII character separates.** -/
theorem isUtf8_append_cons {b : UInt8} (hb : b < 128) {x y : List UInt8} :
    IsUtf8 (x ++ b :: y) ↔ IsUtf8 x ∧ IsUtf8 y := by
  constructor
  · intro h
    obtain ⟨cs, hcs⟩ := isUtf8_iff.mp h
    exact isUtf8_split hb hcs
  · rintro ⟨hx, hy⟩
    exact hx.append ((isUtf8_singleton hb).append hy)

theorem isUtf8_cons {b : UInt8} (hb : b < 128) {s : List UInt8} : IsUtf8 (b :: s) ↔ IsUtf8 s :=
  (isUtf8_append_cons (x := []) hb).trans (and_iff_right isUtf8_nil)

theorem isUtf8_ascii : ∀ {s : List UInt8}, (∀ b ∈ s, b < 128) → IsUtf8 s
  | [], _ => isUtf8_nil
  | b :: _, h => (isUtf8_cons (h b List.mem_cons_self)).mpr
      (isUtf8_ascii fun c hc => h c (List.mem_cons_of_mem _ hc))

theorem isUtf8_append_ascii {block : List UInt8} (hne : block ≠ []) (hascii : ∀ b ∈ block, b < 128)
    {x y : List UInt8} : IsUtf8 (x ++ (block ++ y)) ↔ IsUtf8 x ∧ IsUtf8 y := by
  rcases block with _ | ⟨b, block⟩
  · exact absurd rfl hne
  · rw [List.cons_append, isUtf8_append_cons (hascii b List.mem_cons_self)]
    refine and_congr_right fun _ => ⟨fun h => ?_, fun h => ?_⟩
    · rcases block.eq_nil_or_concat with rfl | ⟨front, last, rfl⟩
      · exact h
      · rw [List.concat_eq_append, List.append_assoc, List.singleton_append,
          isUtf8_append_cons (hascii last (by simp))] at h
        exact h.2
    · exact (isUtf8_ascii fun c hc => hascii c (List.mem_cons_of_mem _ hc)).append h

/-- A text where some ASCII characters are written as others. -/
theorem isUtf8_flatMap {w : UInt8 → List UInt8}
    (hw : ∀ b, w b = [b] ∨ b < 128 ∧ w b ≠ [] ∧ ∀ c ∈ w b, c < 128) :
    ∀ s pre : List UInt8, IsUtf8 (pre ++ s.flatMap w) ↔ IsUtf8 (pre ++ s)
  | [], pre => by simp
  | b :: s, pre => by
    rw [List.flatMap_cons]
    rcases hw b with hsame | ⟨hb, hne, hascii⟩
    · have ih := isUtf8_flatMap hw s (pre ++ [b])
      simpa [hsame] using ih
    · have ih := isUtf8_flatMap hw s []
      rw [isUtf8_append_ascii hne hascii, isUtf8_append_cons hb]
      simpa using fun _ => ih

/-! ### Texts read -/

/-- A value; a string is its bytes, an object its members in their order. -/
inductive Value
  | null
  | bool (b : Bool)
  | num (q : ℚ)
  | str (s : List UInt8)
  | arr (vs : List Value)
  | obj (ms : List (List UInt8 × Value))

def skipBlanks (s : List UInt8) : List UInt8 := s.dropWhile fun b => b ∈ [32, 9, 10, 13]

/-- The number of four hexadecimal digits. -/
def hex4 (a b c d : UInt8) : Option ℕ :=
  match hexDigit a, hexDigit b, hexDigit c, hexDigit d with
  | some a, some b, some c, some d => some (4096 * a + 256 * b + 16 * c + d)
  | _, _, _, _ => none

/-- The character of a letter behind a backslash. -/
def escaped : UInt8 → Option UInt8
  | 34 => some 34
  | 92 => some 92
  | 47 => some 47
  | 98 => some 8
  | 102 => some 12
  | 110 => some 10
  | 114 => some 13
  | 116 => some 9
  | _ => none

/-- The rest of a string behind `acc`, and what comes behind its closing quote. Half of a surrogate pair
stands for no character. -/
def string (acc : List UInt8) : List UInt8 → Option (List UInt8 × List UInt8)
  | [] => none
  | 34 :: s => some (acc, s)
  | 92 :: 117 :: a :: b :: c :: d :: s =>
    match hex4 a b c d with
    | none => none
    | some n =>
      if 0xD800 ≤ n ∧ n < 0xDC00 then
        match s with
        | 92 :: 117 :: a :: b :: c :: d :: s =>
          match hex4 a b c d with
          | none => none
          | some m =>
            if 0xDC00 ≤ m ∧ m < 0xE000 then
              string (acc ++ String.utf8EncodeChar
                (Char.ofNat (0x10000 + 0x400 * (n - 0xD800) + (m - 0xDC00)))) s
            else none
        | _ => none
      else if 0xDC00 ≤ n ∧ n < 0xE000 then none
      else string (acc ++ String.utf8EncodeChar (Char.ofNat n)) s
  | 92 :: e :: s =>
    match escaped e with
    | none => none
    | some b => string (acc ++ [b]) s
  | b :: s => if b = 92 ∨ b < 32 then none else string (acc ++ [b]) s

/-- The digits behind a point. -/
def fraction (s : List UInt8) : Option (List UInt8 × List UInt8) :=
  match s with
  | 46 :: s => if s.takeWhile isDigit = [] then none else some (s.takeWhile isDigit, s.dropWhile isDigit)
  | s => some ([], s)

def exponent (s : List UInt8) : Option (ℤ × List UInt8) :=
  match s with
  | [] => some (0, [])
  | e :: s =>
    if e = 69 ∨ e = 101 then
      let (neg, s) := signOf s
      if s.takeWhile isDigit = [] then none
      else
        let n : ℤ := decimalValue (s.takeWhile isDigit)
        some (if neg then -n else n, s.dropWhile isDigit)
    else some (0, e :: s)

/-- A number without its sign. -/
def magnitude (s : List UInt8) : Option (ℚ × List UInt8) :=
  let whole := s.takeWhile isDigit
  if whole = [] ∨ (1 < whole.length ∧ whole.head? = some 48) then none
  else
    match fraction (s.dropWhile isDigit) with
    | none => none
    | some (digits, s) =>
      match exponent s with
      | none => none
      | some (e, s) => some (decimalValue (whole ++ digits) * (10 : ℚ) ^ (e - digits.length), s)

def number (s : List UInt8) : Option (ℚ × List UInt8) :=
  match s with
  | 45 :: s => (magnitude s).map fun (q, s) => (-q, s)
  | s => magnitude s

def word (w : List UInt8) (v : Value) (s : List UInt8) : Option (Value × List UInt8) :=
  if w.isPrefixOf s then some (v, s.drop w.length) else none

/-- The elements of an array behind `vs`, and what comes behind its closing bracket. -/
def elements (value : List UInt8 → Option (Value × List UInt8)) :
    ℕ → List Value → List UInt8 → Option (List Value × List UInt8)
  | 0, _, _ => none
  | fuel + 1, vs, s =>
    match value s with
    | none => none
    | some (v, s) =>
      match skipBlanks s with
      | 44 :: s => elements value fuel (vs ++ [v]) s
      | 93 :: s => some (vs ++ [v], s)
      | _ => none

/-- The members of an object behind `ms`, and what comes behind its closing brace. -/
def members (value : List UInt8 → Option (Value × List UInt8)) :
    ℕ → List (List UInt8 × Value) → List UInt8 → Option (List (List UInt8 × Value) × List UInt8)
  | 0, _, _ => none
  | fuel + 1, ms, s =>
    match skipBlanks s with
    | 34 :: s =>
      match string [] s with
      | none => none
      | some (key, s) =>
        match skipBlanks s with
        | 58 :: s =>
          match value s with
          | none => none
          | some (v, s) =>
            match skipBlanks s with
            | 44 :: s => members value fuel (ms ++ [(key, v)]) s
            | 125 :: s => some (ms ++ [(key, v)], s)
            | _ => none
        | _ => none
    | _ => none

/-- A value behind blanks, and what comes behind it; `fuel` bounds how deep it nests. -/
def value : ℕ → List UInt8 → Option (Value × List UInt8)
  | 0, _ => none
  | fuel + 1, s =>
    match skipBlanks s with
    | [] => none
    | b :: s =>
      if b = 34 then (string [] s).map fun (x, s) => (.str x, s)
      else if b = 91 then
        match skipBlanks s with
        | 93 :: s => some (.arr [], s)
        | s => (elements (value fuel) (s.length + 1) [] s).map fun (vs, s) => (.arr vs, s)
      else if b = 123 then
        match skipBlanks s with
        | 125 :: s => some (.obj [], s)
        | s => (members (value fuel) (s.length + 1) [] s).map fun (ms, s) => (.obj ms, s)
      else if b = 110 then word (ascii "null") .null (b :: s)
      else if b = 116 then word (ascii "true") (.bool true) (b :: s)
      else if b = 102 then word (ascii "false") (.bool false) (b :: s)
      else (number (b :: s)).map fun (q, s) => (.num q, s)

/-- The value of a text. -/
def parse (s : List UInt8) : Option Value :=
  match value (s.length + 1) s with
  | none => none
  | some (v, s) => if skipBlanks s = [] then some v else none

/-! ### Values in a text -/

theorem skipBlanks_cons {b : UInt8} (hb : b ∉ [32, 9, 10, 13]) (s : List UInt8) : skipBlanks (b :: s) = b :: s := by
  unfold skipBlanks
  rw [List.dropWhile_cons_of_neg (by simpa using hb)]

theorem string_byte {b : UInt8} (h34 : b ≠ 34) (h92 : b ≠ 92) (acc s : List UInt8) :
    string acc (b :: s) = if b < 32 then none else string (acc ++ [b]) s := by
  rw [string.eq_5 _ _ _ h34 (fun _ _ _ _ _ h _ => h92 h) (fun _ _ h _ => h92 h)]
  exact if_congr (or_iff_right h92) rfl rfl

theorem string_escaped {e b : UInt8} (he : escaped e = some b) (acc s : List UInt8) :
    string acc (92 :: e :: s) = string (acc ++ [b]) s := by
  have h117 : e ≠ 117 := by
    rintro rfl
    cases he
  rw [string.eq_4 _ _ _ (fun _ _ _ _ _ h _ => h117 h), he]

/-- A text that needs no escapes. -/
def Plain (x : List UInt8) : Prop := ∀ b ∈ x, b ≠ 34 ∧ b ≠ 92 ∧ ¬ b < 32

theorem string_plain (s : List UInt8) : ∀ (x acc : List UInt8), Plain x →
    string acc (x ++ 34 :: s) = some (acc ++ x, s)
  | [], acc, _ => by
    rw [List.nil_append, string, List.append_nil]
  | b :: x, acc, h => by
    obtain ⟨h34, h92, h32⟩ := h b List.mem_cons_self
    rw [List.cons_append, string_byte h34 h92, if_neg h32,
      string_plain s x (acc ++ [b]) fun c hc => h c (List.mem_cons_of_mem _ hc), List.append_assoc,
      List.singleton_append]

theorem value_string (fuel : ℕ) (s : List UInt8) :
    value (fuel + 1) (34 :: s) = (string [] s).map fun (x, s) => (.str x, s) := by
  rw [value, skipBlanks_cons (by decide)]
  rfl

theorem value_true (fuel : ℕ) (s : List UInt8) : value (fuel + 1) (ascii "true" ++ s) = some (.bool true, s) := by
  have htext : ascii "true" ++ s = 116 :: 114 :: 117 :: 101 :: s := rfl
  rw [htext, value, skipBlanks_cons (by decide)]
  rfl

theorem value_false (fuel : ℕ) (s : List UInt8) :
    value (fuel + 1) (ascii "false" ++ s) = some (.bool false, s) := by
  have htext : ascii "false" ++ s = 102 :: 97 :: 108 :: 115 :: 101 :: s := rfl
  rw [htext, value, skipBlanks_cons (by decide)]
  rfl

theorem decimal_head {n : ℕ} (h : 1 < (decimal n).length) : (decimal n).head? ≠ some 48 := by
  intro hhead
  have hdigits := isDigit_decimal n
  have hvalue := decimalValue_decimal n
  rcases hds : decimal n with _ | ⟨b, ds⟩
  · rw [hds] at h
    exact absurd h (by decide)
  · rw [hds] at h hhead hdigits hvalue
    cases hhead
    have hzero : decimalValue (48 :: ds) = decimalValue ds := rfl
    have hlt : decimalValue ds < 10 ^ ds.length :=
      decimalValue_lt fun c hc => hdigits c (List.mem_cons_of_mem _ hc)
    rw [hzero] at hvalue
    have hn : n < 10 ^ ds.length := hvalue ▸ hlt
    have hle := length_decimal_le (by simpa using h) hn
    rw [hds, List.length_cons] at hle
    omega

/-- A number is read up to a byte that belongs to none. -/
theorem magnitude_decimal (n : ℕ) {c : UInt8} (hc : isDigit c = false ∧ c ≠ 46 ∧ c ≠ 69 ∧ c ≠ 101)
    (s : List UInt8) : magnitude (decimal n ++ c :: s) = some ((n : ℚ), c :: s) := by
  obtain ⟨hdigit, h46, h69, h101⟩ := hc
  have htake : (decimal n ++ c :: s).takeWhile isDigit = decimal n := by
    rw [List.takeWhile_append_of_pos (isDigit_decimal n), List.takeWhile_cons_of_neg (by rw [hdigit]; decide),
      List.append_nil]
  have hdrop : (decimal n ++ c :: s).dropWhile isDigit = c :: s := by
    rw [List.dropWhile_append_of_pos (isDigit_decimal n), List.dropWhile_cons_of_neg (by rw [hdigit]; decide)]
  have hgood : ¬ (decimal n = [] ∨ 1 < (decimal n).length ∧ (decimal n).head? = some 48) := by
    rintro (hnil | ⟨hlength, hhead⟩)
    · have hvalue := decimalValue_decimal n
      rw [hnil] at hvalue
      obtain rfl : n = 0 := hvalue.symm
      exact absurd hnil (by decide)
    · exact decimal_head hlength hhead
  have hfraction : fraction (c :: s) = some ([], c :: s) := by
    unfold fraction
    split
    · next heq => exact absurd (List.cons.inj heq).1 h46
    · rfl
  have hexponent : exponent (c :: s) = some (0, c :: s) := by
    unfold exponent
    exact if_neg (not_or.mpr ⟨h69, h101⟩)
  unfold magnitude
  rw [htake, hdrop]
  dsimp only
  rw [if_neg hgood, hfraction]
  dsimp only
  rw [hexponent, List.append_nil, decimalValue_decimal]
  simp

theorem value_decimal (fuel n : ℕ) {c : UInt8} (hc : isDigit c = false ∧ c ≠ 46 ∧ c ≠ 69 ∧ c ≠ 101)
    (s : List UInt8) : value (fuel + 1) (decimal n ++ c :: s) = some (.num n, c :: s) := by
  have hmagnitude := magnitude_decimal n hc s
  have hdigits := isDigit_decimal n
  rcases hds : decimal n with _ | ⟨b, ds⟩
  · rw [hds, List.nil_append] at hmagnitude
    have hnone : magnitude (c :: s) = none := by
      unfold magnitude
      rw [List.takeWhile_cons_of_neg (by rw [hc.1]; decide)]
      rfl
    rw [hnone] at hmagnitude
    cases hmagnitude
  · rw [hds, List.cons_append] at hmagnitude
    have hb : isDigit b = true := hdigits b (hds ▸ List.mem_cons_self)
    -- a digit begins neither a blank nor another value
    have hother : ∀ x ∈ [32, 9, 10, 13, 34, 91, 123, 110, 116, 102, 45], b ≠ x := by
      rintro x hx rfl
      have hnot : ∀ x ∈ [32, 9, 10, 13, 34, 91, 123, 110, 116, 102, 45], isDigit x = false := by
        decide +kernel
      rw [hnot b hx] at hb
      cases hb
    have hnumber : number (b :: (ds ++ c :: s)) = some ((n : ℚ), c :: s) := by
      unfold number
      split
      · next heq => exact absurd (List.cons.inj heq).1 (hother 45 (by decide))
      · exact hmagnitude
    rw [List.cons_append, value, skipBlanks_cons (fun hmem => hother b (List.mem_append_left _ hmem) rfl)]
    dsimp only
    rw [if_neg (hother 34 (by decide)), if_neg (hother 91 (by decide)), if_neg (hother 123 (by decide)),
      if_neg (hother 110 (by decide)), if_neg (hother 116 (by decide)), if_neg (hother 102 (by decide)), hnumber]
    rfl

section Members

variable {read : List UInt8 → Option (Value × List UInt8)} {key s s' : List UInt8} {v : Value} {fuel : ℕ}
  {ms : List (List UInt8 × Value)}

theorem members_key (hkey : Plain key) :
    members read (fuel + 1) ms (34 :: (key ++ 34 :: 58 :: s)) =
      match read s with
      | none => none
      | some (v, s) =>
        match skipBlanks s with
        | 44 :: s => members read fuel (ms ++ [(key, v)]) s
        | 125 :: s => some (ms ++ [(key, v)], s)
        | _ => none := by
  rw [members, skipBlanks_cons (by decide)]
  show (match string [] (key ++ 34 :: 58 :: s) with
    | none => none
    | some (key, s) => _) = _
  rw [string_plain (58 :: s) key [] hkey]
  dsimp only
  rw [skipBlanks_cons (by decide), List.nil_append]
  rfl

theorem members_comma (hkey : Plain key) (hread : read s = some (v, 44 :: s')) :
    members read (fuel + 1) ms (34 :: (key ++ 34 :: 58 :: s)) = members read fuel (ms ++ [(key, v)]) s' := by
  rw [members_key hkey, hread]
  dsimp only
  rw [skipBlanks_cons (by decide)]
  rfl

theorem members_brace (hkey : Plain key) (hread : read s = some (v, 125 :: s')) :
    members read (fuel + 1) ms (34 :: (key ++ 34 :: 58 :: s)) = some (ms ++ [(key, v)], s') := by
  rw [members_key hkey, hread]
  dsimp only
  rw [skipBlanks_cons (by decide)]
  rfl

theorem members_none (hkey : Plain key) (hread : read s = none) :
    members read (fuel + 1) ms (34 :: (key ++ 34 :: 58 :: s)) = none := by
  rw [members_key hkey, hread]

end Members

theorem value_object (fuel : ℕ) (s : List UInt8) : value (fuel + 1) (123 :: 34 :: s) =
    (members (value fuel) (s.length + 2) [] (34 :: s)).map fun (ms, s) => (.obj ms, s) := by
  rw [value, skipBlanks_cons (by decide)]
  dsimp only
  rw [if_neg (by decide), if_neg (by decide), if_pos rfl, skipBlanks_cons (by decide)]
  rfl

theorem value_array (fuel : ℕ) (s : List UInt8) : value (fuel + 1) (91 :: 123 :: s) =
    (elements (value fuel) (s.length + 2) [] (123 :: s)).map fun (vs, s) => (.arr vs, s) := by
  rw [value, skipBlanks_cons (by decide)]
  dsimp only
  rw [if_neg (by decide), if_pos rfl, skipBlanks_cons (by decide)]
  rfl

end GpsBase.Lib.Json
