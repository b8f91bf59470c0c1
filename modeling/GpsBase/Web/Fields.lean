import GpsBase.Web.Forms

/-! # Fields of forms and queries

A form is encoded byte by byte: a byte of the alphabet stands for itself, a blank is `+` or an escape, and
every other byte is an escape of two digits (`Encodes`). `form_value` takes the value of the first field of
a key out of any such encoding. `query_param` looks for the key anywhere in the query, and the two agree
where the key is first found at the start of a field. -/

namespace GpsBase.Web.Fields

open GpsBase.Lib.CText GpsBase.Lib.Search GpsBase.Web.Forms

/-! ### The encoding -/

/-- The bytes that stand for themselves; those that have a meaning of their own are not among them. -/
structure Alphabet where
  plain : UInt8 → Bool
  special : ∀ b ∈ ascii " %&+=", plain b = false

/-- The unreserved characters of a URL. -/
def unreserved : Alphabet where
  plain b := isAlpha b || isDigit b || b ∈ ascii "-._~"
  special := by decide +kernel

/-- The characters that a browser leaves in a form. -/
def unescaped : Alphabet where
  plain b := isAlpha b || isDigit b || b ∈ ascii "*-._"
  special := by decide +kernel

/-- `t` is an encoding of `s`. -/
inductive Encodes (A : Alphabet) : List UInt8 → List UInt8 → Prop
  | nil : Encodes A [] []
  | plain {b : UInt8} {s t : List UInt8} (hb : A.plain b = true) (h : Encodes A s t) :
    Encodes A (b :: s) (b :: t)
  | blank {s t : List UInt8} (h : Encodes A s t) : Encodes A (32 :: s) (43 :: t)
  | escape {b u l : UInt8} {s t : List UInt8} (hb : A.plain b = false)
    (hu : hexDigit u = some (b.toNat / 16)) (hl : hexDigit l = some (b.toNat % 16)) (h : Encodes A s t) :
    Encodes A (b :: s) (37 :: u :: l :: t)

inductive EncodesPair (A : Alphabet) : List UInt8 × List UInt8 → List UInt8 → Prop
  | mk {k v s t : List UInt8} (hk : Encodes A k s) (hv : Encodes A v t) :
    EncodesPair A (k, v) (s ++ 61 :: t)

/-- An encoded form. -/
def EncodesForm (A : Alphabet) (pairs : List (List UInt8 × List UInt8)) (body : List UInt8) : Prop :=
  ∃ fields, List.Forall₂ (EncodesPair A) pairs fields ∧ body = [38].intercalate fields

/-! ### The decoder inverts the encoding -/

theorem urlDecode_cons {b : UInt8} (h43 : b ≠ 43) (h37 : b ≠ 37) (s : List UInt8) :
    urlDecode (b :: s) = b :: urlDecode s := by
  rw [urlDecode]
  · rintro heq
    exact h43 heq
  · rintro a c s' heq _
    exact h37 heq

theorem hexDigit_bounds {b : UInt8} {n : ℕ} (h : hexDigit b = some n) : 48 ≤ b.toNat ∧ b.toNat ≤ 102 := by
  unfold hexDigit isDigit at h
  have h48 : (48 : UInt8) ≤ b ↔ 48 ≤ b.toNat := Iff.rfl
  have h57 : b ≤ (57 : UInt8) ↔ b.toNat ≤ 57 := Iff.rfl
  have h65 : (65 : UInt8) ≤ b ↔ 65 ≤ b.toNat := Iff.rfl
  have h70 : b ≤ (70 : UInt8) ↔ b.toNat ≤ 70 := Iff.rfl
  have h97 : (97 : UInt8) ≤ b ↔ 97 ≤ b.toNat := Iff.rfl
  have h102 : b ≤ (102 : UInt8) ↔ b.toNat ≤ 102 := Iff.rfl
  simp only [h48, h57, h65, h70, h97, h102, Bool.and_eq_true, decide_eq_true_eq] at h
  split_ifs at h <;> omega

/-- A hexadecimal digit is neither a blank nor a sign nor the end of a text. -/
theorem hexDigit_ne {b : UInt8} {n : ℕ} (h : hexDigit b = some n) :
    b ≠ 0 ∧ b ≠ 38 ∧ b ≠ 43 ∧ b ≠ 45 ∧ isSpace b = false := by
  obtain ⟨h1, _⟩ := hexDigit_bounds h
  have hne : ∀ c : UInt8, c.toNat < 48 → b ≠ c := fun c hc heq => by
    rw [heq] at h1
    omega
  refine ⟨hne 0 (by decide), hne 38 (by decide), hne 43 (by decide), hne 45 (by decide), ?_⟩
  unfold isSpace
  rw [Bool.or_eq_false_iff, Bool.and_eq_false_iff]
  refine ⟨decide_eq_false (hne 32 (by decide)), Or.inr (decide_eq_false fun hle => ?_)⟩
  have h2 : b.toNat ≤ 13 := hle
  omega

theorem signOf_hex {b : UInt8} {n : ℕ} (h : hexDigit b = some n) (s : List UInt8) :
    signOf (b :: s) = (false, b :: s) := by
  obtain ⟨_, _, h43, h45, _⟩ := hexDigit_ne h
  unfold signOf
  split
  · next heq => exact absurd (List.cons.inj heq).1 h45
  · next heq => exact absurd (List.cons.inj heq).1 h43
  · rfl

theorem strtol16_digits {u l : UInt8} {m n : ℕ} (hu : hexDigit u = some m) (hl : hexDigit l = some n) :
    strtol16 (cStr [u, l]) = (((16 * m + n : ℕ) : ℤ), []) := by
  obtain ⟨hu0, _, _, _, huspace⟩ := hexDigit_ne hu
  obtain ⟨hl0, _, _, _, _⟩ := hexDigit_ne hl
  have hstr : cStr [u, l] = [u, l] := by
    refine cStr_eq_self ?_
    rw [List.mem_cons, List.mem_singleton, not_or]
    exact ⟨hu0.symm, hl0.symm⟩
  have hdrop : [u, l].dropWhile isSpace = [u, l] := by
    rw [List.dropWhile_cons, huspace]
    rfl
  have htake : [u, l].takeWhile (fun b => (hexDigit b).isSome) = [u, l] := by
    rw [List.takeWhile_cons_of_pos (by rw [hu]; rfl), List.takeWhile_cons_of_pos (by rw [hl]; rfl)]
    rfl
  unfold strtol16
  rw [hstr, hdrop, signOf_hex hu]
  dsimp only
  rw [htake, if_neg (List.cons_ne_nil _ _), if_neg Bool.false_ne_true]
  simp only [List.foldl_cons, List.foldl_nil, hu, hl, Option.getD_some, List.length_cons, List.length_nil,
    List.drop_succ_cons, List.drop_zero]
  push_cast
  rw [zero_add]

theorem urlDecode_escape {b u l : UInt8} (hu : hexDigit u = some (b.toNat / 16))
    (hl : hexDigit l = some (b.toNat % 16)) (s : List UInt8) :
    urlDecode (37 :: u :: l :: s) = b :: urlDecode s := by
  have hb : b.toNat < 256 := b.toNat_lt
  have hsum : 16 * (b.toNat / 16) + b.toNat % 16 = b.toNat := by omega
  have hmod : ((b.toNat : ℤ) % 256).toNat = b.toNat := by omega
  rw [urlDecode, strtol16_digits hu hl, hsum]
  dsimp only
  rw [if_pos rfl, hmod, UInt8.ofNat_toNat]

theorem Alphabet.ne {A : Alphabet} {b : UInt8} (h : A.plain b = true) :
    b ≠ 32 ∧ b ≠ 37 ∧ b ≠ 38 ∧ b ≠ 43 ∧ b ≠ 61 := by
  have hne : ∀ c ∈ ascii " %&+=", b ≠ c := fun c hc heq => by
    rw [heq, A.special c hc] at h
    cases h
  exact ⟨hne 32 (by decide), hne 37 (by decide), hne 38 (by decide), hne 43 (by decide),
    hne 61 (by decide)⟩

theorem urlDecode_of_encodes {A : Alphabet} {s t : List UInt8} (h : Encodes A s t) : urlDecode t = s := by
  induction h with
  | nil => rfl
  | plain hb _ ih =>
    obtain ⟨_, h37, _, h43, _⟩ := Alphabet.ne hb
    rw [urlDecode_cons h43 h37, ih]
  | blank _ ih => rw [urlDecode, ih]
  | escape _ hu hl _ ih => rw [urlDecode_escape hu hl, ih]

/-! ### Keys and values in an encoded form -/

theorem notMem_of_encodes {A : Alphabet} {s t : List UInt8} (h : Encodes A s t) : 38 ∉ t ∧ 61 ∉ t := by
  have hhex : ∀ {b : UInt8} {n : ℕ}, hexDigit b = some n → b ≠ 61 := by
    rintro b n hb rfl
    cases hb
  induction h with
  | nil => exact ⟨List.not_mem_nil, List.not_mem_nil⟩
  | plain hb _ ih =>
    obtain ⟨_, _, h38, _, h61⟩ := Alphabet.ne hb
    simp only [List.mem_cons, not_or]
    exact ⟨⟨h38.symm, ih.1⟩, h61.symm, ih.2⟩
  | blank _ ih =>
    simp only [List.mem_cons, not_or]
    exact ⟨⟨by decide, ih.1⟩, by decide, ih.2⟩
  | escape _ hu hl _ ih =>
    simp only [List.mem_cons, not_or]
    exact ⟨⟨by decide, (hexDigit_ne hu).2.1.symm, (hexDigit_ne hl).2.1.symm, ih.1⟩,
      by decide, (hhex hu).symm, (hhex hl).symm, ih.2⟩

theorem encodes_plain_iff {A : Alphabet} {s : List UInt8} (hs : ∀ b ∈ s, A.plain b = true) {t : List UInt8} :
    Encodes A s t ↔ t = s := by
  induction s generalizing t with
  | nil =>
    constructor
    · rintro ⟨⟩
      rfl
    · rintro rfl
      exact .nil
  | cons b s ih =>
    have hb := hs b List.mem_cons_self
    have hs' : ∀ c ∈ s, A.plain c = true := fun c hc => hs c (List.mem_cons_of_mem _ hc)
    constructor
    · intro h
      cases h with
      | plain _ h => rw [(ih hs').mp h]
      | blank _ => exact absurd rfl (Alphabet.ne hb).1
      | escape hnot _ _ _ =>
        rw [hb] at hnot
        cases hnot
    · rintro rfl
      exact .plain hb ((ih hs').mpr rfl)

/-- Texts with `=` behind them are compared up to the first `=`. -/
theorem keyed_prefix_iff {key s t : List UInt8} (hkey : 61 ∉ key) (hs : 61 ∉ s) :
    key ++ [61] <+: s ++ 61 :: t ↔ s = key := by
  constructor
  · rintro ⟨rest, hrest⟩
    rw [List.append_assoc, List.singleton_append] at hrest
    have hfront : ((s ++ 61 :: t).takeWhile fun b => b ≠ 61) = s := takeWhile_append_sep hs
    rw [← hfront, ← hrest, takeWhile_append_sep hkey]
  · rintro rfl
    exact ⟨t, by rw [List.append_assoc, List.singleton_append]⟩

theorem fieldScan_append {keyed field rest : List UInt8} (hkeyed : 38 ∉ keyed) (hfield : 38 ∉ field)
    (fuel : ℕ) : fieldScan keyed (fuel + 1) (field ++ 38 :: rest) =
      if keyed.isPrefixOf field then some (field.drop keyed.length) else fieldScan keyed fuel rest := by
  have hpre : keyed.isPrefixOf (field ++ 38 :: rest) = keyed.isPrefixOf field := by
    rw [Bool.eq_iff_iff, List.isPrefixOf_iff_prefix, List.isPrefixOf_iff_prefix,
      isPrefix_append_iff hkeyed]
  rw [fieldScan, takeWhile_append_sep hfield, hpre]
  split_ifs with h1 h2 h3
  · rfl
  · exact absurd (List.isPrefixOf_iff_prefix.mp h1).length_le h2
  · rw [List.drop_append, List.drop_of_length_le (Nat.le_succ _), Nat.add_sub_cancel_left]
    rfl
  · exact absurd (by rw [List.length_append, List.length_cons]; omega) h3

theorem fieldScan_last {keyed field : List UInt8} (hfield : 38 ∉ field) (fuel : ℕ) :
    fieldScan keyed (fuel + 1) field =
      if keyed.isPrefixOf field then some (field.drop keyed.length) else none := by
  rw [fieldScan, takeWhile_eq_self hfield]
  rw [if_neg (lt_irrefl field.length)]
  split_ifs with h1 h2
  · rfl
  · exact absurd (List.isPrefixOf_iff_prefix.mp h1).length_le h2
  · rfl

/-- A field has the key if its pair does, and the encoded value is what follows. -/
theorem encodesPair_iff {A : Alphabet} {p : List UInt8 × List UInt8} {field key : List UInt8}
    (h : EncodesPair A p field) (hkey : ∀ b ∈ key, A.plain b = true) : 38 ∉ field ∧
      ((key ++ [61]).isPrefixOf field = true ↔ p.1 = key) ∧
      (p.1 = key → urlDecode (field.drop (key ++ [61]).length) = p.2) := by
  have h61 : 61 ∉ key := fun hmem => (Alphabet.ne (hkey 61 hmem)).2.2.2.2 rfl
  obtain ⟨hk, hv⟩ := h
  rename_i k v s t
  obtain ⟨hs38, hs61⟩ := notMem_of_encodes hk
  have hsame : s = key ↔ k = key := by
    constructor
    · rintro rfl
      rw [← urlDecode_of_encodes hk, urlDecode_of_encodes ((encodes_plain_iff hkey).mpr rfl)]
    · rintro rfl
      exact (encodes_plain_iff hkey).mp hk
  refine ⟨?_, ?_, ?_⟩
  · rw [List.mem_append, List.mem_cons, not_or, not_or]
    exact ⟨hs38, by decide, (notMem_of_encodes hv).1⟩
  · rw [List.isPrefixOf_iff_prefix, keyed_prefix_iff h61 hs61]
    exact hsame
  · intro heq
    have hcut : s ++ 61 :: t = (key ++ [61]) ++ t := by
      rw [hsame.mpr heq, List.append_assoc, List.singleton_append]
    rw [hcut, List.drop_left]
    exact urlDecode_of_encodes hv

theorem fieldScan_form {A : Alphabet} {key : List UInt8} (hkey : ∀ b ∈ key, A.plain b = true) :
    ∀ {pairs : List (List UInt8 × List UInt8)} {fields : List (List UInt8)} {fuel : ℕ},
      List.Forall₂ (EncodesPair A) pairs fields → ([38].intercalate fields).length < fuel →
      (fieldScan (key ++ [61]) fuel ([38].intercalate fields)).map urlDecode =
        (pairs.find? fun p => p.1 = key).map Prod.snd
  | _, _, 0, _, hfuel => absurd hfuel (Nat.not_lt_zero _)
  | _, _, fuel + 1, .nil, _ => by
    have hkeyed : (key ++ [61]).isPrefixOf [] = false := by
      rcases key with _ | _ <;> rfl
    rw [List.intercalate_nil, fieldScan_last List.not_mem_nil, hkeyed]
    rfl
  | p :: pairs, field :: fields, fuel + 1, .cons hp hrest, hfuel => by
    have hkeyed : 38 ∉ key ++ [61] := by
      rw [List.mem_append, List.mem_singleton, not_or]
      exact ⟨fun hmem => (Alphabet.ne (hkey 38 hmem)).2.2.1 rfl, by decide⟩
    obtain ⟨h38, hiff, hvalue⟩ := encodesPair_iff hp hkey
    have hfound : ∀ other : Option (List UInt8),
        (if (key ++ [61]).isPrefixOf field then some (field.drop (key ++ [61]).length) else other).map
          urlDecode = if p.1 = key then some p.2 else other.map urlDecode := by
      intro other
      by_cases heq : p.1 = key
      · rw [if_pos (hiff.mpr heq), if_pos heq, Option.map_some, hvalue heq]
      · rw [if_neg (fun hpre => heq (hiff.mp hpre)), if_neg heq]
    rcases hfields : fields with _ | ⟨second, more⟩
    · subst hfields
      cases hrest
      rw [List.intercalate_singleton, fieldScan_last h38, hfound]
      by_cases heq : p.1 = key
      · rw [if_pos heq, List.find?_cons_of_pos (by simpa using heq), Option.map_some]
      · rw [if_neg heq, List.find?_cons_of_neg (by simpa using heq)]
        rfl
    · rw [← hfields]
      have hbody : [38].intercalate (field :: fields) = field ++ 38 :: [38].intercalate fields := by
        rw [hfields, List.intercalate_cons_cons, List.append_assoc, List.singleton_append]
      rw [hbody] at hfuel ⊢
      rw [List.length_append, List.length_cons] at hfuel
      rw [fieldScan_append hkeyed h38, hfound, fieldScan_form hkey hrest (by omega)]
      by_cases heq : p.1 = key
      · rw [if_pos heq, List.find?_cons_of_pos (by simpa using heq), Option.map_some]
      · rw [if_neg heq, List.find?_cons_of_neg (by simpa using heq)]

/-- **`form_value` gives the value of the first pair of a key**, and nothing if there is none; and what is
encoded alone is decoded. -/
theorem fieldValue_of_encodes (A : Alphabet) :
    (∀ {pairs : List (List UInt8 × List UInt8)} {body key : List UInt8}, EncodesForm A pairs body →
      (∀ b ∈ key, A.plain b = true) →
      fieldValue body key = ((pairs.find? fun p => p.1 = key).map Prod.snd).getD []) ∧
    ∀ {s t : List UInt8}, Encodes A s t → urlDecode t = s := by
  refine ⟨?_, urlDecode_of_encodes⟩
  rintro pairs body key ⟨fields, hfields, rfl⟩ hkey
  have hscan := fieldScan_form hkey hfields (Nat.lt_succ_self _)
  rw [← hscan]
  unfold fieldValue
  rcases fieldScan (key ++ [61]) _ _ with _ | text <;> rfl

/-- What a browser sends to log in; the password ends with an escape. -/
theorem fieldValue_of_encodes_password :
    fieldValue (ascii "user=admin&pass=x&password=a+b%2B%26%3D%c3%A9%25") (ascii "password") =
      ascii "a b+&=" ++ [195, 169] ++ ascii "%" ∧ urlDecode (ascii "a%20b%25") = ascii "a b%" := by
  have hpass : Encodes unreserved (ascii "a b+&=" ++ [195, 169] ++ ascii "%")
      (ascii "a+b%2B%26%3D%c3%A9%25") :=
    .plain rfl (.blank (.plain rfl (.escape rfl rfl rfl (.escape rfl rfl rfl (.escape rfl rfl rfl
      (.escape rfl rfl rfl (.escape rfl rfl rfl (.escape rfl rfl rfl .nil))))))))
  have hplain : ∀ s : List UInt8, (∀ b ∈ s, unreserved.plain b = true) → Encodes unreserved s s :=
    fun s hs => (encodes_plain_iff hs).mpr rfl
  have hform : EncodesForm unreserved [(ascii "user", ascii "admin"), (ascii "pass", ascii "x"),
      (ascii "password", ascii "a b+&=" ++ [195, 169] ++ ascii "%")]
      (ascii "user=admin&pass=x&password=a+b%2B%26%3D%c3%A9%25") :=
    ⟨[ascii "user" ++ 61 :: ascii "admin", ascii "pass" ++ 61 :: ascii "x",
      ascii "password" ++ 61 :: ascii "a+b%2B%26%3D%c3%A9%25"],
      .cons ⟨hplain _ (by decide +kernel), hplain _ (by decide +kernel)⟩
        (.cons ⟨hplain _ (by decide +kernel), hplain _ (by decide +kernel)⟩
          (.cons ⟨hplain _ (by decide +kernel), hpass⟩ .nil)), by decide +kernel⟩
  refine ⟨((fieldValue_of_encodes unreserved).1 hform (by decide +kernel)).trans (by decide +kernel), ?_⟩
  exact (fieldValue_of_encodes unreserved).2 (.plain rfl (.escape rfl rfl rfl (.plain rfl
    (.escape rfl rfl rfl .nil))))

/-! ### An encoder -/

def hexChar (n : ℕ) : UInt8 := UInt8.ofNat (if n < 10 then 48 + n else 55 + n)

theorem hexDigit_hexChar {n : ℕ} (h : n < 16) : hexDigit (hexChar n) = some n := by
  have hall : ∀ n < 16, hexDigit (hexChar n) = some n := by decide
  exact hall n h

def encodeByte (A : Alphabet) (b : UInt8) : List UInt8 :=
  if A.plain b then [b]
  else if b = 32 then [43]
  else [37, hexChar (b.toNat / 16), hexChar (b.toNat % 16)]

/-- A browser encodes a text. -/
def encode (A : Alphabet) (s : List UInt8) : List UInt8 := s.flatMap (encodeByte A)

def encodeForm (A : Alphabet) (pairs : List (List UInt8 × List UInt8)) : List UInt8 :=
  [38].intercalate (pairs.map fun p => encode A p.1 ++ 61 :: encode A p.2)

theorem encodes_encode (A : Alphabet) (s : List UInt8) : Encodes A s (encode A s) := by
  induction s with
  | nil => exact .nil
  | cons b s ih =>
    have hcons : encode A (b :: s) = encodeByte A b ++ encode A s := rfl
    have hb : b.toNat < 256 := b.toNat_lt
    rw [hcons, encodeByte]
    split_ifs with h1 h2
    · exact .plain h1 ih
    · subst h2
      exact .blank ih
    · exact .escape (by simpa using h1) (hexDigit_hexChar (by omega)) (hexDigit_hexChar (by omega)) ih

/-- **Every list of pairs has an encoding.** -/
theorem encodesForm_encodeForm (A : Alphabet) (pairs : List (List UInt8 × List UInt8)) :
    EncodesForm A pairs (encodeForm A pairs) := by
  refine ⟨_, ?_, rfl⟩
  induction pairs with
  | nil => exact .nil
  | cons p pairs ih => exact .cons ⟨encodes_encode A p.1, encodes_encode A p.2⟩ ih

/-! ### Both readers of a query -/

def FieldStart (query : List UInt8) (i : ℕ) : Prop := i = 0 ∨ query[i - 1]? = some 38

instance (query : List UInt8) (i : ℕ) : Decidable (FieldStart query i) :=
  inferInstanceAs (Decidable (_ ∨ _))

/-- The first field that begins with `keyed`. -/
def fieldAt (keyed query : List UInt8) : Option ℕ :=
  (List.range (query.length + 1)).find? fun i =>
    decide (FieldStart query i) && keyed.isPrefixOf (query.drop i)

/-- What stands behind `keyed` at a place, up to the next separator. -/
def textAt (keyed query : List UInt8) (i : ℕ) : List UInt8 :=
  (query.drop (i + keyed.length)).takeWhile fun b => b ≠ 38

/-- What `form_value` cuts out at a place: up to the next separator, or all if the key has one. -/
def cutAt (keyed query : List UInt8) (i : ℕ) : List UInt8 :=
  if 38 ∈ keyed then query.drop (i + keyed.length) else textAt keyed query i

theorem fieldAt_eq_some_iff {keyed query : List UInt8} {i : ℕ} : fieldAt keyed query = some i ↔
    i ≤ query.length ∧ FieldStart query i ∧ keyed <+: query.drop i ∧
      ∀ j < i, FieldStart query j → ¬ keyed <+: query.drop j := by
  unfold fieldAt
  rw [List.find?_range_eq_some]
  simp only [Bool.and_eq_true, decide_eq_true_eq, List.isPrefixOf_iff_prefix, List.mem_range,
    Nat.lt_succ_iff, Bool.not_eq_true', ← Bool.not_eq_true, not_and]
  constructor
  · rintro ⟨⟨h1, h2⟩, h3, h4⟩
    exact ⟨h3, h1, h2, h4⟩
  · rintro ⟨h3, h1, h2, h4⟩
    exact ⟨⟨h1, h2⟩, h3, h4⟩

theorem fieldAt_eq_none_iff {keyed query : List UInt8} : fieldAt keyed query = none ↔
    ∀ i ≤ query.length, FieldStart query i → ¬ keyed <+: query.drop i := by
  unfold fieldAt
  rw [List.find?_eq_none]
  simp only [List.mem_range, Nat.lt_succ_iff, Bool.and_eq_true, decide_eq_true_eq,
    List.isPrefixOf_iff_prefix, not_and]

/-- Where `keyed` stands, its separator decides whether the field before it is long enough. -/
theorem fieldScan_found {keyed query : List UInt8} {i : ℕ} (h : keyed <+: query.drop i) :
    (if keyed.length ≤ ((query.drop i).takeWhile fun b => b ≠ 38).length then
      ((query.drop i).takeWhile fun b => b ≠ 38).drop keyed.length
    else (query.drop i).drop keyed.length) = cutAt keyed query i := by
  obtain ⟨rest, hrest⟩ := h
  have hdrop : query.drop (i + keyed.length) = rest := by
    rw [← List.drop_drop, ← hrest, List.drop_left]
  unfold cutAt textAt
  rw [hdrop, ← hrest]
  by_cases h38 : 38 ∈ keyed
  · obtain ⟨x, y, rfl, hx⟩ := List.eq_append_cons_of_mem h38
    rw [List.append_assoc, List.cons_append, takeWhile_append_sep hx, ← List.cons_append,
      ← List.append_assoc, List.drop_left, if_pos h38,
      if_neg (by rw [List.length_append, List.length_cons]; omega)]
  · have hpos : ∀ b ∈ keyed, decide (b ≠ 38) = true := fun b hb => decide_eq_true fun heq => h38 (heq ▸ hb)
    rw [List.takeWhile_append_of_pos hpos, if_pos (by rw [List.length_append]; omega), if_neg h38,
      List.drop_left]

theorem not_fieldStart {query : List UInt8} {i j : ℕ} (hij : i < j)
    (hj : j ≤ i + ((query.drop i).takeWhile fun b => b ≠ 38).length) : ¬ FieldStart query j := by
  rintro (h0 | hsep)
  · omega
  · have hlt : j - 1 - i < ((query.drop i).takeWhile fun b => b ≠ 38).length := by omega
    have hget := List.IsPrefix.getElem (List.takeWhile_prefix (l := query.drop i) fun b => decide (b ≠ 38)) hlt
    have hne := List.mem_takeWhile_imp (List.getElem_mem hlt)
    rw [hget, List.getElem_drop] at hne
    obtain ⟨hbound, hbyte⟩ := List.getElem?_eq_some_iff.mp hsep
    have hidx : i + (j - 1 - i) = j - 1 := by omega
    simp only [hidx, hbyte] at hne
    cases hne

theorem fieldStart_next {query : List UInt8} {i : ℕ}
    (h : ((query.drop i).takeWhile fun b => b ≠ 38).length < (query.drop i).length) :
    FieldStart query (i + (((query.drop i).takeWhile fun b => b ≠ 38).length + 1)) := by
  right
  set n := ((query.drop i).takeWhile fun b => b ≠ 38).length with hn
  have hdrop : (query.drop i).drop n = (query.drop i).dropWhile fun b => b ≠ 38 :=
    drop_length_takeWhile _ _
  have hne : (query.drop i).dropWhile (fun b => b ≠ 38) ≠ [] := by
    rw [← hdrop]
    exact fun hnil => absurd (List.drop_eq_nil_iff.mp hnil) (by omega)
  have hhead := List.head_dropWhile_not (fun b => decide (b ≠ 38)) hne
  have hat : query[i + n]? = some 38 := by
    rw [← List.getElem?_drop, ← List.head?_drop, hdrop, List.head?_eq_some_head hne]
    simpa using hhead
  rw [← hat]
  congr 1

/-- **The scan finds the first field that begins with the key.** -/
theorem fieldScan_eq {keyed query : List UInt8} :
    ∀ {fuel i : ℕ}, query.length - i < fuel → i ≤ query.length → FieldStart query i →
      (∀ j < i, FieldStart query j → ¬ keyed <+: query.drop j) →
      fieldScan keyed fuel (query.drop i) = (fieldAt keyed query).map (cutAt keyed query)
  | 0, _, hfuel, _, _, _ => absurd hfuel (Nat.not_lt_zero _)
  | fuel + 1, i, hfuel, hi, hstart, hbefore => by
    rw [fieldScan]
    by_cases hhere : keyed <+: query.drop i
    · rw [if_pos (List.isPrefixOf_iff_prefix.mpr hhere), fieldScan_found hhere,
        fieldAt_eq_some_iff.mpr ⟨hi, hstart, hhere, hbefore⟩]
      rfl
    · rw [if_neg fun hpre => hhere (List.isPrefixOf_iff_prefix.mp hpre)]
      set n := ((query.drop i).takeWhile fun b => b ≠ 38).length with hn
      have hupto : ∀ j ≤ i + n, FieldStart query j → ¬ keyed <+: query.drop j := by
        intro j hj hjstart
        rcases Nat.lt_trichotomy j i with hlt | rfl | hgt
        · exact hbefore j hlt hjstart
        · exact hhere
        · exact absurd hjstart (not_fieldStart hgt hj)
      by_cases hmore : n < (query.drop i).length
      · have hlength := List.length_drop (i := i) (l := query)
        rw [if_pos hmore, List.drop_drop]
        exact fieldScan_eq (by omega) (by omega) (fieldStart_next hmore)
          fun j hj => hupto j (by omega)
      · rw [if_neg hmore, fieldAt_eq_none_iff.mpr]
        · rfl
        · intro j hj
          rw [List.length_drop] at hmore
          exact hupto j (by omega)

theorem fieldValue_eq (query key : List UInt8) : fieldValue query key =
    match fieldAt (key ++ [61]) query with
    | some i => urlDecode (cutAt (key ++ [61]) query i)
    | none => [] := by
  have hfuel : query.length - 0 < query.length + 1 := by omega
  have hscan : fieldScan (key ++ [61]) (query.length + 1) (query.drop 0) = _ :=
    fieldScan_eq hfuel (Nat.zero_le _) (Or.inl rfl) fun j hj => absurd hj (Nat.not_lt_zero j)
  rw [List.drop_zero] at hscan
  unfold fieldValue
  rw [hscan]
  rcases fieldAt (key ++ [61]) query with _ | i <;> rfl

theorem queryParam_eq {key : List UInt8} (hkey : 0 ∉ key) (query : List UInt8) : queryParam query key =
    match findText (key ++ [61]) query with
    | some i => urlDecode (textAt (key ++ [61]) query i)
    | none => [] := by
  have h0 : 0 ∉ key ++ [61] := by
    rw [List.mem_append, List.mem_singleton, not_or]
    exact ⟨hkey, by decide⟩
  have hne : key ++ [61] ≠ [] := List.append_ne_nil_of_right_ne_nil _ (List.cons_ne_nil _ _)
  unfold queryParam
  split_ifs with hq
  · have hnone : findText (key ++ [61]) query = none := by
      rw [hq, findText_eq_none_iff]
      intro i _ hpre
      rw [List.drop_nil, List.prefix_nil] at hpre
      exact hne hpre
    rw [hnone]
  · dsimp only
    rw [findText_append_singleton h0 hne]
    rcases findText (key ++ [61]) query with _ | i <;> rfl

theorem mem_strtol16 {s : List UInt8} (h : 38 ∈ s) : 38 ∈ (strtol16 s).2 := by
  have hdrop : 38 ∈ s.dropWhile isSpace := mem_dropWhile (by decide) h
  have hsign : 38 ∈ (signOf (s.dropWhile isSpace)).2 := by
    unfold signOf
    split
    · next t heq =>
      rw [heq, List.mem_cons] at hdrop
      exact hdrop.resolve_left (by decide)
    · next t heq =>
      rw [heq, List.mem_cons] at hdrop
      exact hdrop.resolve_left (by decide)
    · exact hdrop
  have hrest : 38 ∈ (signOf (s.dropWhile isSpace)).2.drop
      ((signOf (s.dropWhile isSpace)).2.takeWhile fun b => (hexDigit b).isSome).length := by
    rw [drop_length_takeWhile]
    exact mem_dropWhile (by decide) hsign
  unfold strtol16
  dsimp only
  split
  · exact h
  · exact hrest

theorem urlDecode_broken {a b : UInt8} (h : 38 ∈ cStr [a, b]) (s : List UInt8) :
    urlDecode (37 :: a :: b :: s) = urlDecode (a :: b :: s) := by
  have hne : (strtol16 (cStr [a, b])).2 ≠ [] := List.ne_nil_of_mem (mem_strtol16 h)
  rw [urlDecode]
  dsimp only
  rw [if_neg hne]

theorem urlDecode_separator (s : List UInt8) : urlDecode (38 :: s) = 38 :: urlDecode s :=
  urlDecode_cons (by decide) (by decide) s

/-- A percent sign before a separator is dropped or stands for itself. -/
theorem urlDecode_percent_separator {t : List UInt8} (ht : 38 ∉ t) (more : List UInt8) :
    urlDecode (37 :: 38 :: more) ≠ 37 :: t := by
  rcases more with _ | ⟨c, more⟩
  · rw [show urlDecode [37, 38] = [37, 38] from rfl]
    exact fun heq => ht ((List.cons.inj heq).2 ▸ List.mem_singleton_self _)
  · have h38 : 38 ∈ cStr [38, c] := by
      unfold cStr
      rw [List.takeWhile_cons_of_pos (by decide)]
      exact List.mem_cons_self
    rw [urlDecode_broken h38, urlDecode_separator]
    exact fun heq => absurd (List.cons.inj heq).1 (by decide)

theorem urlDecode_append_ne {s : List UInt8} (h0 : 0 ∉ s) (h38 : 38 ∉ s) (more : List UInt8) :
    urlDecode (s ++ 38 :: more) ≠ urlDecode s := by
  induction s using urlDecode.induct with
  | case1 =>
    rw [List.nil_append, urlDecode_separator]
    exact List.cons_ne_nil _ _
  | case2 s ih =>
    rw [List.mem_cons, not_or] at h0 h38
    rw [List.cons_append, urlDecode, urlDecode]
    exact fun heq => ih h0.2 h38.2 (List.cons.inj heq).2
  | case3 a b s decoded hread ih =>
    simp only [List.mem_cons, not_or] at h0 h38
    rw [List.cons_append, List.cons_append, List.cons_append, urlDecode, urlDecode, hread]
    dsimp only
    rw [if_pos rfl, if_pos rfl]
    exact fun heq => ih h0.2.2.2 h38.2.2.2 (List.cons.inj heq).2
  | case4 a b s decoded rest hread hrest ih =>
    rw [List.mem_cons, not_or] at h0 h38
    rw [List.cons_append, List.cons_append, List.cons_append, urlDecode, urlDecode, hread]
    dsimp only
    rw [if_neg hrest, if_neg hrest]
    exact ih h0.2 h38.2
  | case5 b s h43 h37 ih =>
    rw [List.mem_cons, not_or] at h0 h38
    by_cases hb : b = 37
    · subst hb
      -- the percent sign is one of the last two bytes, and stands for itself
      rcases s with _ | ⟨a, _ | ⟨c, s⟩⟩
      · exact urlDecode_percent_separator List.not_mem_nil more
      · obtain ⟨ha0, _⟩ := not_or.mp (List.mem_cons.not.mp h0.2)
        obtain ⟨ha38, _⟩ := not_or.mp (List.mem_cons.not.mp h38.2)
        have hbroken : 38 ∈ cStr [a, 38] := by
          rw [cStr_eq_self (by simp [ha0])]
          simp
        have hlast : urlDecode [37, a] = 37 :: urlDecode [a] := by
          rw [urlDecode]
          · decide
          · rintro x y t _ heq
            cases heq
        rw [List.cons_append, List.cons_append, List.nil_append, urlDecode_broken hbroken, hlast]
        by_cases ha37 : a = 37
        · subst ha37
          exact urlDecode_percent_separator (by decide) more
        · by_cases ha43 : a = 43
          · subst ha43
            rw [urlDecode]
            exact fun heq => absurd (List.cons.inj heq).1 (by decide)
          · rw [urlDecode_cons ha43 ha37]
            exact fun heq => ha37 (List.cons.inj heq).1
      · exact absurd rfl (fun heq => h37 a c s rfl heq)
    · rw [List.cons_append, urlDecode_cons h43 hb, urlDecode_cons h43 hb]
      exact fun heq => ih h0.2 h38.2 (List.cons.inj heq).2

/-- `query_param` reads what `form_value` reads. Where the key is first found at the start of a field, this
is so unless the key has a separator and another one follows it; where it is found elsewhere, what stands
there has to spell the same as the first field of the key, or nothing if there is none. -/
def SameText (query key : List UInt8) : Prop :=
  ∀ i, findText (key ++ [61]) query = some i →
    if FieldStart query i then 38 ∈ key → 38 ∉ query.drop (i + (key ++ [61]).length)
    else
      match fieldAt (key ++ [61]) query with
      | some j => urlDecode (textAt (key ++ [61]) query i) = urlDecode (cutAt (key ++ [61]) query j)
      | none => textAt (key ++ [61]) query i = []

theorem urlDecode_eq_nil_iff {s : List UInt8} : urlDecode s = [] ↔ s = [] := by
  refine ⟨fun h => ?_, fun h => by rw [h]; rfl⟩
  induction s using urlDecode.induct with
  | case1 => rfl
  | case2 s ih =>
    rw [urlDecode] at h
    cases h
  | case3 a b s decoded hread ih =>
    rw [urlDecode, hread] at h
    dsimp only at h
    rw [if_pos rfl] at h
    cases h
  | case4 a b s decoded rest hread hrest ih =>
    rw [urlDecode, hread] at h
    dsimp only at h
    rw [if_neg hrest] at h
    cases ih h
  | case5 b s h43 h37 ih =>
    rw [urlDecode.eq_4 _ _ h43 h37] at h
    cases h

/-- At the start of a field both cut out the same unless a separator of the key is followed by another. -/
theorem urlDecode_textAt_iff {query key : List UInt8} (hquery : 0 ∉ query) (i : ℕ) :
    urlDecode (textAt (key ++ [61]) query i) = urlDecode (cutAt (key ++ [61]) query i) ↔
      (38 ∈ key → 38 ∉ query.drop (i + (key ++ [61]).length)) := by
  have hmem : 38 ∈ key ++ [61] ↔ 38 ∈ key := by
    rw [List.mem_append, List.mem_singleton]
    exact or_iff_left (by decide)
  unfold cutAt textAt
  by_cases hkey : 38 ∈ key
  · rw [if_pos (hmem.mpr hkey)]
    set rest := query.drop (i + (key ++ [61]).length) with hrest
    have h0 : 0 ∉ rest := fun h => hquery (List.mem_of_mem_drop h)
    constructor
    · intro heq _ h38
      obtain ⟨x, y, hsplit, hx⟩ := List.eq_append_cons_of_mem h38
      rw [hsplit, takeWhile_append_sep hx] at heq
      rw [hsplit, List.mem_append, not_or] at h0
      exact urlDecode_append_ne h0.1 hx y heq.symm
    · intro h38
      rw [takeWhile_eq_self (h38 hkey)]
  · rw [if_neg (mt hmem.mp hkey)]
    exact iff_of_true rfl fun h => absurd h hkey

/-- **The two readers agree exactly where the key is found in a field of its own**, or by accident. -/
theorem queryParam_eq_fieldValue_iff {query key : List UInt8} (hquery : 0 ∉ query) (hkey : 0 ∉ key) :
    queryParam query key = fieldValue query key ↔ SameText query key := by
  rw [queryParam_eq hkey, fieldValue_eq]
  unfold SameText
  rcases hfind : findText (key ++ [61]) query with _ | i
  · have hnone : fieldAt (key ++ [61]) query = none :=
      fieldAt_eq_none_iff.mpr fun i hi _ => findText_eq_none_iff.mp hfind i hi
    rw [hnone]
    refine iff_of_true rfl fun i hi => ?_
    cases hi
  · obtain ⟨hi, hhere, hbefore⟩ := findText_eq_some_iff.mp hfind
    dsimp only
    simp only [Option.some.injEq, forall_eq']
    by_cases hstart : FieldStart query i
    · rw [if_pos hstart, fieldAt_eq_some_iff.mpr ⟨hi, hstart, hhere, fun j hj _ => hbefore j hj⟩]
      exact urlDecode_textAt_iff hquery i
    · rw [if_neg hstart]
      rcases fieldAt (key ++ [61]) query with _ | j
      · exact urlDecode_eq_nil_iff
      · exact Iff.rfl

/-- The target of a redirect before another parameter. -/
theorem queryParam_eq_fieldValue_next :
    queryParam (ascii "a=1&next=%2Ffiles&b=2") (ascii "next") = fieldValue (ascii "a=1&next=%2Ffiles&b=2")
      (ascii "next") :=
  (queryParam_eq_fieldValue_iff (by decide +kernel) (by decide +kernel)).mpr fun i hi => by
    have hat : findText (ascii "next" ++ [61]) (ascii "a=1&next=%2Ffiles&b=2") = some 4 := by decide +kernel
    cases hat.symm.trans hi
    rw [if_pos (by decide +kernel)]
    exact fun h => absurd h (by decide +kernel)

/-- A parameter whose name ends like the key is read for it. -/
theorem queryParam_ne_fieldValue :
    queryParam (ascii "xnext=/a") (ascii "next") = ascii "/a" ∧
      fieldValue (ascii "xnext=/a") (ascii "next") = [] := by
  decide +kernel

end GpsBase.Web.Fields
