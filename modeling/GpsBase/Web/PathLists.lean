import GpsBase.Lib.Json
import GpsBase.Lib.Search

/-! # Lists of paths

`json_string_array`, which takes the paths of a bulk delete out of the body of a request. It is no parser of
JSON: it looks for the key, for the bracket behind it, and for strings, with blanks and commas between them
as they come. What a browser sends it reads back, and what it returns of any body is bounded. -/

namespace GpsBase.Web.PathLists

open GpsBase.Lib.CText GpsBase.Lib.Json GpsBase.Lib.Search

/-! ### The scanner -/

def kMaxElems : ℕ := 256

def kMaxLen : ℕ := 256

/-- `strtol` to base 16, and what it leaves. -/
def strtolHex (s : List UInt8) : ℤ × List UInt8 :=
  let (neg, t) := signOf (s.dropWhile isSpace)
  let t := match t with
    | 48 :: x :: d :: u => if (x = 120 || x = 88) && (hexDigit d).isSome then d :: u else 48 :: x :: d :: u
    | t => t
  let digits := t.takeWhile fun b => (hexDigit b).isSome
  if digits = [] then (0, s)
  else
    let n : ℤ := digits.foldl (fun n b => 16 * n + (hexDigit b).getD 0) 0
    (if neg then -n else n, t.drop digits.length)

/-- The four characters behind `\u`, if they are the number of an ASCII character. -/
def hexEscape (hx : List UInt8) : Option UInt8 :=
  let (cp, rest) := strtolHex (cStr hx)
  if (cStr hx).length - rest.length ≠ 4 ∨ cp < 0 ∨ cp > 0x7F then none else some (UInt8.ofNat cp.toNat)

/-- The character of a letter behind a backslash. -/
def unescape : UInt8 → Option UInt8
  | 34 => some 34
  | 92 => some 92
  | 47 => some 47
  | 98 => some 8
  | 102 => some 12
  | 110 => some 10
  | 114 => some 13
  | 116 => some 9
  | _ => none

/-- The inner loop of `json_string_array`, behind the opening quote: the element, and what is left behind the
closing one. -/
def elemScan (elem : List UInt8) : List UInt8 → Option (List UInt8 × List UInt8)
  | [] => none
  | 34 :: s => some (elem, s)
  | 92 :: 117 :: a :: b :: c :: d :: s =>
    match hexEscape [a, b, c, d] with
    | none => none
    | some x => if kMaxLen < (elem ++ [x]).length then none else elemScan (elem ++ [x]) s
  | 92 :: e :: s =>
    match unescape e with
    | none => none
    | some x => if kMaxLen < (elem ++ [x]).length then none else elemScan (elem ++ [x]) s
  | c :: s =>
    if c = 92 ∨ c < 32 then none
    else if kMaxLen < (elem ++ [c]).length then none
    else elemScan (elem ++ [c]) s

/-- What is skipped between elements. -/
def separates (b : UInt8) : Bool := b ∈ [32, 9, 10, 13, 44]

/-- The outer loop of `json_string_array`; `none` is `reject`. A round takes at least two bytes, and there are
`fuel` rounds. -/
def arrayScan : ℕ → List (List UInt8) → List UInt8 → Option (List (List UInt8))
  | 0, _, _ => none
  | _ + 1, out, [] => some out
  | fuel + 1, out, b :: s =>
    match (b :: s).dropWhile separates with
    | [] => none
    | c :: s =>
      if c = 93 then some out
      else if c ≠ 34 then none
      else
        match elemScan [] s with
        | none => none
        | some (elem, s) =>
          if kMaxElems < (out ++ [elem]).length then none else arrayScan fuel (out ++ [elem]) s

/-- `json_string_array`: the elements, and `rejected`. -/
def jsonStringArray (body key : List UInt8) : List (List UInt8) × Bool :=
  let needle := 34 :: key ++ [34]
  match findText needle body with
  | none => ([], false)
  | some pos =>
    let rest := body.drop (pos + needle.length)
    match findText [91] rest with
    | none => ([], true)
    | some pos =>
      let rest := rest.drop (pos + 1)
      match arrayScan (rest.length + 1) [] rest with
      | none => ([], true)
      | some out => (out, false)

/-! ### Bounds -/

theorem elemScan_bounds {elem s x rest : List UInt8} (h : elemScan elem s = some (x, rest))
    (helem : elem.length ≤ kMaxLen) : x.length ≤ kMaxLen ∧ rest.length < s.length := by
  induction elem, s using elemScan.induct with
  | case1 elem => cases h
  | case2 elem s =>
    rw [elemScan] at h
    cases h
    exact ⟨helem, Nat.lt_succ_self _⟩
  | case3 elem a b c d s hnone =>
    rw [elemScan, hnone] at h
    cases h
  | case4 elem a b c d s y hy hcap =>
    rw [elemScan, hy] at h
    dsimp only at h
    rw [if_pos hcap] at h
    cases h
  | case5 elem a b c d s y hy hcap ih =>
    rw [elemScan, hy] at h
    dsimp only at h
    rw [if_neg hcap] at h
    obtain ⟨h1, h2⟩ := ih h (not_lt.mp hcap)
    exact ⟨h1, by simp only [List.length_cons]; omega⟩
  | case6 elem e s hnot hnone =>
    rw [elemScan.eq_4 _ _ _ hnot, hnone] at h
    cases h
  | case7 elem e s hnot y hy hcap =>
    rw [elemScan.eq_4 _ _ _ hnot, hy] at h
    dsimp only at h
    rw [if_pos hcap] at h
    cases h
  | case8 elem e s hnot y hy hcap ih =>
    rw [elemScan.eq_4 _ _ _ hnot, hy] at h
    dsimp only at h
    rw [if_neg hcap] at h
    obtain ⟨h1, h2⟩ := ih h (not_lt.mp hcap)
    exact ⟨h1, by simp only [List.length_cons]; omega⟩
  | case9 elem c s h34 hu he hbad =>
    rw [elemScan.eq_5 _ _ _ h34 hu he, if_pos hbad] at h
    cases h
  | case10 elem c s h34 hu he hgood hcap =>
    rw [elemScan.eq_5 _ _ _ h34 hu he, if_neg hgood, if_pos hcap] at h
    cases h
  | case11 elem c s h34 hu he hgood hcap ih =>
    rw [elemScan.eq_5 _ _ _ h34 hu he, if_neg hgood, if_neg hcap] at h
    obtain ⟨h1, h2⟩ := ih h (not_lt.mp hcap)
    exact ⟨h1, h2.trans (Nat.lt_succ_self _)⟩

theorem arrayScan_bounds : ∀ {fuel : ℕ} {out s result : List _}, arrayScan fuel out s = some result →
    out.length ≤ kMaxElems → (∀ x ∈ out, x.length ≤ kMaxLen) →
    result.length ≤ kMaxElems ∧ ∀ x ∈ result, x.length ≤ kMaxLen
  | 0, _, _, _, h, _, _ => nomatch h
  | _ + 1, out, [], _, h, hlen, hout => by
    cases h
    exact ⟨hlen, hout⟩
  | fuel + 1, out, b :: s, result, h, hlen, hout => by
    rw [arrayScan] at h
    split at h
    · cases h
    · next c t _ =>
      split_ifs at h with hend hquote
      · cases h
        exact ⟨hlen, hout⟩
      · split at h
        · cases h
        · next elem rest hscan =>
          split_ifs at h with hcap
          refine arrayScan_bounds h (not_lt.mp hcap) fun x hx => ?_
          rcases List.mem_append.mp hx with hx | hx
          · exact hout x hx
          · rw [List.mem_singleton.mp hx]
            exact (elemScan_bounds hscan (Nat.zero_le _)).1

theorem arrayScan_fuel : ∀ {fuel more : ℕ} {out : List (List UInt8)} {s : List UInt8}, s.length < fuel →
    arrayScan (fuel + more) out s = arrayScan fuel out s
  | 0, _, _, _, h => absurd h (Nat.not_lt_zero _)
  | fuel + 1, more, out, [], _ => by
    rw [Nat.add_right_comm, arrayScan, arrayScan]
  | fuel + 1, more, out, b :: s, h => by
    rw [Nat.add_right_comm, arrayScan, arrayScan]
    have hdrop := (List.dropWhile_sublist separates (l := b :: s)).length_le
    rcases hrest : (b :: s).dropWhile separates with _ | ⟨c, t⟩
    · rfl
    · rw [hrest, List.length_cons, List.length_cons] at hdrop
      dsimp only
      split_ifs
      · rfl
      · rfl
      · rcases hscan : elemScan [] t with _ | ⟨elem, rest⟩
        · rfl
        · dsimp only
          have hless := (elemScan_bounds hscan (Nat.zero_le _)).2
          rw [List.length_cons] at h
          rw [arrayScan_fuel (by omega)]

/-! ### What a browser sends -/

theorem unescape_short {n : ℕ} {letter : UInt8} (h : shortEscape n = some letter) :
    n < 256 ∧ letter ≠ 117 ∧ unescape letter = some (UInt8.ofNat n) := by
  unfold shortEscape at h
  split at h <;> cases h <;> exact ⟨by decide, by decide, rfl⟩

theorem hexEscape_control {n : ℕ} (h : n < 32) :
    hexEscape [48, 48, hexLow (n / 16), hexLow (n % 16)] = some (UInt8.ofNat n) := by
  have hall : ∀ n < 32, hexEscape [48, 48, hexLow (n / 16), hexLow (n % 16)] = some (UInt8.ofNat n) := by
    decide +kernel
  exact hall n h

/-- **A byte that is escaped is read back**, if it does not make the element too long. -/
theorem elemScan_escapeByte (elem : List UInt8) (b : UInt8) (s : List UInt8) :
    elemScan elem (escapeByte b ++ s) =
      if kMaxLen < (elem ++ [b]).length then none else elemScan (elem ++ [b]) s := by
  unfold escapeByte
  rcases hshort : shortEscape b.toNat with _ | letter
  · dsimp only
    have hb : b ≠ 34 ∧ b ≠ 92 := by
      constructor <;> rintro rfl <;> cases hshort
    by_cases hcontrol : b.toNat < 32
    · rw [if_pos hcontrol, List.cons_append, List.cons_append, List.cons_append, List.cons_append,
        List.cons_append, List.cons_append, List.nil_append, elemScan, hexEscape_control hcontrol,
        UInt8.ofNat_toNat]
    · have hlarge : ¬ (b = 92 ∨ b < 32) := by
        rintro (h92 | hlt)
        · exact hb.2 h92
        · exact hcontrol hlt
      rw [if_neg hcontrol, List.singleton_append, elemScan.eq_5 _ _ _ hb.1 (fun _ _ _ _ _ h _ => hb.2 h)
        (fun _ _ h _ => hb.2 h), if_neg hlarge]
  · obtain ⟨_, h117, hletter⟩ := unescape_short hshort
    dsimp only
    rw [List.cons_append, List.singleton_append, elemScan.eq_4 _ _ _ (fun _ _ _ _ _ h _ => h117 h), hletter,
      UInt8.ofNat_toNat]

/-- **An escaped text is read back** up to its closing quote, unless it is too long. -/
theorem elemScan_escaped (rest : List UInt8) : ∀ (x elem : List UInt8), elem.length ≤ kMaxLen →
    elemScan elem (x.flatMap escapeByte ++ 34 :: rest) =
      if kMaxLen < (elem ++ x).length then none else some (elem ++ x, rest)
  | [], elem, helem => by
    rw [List.flatMap_nil, List.nil_append, elemScan, List.append_nil, if_neg (not_lt.mpr helem)]
  | b :: x, elem, _ => by
    rw [List.flatMap_cons, List.append_assoc, elemScan_escapeByte]
    by_cases hcap : kMaxLen < (elem ++ [b]).length
    · have hlong : kMaxLen < (elem ++ b :: x).length := by
        rw [List.length_append, List.length_singleton] at hcap
        rw [List.length_append, List.length_cons]
        omega
      rw [if_pos hcap, if_pos hlong]
    · rw [if_neg hcap, elemScan_escaped rest x _ (not_lt.mp hcap), List.append_assoc, List.singleton_append]

def quoted (x : List UInt8) : List UInt8 := 34 :: x.flatMap escapeByte ++ [34]

theorem arrayScan_skip {pre : List UInt8} (hpre : ∀ b ∈ pre, separates b = true) {c : UInt8}
    (hc : separates c = false) (fuel : ℕ) (out : List (List UInt8)) (s : List UInt8) :
    arrayScan (fuel + 1) out (pre ++ c :: s) =
      if c = 93 then some out
      else if c ≠ 34 then none
      else
        match elemScan [] s with
        | none => none
        | some (elem, s) =>
          if kMaxElems < (out ++ [elem]).length then none else arrayScan fuel (out ++ [elem]) s := by
  have hdrop : (pre ++ c :: s).dropWhile separates = c :: s := by
    rw [List.dropWhile_append_of_pos hpre, List.dropWhile_cons_of_neg (by rw [hc]; exact Bool.false_ne_true)]
  rcases hsplit : pre ++ c :: s with _ | ⟨b, t⟩
  · exact absurd hsplit (by simp)
  · rw [arrayScan, ← hsplit, hdrop]

theorem arrayScan_quoted {pre : List UInt8} (hpre : ∀ b ∈ pre, separates b = true) (fuel : ℕ)
    (out : List (List UInt8)) (x rest : List UInt8) : arrayScan (fuel + 1) out (pre ++ (quoted x ++ rest)) =
      if kMaxLen < x.length ∨ kMaxElems < out.length + 1 then none
      else arrayScan fuel (out ++ [x]) rest := by
  have hbytes : pre ++ (quoted x ++ rest) = pre ++ 34 :: (x.flatMap escapeByte ++ 34 :: rest) := by
    unfold quoted
    rw [List.cons_append, List.cons_append, List.append_assoc, List.singleton_append]
  rw [hbytes, arrayScan_skip hpre (by decide), if_neg (by decide), if_neg (by decide),
    elemScan_escaped rest x [] (Nat.zero_le _), List.nil_append]
  by_cases hlen : kMaxLen < x.length
  · rw [if_pos hlen, if_pos (Or.inl hlen)]
  · rw [if_neg hlen]
    dsimp only
    rw [List.length_append, List.length_singleton]
    by_cases hcount : kMaxElems < out.length + 1
    · rw [if_pos hcount, if_pos (Or.inr hcount)]
    · rw [if_neg hcount, if_neg (not_or.mpr ⟨hlen, hcount⟩)]

/-- The elements fit behind those that were read. -/
def Fit (out xs : List (List UInt8)) : Prop :=
  out.length + xs.length ≤ kMaxElems ∧ ∀ x ∈ xs, x.length ≤ kMaxLen

instance (out xs : List (List UInt8)) : Decidable (Fit out xs) := inferInstanceAs (Decidable (_ ∧ _))

theorem fit_cons {out xs : List (List UInt8)} {x : List UInt8} :
    Fit out (x :: xs) ↔ ¬ (kMaxLen < x.length ∨ kMaxElems < out.length + 1) ∧ Fit (out ++ [x]) xs := by
  unfold Fit
  rw [List.length_cons, List.length_append, List.length_singleton, List.forall_mem_cons, not_or, not_lt, not_lt]
  constructor
  · rintro ⟨h1, h2, h3⟩
    exact ⟨⟨h2, by omega⟩, by omega, h3⟩
  · rintro ⟨⟨h1, _⟩, h2, h3⟩
    exact ⟨by omega, h1, h3⟩

/-- **The elements of an array are read back**, or rejected if they do not fit. -/
theorem arrayScan_elements (tail : List UInt8) : ∀ (xs out : List (List UInt8)) (pre : List UInt8) (fuel : ℕ),
    (∀ b ∈ pre, separates b = true) → xs.length < fuel → out.length ≤ kMaxElems →
    arrayScan fuel out (pre ++ ([44].intercalate (xs.map quoted) ++ 93 :: tail)) =
      if Fit out xs then some (out ++ xs) else none
  | _, _, _, 0, _, hfuel, _ => absurd hfuel (Nat.not_lt_zero _)
  | [], out, pre, fuel + 1, hpre, _, hout => by
    have hfit : Fit out [] := ⟨hout, fun _ h => absurd h List.not_mem_nil⟩
    rw [List.map_nil, List.intercalate_nil, List.nil_append, arrayScan_skip hpre (by decide), if_pos rfl,
      if_pos hfit, List.append_nil]
  | x :: xs, out, pre, fuel + 1, hpre, hfuel, hout => by
    rw [List.length_cons] at hfuel
    -- what follows the element: the end of the array, or a comma and the other elements
    obtain ⟨sep, hsep, hbytes⟩ : ∃ sep : List UInt8, (∀ b ∈ sep, separates b = true) ∧
        [44].intercalate ((x :: xs).map quoted) ++ 93 :: tail =
          quoted x ++ (sep ++ ([44].intercalate (xs.map quoted) ++ 93 :: tail)) := by
      rcases xs with _ | ⟨y, ys⟩
      · refine ⟨[], fun _ h => absurd h List.not_mem_nil, ?_⟩
        rw [List.map_singleton, List.intercalate_singleton, List.map_nil, List.intercalate_nil,
          List.nil_append, List.nil_append]
      · refine ⟨[44], List.forall_mem_singleton.mpr rfl, ?_⟩
        rw [List.map_cons, List.map_cons, List.intercalate_cons_cons, List.append_assoc, List.append_assoc]
    rw [hbytes, arrayScan_quoted hpre]
    by_cases hbad : kMaxLen < x.length ∨ kMaxElems < out.length + 1
    · rw [if_pos hbad, if_neg (fun h => (fit_cons.mp h).1 hbad)]
    · have hcount : out.length + 1 ≤ kMaxElems := not_lt.mp (not_or.mp hbad).2
      rw [if_neg hbad, arrayScan_elements tail xs (out ++ [x]) sep fuel hsep (by omega)
        (by rwa [List.length_append, List.length_singleton]), List.append_assoc, List.singleton_append]
      exact if_congr ⟨fun h => fit_cons.mpr ⟨hbad, h⟩, fun h => (fit_cons.mp h).2⟩ rfl rfl

/-! ### A list of paths and back -/

/-- `JSON.stringify({paths: v})`. -/
def stringify (v : List String) : List UInt8 :=
  ascii "\x7b\"paths\":[" ++ [44].intercalate (v.map quote) ++ ascii "]\x7d"

theorem stringify_eq (v : List String) : stringify v =
    ascii "\x7b\"paths\":" ++ 91 :: ([] ++ ([44].intercalate ((v.map utf8).map quoted) ++ 93 :: [125])) := by
  have hquote : v.map quote = (v.map utf8).map quoted := by
    rw [List.map_map]
    exact List.map_congr_left fun s _ => quote_eq s
  unfold stringify
  rw [hquote, List.append_assoc]
  rfl

/-- A key and the bracket behind it are found where a browser writes them. -/
theorem jsonStringArray_paths (rest : List UInt8) :
    jsonStringArray (ascii "\x7b\"paths\":" ++ 91 :: rest) (ascii "paths") =
      match arrayScan (rest.length + 1) [] rest with
      | none => ([], true)
      | some out => (out, false) := by
  have hkey : findText (34 :: ascii "paths" ++ [34]) (ascii "\x7b\"paths\":" ++ 91 :: rest) = some 1 := by
    rw [findText_eq_some_iff]
    refine ⟨by rw [List.length_append]; exact Nat.le_add_right_of_le (by decide), ⟨58 :: 91 :: rest, rfl⟩, ?_⟩
    intro j hj
    obtain rfl : j = 0 := by omega
    rintro ⟨t, ht⟩
    cases ht
  have hopen : findText [91] (58 :: 91 :: rest) = some 1 := by
    rw [findText_eq_some_iff]
    refine ⟨by rw [List.length_cons, List.length_cons]; omega, ⟨rest, rfl⟩, ?_⟩
    intro j hj
    obtain rfl : j = 0 := by omega
    rintro ⟨t, ht⟩
    cases ht
  have hdrop : (ascii "\x7b\"paths\":" ++ 91 :: rest).drop (1 + (34 :: ascii "paths" ++ [34]).length) =
      58 :: 91 :: rest := rfl
  unfold jsonStringArray
  dsimp only
  rw [hkey]
  dsimp only
  rw [hdrop, hopen]
  rfl

theorem length_le_intercalate : ∀ xs : List (List UInt8),
    xs.length ≤ ([44].intercalate (xs.map quoted)).length
  | [] => Nat.zero_le _
  | [x] => by
    rw [List.map_singleton, List.intercalate_singleton]
    exact Nat.succ_le_succ (Nat.zero_le _)
  | x :: y :: xs => by
    have ih := length_le_intercalate (y :: xs)
    rw [List.map_cons] at ih
    rw [List.map_cons, List.map_cons, List.intercalate_cons_cons, List.length_append, List.length_append,
      List.length_singleton, List.length_cons]
    omega

/-- **Path lists survive the trip from browser to server**, or are rejected as a whole. What is returned of
any body is bounded. -/
theorem jsonStringArray_stringify :
    (∀ v : List String, jsonStringArray (stringify v) (ascii "paths") =
      if v.length ≤ 256 ∧ ∀ s ∈ v, (utf8 s).length ≤ 256 then (v.map utf8, false) else ([], true)) ∧
    ∀ body key : List UInt8, (jsonStringArray body key).2 = false →
      (jsonStringArray body key).1.length ≤ 256 ∧ ∀ x ∈ (jsonStringArray body key).1, x.length ≤ 256 := by
  refine ⟨fun v => ?_, fun body key h => ?_⟩
  · have hmany := length_le_intercalate (v.map utf8)
    have hfit : Fit [] (v.map utf8) ↔ v.length ≤ 256 ∧ ∀ s ∈ v, (utf8 s).length ≤ 256 := by
      unfold Fit
      rw [List.length_nil, Nat.zero_add, List.length_map, List.forall_mem_map]
      rfl
    rw [stringify_eq, jsonStringArray_paths, arrayScan_elements [125] (v.map utf8) [] [] _
      (fun _ h => absurd h List.not_mem_nil) (by rw [List.nil_append, List.length_append]; omega)
      (Nat.zero_le _), List.nil_append]
    by_cases h : Fit [] (v.map utf8)
    · rw [if_pos h, if_pos (hfit.mp h)]
    · rw [if_neg h, if_neg (fun hv => h (hfit.mpr hv))]
  · unfold jsonStringArray at h ⊢
    dsimp only at h ⊢
    split at h
    · exact ⟨Nat.zero_le _, fun _ hx => absurd hx List.not_mem_nil⟩
    · split at h
      · cases h
      · split at h
        · cases h
        · next out hscan =>
          exact arrayScan_bounds hscan (Nat.zero_le _) fun _ hx => absurd hx List.not_mem_nil

/-- For instance, a path with a quote, a backslash, a line break and a letter beyond ASCII. -/
theorem jsonStringArray_stringify_path :
    jsonStringArray (stringify ["/sdcard/\"ä\\\n"]) (ascii "paths") = ([utf8 "/sdcard/\"ä\\\n"], false) ∧
      (jsonStringArray (ascii "\"k\":[\"\\u0041\"]") (ascii "k")).1.length ≤ 256 := by
  refine ⟨?_, (jsonStringArray_stringify.2 _ _ (by decide +kernel)).1⟩
  rw [jsonStringArray_stringify.1, if_pos (by decide +kernel)]
  rfl

end GpsBase.Web.PathLists
