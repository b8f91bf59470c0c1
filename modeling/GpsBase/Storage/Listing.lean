import GpsBase.Lib.Json
import GpsBase.Storage.SdManager
import Mathlib.Data.FinEnum

/-! # The listing of a directory

`list_dir` writes the entries of a directory as JSON into a buffer that grows. The path of an entry goes
through a buffer of 320 bytes on the way: what does not fit is cut off, and the entry is listed with the path
of something else. A listing that is returned is otherwise faithful to what `readdir` and `stat` say, as long
as what it copies is text. -/

namespace GpsBase.Storage.Listing

open GpsBase.Lib.CText GpsBase.Lib.Json GpsBase.Storage.Card

/-! ### The buffer -/

/-- The buffer of `list_dir`: what is written and its terminator fit. -/
structure Buffer where
  bytes : List UInt8
  cap : ℕ
  fits : bytes.length < cap

/-- `buf_append`; `alloc` is whether `realloc` grants a size. -/
def bufAppend (alloc : ℕ → Bool) (b : Buffer) (s : List UInt8) : Option Buffer :=
  if h : b.cap < b.bytes.length + s.length + 1 then
    if alloc (b.cap + s.length + 256) then
      some
        { bytes := b.bytes ++ s
          cap := b.cap + s.length + 256
          fits := by
            have := b.fits
            rw [List.length_append]
            omega }
    else none
  else
    some
      { bytes := b.bytes ++ s
        cap := b.cap
        fits := by
          rw [List.length_append]
          omega }

/-- `buf_append_str`, of the bytes of a C string. -/
def bufAppendStr (alloc : ℕ → Bool) (b : Buffer) (s : List UInt8) : Option Buffer := bufAppend alloc b s

/-- What `buf_append_json_str` appends for a character. -/
def jsonEsc : UInt8 → List UInt8
  | 34 => [92, 34]
  | 92 => [92, 92]
  | 10 => [92, 110]
  | 13 => [92, 114]
  | 9 => [92, 116]
  | c => [c]

def bufAppendJsonStr (alloc : ℕ → Bool) : Buffer → List UInt8 → Option Buffer
  | b, [] => some b
  | b, c :: s => (bufAppend alloc b (jsonEsc c)).bind fun b => bufAppendJsonStr alloc b s

/-! ### The listing -/

inductive DType
  | dir
  | reg
  | unknown
  deriving DecidableEq

/-- `struct dirent`. -/
structure Dirent where
  name : Name
  dType : DType

/-- `fp`: the path of an entry, as far as it fits. -/
def entryPath (path : List UInt8) (name : Name) : List UInt8 := (path ++ slash :: name).take 319

/-- `st_size`; that of a directory is 0. -/
def sizeOf : Kind → ℤ
  | .file size => size
  | .dir => 0

/-- `is_dir` and `fsize`. -/
def dirAndSize (stat : List UInt8 → Except ℤ Kind) (fp : List UInt8) (dType : DType) : Bool × ℤ :=
  match dType with
  | .dir => (true, 0)
  | .reg =>
    match stat fp with
    | .ok kind => (false, sizeOf kind)
    | .error _ => (false, 0)
  | .unknown =>
    match stat fp with
    | .ok .dir => (true, 0)
    | .ok (.file size) => (false, size)
    | .error _ => (false, 0)

/-- The comma before an entry that is not the first. -/
def appendComma (alloc : ℕ → Bool) (b : Buffer) (first : Bool) : Option Buffer :=
  if first then some b else bufAppendStr alloc b (ascii ",")

/-- What a round of `list_dir` appends for an entry. -/
def appendEntry (alloc : ℕ → Bool) (b : Buffer) (first : Bool) (name fp : List UInt8) (isDir : Bool)
    (fsize : ℤ) : Option Buffer := do
  let b ← appendComma alloc b first
  let b ← bufAppendStr alloc b (ascii "\x7b\"name\":\"")
  let b ← bufAppendJsonStr alloc b name
  let b ← bufAppendStr alloc b (ascii "\",\"path\":\"")
  let b ← bufAppendJsonStr alloc b fp
  let b ← bufAppendStr alloc b (ascii "\",\"is_dir\":")
  let b ← bufAppendStr alloc b (if isDir then ascii "true" else ascii "false")
  let b ← bufAppendStr alloc b (ascii ",\"size\":")
  let b ← bufAppendStr alloc b (intText fsize)
  bufAppendStr alloc b (ascii "\x7d")

/-- The loop of `list_dir`. -/
def listEntries (stat : List UInt8 → Except ℤ Kind) (alloc : ℕ → Bool) (path : List UInt8) :
    Buffer → Bool → List Dirent → Option Buffer
  | b, _, [] => some b
  | b, first, ent :: ents =>
    if ent.name = ascii "." ∨ ent.name = ascii ".." then listEntries stat alloc path b first ents
    else
      let fp := entryPath path ent.name
      let (isDir, fsize) := dirAndSize stat fp ent.dType
      (appendEntry alloc b first ent.name fp isDir fsize).bind fun b => listEntries stat alloc path b false ents

/-- `list_dir`; `ents` is what `readdir` gives, if the directory can be opened. -/
def listDir (mounted : Bool) (ents : Option (List Dirent)) (stat : List UInt8 → Except ℤ Kind)
    (alloc : ℕ → Bool) (path : Option (List UInt8)) : Option (List UInt8) :=
  match mounted, path, ents with
  | true, some path, some ents =>
    if alloc 512 then do
      let b ← bufAppendStr alloc { bytes := [], cap := 512, fits := by decide } (ascii "[")
      let b ← listEntries stat alloc path b true ents
      let b ← bufAppendStr alloc b (ascii "]")
      some b.bytes
    else none
  | _, _, _ => none

/-! ### The text -/

/-- The text of an entry. -/
def row (name fp : List UInt8) (isDir : Bool) (fsize : ℤ) : List UInt8 :=
  ascii "\x7b\"name\":\"" ++ name.flatMap jsonEsc ++ ascii "\",\"path\":\"" ++ fp.flatMap jsonEsc ++
    ascii "\",\"is_dir\":" ++ (if isDir then ascii "true" else ascii "false") ++ ascii ",\"size\":" ++
    intText fsize ++ ascii "\x7d"

theorem bytes_bufAppend {alloc : ℕ → Bool} {b b' : Buffer} {s : List UInt8}
    (h : bufAppend alloc b s = some b') : b'.bytes = b.bytes ++ s := by
  unfold bufAppend at h
  split_ifs at h
  · cases h
    rfl
  · cases h
    rfl

theorem bytes_bufAppendJsonStr {alloc : ℕ → Bool} : ∀ {s : List UInt8} {b b' : Buffer},
    bufAppendJsonStr alloc b s = some b' → b'.bytes = b.bytes ++ s.flatMap jsonEsc
  | [], b, b', h => by
    cases h
    rw [List.flatMap_nil, List.append_nil]
  | c :: s, b, b', h => by
    obtain ⟨u, hu, h⟩ := Option.bind_eq_some_iff.mp h
    rw [bytes_bufAppendJsonStr h, bytes_bufAppend hu, List.flatMap_cons, List.append_assoc]

theorem bytes_appendEntry {alloc : ℕ → Bool} {b b' : Buffer} {first : Bool} {name fp : List UInt8} {isDir : Bool}
    {fsize : ℤ} (h : appendEntry alloc b first name fp isDir fsize = some b') :
    b'.bytes = b.bytes ++ ((if first then [] else [44]) ++ row name fp isDir fsize) := by
  unfold appendEntry bufAppendStr at h
  simp only [Option.bind_eq_bind, Option.bind_eq_some_iff] at h
  obtain ⟨b1, h1, b2, h2, b3, h3, b4, h4, b5, h5, b6, h6, b7, h7, b8, h8, b9, h9, h10⟩ := h
  have hcomma : b1.bytes = b.bytes ++ if first then [] else [44] := by
    unfold appendComma bufAppendStr at h1
    split_ifs at h1 ⊢
    · cases h1
      exact (List.append_nil _).symm
    · exact bytes_bufAppend h1
  rw [bytes_bufAppend h10, bytes_bufAppend h9, bytes_bufAppend h8, bytes_bufAppend h7, bytes_bufAppend h6,
    bytes_bufAppendJsonStr h5, bytes_bufAppend h4, bytes_bufAppendJsonStr h3, bytes_bufAppend h2, hcomma]
  unfold row
  simp only [List.append_assoc]

/-- `.` and `..` are passed over. -/
def listed (ent : Dirent) : Bool := ent.name ≠ ascii "." && ent.name ≠ ascii ".."

theorem listed_iff {ent : Dirent} : listed ent = true ↔ ¬ (ent.name = ascii "." ∨ ent.name = ascii "..") := by
  unfold listed
  rw [Bool.and_eq_true, decide_eq_true_iff, decide_eq_true_iff, not_or]

/-- The text of an entry of the directory `path`. -/
def direntRow (stat : List UInt8 → Except ℤ Kind) (path : List UInt8) (ent : Dirent) : List UInt8 :=
  row ent.name (entryPath path ent.name) (dirAndSize stat (entryPath path ent.name) ent.dType).1
    (dirAndSize stat (entryPath path ent.name) ent.dType).2

/-- Rows with commas between them. -/
def joined (first : Bool) : List (List UInt8) → List UInt8
  | [] => []
  | r :: rs => (if first then [] else [44]) ++ r ++ joined false rs

theorem bytes_listEntries {stat : List UInt8 → Except ℤ Kind} {alloc : ℕ → Bool} {path : List UInt8} :
    ∀ {ents : List Dirent} {b b' : Buffer} {first : Bool}, listEntries stat alloc path b first ents = some b' →
      b'.bytes = b.bytes ++ joined first ((ents.filter listed).map (direntRow stat path))
  | [], b, b', first, h => by
    cases h
    exact (List.append_nil _).symm
  | ent :: ents, b, b', first, h => by
    rw [listEntries] at h
    by_cases hdots : ent.name = ascii "." ∨ ent.name = ascii ".."
    · rw [if_pos hdots] at h
      rw [bytes_listEntries h, List.filter_cons_of_neg fun hyes => listed_iff.mp hyes hdots]
    · rw [if_neg hdots] at h
      obtain ⟨u, hu, h⟩ := Option.bind_eq_some_iff.mp h
      rw [bytes_listEntries h, bytes_appendEntry hu, List.filter_cons_of_pos (listed_iff.mpr hdots),
        List.map_cons, joined, List.append_assoc]
      rfl

theorem listDir_eq {ents : List Dirent} {stat : List UInt8 → Except ℤ Kind} {alloc : ℕ → Bool}
    {path text : List UInt8} (h : listDir true (some ents) stat alloc (some path) = some text) :
    text = 91 :: (joined true ((ents.filter listed).map (direntRow stat path)) ++ [93]) := by
  unfold listDir at h
  dsimp only at h
  split_ifs at h with halloc
  obtain ⟨b1, h1, h⟩ := Option.bind_eq_some_iff.mp h
  obtain ⟨b2, h2, h⟩ := Option.bind_eq_some_iff.mp h
  obtain ⟨b3, h3, h⟩ := Option.bind_eq_some_iff.mp h
  unfold bufAppendStr at h1 h3
  cases h
  rw [bytes_bufAppend h3, bytes_listEntries h2, bytes_bufAppend h1]
  rfl

/-! ### Strings in the text -/

/-- A byte that the listing can write: it is no control character, or one that is escaped. -/
def Written (b : UInt8) : Prop := ¬ b < 32 ∨ b ∈ [9, 10, 13]

instance (b : UInt8) : Decidable (Written b) := inferInstanceAs (Decidable (_ ∨ _))

/-- A character is read back, unless it is a control character that was not escaped. -/
theorem string_jsonEsc (acc : List UInt8) (b : UInt8) (s : List UInt8) :
    string acc (jsonEsc b ++ s) = if Written b then string (acc ++ [b]) s else none := by
  unfold jsonEsc
  split
  · exact (string_escaped rfl acc s).trans (if_pos (by decide)).symm
  · exact (string_escaped rfl acc s).trans (if_pos (by decide)).symm
  · exact (string_escaped rfl acc s).trans (if_pos (by decide)).symm
  · exact (string_escaped rfl acc s).trans (if_pos (by decide)).symm
  · exact (string_escaped rfl acc s).trans (if_pos (by decide)).symm
  · next h34 h92 h10 h13 h9 =>
    have hmem : b ∉ [9, 10, 13] := by
      simp only [List.mem_cons, List.not_mem_nil, or_false, not_or]
      exact ⟨h9, h10, h13⟩
    rw [List.singleton_append, string_byte h34 h92]
    by_cases hlt : b < 32
    · have hnot : ¬ Written b := not_or.mpr ⟨not_not.mpr hlt, hmem⟩
      rw [if_pos hlt, if_neg hnot]
    · have hyes : Written b := Or.inl hlt
      rw [if_neg hlt, if_pos hyes]

/-- **A string is read back** up to its closing quote, unless a control character is in it. -/
theorem string_flatMap (rest : List UInt8) : ∀ (x acc : List UInt8),
    string acc (x.flatMap jsonEsc ++ 34 :: rest) =
      if ∀ b ∈ x, Written b then some (acc ++ x, rest) else none
  | [], acc => by
    rw [List.flatMap_nil, List.nil_append, string, List.append_nil,
      if_pos fun _ h => absurd h List.not_mem_nil]
  | b :: x, acc => by
    rw [List.flatMap_cons, List.append_assoc, string_jsonEsc]
    by_cases hb : Written b
    · rw [if_pos hb, string_flatMap rest x (acc ++ [b]), List.append_assoc, List.singleton_append]
      refine if_congr ?_ rfl rfl
      rw [List.forall_mem_cons, and_iff_right hb]
    · rw [if_neg hb, if_neg fun h => hb (h b List.mem_cons_self)]

theorem value_quoted (fuel : ℕ) (x rest : List UInt8) : value (fuel + 1) (34 :: (x.flatMap jsonEsc ++ 34 :: rest)) =
    if ∀ b ∈ x, Written b then some (.str x, rest) else none := by
  rw [value_string, string_flatMap rest x []]
  split_ifs
  · rfl
  · rfl

theorem jsonEsc_cases (b : UInt8) :
    jsonEsc b = [b] ∨ ∃ letter, jsonEsc b = [92, letter] ∧ b < 128 ∧ letter < 128 := by
  unfold jsonEsc
  split
  · exact Or.inr ⟨34, rfl, by decide, by decide⟩
  · exact Or.inr ⟨92, rfl, by decide, by decide⟩
  · exact Or.inr ⟨110, rfl, by decide, by decide⟩
  · exact Or.inr ⟨114, rfl, by decide, by decide⟩
  · exact Or.inr ⟨116, rfl, by decide, by decide⟩
  · exact Or.inl rfl

theorem isUtf8_jsonEsc : ∀ x pre : List UInt8, IsUtf8 (pre ++ x.flatMap jsonEsc) ↔ IsUtf8 (pre ++ x)
  | [], pre => by rw [List.flatMap_nil]
  | b :: x, pre => by
    rw [List.flatMap_cons]
    rcases jsonEsc_cases b with hplain | ⟨letter, hesc, hb, hletter⟩
    · have ih := isUtf8_jsonEsc x (pre ++ [b])
      rw [List.append_assoc, List.append_assoc] at ih
      rw [hplain]
      exact ih
    · have ih := isUtf8_jsonEsc x []
      rw [List.nil_append, List.nil_append] at ih
      rw [hesc, List.cons_append, List.singleton_append, isUtf8_append_cons (by decide), isUtf8_cons hletter,
        ih, isUtf8_append_cons hb]

/-! ### Rows in the text -/

def entryValue (name path : List UInt8) (isDir : Bool) (size : ℚ) : Value :=
  .obj [(ascii "name", .str name), (ascii "path", .str path), (ascii "is_dir", .bool isDir),
    (ascii "size", .num size)]

theorem row_eq (name fp : List UInt8) (isDir : Bool) (size : ℕ) (rest : List UInt8) :
    row name fp isDir size ++ rest =
      123 :: 34 :: (ascii "name" ++ 34 :: 58 :: 34 :: (name.flatMap jsonEsc ++ 34 :: 44 ::
        34 :: (ascii "path" ++ 34 :: 58 :: 34 :: (fp.flatMap jsonEsc ++ 34 :: 44 ::
        34 :: (ascii "is_dir" ++ 34 :: 58 :: ((if isDir then ascii "true" else ascii "false") ++ 44 ::
        34 :: (ascii "size" ++ 34 :: 58 :: (decimal size ++ 125 :: rest)))))))) := by
  have hsize : intText (size : ℤ) = decimal size := by
    unfold intText
    rw [decide_eq_false (by omega), Int.natAbs_natCast]
    rfl
  unfold row
  rw [hsize]
  simp only [List.append_assoc]
  rfl

theorem value_bool (fuel : ℕ) (isDir : Bool) (s : List UInt8) :
    value (fuel + 1) ((if isDir then ascii "true" else ascii "false") ++ s) = some (.bool isDir, s) := by
  rcases isDir with _ | _
  · exact value_false fuel s
  · exact value_true fuel s

theorem keys_plain : (Plain (ascii "name") ∧ Plain (ascii "path") ∧ Plain (ascii "is_dir") ∧ Plain (ascii "size")) ∧
    ∀ key ∈ [ascii "name", ascii "path", ascii "is_dir", ascii "size"], ∀ b ∈ key, b < 128 := by
  unfold Plain
  decide +kernel

theorem members_row (fuel k : ℕ) (name fp : List UInt8) (isDir : Bool) (size : ℕ) (rest : List UInt8) :
    members (value (fuel + 1)) (k + 4) []
      (34 :: (ascii "name" ++ 34 :: 58 :: 34 :: (name.flatMap jsonEsc ++ 34 :: 44 ::
        34 :: (ascii "path" ++ 34 :: 58 :: 34 :: (fp.flatMap jsonEsc ++ 34 :: 44 ::
        34 :: (ascii "is_dir" ++ 34 :: 58 :: ((if isDir then ascii "true" else ascii "false") ++ 44 ::
        34 :: (ascii "size" ++ 34 :: 58 :: (decimal size ++ 125 :: rest))))))))) =
      if (∀ b ∈ name, Written b) ∧ ∀ b ∈ fp, Written b then
        some ([(ascii "name", .str name), (ascii "path", .str fp), (ascii "is_dir", .bool isDir),
          (ascii "size", .num size)], rest)
      else none := by
  obtain ⟨hkey1, hkey2, hkey3, hkey4⟩ := keys_plain.1
  have hsize := value_decimal fuel size (c := 125) (by decide) rest
  by_cases hname : ∀ b ∈ name, Written b
  · rw [members_comma hkey1 ((value_quoted _ _ _).trans (if_pos hname))]
    by_cases hfp : ∀ b ∈ fp, Written b
    · rw [members_comma hkey2 ((value_quoted _ _ _).trans (if_pos hfp)), members_comma hkey3 (value_bool _ _ _),
        members_brace hkey4 hsize, if_pos ⟨hname, hfp⟩]
      rfl
    · rw [members_none hkey2 ((value_quoted _ _ _).trans (if_neg hfp)), if_neg fun h => hfp h.2]
  · rw [members_none hkey1 ((value_quoted _ _ _).trans (if_neg hname)), if_neg fun h => hname h.1]

/-- **A row is read back**, unless it has a control character. -/
theorem value_row (fuel : ℕ) (name fp : List UInt8) (isDir : Bool) (size : ℕ) (rest : List UInt8) :
    value (fuel + 2) (row name fp isDir size ++ rest) =
      if (∀ b ∈ name, Written b) ∧ ∀ b ∈ fp, Written b then some (entryValue name fp isDir size, rest)
      else none := by
  have hfuel : ∀ s : List UInt8, (ascii "name" ++ s).length + 2 = s.length + 2 + 4 := by
    intro s
    have hname : (ascii "name").length = 4 := rfl
    rw [List.length_append]
    omega
  rw [row_eq, value_object, hfuel, members_row]
  split_ifs
  · rfl
  · rfl

theorem isUtf8_row {name fp : List UInt8} {isDir : Bool} {size : ℕ} {rest : List UInt8} :
    IsUtf8 (row name fp isDir size ++ rest) ↔ (IsUtf8 name ∧ IsUtf8 fp) ∧ IsUtf8 rest := by
  have hname := isUtf8_jsonEsc name []
  have hfp := isUtf8_jsonEsc fp []
  have hword : IsUtf8 (if isDir then ascii "true" else ascii "false") := by
    split_ifs
    · exact isUtf8_ascii (by decide +kernel)
    · exact isUtf8_ascii (by decide +kernel)
  have hsize : IsUtf8 (decimal size) := isUtf8_ascii fun b hb => by
    have hdigit := isDigit_decimal size b hb
    unfold isDigit at hdigit
    rw [Bool.and_eq_true, decide_eq_true_eq, decide_eq_true_eq] at hdigit
    have hle : b.toNat ≤ 57 := hdigit.2
    show b.toNat < 128
    omega
  have hkeys : IsUtf8 (ascii "name") ∧ IsUtf8 (ascii "path") ∧ IsUtf8 (ascii "is_dir") ∧ IsUtf8 (ascii "size") := by
    have hascii := keys_plain.2
    simp only [List.forall_mem_cons] at hascii
    obtain ⟨h1, h2, h3, h4, -⟩ := hascii
    exact ⟨isUtf8_ascii h1, isUtf8_ascii h2, isUtf8_ascii h3, isUtf8_ascii h4⟩
  rw [List.nil_append, List.nil_append] at hname hfp
  rw [row_eq]
  simp (disch := decide) only [isUtf8_cons, isUtf8_append_cons, hname, hfp, hword, hsize, hkeys, true_and, and_assoc]

theorem exists_size (stat : List UInt8 → Except ℤ Kind) (fp : List UInt8) (dType : DType) :
    ∃ size : ℕ, (dirAndSize stat fp dType).2 = size := by
  unfold dirAndSize
  split
  · exact ⟨0, rfl⟩
  · rcases stat fp with _ | (size | _)
    · exact ⟨0, rfl⟩
    · exact ⟨size, rfl⟩
    · exact ⟨0, rfl⟩
  · rcases stat fp with _ | (size | _)
    · exact ⟨0, rfl⟩
    · exact ⟨size, rfl⟩
    · exact ⟨0, rfl⟩

def direntValue (stat : List UInt8 → Except ℤ Kind) (path : List UInt8) (ent : Dirent) : Value :=
  entryValue ent.name (entryPath path ent.name) (dirAndSize stat (entryPath path ent.name) ent.dType).1
    (dirAndSize stat (entryPath path ent.name) ent.dType).2

/-- Every control character of a row is escaped. -/
def Clean (path : List UInt8) (ent : Dirent) : Prop :=
  (∀ b ∈ ent.name, Written b) ∧ ∀ b ∈ entryPath path ent.name, Written b

instance (path : List UInt8) (ent : Dirent) : Decidable (Clean path ent) := inferInstanceAs (Decidable (_ ∧ _))

section Rows

variable (stat : List UInt8 → Except ℤ Kind) (path : List UInt8)

theorem direntRow_eq (ent : Dirent) : ∃ size : ℕ,
    direntRow stat path ent = row ent.name (entryPath path ent.name)
      (dirAndSize stat (entryPath path ent.name) ent.dType).1 size ∧
    direntValue stat path ent = entryValue ent.name (entryPath path ent.name)
      (dirAndSize stat (entryPath path ent.name) ent.dType).1 size := by
  obtain ⟨size, hsize⟩ := exists_size stat (entryPath path ent.name) ent.dType
  refine ⟨size, ?_, ?_⟩
  · unfold direntRow
    rw [hsize]
  · unfold direntValue
    rw [hsize, Int.cast_natCast]

theorem value_direntRow (fuel : ℕ) (ent : Dirent) (rest : List UInt8) :
    value (fuel + 2) (direntRow stat path ent ++ rest) =
      if Clean path ent then some (direntValue stat path ent, rest) else none := by
  obtain ⟨size, hrow, hvalue⟩ := direntRow_eq stat path ent
  rw [hrow, hvalue, value_row]
  rfl

theorem direntRow_cons (ent : Dirent) : ∃ s, direntRow stat path ent = 123 :: s := by
  obtain ⟨size, hrow, -⟩ := direntRow_eq stat path ent
  have heq := row_eq ent.name (entryPath path ent.name)
    (dirAndSize stat (entryPath path ent.name) ent.dType).1 size []
  rw [List.append_nil, ← hrow] at heq
  exact ⟨_, heq⟩

theorem length_joined : ∀ ents : List Dirent,
    ents.length ≤ (joined false (ents.map (direntRow stat path))).length
  | [] => Nat.zero_le _
  | ent :: ents => by
    have ih := length_joined ents
    have hcomma : (if false = true then [] else [(44 : UInt8)]).length = 1 := rfl
    rw [List.map_cons, joined, List.length_append, List.length_append, List.length_cons, hcomma]
    omega

/-- **The rows are read back**, unless one of them has a control character. -/
theorem elements_joined (fuel : ℕ) (rest : List UInt8) : ∀ (ents : List Dirent) (ent : Dirent) (k : ℕ)
    (vs : List Value), ents.length < k →
    elements (value (fuel + 2)) k vs
        (direntRow stat path ent ++ (joined false (ents.map (direntRow stat path)) ++ 93 :: rest)) =
      if ∀ e ∈ ent :: ents, Clean path e then some (vs ++ (ent :: ents).map (direntValue stat path), rest)
      else none
  | _, _, 0, _, h => absurd h (Nat.not_lt_zero _)
  | ents, ent, k + 1, vs, h => by
    rw [elements, value_direntRow]
    by_cases hent : Clean path ent
    · rw [if_pos hent]
      dsimp only
      rcases ents with _ | ⟨e, ents⟩
      · rw [if_pos (by rw [List.forall_mem_singleton]; exact hent), List.map_nil, joined, List.nil_append,
          skipBlanks_cons (by decide), List.map_singleton]
        rfl
      · have hjoined : joined false ((e :: ents).map (direntRow stat path)) ++ 93 :: rest =
            44 :: (direntRow stat path e ++ (joined false (ents.map (direntRow stat path)) ++ 93 :: rest)) := by
          rw [List.map_cons, joined, List.append_assoc, List.append_assoc]
          rfl
        rw [List.length_cons] at h
        rw [hjoined, skipBlanks_cons (by decide)]
        show elements (value (fuel + 2)) k (vs ++ [direntValue stat path ent]) _ = _
        rw [elements_joined fuel rest ents e k _ (by omega), List.append_assoc]
        refine if_congr ?_ rfl rfl
        rw [List.forall_mem_cons (a := ent), and_iff_right hent]
    · rw [if_neg hent, if_neg fun hall => hent (hall ent List.mem_cons_self)]

/-- **A listing is read back**, unless a control character is in it. -/
theorem parse_joined (ents : List Dirent) :
    parse (91 :: (joined true (ents.map (direntRow stat path)) ++ [93])) =
      if ∀ e ∈ ents, Clean path e then some (.arr (ents.map (direntValue stat path))) else none := by
  unfold parse
  rcases ents with _ | ⟨ent, ents⟩
  · rfl
  · have hrows : joined true ((ent :: ents).map (direntRow stat path)) ++ [93] =
        direntRow stat path ent ++ (joined false (ents.map (direntRow stat path)) ++ [93]) := by
      rw [List.map_cons, joined, List.append_assoc, List.append_assoc]
      rfl
    obtain ⟨s, hs⟩ := direntRow_cons stat path ent
    have hmany := length_joined stat path ents
    have hread := elements_joined stat path
      (s ++ (joined false (ents.map (direntRow stat path)) ++ [93])).length [] ents ent
      ((s ++ (joined false (ents.map (direntRow stat path)) ++ [93])).length + 2) [] (by
        rw [List.length_append, List.length_append]
        omega)
    rw [hs, List.cons_append] at hread
    rw [hrows, hs, List.cons_append, List.length_cons, List.length_cons, value_array, hread]
    split_ifs
    · rfl
    · rfl

theorem isUtf8_joined : ∀ (first : Bool) (ents : List Dirent),
    IsUtf8 (joined first (ents.map (direntRow stat path)) ++ [93]) ↔
      ∀ e ∈ ents, IsUtf8 e.name ∧ IsUtf8 (entryPath path e.name)
  | _, [] => iff_of_true (isUtf8_singleton (by decide)) fun _ h => absurd h List.not_mem_nil
  | first, ent :: ents => by
    obtain ⟨size, hrow, -⟩ := direntRow_eq stat path ent
    have hcomma : ∀ s : List UInt8, IsUtf8 ((if first then [] else [44]) ++ s) ↔ IsUtf8 s := by
      intro s
      split_ifs
      · rw [List.nil_append]
      · exact isUtf8_cons (by decide)
    rw [List.map_cons, joined, List.append_assoc, List.append_assoc, hcomma, hrow, isUtf8_row,
      isUtf8_joined false ents, List.forall_mem_cons]

end Rows

/-! ### Faithful listings -/

/-- An entry as the card has it: what `readdir` says of its type is so. -/
structure Entry extends Dirent where
  kind : Kind
  agrees : (dType = .dir → kind = .dir) ∧ (dType = .reg → kind ≠ .dir)

/-- What a listing should say of an entry. -/
def Entry.value (path : List UInt8) (e : Entry) : Value :=
  entryValue e.name (path ++ slash :: e.name) (decide (e.kind = .dir)) (sizeOf e.kind)

/-- **The listing is faithful**: the text is JSON, and its value is an array with an object for each entry,
in the order of `readdir`. -/
def Lists (text path : List UInt8) (entries : List Entry) : Prop :=
  IsUtf8 text ∧ parse text = some (.arr ((entries.filter fun e => listed e.toDirent).map (Entry.value path)))

/-- The path of an entry fits its buffer, and is text that the listing can write. -/
def Copied (path : List UInt8) (e : Entry) : Prop :=
  path.length + 1 + e.name.length < 320 ∧ (∀ b ∈ path, Written b) ∧ IsUtf8 path ∧ IsUtf8 e.name

theorem entryPath_eq_iff {path : List UInt8} {name : Name} :
    entryPath path name = path ++ slash :: name ↔ path.length + 1 + name.length < 320 := by
  unfold entryPath
  rw [List.take_eq_self_iff, List.length_append, List.length_cons]
  omega

theorem direntValue_eq {stat : List UInt8 → Except ℤ Kind} {path : List UInt8} {e : Entry}
    (hstat : stat (path ++ slash :: e.name) = .ok e.kind)
    (hfits : entryPath path e.name = path ++ slash :: e.name) :
    direntValue stat path e.toDirent = e.value path := by
  have hagrees := e.agrees
  have hboth : dirAndSize stat (entryPath path e.name) e.dType = (decide (e.kind = .dir), sizeOf e.kind) := by
    unfold dirAndSize
    rw [hfits, hstat]
    rcases hkind : e.kind with size | _
    · rcases htype : e.dType with _ | _ | _
      · rw [hkind] at hagrees
        cases hagrees.1 htype
      · rfl
      · rfl
    · rcases htype : e.dType with _ | _ | _
      · rfl
      · exact absurd hkind (hagrees.2 htype)
      · rfl
  unfold direntValue Entry.value
  rw [hboth, hfits]

section Main

variable {stat : List UInt8 → Except ℤ Kind} {alloc : ℕ → Bool} {path text : List UInt8} {entries : List Entry}

theorem filter_listed : (entries.map Entry.toDirent).filter listed =
    (entries.filter fun e => listed e.toDirent).map Entry.toDirent := List.filter_map

theorem forall_listed {P : Dirent → Prop} : (∀ e ∈ (entries.map Entry.toDirent).filter listed, P e) ↔
    ∀ e ∈ entries, listed e.toDirent = true → P e.toDirent := by
  rw [filter_listed, List.forall_mem_map]
  simp only [List.mem_filter, and_imp]

theorem parse_listDir (h : listDir true (some (entries.map Entry.toDirent)) stat alloc (some path) = some text) :
    parse text =
      if ∀ e ∈ entries, listed e.toDirent = true → Clean path e.toDirent then
        some (.arr ((entries.filter fun e => listed e.toDirent).map fun e => direntValue stat path e.toDirent))
      else none := by
  rw [listDir_eq h, parse_joined]
  refine if_congr forall_listed ?_ rfl
  rw [filter_listed, List.map_map]
  rfl

theorem isUtf8_listDir (h : listDir true (some (entries.map Entry.toDirent)) stat alloc (some path) = some text) :
    IsUtf8 text ↔ ∀ e ∈ entries, listed e.toDirent = true → IsUtf8 e.name ∧ IsUtf8 (entryPath path e.name) := by
  rw [listDir_eq h, isUtf8_cons (by decide), isUtf8_joined, forall_listed]

theorem whole_of_lists (h : listDir true (some (entries.map Entry.toDirent)) stat alloc (some path) = some text)
    (hlists : Lists text path entries) {e : Entry} (he : e ∈ entries) (hlisted : listed e.toDirent = true) :
    Clean path e.toDirent ∧ entryPath path e.name = path ++ slash :: e.name := by
  have hparse := hlists.2
  rw [parse_listDir h] at hparse
  split_ifs at hparse with hclean
  refine ⟨hclean e he hlisted, ?_⟩
  rw [Option.some.injEq, Value.arr.injEq, List.map_inj_left] at hparse
  have hvalue := hparse e (List.mem_filter.mpr ⟨he, hlisted⟩)
  simp only [direntValue, Entry.value, entryValue, Value.obj.injEq, List.cons.injEq, Prod.mk.injEq,
    Value.str.injEq, true_and] at hvalue
  exact hvalue.1

/-- **When a listing is faithful**: if every path fits its buffer and is text. -/
theorem lists_iff (hstat : ∀ e ∈ entries, listed e.toDirent = true → stat (path ++ slash :: e.name) = .ok e.kind)
    (hnames : ∀ e ∈ entries, ∀ b ∈ e.name, ¬ b < 32)
    (h : listDir true (some (entries.map Entry.toDirent)) stat alloc (some path) = some text) :
    Lists text path entries ↔ ∀ e ∈ entries, listed e.toDirent = true → Copied path e := by
  constructor
  · intro hlists e he hlisted
    obtain ⟨hclean, hwhole⟩ := whole_of_lists h hlists he hlisted
    have hutf8 := (isUtf8_listDir h).mp hlists.1 e he hlisted
    rw [hwhole, isUtf8_append_cons (by decide)] at hutf8
    have hwritten := hclean.2
    rw [hwhole] at hwritten
    exact ⟨entryPath_eq_iff.mp hwhole, fun b hb => hwritten b (List.mem_append_left _ hb), hutf8.2.1, hutf8.1⟩
  · intro hcopied
    have hwhole : ∀ e ∈ entries, listed e.toDirent = true → entryPath path e.name = path ++ slash :: e.name :=
      fun e he hlisted => entryPath_eq_iff.mpr (hcopied e he hlisted).1
    refine ⟨(isUtf8_listDir h).mpr fun e he hlisted => ?_, ?_⟩
    · obtain ⟨-, -, hpath, hname⟩ := hcopied e he hlisted
      rw [hwhole e he hlisted]
      exact ⟨hname, (isUtf8_append_cons (by decide)).mpr ⟨hpath, hname⟩⟩
    · have hclean : ∀ e ∈ entries, listed e.toDirent = true → Clean path e.toDirent := by
        intro e he hlisted
        have hname : ∀ b ∈ e.name, Written b := fun b hb => Or.inl (hnames e he b hb)
        refine ⟨hname, ?_⟩
        rw [hwhole e he hlisted]
        intro b hb
        rcases List.mem_append.mp hb with hb | hb
        · exact (hcopied e he hlisted).2.1 b hb
        · rcases List.mem_cons.mp hb with rfl | hb
          · decide
          · exact hname b hb
      rw [parse_listDir h, if_pos hclean]
      congr 2
      refine List.map_congr_left fun e he => ?_
      obtain ⟨hmem, hlisted⟩ := List.mem_filter.mp he
      exact direntValue_eq (hstat e hmem hlisted) (hwhole e hmem hlisted)

end Main

/-! ### Memory -/

theorem exists_bind {α β : Type} {x : Option α} {f : α → Option β} (hx : ∃ a, x = some a)
    (hf : ∀ a, ∃ b, f a = some b) : ∃ b, x.bind f = some b := by
  obtain ⟨a, rfl⟩ := hx
  exact hf a

theorem bufAppend_isSome {alloc : ℕ → Bool} (halloc : ∀ n, alloc n = true) (b : Buffer) (s : List UInt8) :
    ∃ b', bufAppend alloc b s = some b' := by
  unfold bufAppend
  rw [halloc, if_pos rfl]
  split_ifs
  · exact ⟨_, rfl⟩
  · exact ⟨_, rfl⟩

theorem bufAppendJsonStr_isSome {alloc : ℕ → Bool} (halloc : ∀ n, alloc n = true) :
    ∀ (s : List UInt8) (b : Buffer), ∃ b', bufAppendJsonStr alloc b s = some b'
  | [], b => ⟨b, rfl⟩
  | _ :: s, b => exists_bind (bufAppend_isSome halloc b _) (bufAppendJsonStr_isSome halloc s)

theorem appendEntry_isSome {alloc : ℕ → Bool} (halloc : ∀ n, alloc n = true) (b : Buffer) (first : Bool)
    (name fp : List UInt8) (isDir : Bool) (fsize : ℤ) :
    ∃ b', appendEntry alloc b first name fp isDir fsize = some b' := by
  have hcomma : ∃ b', appendComma alloc b first = some b' := by
    unfold appendComma
    split_ifs
    · exact ⟨b, rfl⟩
    · exact bufAppend_isSome halloc b _
  refine exists_bind hcomma fun b => exists_bind (bufAppend_isSome halloc b _) fun b =>
    exists_bind (bufAppendJsonStr_isSome halloc _ b) fun b => exists_bind (bufAppend_isSome halloc b _) fun b =>
    exists_bind (bufAppendJsonStr_isSome halloc _ b) fun b => exists_bind (bufAppend_isSome halloc b _) fun b =>
    exists_bind (bufAppend_isSome halloc b _) fun b => exists_bind (bufAppend_isSome halloc b _) fun b =>
    exists_bind (bufAppend_isSome halloc b _) fun b => bufAppend_isSome halloc b _

theorem listEntries_isSome {stat : List UInt8 → Except ℤ Kind} {alloc : ℕ → Bool}
    (halloc : ∀ n, alloc n = true) (path : List UInt8) : ∀ (ents : List Dirent) (b : Buffer) (first : Bool),
    ∃ b', listEntries stat alloc path b first ents = some b'
  | [], b, _ => ⟨b, rfl⟩
  | ent :: ents, b, first => by
    rw [listEntries]
    split_ifs
    · exact listEntries_isSome halloc path ents b first
    · exact exists_bind (appendEntry_isSome halloc b first _ _ _ _) fun b =>
        listEntries_isSome halloc path ents b false

theorem listDir_isSome {alloc : ℕ → Bool} (halloc : ∀ n, alloc n = true) (ents : List Dirent)
    (stat : List UInt8 → Except ℤ Kind) (path : List UInt8) :
    ∃ text, listDir true (some ents) stat alloc (some path) = some text := by
  unfold listDir
  dsimp only
  rw [if_pos (halloc 512)]
  exact exists_bind (bufAppend_isSome halloc _ _) fun b => exists_bind (listEntries_isSome halloc path ents b true)
    fun b => exists_bind (bufAppend_isSome halloc b _) fun b => ⟨b.bytes, rfl⟩

/-! ### Two listings -/

/-- A file with a quote in its name, and a directory. -/
def quotedFile : Entry where
  name := ascii "a\".txt"
  dType := .reg
  kind := .file 7
  agrees := by decide

def logsEntry : Entry where
  name := ascii "logs"
  dType := .dir
  kind := .dir
  agrees := by decide

theorem lists_iff_quoted : ∃ text, listDir true (some [quotedFile.toDirent, logsEntry.toDirent])
    (fun path => .ok (if path = ascii "/sdcard/logs" then .dir else .file 7)) (fun _ => true)
    (some (ascii "/sdcard")) = some text ∧ Lists text (ascii "/sdcard") [quotedFile, logsEntry] := by
  have halloc : ∀ n, (fun _ : ℕ => true) n = true := fun _ => rfl
  obtain ⟨text, htext⟩ := listDir_isSome halloc [quotedFile.toDirent, logsEntry.toDirent]
    (fun path => .ok (if path = ascii "/sdcard/logs" then .dir else .file 7)) (ascii "/sdcard")
  have hascii : ∀ e ∈ [quotedFile, logsEntry], ∀ b ∈ e.name, b < 128 ∧ ¬ b < 32 := by decide +kernel
  have hiff : Lists text (ascii "/sdcard") [quotedFile, logsEntry] ↔ _ :=
    lists_iff (by decide +kernel) (fun e he b hb => (hascii e he b hb).2) htext
  refine ⟨text, htext, hiff.mpr fun e he _ => ?_⟩
  refine ⟨?_, by decide +kernel, isUtf8_ascii (by decide +kernel), isUtf8_ascii fun b hb => (hascii e he b hb).1⟩
  have hshort : ∀ e ∈ [quotedFile, logsEntry], (ascii "/sdcard").length + 1 + e.name.length < 320 := by decide
  exact hshort e he

/-- A directory with a name as long as a name can be, and a directory in it. -/
def longPath : List UInt8 := ascii "/sdcard/" ++ List.replicate 255 65

def innerEntry : Entry where
  name := List.replicate 60 66
  dType := .dir
  kind := .dir
  agrees := by decide

/-- **A path that does not fit** is cut off: the directory is listed with another path. -/
theorem long_path_cut : (∀ b ∈ innerEntry.name, ¬ b < 32) ∧ innerEntry.name.length ≤ 255 ∧
    ∃ text, listDir true (some [innerEntry.toDirent]) (fun _ => .ok .dir) (fun _ => true) (some longPath) =
      some text ∧ ¬ Lists text longPath [innerEntry] := by
  have hname : innerEntry.name = List.replicate 60 66 := rfl
  refine ⟨?_, ?_, ?_⟩
  · intro b hb
    rw [hname] at hb
    rw [List.eq_of_mem_replicate hb]
    decide
  · rw [hname, List.length_replicate]
    decide
  · have halloc : ∀ n, (fun _ : ℕ => true) n = true := fun _ => rfl
    obtain ⟨text, htext⟩ := listDir_isSome halloc [innerEntry.toDirent] (fun _ => .ok .dir) longPath
    refine ⟨text, htext, fun hlists => ?_⟩
    have hlisted : listed innerEntry.toDirent = true := by decide
    have hlong : listDir true (some ([innerEntry].map Entry.toDirent)) (fun _ => .ok .dir) (fun _ => true)
        (some longPath) = some text := htext
    have hwhole := (whole_of_lists hlong hlists (List.mem_singleton_self _) hlisted).2
    have hfits := entryPath_eq_iff.mp hwhole
    unfold longPath at hfits
    rw [hname, List.length_append, List.length_replicate, List.length_replicate] at hfits
    exact absurd hfits (by decide)

end GpsBase.Storage.Listing
