import GpsBase.Lib.CText

/-! # Forms in HTML

Tags are read byte by byte, each with its attributes; comments and scripts have no part in it. What the
controls of a form send is told by their attributes, and the value of an attribute is written with character
references (`Decodes`). A text without the quote that ends it cannot leave the value it is written in
(`read_quoted`). -/

namespace GpsBase.Lib.Html

open GpsBase.Lib.CText

/-! ### Tags -/

/-- A tag, and for each attribute what its value is written as. -/
structure Tag where
  close : Bool
  name : List UInt8
  attrs : List (List UInt8 × List UInt8) := []
  deriving DecidableEq

def Tag.attr (tag : Tag) (name value : List UInt8) : Tag := { tag with attrs := tag.attrs ++ [(name, value)] }

/-- What the next byte is part of. -/
inductive Mode
  | data
  | tagOpen
  | endTagOpen
  | tagName (tag : Tag)
  | beforeAttribute (tag : Tag)
  | attributeName (tag : Tag) (name : List UInt8)
  | afterName (tag : Tag) (name : List UInt8)
  | beforeValue (tag : Tag) (name : List UInt8)
  | quoted (quote : UInt8) (tag : Tag) (name value : List UInt8)
  | unquoted (tag : Tag) (name value : List UInt8)
  | afterValue (tag : Tag)
  deriving DecidableEq

def isBlank (b : UInt8) : Bool := b = 32 || b = 9 || b = 10 || b = 12 || b = 13

/-- A byte where an attribute can begin. -/
def inTag (tag : Tag) (b : UInt8) : Mode × List Tag :=
  if b = 62 then (.data, [tag])
  else if isBlank b || b = 47 then (.beforeAttribute tag, [])
  else (.attributeName tag [lower b], [])

/-- A byte, and the tag that it ends. -/
def step : Mode → UInt8 → Mode × List Tag
  | .data, b => (if b = 60 then .tagOpen else .data, [])
  | .tagOpen, b =>
    (if b = 47 then .endTagOpen
      else if isAlpha b then .tagName ⟨false, [lower b], []⟩
      else if b = 60 then .tagOpen
      else .data, [])
  | .endTagOpen, b => (if isAlpha b then .tagName ⟨true, [lower b], []⟩ else .data, [])
  | .tagName tag, b =>
    if b = 62 || isBlank b || b = 47 then inTag tag b
    else (.tagName { tag with name := tag.name ++ [lower b] }, [])
  | .beforeAttribute tag, b => inTag tag b
  | .attributeName tag name, b =>
    if b = 61 then (.beforeValue tag name, [])
    else if isBlank b then (.afterName tag name, [])
    else if b = 62 || b = 47 then inTag (tag.attr name []) b
    else (.attributeName tag (name ++ [lower b]), [])
  | .afterName tag name, b =>
    if isBlank b then (.afterName tag name, [])
    else if b = 61 then (.beforeValue tag name, [])
    else inTag (tag.attr name []) b
  | .beforeValue tag name, b =>
    if isBlank b then (.beforeValue tag name, [])
    else if b = 34 || b = 39 then (.quoted b tag name [], [])
    else if b = 62 then (.data, [tag.attr name []])
    else (.unquoted tag name [b], [])
  | .quoted quote tag name value, b =>
    if b = quote then (.afterValue (tag.attr name value), [])
    else (.quoted quote tag name (value ++ [b]), [])
  | .unquoted tag name value, b =>
    if b = 62 then (.data, [tag.attr name value])
    else if isBlank b then (.beforeAttribute (tag.attr name value), [])
    else (.unquoted tag name (value ++ [b]), [])
  | .afterValue tag, b => inTag tag b

def read : Mode → List UInt8 → Mode × List Tag
  | m, [] => (m, [])
  | m, b :: s => ((read (step m b).1 s).1, (step m b).2 ++ (read (step m b).1 s).2)

theorem read_append (s t : List UInt8) : ∀ m : Mode,
    read m (s ++ t) = ((read (read m s).1 t).1, (read m s).2 ++ (read (read m s).1 t).2) := by
  induction s with
  | nil => simp [read]
  | cons b s ih => simp [read, ih]

theorem read_append_of_eq {m m' : Mode} {s : List UInt8} {tags : List Tag} (h : read m s = (m', tags))
    (t : List UInt8) : read m (s ++ t) = ((read m' t).1, tags ++ (read m' t).2) := by
  rw [read_append, h]

/-- **A text without the quote stays in the value.** -/
theorem read_quoted {quote : UInt8} (tag : Tag) (name : List UInt8) {s : List UInt8} (h : quote ∉ s) :
    ∀ value, read (.quoted quote tag name value) s = (.quoted quote tag name (value ++ s), []) := by
  induction s with
  | nil => simp [read]
  | cons b s ih =>
    simp only [List.mem_cons, not_or] at h
    intro value
    simp [read, step, Ne.symm h.1, ih h.2]

theorem read_data {s : List UInt8} (h : 60 ∉ s) : read .data s = (.data, []) := by
  induction s with
  | nil => rfl
  | cons b s ih =>
    simp only [List.mem_cons, not_or] at h
    simp [read, step, Ne.symm h.1, ih h.2]

/-! ### Values -/

/-- How a character is written that has a meaning in a tag. -/
def reference (b : UInt8) : Option (List UInt8) :=
  if b = 38 then some (ascii "&amp;")
  else if b = 60 then some (ascii "&lt;")
  else if b = 62 then some (ascii "&gt;")
  else if b = 34 then some (ascii "&quot;")
  else if b = 39 then some (ascii "&#39;")
  else none

/-- `decode` reads these references, and leaves any other byte but `&` as it is, in UTF-8 or not. -/
structure Decodes (decode : List UInt8 → List UInt8) : Prop where
  nil : decode [] = []
  plain {b : UInt8} (h : b ≠ 38) (s : List UInt8) : decode (b :: s) = b :: decode s
  reference {b : UInt8} {r : List UInt8} (h : reference b = some r) (s : List UInt8) :
    decode (r ++ s) = b :: decode s

theorem Decodes.flatMap {decode : List UInt8 → List UInt8} (h : Decodes decode) {w : UInt8 → List UInt8}
    (hw : ∀ b, w b = [b] ∧ b ≠ 38 ∨ Html.reference b = some (w b)) (s : List UInt8) :
    decode (s.flatMap w) = s := by
  induction s with
  | nil => exact h.nil
  | cons b s ih =>
    rw [List.flatMap_cons]
    rcases hw b with ⟨hplain, hne⟩ | hreference
    · rw [hplain, List.singleton_append, h.plain hne, ih]
    · rw [h.reference hreference, ih]

theorem Decodes.eq_self {decode : List UInt8 → List UInt8} (h : Decodes decode) {s : List UInt8} (hs : 38 ∉ s) :
    decode s = s := by
  induction s with
  | nil => exact h.nil
  | cons b s ih =>
    simp only [List.mem_cons, not_or] at hs
    rw [h.plain (Ne.symm hs.1), ih hs.2]

/-- A reader of these references; others are left as they stand. -/
def unescape : List UInt8 → List UInt8
  | 38 :: 97 :: 109 :: 112 :: 59 :: s => 38 :: unescape s
  | 38 :: 108 :: 116 :: 59 :: s => 60 :: unescape s
  | 38 :: 103 :: 116 :: 59 :: s => 62 :: unescape s
  | 38 :: 113 :: 117 :: 111 :: 116 :: 59 :: s => 34 :: unescape s
  | 38 :: 35 :: 51 :: 57 :: 59 :: s => 39 :: unescape s
  | b :: s => b :: unescape s
  | [] => []

theorem unescape_plain {b : UInt8} (h : b ≠ 38) (s : List UInt8) : unescape (b :: s) = b :: unescape s := by
  conv_lhs => unfold unescape
  split <;> simp_all

theorem decodes_unescape : Decodes unescape where
  nil := rfl
  plain h s := unescape_plain h s
  reference {b r} h s := by
    unfold reference at h
    split_ifs at h <;> subst_vars <;> obtain rfl := Option.some.inj h <;> rfl

/-! ### Forms -/

/-- The value of an attribute, which is empty where none is written. -/
def Tag.value (decode : List UInt8 → List UInt8) (tag : Tag) (name : String) : Option (List UInt8) :=
  (tag.attrs.find? fun a => a.1 = ascii name).map fun a => decode a.2

/-- One more attribute is read where there was none of its name. -/
theorem Tag.value_attr (decode : List UInt8 → List UInt8) (tag : Tag) (name value : List UInt8) (key : String) :
    (tag.attr name value).value decode key =
      (tag.value decode key).or (if name = ascii key then some (decode value) else none) := by
  unfold Tag.value Tag.attr
  rw [List.find?_append, Option.map_or, List.find?_singleton]
  split_ifs <;> simp_all

/-- What a line of text keeps of a value. -/
def singleLine (s : List UInt8) : List UInt8 := s.filter fun b => b ≠ 10 && b ≠ 13

theorem singleLine_eq_self {s : List UInt8} (h : 10 ∉ s ∧ 13 ∉ s) : singleLine s = s := by
  refine List.filter_eq_self.mpr fun b hb => ?_
  have h10 : b ≠ 10 := fun heq => h.1 (heq ▸ hb)
  have h13 : b ≠ 13 := fun heq => h.2 (heq ▸ hb)
  simp [h10, h13]

/-- What an input sends: a checkbox if it is checked, a line of text always. -/
def control (decode : List UInt8 → List UInt8) (tag : Tag) : Option (List UInt8 × List UInt8) :=
  if tag.close || tag.name ≠ ascii "input" then none
  else
    match tag.value decode "name" with
    | none => none
    | some name =>
      let type := (tag.value decode "type").getD (ascii "text")
      if name = [] then none
      else if type = ascii "checkbox" then
        (tag.value decode "checked").map fun _ => (name, (tag.value decode "value").getD (ascii "on"))
      else if type = ascii "text" || type = ascii "password" then
        some (name, singleLine ((tag.value decode "value").getD []))
      else none

/-- Attributes without references. -/
def Tag.Plain (tag : Tag) : Prop := ∀ a ∈ tag.attrs, 38 ∉ a.2

theorem Tag.Plain.value {decode : List UInt8 → List UInt8} (h : Decodes decode) {tag : Tag} (hplain : tag.Plain)
    (name : String) : tag.value decode name = tag.value id name := by
  unfold Tag.value
  exact Option.map_congr fun a ha => h.eq_self (hplain a (List.mem_of_find?_eq_some ha))

/-- The form with an action begins. -/
def opens (decode : List UInt8 → List UInt8) (action : List UInt8) (tag : Tag) : Bool :=
  !tag.close && tag.name = ascii "form" && tag.value decode "action" = some action

def closes (tag : Tag) : Bool := tag.close && tag.name = ascii "form"

/-- What the form with an action sends. -/
def formData (decode : List UInt8 → List UInt8) (action : List UInt8) (tags : List Tag) :
    List (List UInt8 × List UInt8) :=
  (((tags.dropWhile fun t => !opens decode action t).drop 1).takeWhile fun t => !closes t).filterMap
    (control decode)

theorem Tag.Plain.control {decode : List UInt8 → List UInt8} (h : Decodes decode) {tag : Tag}
    (hplain : tag.Plain) : control decode tag = Html.control id tag := by
  simp only [Html.control, hplain.value h]

theorem Tag.Plain.opens {decode : List UInt8 → List UInt8} (h : Decodes decode) {tag : Tag}
    (hplain : tag.Plain) (action : List UInt8) : opens decode action tag = Html.opens id action tag := by
  simp only [Html.opens, hplain.value h]

theorem formData_append {decode : List UInt8 → List UInt8} {action : List UInt8} {front body : List Tag}
    {first last : Tag} (hfront : ∀ t ∈ front, opens decode action t = false)
    (hfirst : opens decode action first = true) (hbody : ∀ t ∈ body, closes t = false)
    (hlast : closes last = true) (rest : List Tag) :
    formData decode action (front ++ first :: (body ++ last :: rest)) = body.filterMap (control decode) := by
  unfold formData
  rw [List.dropWhile_append_of_pos (by simpa using hfront), List.dropWhile_cons_of_neg (by simp [hfirst]),
    List.drop_one, List.tail_cons, List.takeWhile_append_of_pos (by simpa using hbody),
    List.takeWhile_cons_of_neg (by simp [hlast]), List.append_nil]

end GpsBase.Lib.Html
