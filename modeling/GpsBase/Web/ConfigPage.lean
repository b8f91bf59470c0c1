import GpsBase.Lib.Html
import GpsBase.Lib.Json
import GpsBase.Web.Fields
import GpsBase.Web.ServiceForms

/-! # The page of the services

`config_get_handler` writes what is stored into a form, and `config_post_handler` stores what the form sends.
Whatever bytes a mountpoint has, the form that is found in the page has the fields of the services and no
others: whether each is enabled, its mountpoint as one line, and a blank password. Sending it back as it is
changes nothing, and after a form is saved the page shows that form (`config_page_round_trip`). -/

namespace GpsBase.Web.ConfigPage

open GpsBase.Lib.CText GpsBase.Lib.KeyValue GpsBase.Lib.Html
open GpsBase.Lib.Json (IsUtf8 isUtf8_append_ascii isUtf8_flatMap isUtf8_ascii)
open GpsBase.Settings.Records GpsBase.Settings.Records.Storage GpsBase.Settings.Saves
open GpsBase.Web.Forms GpsBase.Web.Fields GpsBase.Web.ServiceForms

/-! ### The page -/

def htmlEscapeByte (c : UInt8) : List UInt8 :=
  if c = 38 then ascii "&amp;"
  else if c = 60 then ascii "&lt;"
  else if c = 62 then ascii "&gt;"
  else if c = 34 then ascii "&quot;"
  else if c = 39 then ascii "&#39;"
  else [c]

def htmlEscape (value : List UInt8) : List UInt8 := value.flatMap htmlEscapeByte

/-- The words of the page for a service. -/
structure Section where
  service : Service
  label : String
  placeholder : String

/-- The three services, as the page names them. -/
def sections : List Section :=
  [⟨rtk2go, "Enable RTK2go", "RTK2go mountpoint"⟩,
    ⟨onocoy, "Enable Onocoy", "Onocoy source mountpoint"⟩,
    ⟨rtkdata, "Enable RTKdata.online", "RTKdata mountpoint"⟩]

def checked (on : Bool) : List UInt8 := if on then ascii " checked" else []

/-- The fields of a service up to its mountpoint. -/
def upToMountpoint (x : Section) (enabled : Bool) : List UInt8 :=
  ascii "<p><label><input style='width:auto' type='checkbox' name='" ++ ascii x.service.enable ++ ascii "'" ++
    checked enabled ++ ascii "> " ++ ascii x.label ++ ascii "</label></p>" ++
    ascii "<p><input name='" ++ ascii x.service.mountpoint ++ ascii "' placeholder='" ++ ascii x.placeholder ++
    ascii "' value='"

/-- The fields of a service behind its mountpoint. -/
def behindMountpoint (x : Section) : List UInt8 :=
  ascii "'></p>" ++
    ascii "<p><input name='" ++ ascii x.service.password ++ ascii "' type='password' " ++
    ascii "placeholder='Leave blank to keep password'></p>"

def sectionText (s : Storage) (x : Section) : List UInt8 :=
  upToMountpoint x (serviceEnabled s x.service.name) ++
    htmlEscape (s.loadService x.service.name).mountpoint ++ behindMountpoint x

def beforeForm (streamsEnabled : Bool) : List UInt8 :=
  ascii "<div class='sec'><h2>NTRIP Push</h2>" ++
    ascii "<p class='dim'>Push your RTCM corrections to public/private NTRIP " ++
    ascii "casters. Position &amp; antenna live in Position; WiFi &amp; hotspot in " ++
    ascii "System.</p>" ++
    ascii "<p><label><input style='width:auto' type='checkbox' id='ntrip_master'" ++
    checked streamsEnabled ++
    ascii " onchange='toggleMaster(this)'> <b>Enable NTRIP push (master)</b></label></p>" ++
    ascii "<p class='dim' id='ntrip_master_msg' style='min-height:1.2em'></p>" ++
    ascii "</div>" ++
    ascii "<div class='sec'><h2>NTRIP Services</h2>"

def formStart : List UInt8 := ascii "<form method='post' action='/config'>"

def formEnd : List UInt8 := ascii "<button>Save Services</button></form>"

def behindForm : List UInt8 :=
  ascii "</div>" ++
    ascii "<script>" ++
    ascii "async function toggleMaster(cb)\x7b" ++
    ascii "var m=document.getElementById('ntrip_master_msg');" ++
    ascii "cb.disabled=true;m.textContent='Saving" ++ [0xE2, 0x80, 0xA6] ++ ascii "';" ++
    ascii "try\x7bvar r=await fetch('/ntrip/toggle',\x7bmethod:'POST'," ++
    ascii "headers:\x7b'Content-Type':'application/x-www-form-urlencoded'\x7d," ++
    ascii "body:'on='+(cb.checked?'1':'0')\x7d);" ++
    ascii "if(!r.ok)throw 0;" ++
    ascii "m.textContent=cb.checked?'NTRIP push enabled.':'NTRIP push disabled.';\x7d" ++
    ascii "catch(e)\x7bcb.checked=!cb.checked;m.textContent='Save failed.';\x7d" ++
    ascii "cb.disabled=false;\x7d" ++
    ascii "</script>"

/-- The content that `config_get_handler` sends, authorized. -/
def configPage (s : Storage) (streamsEnabled : Bool) : List UInt8 :=
  beforeForm streamsEnabled ++ (formStart ++ (sections.flatMap (sectionText s) ++ (formEnd ++ behindForm)))

/-- What the form of the page sends. -/
def sent (decode : List UInt8 → List UInt8) (page : List UInt8) : List (List UInt8 × List UInt8) :=
  formData decode (ascii "/config") (read .data page).2

/-! ### What the form holds -/

/-- What is entered for a service. -/
structure Entry where
  enabled : Bool
  mountpoint : List UInt8
  password : List UInt8
  deriving DecidableEq

/-- What the form sends where these are entered. -/
def fields (entry : Service → Entry) : List (List UInt8 × List UInt8) :=
  services.flatMap fun service =>
    (if (entry service).enabled then [(ascii service.enable, ascii "on")] else []) ++
      [(ascii service.mountpoint, (entry service).mountpoint), (ascii service.password, (entry service).password)]

/-- What is stored, as a form holds it: lines of text, and no password. -/
def current (s : Storage) (service : Service) : Entry :=
  ⟨serviceEnabled s service.name, singleLine (s.loadService service.name).mountpoint, []⟩

/-! ### The page is read -/

theorem htmlEscapeByte_cases (b : UInt8) :
    htmlEscapeByte b = [b] ∧ b ≠ 38 ∨ Lib.Html.reference b = some (htmlEscapeByte b) := by
  unfold htmlEscapeByte Lib.Html.reference
  split_ifs with h38 <;> simp [h38]

theorem quote_notMem_htmlEscape (s : List UInt8) : 39 ∉ htmlEscape s := by
  simp only [htmlEscape, List.mem_flatMap, not_exists, not_and]
  intro b _ hmem
  unfold htmlEscapeByte at hmem
  split_ifs at hmem with h1 h2 h3 h4 h5
  · exact absurd hmem (by decide)
  · exact absurd hmem (by decide)
  · exact absurd hmem (by decide)
  · exact absurd hmem (by decide)
  · exact absurd hmem (by decide)
  · exact h5 (List.mem_singleton.mp hmem).symm

/-- The tag of the mountpoint, before its value. -/
def mountpointTag (x : Section) : Tag :=
  ⟨false, ascii "input", [(ascii "name", ascii x.service.mountpoint), (ascii "placeholder", ascii x.placeholder)]⟩

/-- The tags of a service in front of its mountpoint. -/
def tagsBefore (x : Section) (enabled : Bool) : List Tag :=
  [⟨false, ascii "p", []⟩, ⟨false, ascii "label", []⟩,
    ⟨false, ascii "input", [(ascii "style", ascii "width:auto"), (ascii "type", ascii "checkbox"),
      (ascii "name", ascii x.service.enable)] ++ if enabled then [(ascii "checked", [])] else []⟩,
    ⟨true, ascii "label", []⟩, ⟨true, ascii "p", []⟩, ⟨false, ascii "p", []⟩]

/-- The tags of a service behind its mountpoint. -/
def tagsBehind (x : Section) : List Tag :=
  [⟨true, ascii "p", []⟩, ⟨false, ascii "p", []⟩,
    ⟨false, ascii "input", [(ascii "name", ascii x.service.password), (ascii "type", ascii "password"),
      (ascii "placeholder", ascii "Leave blank to keep password")]⟩,
    ⟨true, ascii "p", []⟩]

def sectionTags (s : Storage) (x : Section) : List Tag :=
  tagsBefore x (serviceEnabled s x.service.name) ++
    (mountpointTag x).attr (ascii "value") (htmlEscape (s.loadService x.service.name).mountpoint) :: tagsBehind x

/-- The words of a page are ASCII, and what has a meaning in a tag is not in them. -/
structure Words (x : Section) : Prop where
  names : ∀ name ∈ [x.service.enable, x.service.mountpoint, x.service.password, x.placeholder], 39 ∉ ascii name
  label : 60 ∉ ascii x.label
  ascii : ∀ text ∈ [x.service.enable, x.service.mountpoint, x.service.password, x.placeholder, x.label],
    ((ascii text).all fun b => b < 128) = true

theorem words_sections {x : Section} (hx : x ∈ sections) : Words x := by
  simp only [sections, List.mem_cons, List.not_mem_nil, or_false] at hx
  rcases hx with rfl | rfl | rfl <;> exact ⟨by decide, by decide, by decide⟩

theorem read_upToMountpoint {x : Section} (hx : Words x) (enabled : Bool) :
    read .data (upToMountpoint x enabled) =
      (.quoted 39 (mountpointTag x) (ascii "value") [], tagsBefore x enabled) := by
  have hstart : read .data (ascii "<p><label><input style='width:auto' type='checkbox' name='") =
      (.quoted 39 ⟨false, ascii "input", [(ascii "style", ascii "width:auto"), (ascii "type", ascii "checkbox")]⟩
        (ascii "name") [], [⟨false, ascii "p", []⟩, ⟨false, ascii "label", []⟩]) := by
    repeat rw [ascii_ofList]
    rfl
  have hchecked : ∀ (tag : Tag) (value : List UInt8),
      read (.quoted 39 tag (ascii "name") value) (ascii "'" ++ (checked enabled ++ ascii "> ")) =
        (.data, [if enabled then (tag.attr (ascii "name") value).attr (ascii "checked") []
          else tag.attr (ascii "name") value]) := by
    intro tag value
    unfold checked
    repeat rw [ascii_ofList]
    cases enabled <;> rfl
  have hend : read .data (ascii "</label></p>") = (.data, [⟨true, ascii "label", []⟩, ⟨true, ascii "p", []⟩]) := by
    repeat rw [ascii_ofList]
    rfl
  have hmountpoint : read .data (ascii "<p><input name='") =
      (.quoted 39 ⟨false, ascii "input", []⟩ (ascii "name") [], [⟨false, ascii "p", []⟩]) := by
    repeat rw [ascii_ofList]
    rfl
  have hplaceholder : ∀ (tag : Tag) (name value : List UInt8),
      read (.quoted 39 tag name value) (ascii "' placeholder='") =
        (.quoted 39 (tag.attr name value) (ascii "placeholder") [], []) := by
    intro tag name value
    repeat rw [ascii_ofList]
    rfl
  have hvalue : ∀ (tag : Tag) (name value : List UInt8), read (.quoted 39 tag name value) (ascii "' value='") =
      (.quoted 39 (tag.attr name value) (ascii "value") [], []) := by
    intro tag name value
    repeat rw [ascii_ofList]
    rfl
  have hsplit : upToMountpoint x enabled =
      ascii "<p><label><input style='width:auto' type='checkbox' name='" ++ (ascii x.service.enable ++
        ((ascii "'" ++ (checked enabled ++ ascii "> ")) ++ (ascii x.label ++ (ascii "</label></p>" ++
          (ascii "<p><input name='" ++ (ascii x.service.mountpoint ++ (ascii "' placeholder='" ++
            (ascii x.placeholder ++ ascii "' value='")))))))) := by
    simp only [upToMountpoint, List.append_assoc]
  rw [hsplit, read_append_of_eq hstart, read_append_of_eq (read_quoted _ _ (hx.names _ (by simp)) []),
    read_append_of_eq (hchecked _ _), read_append_of_eq (read_data hx.label), read_append_of_eq hend,
    read_append_of_eq hmountpoint, read_append_of_eq (read_quoted _ _ (hx.names _ (by simp)) []),
    read_append_of_eq (hplaceholder _ _ _), read_append_of_eq (read_quoted _ _ (hx.names _ (by simp)) []), hvalue]
  cases enabled <;> rfl

theorem read_behindMountpoint {x : Section} (hx : Words x) (tag : Tag) (name value : List UInt8) :
    read (.quoted 39 tag name value) (behindMountpoint x) = (.data, tag.attr name value :: tagsBehind x) := by
  have hend : ∀ (tag : Tag) (name value : List UInt8), read (.quoted 39 tag name value) (ascii "'></p>") =
      (.data, [tag.attr name value, ⟨true, ascii "p", []⟩]) := by
    intro tag name value
    repeat rw [ascii_ofList]
    rfl
  have hpassword : read .data (ascii "<p><input name='") =
      (.quoted 39 ⟨false, ascii "input", []⟩ (ascii "name") [], [⟨false, ascii "p", []⟩]) := by
    repeat rw [ascii_ofList]
    rfl
  have htype : ∀ (tag : Tag) (name value : List UInt8),
      read (.quoted 39 tag name value) (ascii "' type='password' ") =
        (.beforeAttribute ((tag.attr name value).attr (ascii "type") (ascii "password")), []) := by
    intro tag name value
    repeat rw [ascii_ofList]
    rfl
  have hplaceholder : ∀ tag : Tag,
      read (.beforeAttribute tag) (ascii "placeholder='") = (.quoted 39 tag (ascii "placeholder") [], []) := by
    intro tag
    repeat rw [ascii_ofList]
    rfl
  have hkeep : ascii "placeholder='Leave blank to keep password'></p>" =
      ascii "placeholder='" ++ (ascii "Leave blank to keep password" ++ ascii "'></p>") := by
    repeat rw [ascii_ofList]
    rfl
  have hsplit : behindMountpoint x = ascii "'></p>" ++ (ascii "<p><input name='" ++ (ascii x.service.password ++
      (ascii "' type='password' " ++ (ascii "placeholder='" ++
        (ascii "Leave blank to keep password" ++ ascii "'></p>"))))) := by
    rw [← hkeep]
    simp only [behindMountpoint, List.append_assoc]
  rw [hsplit, read_append_of_eq (hend _ _ _), read_append_of_eq hpassword,
    read_append_of_eq (read_quoted _ _ (hx.names _ (by simp)) []), read_append_of_eq (htype _ _ _),
    read_append_of_eq (hplaceholder _), read_append_of_eq (read_quoted _ _ (by decide) []), hend]
  rfl

/-- **The fields of a service are read**, whatever its mountpoint is. -/
theorem read_sectionText {x : Section} (hx : Words x) (s : Storage) :
    read .data (sectionText s x) = (.data, sectionTags s x) := by
  have hvalue := read_quoted (mountpointTag x) (ascii "value")
    (quote_notMem_htmlEscape (s.loadService x.service.name).mountpoint) []
  unfold sectionText sectionTags
  rw [List.append_assoc, read_append_of_eq (read_upToMountpoint hx _), read_append_of_eq hvalue,
    List.nil_append, read_behindMountpoint hx, List.nil_append]

theorem read_sections (s : Storage) : ∀ {xs : List Section}, (∀ x ∈ xs, Words x) →
    read .data (xs.flatMap (sectionText s)) = (.data, xs.flatMap (sectionTags s))
  | [], _ => rfl
  | x :: xs, hxs => by
    have ih := read_sections s fun y hy => hxs y (List.mem_cons_of_mem _ hy)
    rw [List.flatMap_cons, List.flatMap_cons, read_append_of_eq (read_sectionText (hxs x List.mem_cons_self) s), ih]

/-! ### What the form sends -/

theorem plain_of_all {tags : List Tag} (h : (tags.all fun t => t.attrs.all fun a => 38 ∉ a.2) = true) :
    ∀ t ∈ tags, t.Plain := by
  simpa [Tag.Plain] using h

theorem plain_tagsBefore {x : Section} (hx : x ∈ sections) (enabled : Bool) :
    ∀ t ∈ tagsBefore x enabled, t.Plain := by
  refine plain_of_all ?_
  simp only [sections, List.mem_cons, List.not_mem_nil, or_false] at hx
  rcases hx with rfl | rfl | rfl <;> cases enabled <;> rfl

theorem plain_tagsBehind {x : Section} (hx : x ∈ sections) : ∀ t ∈ tagsBehind x, t.Plain := by
  refine plain_of_all ?_
  simp only [sections, List.mem_cons, List.not_mem_nil, or_false] at hx
  rcases hx with rfl | rfl | rfl <;> rfl

theorem plain_mountpointTag {x : Section} (hx : x ∈ sections) : (mountpointTag x).Plain := by
  have hall : ∀ t ∈ [mountpointTag x], t.Plain := by
    refine plain_of_all ?_
    simp only [sections, List.mem_cons, List.not_mem_nil, or_false] at hx
    rcases hx with rfl | rfl | rfl <;> rfl
  exact hall _ List.mem_cons_self

def formTag : Tag := ⟨false, ascii "form", [(ascii "method", ascii "post"), (ascii "action", ascii "/config")]⟩

theorem read_formStart : read .data formStart = (.data, [formTag]) := by
  rw [formStart, ascii_ofList]
  rfl

theorem read_formEnd : read .data formEnd =
    (.data, [⟨false, ascii "button", []⟩, ⟨true, ascii "button", []⟩, ⟨true, ascii "form", []⟩]) := by
  rw [formEnd, ascii_ofList]
  rfl

theorem read_beforeForm (streamsEnabled : Bool) :
    (read .data (beforeForm streamsEnabled)).1 = .data ∧
      ∀ t ∈ (read .data (beforeForm streamsEnabled)).2, t.name ≠ ascii "form" := by
  have hread : (read .data (beforeForm streamsEnabled)).1 = .data ∧
      ((read .data (beforeForm streamsEnabled)).2.all fun t => t.name ≠ ascii "form") = true := by
    unfold beforeForm
    repeat rw [ascii_ofList]
    cases streamsEnabled <;> decide +kernel
  exact ⟨hread.1, by simpa using hread.2⟩

theorem closes_sectionTags (x : Section) (s : Storage) :
    ∀ t ∈ sectionTags s x, closes t = false := by
  have hbefore : ∀ enabled, ((tagsBefore x enabled).all fun t => !closes t) = true := by
    intro enabled
    cases enabled <;> rfl
  have hbehind : ((tagsBehind x).all fun t => !closes t) = true := rfl
  simp only [List.all_eq_true, Bool.not_eq_true'] at hbefore hbehind
  intro t ht
  rcases List.mem_append.mp ht with ht | ht
  · exact hbefore _ t ht
  · rcases List.mem_cons.mp ht with rfl | ht
    · rfl
    · exact hbehind t ht

section Reader

variable {decode : List UInt8 → List UInt8} (hdecode : Decodes decode)
include hdecode

theorem control_tagsBefore {x : Section} (hx : x ∈ sections) (enabled : Bool) :
    (tagsBefore x enabled).filterMap (Lib.Html.control decode) =
      if enabled then [(ascii x.service.enable, ascii "on")] else [] := by
  rw [List.filterMap_congr fun tag htag => (plain_tagsBefore hx enabled tag htag).control hdecode]
  simp only [sections, List.mem_cons, List.not_mem_nil, or_false] at hx
  rcases hx with rfl | rfl | rfl <;> cases enabled <;> rfl

theorem control_tagsBehind {x : Section} (hx : x ∈ sections) :
    (tagsBehind x).filterMap (Lib.Html.control decode) = [(ascii x.service.password, [])] := by
  rw [List.filterMap_congr fun tag htag => (plain_tagsBehind hx tag htag).control hdecode]
  simp only [sections, List.mem_cons, List.not_mem_nil, or_false] at hx
  rcases hx with rfl | rfl | rfl <;> rfl

theorem control_mountpoint {x : Section} (hx : x ∈ sections) (mountpoint : List UInt8) :
    Lib.Html.control decode ((mountpointTag x).attr (ascii "value") (htmlEscape mountpoint)) =
      some (ascii x.service.mountpoint, singleLine mountpoint) := by
  set tag := (mountpointTag x).attr (ascii "value") (htmlEscape mountpoint) with htag
  have hconstant : (mountpointTag x).value id "name" = some (ascii x.service.mountpoint) ∧
      (mountpointTag x).value id "type" = none ∧ (mountpointTag x).value id "value" = none :=
    ⟨rfl, rfl, rfl⟩
  have hne : ascii x.service.mountpoint ≠ [] := by
    simp only [sections, List.mem_cons, List.not_mem_nil, or_false] at hx
    rcases hx with rfl | rfl | rfl <;> decide
  obtain ⟨hname, htype, hvalue⟩ := hconstant
  have hplain := plain_mountpointTag hx
  have hname' : tag.value decode "name" = some (ascii x.service.mountpoint) := by
    rw [htag, Tag.value_attr, hplain.value hdecode, hname, Option.some_or]
  have htype' : tag.value decode "type" = none := by
    rw [htag, Tag.value_attr, hplain.value hdecode, htype, Option.none_or, if_neg (by decide)]
  have hvalue' : tag.value decode "value" = some mountpoint := by
    rw [htag, Tag.value_attr, hplain.value hdecode, hvalue, Option.none_or, if_pos rfl, htmlEscape,
      hdecode.flatMap htmlEscapeByte_cases]
  unfold Lib.Html.control
  rw [hname', htype', hvalue', if_neg (by simp [htag, mountpointTag, Tag.attr])]
  simp [hne, show ascii "text" ≠ ascii "checkbox" by decide]

theorem control_sectionTags {x : Section} (hx : x ∈ sections) (s : Storage) :
    (sectionTags s x).filterMap (Lib.Html.control decode) =
      (if serviceEnabled s x.service.name then [(ascii x.service.enable, ascii "on")] else []) ++
        [(ascii x.service.mountpoint, singleLine (s.loadService x.service.name).mountpoint),
          (ascii x.service.password, [])] := by
  unfold sectionTags
  rw [List.filterMap_append, control_tagsBefore hdecode hx, List.filterMap_cons_some
    (control_mountpoint hdecode hx _), control_tagsBehind hdecode hx]

theorem control_sections (s : Storage) : ∀ {xs : List Section}, (∀ x ∈ xs, x ∈ sections) →
    (xs.flatMap (sectionTags s)).filterMap (Lib.Html.control decode) =
      (xs.map Section.service).flatMap fun service =>
        (if serviceEnabled s service.name then [(ascii service.enable, ascii "on")] else []) ++
          [(ascii service.mountpoint, singleLine (s.loadService service.name).mountpoint),
            (ascii service.password, [])]
  | [], _ => rfl
  | x :: xs, hxs => by
    rw [List.flatMap_cons, List.filterMap_append, control_sectionTags hdecode (hxs x List.mem_cons_self),
      control_sections s fun y hy => hxs y (List.mem_cons_of_mem _ hy)]
    rfl

/-- **The form sends what is stored**, and nothing else, whatever that is. -/
theorem sent_configPage (s : Storage) (streamsEnabled : Bool) :
    sent decode (configPage s streamsEnabled) = fields (current s) := by
  obtain ⟨hdata, hnames⟩ := read_beforeForm streamsEnabled
  have hbuttons : [(⟨false, ascii "button", []⟩ : Tag), ⟨true, ascii "button", []⟩].filterMap
      (Lib.Html.control decode) = [] := rfl
  have htags : (read .data (configPage s streamsEnabled)).2 =
      (read .data (beforeForm streamsEnabled)).2 ++ formTag ::
        ((sections.flatMap (sectionTags s) ++ [⟨false, ascii "button", []⟩, ⟨true, ascii "button", []⟩]) ++
          ⟨true, ascii "form", []⟩ :: (read .data behindForm).2) := by
    unfold configPage
    rw [read_append, hdata, read_append_of_eq read_formStart, read_append_of_eq (read_sections s fun _ => words_sections),
      read_append_of_eq read_formEnd]
    simp
  unfold sent
  rw [htags, formData_append]
  · rw [List.filterMap_append, control_sections hdecode s fun _ h => h, hbuttons, List.append_nil]
    rfl
  · intro t ht
    simp [opens, hnames t ht]
  · have hplain : ∀ t ∈ [formTag], t.Plain := plain_of_all (by decide +kernel)
    rw [(hplain _ List.mem_cons_self).opens hdecode]
    decide +kernel
  · simp only [List.mem_append, List.mem_flatMap]
    rintro t (⟨x, -, ht⟩ | ht)
    · exact closes_sectionTags x s t ht
    · have hnone : ([(⟨false, ascii "button", []⟩ : Tag), ⟨true, ascii "button", []⟩].all fun t => !closes t) = true :=
        rfl
      simpa using List.all_eq_true.mp hnone t ht
  · rfl

end Reader

/-! ### The page is in UTF-8 -/

theorem lt_of_all {s : List UInt8} (h : (s.all fun b => b < 128) = true) : ∀ b ∈ s, b < 128 := by
  simpa using h

theorem lt_of_literal {l : List Char} (h : (l.all fun c => c.toNat < 128) = true) :
    ∀ b ∈ ascii (String.ofList l), b < 128 := by
  rw [ascii_ofList]
  intro b hb
  obtain ⟨c, hc, hb⟩ := List.mem_flatMap.mp hb
  have hlt : c.toNat < 128 := by simpa using List.all_eq_true.mp h c hc
  have hval : (UInt8.ofNat c.toNat).toNat = c.toNat := UInt8.toNat_ofNat_of_lt' (by
    show c.toNat < 256
    omega)
  have hone : String.utf8EncodeChar c = [UInt8.ofNat c.toNat] := if_pos (Nat.le_of_lt_succ hlt)
  rw [hone, List.mem_singleton] at hb
  rw [hb]
  show (UInt8.ofNat c.toNat).toNat < 128
  rwa [hval]

theorem isUtf8_htmlEscape (s : List UInt8) : IsUtf8 (htmlEscape s) ↔ IsUtf8 s := by
  refine isUtf8_flatMap (fun b => ?_) s []
  unfold htmlEscapeByte
  split_ifs with h1 h2 h3 h4 h5
  · exact Or.inr ⟨by rw [h1]; decide, by decide, lt_of_literal rfl⟩
  · exact Or.inr ⟨by rw [h2]; decide, by decide, lt_of_literal rfl⟩
  · exact Or.inr ⟨by rw [h3]; decide, by decide, lt_of_literal rfl⟩
  · exact Or.inr ⟨by rw [h4]; decide, by decide, lt_of_literal rfl⟩
  · exact Or.inr ⟨by rw [h5]; decide, by decide, lt_of_literal rfl⟩
  · exact Or.inl rfl

theorem lt_upToMountpoint {x : Section} (hx : Words x) (enabled : Bool) : ∀ b ∈ upToMountpoint x enabled, b < 128 := by
  have hwords := fun text htext => lt_of_all (hx.ascii text htext)
  unfold upToMountpoint checked
  cases enabled <;> simp only [List.forall_mem_append]
  all_goals
    repeat' apply And.intro
    all_goals
      first
      | (refine hwords _ ?_; simp; done)
      | exact lt_of_literal rfl
      | simp

theorem lt_behindMountpoint {x : Section} (hx : Words x) : ∀ b ∈ behindMountpoint x, b < 128 := by
  unfold behindMountpoint
  simp only [List.forall_mem_append]
  repeat' apply And.intro
  all_goals
    first
    | (refine lt_of_all (hx.ascii _ ?_); simp; done)
    | exact lt_of_literal rfl

theorem upToMountpoint_ne_nil (x : Section) (enabled : Bool) : upToMountpoint x enabled ≠ [] := by
  have h : ascii "<p><input name='" ≠ [] := by decide
  simp [upToMountpoint, h]

theorem behindMountpoint_ne_nil (x : Section) : behindMountpoint x ≠ [] := by
  have h : ascii "'></p>" ≠ [] := by decide
  simp [behindMountpoint, h]

theorem isUtf8_sectionText {x : Section} (hx : Words x) (s : Storage) (rest : List UInt8) :
    IsUtf8 (sectionText s x ++ rest) ↔ IsUtf8 (s.loadService x.service.name).mountpoint ∧ IsUtf8 rest := by
  have hfront := isUtf8_append_ascii (upToMountpoint_ne_nil x _)
    (lt_upToMountpoint hx (serviceEnabled s x.service.name)) (x := [])
    (y := htmlEscape (s.loadService x.service.name).mountpoint ++ (behindMountpoint x ++ rest))
  unfold sectionText
  rw [List.append_assoc, List.append_assoc]
  rw [List.nil_append] at hfront
  rw [hfront, isUtf8_append_ascii (behindMountpoint_ne_nil x) (lt_behindMountpoint hx), isUtf8_htmlEscape]
  exact and_iff_right Lib.Json.isUtf8_nil

theorem isUtf8_sections (s : Storage) (rest : List UInt8) : ∀ {xs : List Section}, (∀ x ∈ xs, Words x) →
    (IsUtf8 (xs.flatMap (sectionText s) ++ rest) ↔
      (∀ x ∈ xs, IsUtf8 (s.loadService x.service.name).mountpoint) ∧ IsUtf8 rest)
  | [], _ => by simp
  | x :: xs, hxs => by
    have ih := isUtf8_sections s rest fun y hy => hxs y (List.mem_cons_of_mem _ hy)
    rw [List.flatMap_cons, List.append_assoc, isUtf8_sectionText (hxs x List.mem_cons_self), ih,
      List.forall_mem_cons, and_assoc]

theorem isUtf8_formEnd : IsUtf8 (formEnd ++ behindForm) := by
  have hdots : IsUtf8 [0xE2, 0x80, 0xA6] := ⟨"…", by decide⟩
  unfold formEnd behindForm
  repeat' apply Lib.Json.IsUtf8.append
  all_goals
    first
    | exact hdots
    | exact isUtf8_ascii (lt_of_literal rfl)

/-- **The page is in UTF-8** exactly if the mountpoints are. -/
theorem isUtf8_configPage (s : Storage) (streamsEnabled : Bool) :
    IsUtf8 (configPage s streamsEnabled) ↔
      ∀ service ∈ services, IsUtf8 (s.loadService service.name).mountpoint := by
  have hbefore : ∀ b ∈ beforeForm streamsEnabled ++ formStart, b < 128 := by
    unfold beforeForm formStart checked
    cases streamsEnabled <;> simp only [List.forall_mem_append]
    all_goals
      repeat' apply And.intro
      all_goals first | exact lt_of_literal rfl | simp
  have hblock := isUtf8_append_ascii (List.append_ne_nil_of_right_ne_nil _ (by decide)) hbefore (x := [])
    (y := sections.flatMap (sectionText s) ++ (formEnd ++ behindForm))
  rw [List.nil_append, List.append_assoc] at hblock
  unfold configPage
  rw [hblock, isUtf8_sections s _ fun _ => words_sections]
  have hmap : services = sections.map Section.service := rfl
  rw [hmap, List.forall_mem_map]
  exact ⟨fun h => h.2.1, fun h => ⟨Lib.Json.isUtf8_nil, h, isUtf8_formEnd⟩⟩

/-! ### Forms that come back -/

theorem fieldValue_form {A : Alphabet} {pairs : List (List UInt8 × List UInt8)} {body key : List UInt8}
    (h : EncodesForm A pairs body) (hkey : ∀ b ∈ key, A.plain b = true) :
    fieldValue body key = ((pairs.find? fun p => p.1 = key).map Prod.snd).getD [] := by
  obtain ⟨fields, hfields, rfl⟩ := h
  rw [← fieldScan_form hkey hfields (Nat.lt_succ_self _)]
  unfold fieldValue
  rcases fieldScan (key ++ [61]) _ _ with _ | text <;> rfl

/-- The names of the fields of a service stand for themselves in a form. -/
theorem plain_names {service : Service} (hservice : service ∈ services) {name : String}
    (hname : name ∈ [service.enable, service.mountpoint, service.password]) :
    ∀ b ∈ ascii name, unescaped.plain b = true := by
  have hall : (services.all fun service => [service.enable, service.mountpoint, service.password].all fun name =>
      (ascii name).all unescaped.plain) = true := by decide +kernel
  exact List.all_eq_true.mp (List.all_eq_true.mp (List.all_eq_true.mp hall service hservice) name hname)

theorem formValue_fields {entry : Service → Entry} {body : List UInt8}
    (h : EncodesForm unescaped (fields entry) body) {service : Service} (hservice : service ∈ services) :
    formValue body service.enable = (if (entry service).enabled then ascii "on" else []) ∧
      formValue body service.mountpoint = (entry service).mountpoint ∧
      formValue body service.password = (entry service).password := by
  have hkey := fun name hname => fieldValue_form h (@plain_names service hservice name hname)
  simp only [formValue, hkey service.enable (by simp), hkey service.mountpoint (by simp),
    hkey service.password (by simp)]
  simp only [services, List.mem_cons, List.not_mem_nil, or_false] at hservice
  simp only [fields, services, List.flatMap_cons, List.flatMap_nil]
  rcases hservice with rfl | rfl | rfl
  all_goals
    rcases (entry rtk2go).enabled <;> rcases (entry onocoy).enabled <;> rcases (entry rtkdata).enabled <;>
      exact ⟨rfl, rfl, rfl⟩

/-! ### What is stored -/

def setting (s : Storage) (service : Service) : Bool × ServiceCredentials :=
  (serviceEnabled s service.name, s.loadService service.name)

/-- All that was set has been committed. -/
def Settled (s : Storage) : Prop := s.isOpen = true ∧ s.nvs.pending = [] ∧ s.nvs.committed = s.nvs.visible

/-- Nothing has changed for the services, and nothing is found to have changed after a loss of power. -/
def Unchanged (s t : Storage) : Prop :=
  (∀ service ∈ services, setting t service = setting s service) ∧
    (Settled s → ∀ store, Survives t.nvs.committed t.nvs.pending store →
      ∀ service ∈ services, setting (found store) service = setting s service)

/-- What is set when the form of `s` comes back as it is. -/
def sameKeys (s : Storage) (service : Service) : List (String × Value) :=
  [(serviceKey service.name "_mp", .str (cStr (s.loadService service.name).mountpoint)),
    (serviceKey service.name "_pw", .str (cStr (s.loadService service.name).password)),
    (serviceKey service.name "_en", .u8 (if serviceEnabled s service.name then 1 else 0))]

/-- A store with what is set when the form comes back, and else with what it had. -/
def Resaved (s : Storage) (store : Store String Value) : Prop :=
  ∀ key, store key = s.nvs.visible key ∨
    ∃ value, (key, value) ∈ services.flatMap (sameKeys s) ∧ store key = some value

structure Keeps (s t : Storage) : Prop where
  isOpen : t.isOpen = s.isOpen
  visible : Resaved s t.nvs.visible
  committed : Settled s → Resaved s t.nvs.committed
  pending : Settled s → ∀ kv ∈ t.nvs.pending, kv ∈ services.flatMap (sameKeys s)

theorem resaved_put {s : Storage} {store : Store String Value} (h : Resaved s store) {key : String} {value : Value}
    (hmem : (key, value) ∈ services.flatMap (sameKeys s)) : Resaved s (put store key value) := by
  intro other
  unfold put
  by_cases heq : other = key
  · subst heq
    exact Or.inr ⟨value, hmem, by simp⟩
  · rw [Function.update_of_ne heq]
    exact h other

theorem Keeps.refl (s : Storage) : Keeps s s where
  isOpen := rfl
  visible _ := Or.inl rfl
  committed h key := by simp [h.2.2]
  pending h := by simp [h.2.1]

theorem Keeps.set {s t : Storage} (h : Keeps s t) {key : String} {value : Value}
    (hmem : (key, value) ∈ services.flatMap (sameKeys s)) : Keeps s (t.set key value).1 := by
  have hpending : Settled s → ∀ kv ∈ t.nvs.pending ++ [(key, value)], kv ∈ services.flatMap (sameKeys s) := by
    intro hsettled kv hkv
    rcases List.mem_append.mp hkv with hkv | hkv
    · exact h.pending hsettled kv hkv
    · rwa [List.mem_singleton.mp hkv]
  unfold Storage.set
  split_ifs
  · exact h
  · unfold Nvs.set
    rcases t.nvs.answers 0 with e | _
    · dsimp only
      split_ifs
      · exact ⟨h.isOpen, resaved_put h.visible hmem, h.committed, hpending⟩
      · exact ⟨h.isOpen, h.visible, h.committed, h.pending⟩
    · exact ⟨h.isOpen, h.visible, h.committed, hpending⟩

theorem Keeps.commit {s t : Storage} (h : Keeps s t) : Keeps s t.commit.1 := by
  unfold Storage.commit
  split_ifs
  · exact h
  · unfold Nvs.commit
    rcases t.nvs.answers 0 with e | _
    · dsimp only
      split_ifs
      · exact ⟨h.isOpen, h.visible, fun _ => h.visible, by simp⟩
      · exact ⟨h.isOpen, h.visible, h.committed, h.pending⟩
    · exact ⟨h.isOpen, h.visible, h.committed, h.pending⟩

theorem Keeps.returnOnError {s : Storage} {r : Storage × Option EspErr} (h : Keeps s r.1)
    {next : Storage → Storage × Option EspErr} (hnext : ∀ t, Keeps s t → Keeps s (next t).1) :
    Keeps s (Storage.returnOnError r next).1 := by
  unfold Storage.returnOnError
  split_ifs
  · exact hnext _ h
  · exact h

theorem Keeps.saveKeys {s : Storage} : ∀ {kvs : List (String × Value)} {t : Storage}, Keeps s t →
    (∀ kv ∈ kvs, kv ∈ services.flatMap (sameKeys s)) → Keeps s (saveKeys t kvs).1
  | [], _, h, _ => h.commit
  | kv :: _, _, h, hkvs =>
    (h.set (hkvs kv List.mem_cons_self)).returnOnError fun _ ht =>
      ht.saveKeys fun kv' hkv' => hkvs kv' (List.mem_cons_of_mem _ hkv')

theorem nodup_sameKeys (s : Storage) : ((services.flatMap (sameKeys s)).map Prod.fst).Nodup := by
  have hkeys : (services.flatMap (sameKeys s)).map Prod.fst = services.flatMap keys := rfl
  rw [hkeys]
  decide +kernel

theorem Resaved.value {s : Storage} {store : Store String Value} (h : Resaved s store) {service : Service}
    (hservice : service ∈ services) {key : String} {value : Value} (hmem : (key, value) ∈ sameKeys s service) :
    store key = s.nvs.visible key ∨ store key = some value := by
  refine (h key).imp_right fun ⟨value', hmem', hvalue⟩ => ?_
  have hsame := List.inj_on_of_nodup_map (nodup_sameKeys s) hmem' (List.mem_flatMap.mpr ⟨service, hservice, hmem⟩) rfl
  rw [hvalue, (Prod.mk.inj hsame).2]

theorem cStr_getString (s : Storage) (key : String) : cStr (s.getString key) = s.getString key := by
  unfold getString
  split_ifs
  · rfl
  · split
    · exact cStr_cStr _
    · rfl

theorem getString_of_value {s t : Storage} (hopen : t.isOpen = s.isOpen) {key : String}
    (h : t.nvs.visible key = s.nvs.visible key ∨ t.nvs.visible key = some (.str (cStr (s.getString key)))) :
    t.getString key = s.getString key := by
  have hstr := cStr_getString s key
  rcases h with h | h
  · unfold getString
    rw [hopen, h]
  · rw [hstr] at h
    rcases hs : s.isOpen
    · simp [getString, hopen, hs]
    · conv_lhs => unfold getString
      simp [hopen, hs, h, hstr]

theorem getBool_of_value {s t : Storage} (hopen : t.isOpen = s.isOpen) {key : String}
    (h : t.nvs.visible key = s.nvs.visible key ∨
      t.nvs.visible key = some (.u8 (if s.getBool key true then 1 else 0))) :
    t.getBool key true = s.getBool key true := by
  rcases h with h | h
  · unfold getBool
    rw [hopen, h]
  · rcases hs : s.isOpen
    · simp [getBool, hopen, hs]
    · have hread : ∀ b : Bool, t.nvs.visible key = some (.u8 (if b then 1 else 0)) → t.getBool key true = b := by
        intro b hb
        unfold getBool
        rw [hopen, hs, hb]
        cases b <;> rfl
      exact hread _ h

theorem Resaved.setting {s t : Storage} (h : Resaved s t.nvs.visible) (hopen : t.isOpen = s.isOpen)
    {service : Service} (hservice : service ∈ services) : setting t service = setting s service := by
  have hmountpoint := getString_of_value hopen (h.value hservice List.mem_cons_self)
  have hpassword := getString_of_value hopen (h.value hservice (List.mem_cons_of_mem _ List.mem_cons_self))
  have henabled := getBool_of_value hopen
    (h.value hservice (List.mem_cons_of_mem _ (List.mem_cons_of_mem _ List.mem_cons_self)))
  unfold ConfigPage.setting serviceEnabled loadService
  rw [hmountpoint, hpassword, henabled]

theorem Keeps.unchanged {s t : Storage} (h : Keeps s t) : Unchanged s t := by
  refine ⟨fun service hservice => h.visible.setting h.isOpen hservice, fun hsettled store hstore service hservice => ?_⟩
  have hresaved : Resaved s store := by
    intro key
    rcases hstore key with hkey | ⟨value, hmem, hvalue⟩
    · rw [hkey]
      exact h.committed hsettled key
    · exact Or.inr ⟨value, h.pending hsettled _ hmem, hvalue⟩
  exact Resaved.setting (t := found store) hresaved hsettled.1.symm hservice

/-- The mountpoints are lines of text. -/
def Lines (s : Storage) : Prop :=
  ∀ service ∈ services, 10 ∉ (s.loadService service.name).mountpoint ∧ 13 ∉ (s.loadService service.name).mountpoint

theorem Keeps.saveForm {s t : Storage} (h : Keeps s t) (hlines : Lines s) {body : List UInt8}
    (hbody : EncodesForm unescaped (fields (current s)) body) {service : Service} (hservice : service ∈ services) :
    Keeps s (saveForm body service t).1 := by
  obtain ⟨henable, hmountpoint, hpassword⟩ := formValue_fields hbody hservice
  have hsetting := h.visible.setting h.isOpen hservice
  have hload : t.loadService service.name = s.loadService service.name := (Prod.mk.inj hsetting).2
  have hcredentials : credentials body service t = s.loadService service.name := by
    unfold credentials
    rw [hmountpoint, hpassword, hload]
    simp [current, singleLine_eq_self (hlines service hservice)]
  have henabled : (!(formValue body service.enable).isEmpty) = serviceEnabled s service.name := by
    rw [henable]
    unfold current
    rcases serviceEnabled s service.name <;> rfl
  have hmem : ∀ kv ∈ sameKeys s service, kv ∈ services.flatMap (sameKeys s) := fun kv hkv =>
    List.mem_flatMap.mpr ⟨service, hservice, hkv⟩
  unfold ServiceForms.saveForm
  rw [hcredentials, henabled, saveService_eq]
  refine (h.saveKeys fun kv hkv => hmem kv ?_).returnOnError fun u hu => ?_
  · exact List.mem_append_left [_] hkv
  · have hset : setServiceEnabled u service.name (serviceEnabled s service.name) = Settings.Saves.saveKeys u
        [(serviceKey service.name "_en", .u8 (if serviceEnabled s service.name then 1 else 0))] := rfl
    rw [hset]
    exact hu.saveKeys fun kv hkv => hmem kv (List.mem_append_right [_, _] hkv)

theorem Keeps.saveForms {s : Storage} (hlines : Lines s) {body : List UInt8}
    (hbody : EncodesForm unescaped (fields (current s)) body) :
    ∀ {forms : List Service} {t : Storage}, (∀ service ∈ forms, service ∈ services) → Keeps s t →
      Keeps s (saveForms body forms t).1
  | [], _, _, h => h
  | service :: _, _, hforms, h =>
    (h.saveForm hlines hbody (hforms service List.mem_cons_self)).returnOnError fun _ hu =>
      Keeps.saveForms hlines hbody (fun other hother => hforms other (List.mem_cons_of_mem _ hother)) hu

/-- **A form that comes back as it was changes nothing**, whatever the partition answers. -/
theorem unchanged_configPost {s : Storage} (hlines : Lines s) {body : List UInt8}
    (hbody : EncodesForm unescaped (fields (current s)) body) : Unchanged s (configPost s body).1 := by
  unfold configPost readBody
  dsimp only
  split_ifs with hlong hempty hempty
  · exact (Keeps.refl s).unchanged
  · exact absurd rfl hempty
  · exact (Keeps.refl s).unchanged
  · exact (Keeps.saveForms hlines hbody (fun _ h => h) (Keeps.refl s)).unchanged

/-! ### Forms that are edited -/

theorem saveForm_enabled {body : List UInt8} {service : Service} {s : Storage}
    (h : (saveForm body service s).2 = some ESP_OK) :
    serviceEnabled (saveForm body service s).1 service.name = !(formValue body service.enable).isEmpty := by
  obtain ⟨-, hsave⟩ := returnOnError_ok h
  have hsave' : saveForm body service s = saveKeys (s.saveService service.name (credentials body service s)).1
      [(serviceKey service.name "_en", .u8 (if !(formValue body service.enable).isEmpty then 1 else 0))] := hsave
  rw [hsave'] at h ⊢
  obtain ⟨-, hopen, hvisible⟩ := saveKeys_ok h
  unfold serviceEnabled getBool
  rw [hopen, hvisible]
  rcases (formValue body service.enable).isEmpty <;> simp [putAll, put]

theorem saveForms_enabled {body : List UInt8} : ∀ {forms : List Service} {s : Storage},
    (forms.flatMap keys).Nodup → (saveForms body forms s).2 = some ESP_OK →
      ∀ service ∈ forms, serviceEnabled (saveForms body forms s).1 service.name =
        !(formValue body service.enable).isEmpty
  | [], _, _, _ => fun _ h => absurd h List.not_mem_nil
  | form :: forms, s, hnodup, h => by
    rw [List.flatMap_cons, List.nodup_append] at hnodup
    obtain ⟨-, hrest, hdisjoint⟩ := hnodup
    obtain ⟨hform, hstep⟩ := returnOnError_ok h
    have hstep' : saveForms body (form :: forms) s = saveForms body forms (saveForm body form s).1 := hstep
    rw [hstep'] at h ⊢
    intro service hservice
    rcases List.mem_cons.mp hservice with rfl | hservice
    · obtain ⟨-, hopen, hkeys⟩ := saveForms_ok hrest h
      rw [← saveForm_enabled hform]
      unfold serviceEnabled getBool
      rw [hopen, hkeys _ fun hmem => hdisjoint _ (by simp [keys]) _ hmem rfl]
    · exact saveForms_enabled hrest h service hservice

/-- What the page shows after a form is saved. -/
def shown (entry : Entry) : Entry := ⟨entry.enabled, singleLine (cStr entry.mountpoint), []⟩

theorem configPost_saved {s s' : Storage} {entry : Service → Entry} {body : List UInt8}
    (hbody : EncodesForm unescaped (fields entry) body) (h : configPost s body = (s', some .saved))
    {service : Service} (hservice : service ∈ services) :
    current s' service = shown (entry service) ∧
      (s'.loadService service.name).password =
        if (entry service).password = [] then (s.loadService service.name).password
        else cStr (entry service).password := by
  obtain ⟨henable, hmountpoint, hpassword⟩ := formValue_fields hbody hservice
  have hnodup : (services.flatMap keys).Nodup := by decide +kernel
  unfold configPost readBody at h
  dsimp only at h
  split_ifs at h with hlong hempty hempty
  · cases h
  · exact absurd rfl hempty
  · cases h
  · have hsaved : (saveForms body services s).2 = some ESP_OK := by
      obtain ⟨e, he, hsame⟩ := Option.map_eq_some_iff.mp (Prod.mk.inj h).2
      split_ifs at hsame with hok
      rw [he, not_not.mp hok]
    have henabled := saveForms_enabled hnodup hsaved service hservice
    have hload := (saveForms_ok hnodup hsaved).1 service hservice
    rw [(Prod.mk.inj h).1] at henabled hload
    unfold current shown
    rw [henabled, hload, henable]
    unfold stored credentials
    rw [hmountpoint, hpassword]
    refine ⟨?_, ?_⟩
    · rcases (entry service).enabled <;> rfl
    · dsimp only
      split_ifs with h1 h2 h2
      · exact cStr_getString s _
      · simp_all
      · simp_all
      · rfl

/-! ### The page and its form -/

/-- **The page of the services and its form.** For whatever is stored: the page is in UTF-8 exactly if the
mountpoints are; the form that is read from it sends the fields of the services with the mountpoints as
lines and blank passwords, and nothing else; if it comes back as it was, nothing changes, and where nothing
was pending nothing is found to have changed after a loss of power; and when a form is saved that was edited,
the page shows what it sent, and each password is the one it sent or the one before. -/
theorem config_page_round_trip {decode : List UInt8 → List UInt8} (hdecode : Decodes decode) (s : Storage)
    (streamsEnabled : Bool) :
    (IsUtf8 (configPage s streamsEnabled) ↔
      ∀ service ∈ services, IsUtf8 (s.loadService service.name).mountpoint) ∧
    sent decode (configPage s streamsEnabled) = fields (current s) ∧
    (∀ body, Lines s → EncodesForm unescaped (sent decode (configPage s streamsEnabled)) body →
      Unchanged s (configPost s body).1) ∧
    ∀ entry body s', EncodesForm unescaped (fields entry) body → configPost s body = (s', some .saved) →
      sent decode (configPage s' streamsEnabled) = fields (fun service => shown (entry service)) ∧
        ∀ service ∈ services, (s'.loadService service.name).password =
          if (entry service).password = [] then (s.loadService service.name).password
          else cStr (entry service).password := by
  have hsent := sent_configPage hdecode s streamsEnabled
  refine ⟨isUtf8_configPage s streamsEnabled, hsent, fun body hlines hbody => ?_, fun entry body s' hbody h => ?_⟩
  · rw [hsent] at hbody
    exact unchanged_configPost hlines hbody
  · refine ⟨?_, fun service hservice => (configPost_saved hbody h hservice).2⟩
    rw [sent_configPage hdecode]
    refine List.flatMap_congr fun service hservice => ?_
    rw [(configPost_saved hbody h hservice).1]

/-- A mountpoint that would end its attribute, and a field after it. -/
def quoting : Storage :=
  (configPost GpsBase.Web.Admin.blank.storage (ascii "r2g_en=on&r2g_mp=A%27%3E%3Cinput+name%3D%27x&r2g_pw=secret")).1

/-- What the form of `quoting` sends. -/
def quoted (service : Service) : Entry :=
  if service = rtk2go then ⟨true, ascii "A'><input name='x", []⟩ else ⟨false, [], []⟩

/-- Another mountpoint is entered, and no password. -/
def edited (service : Service) : Entry :=
  if service = rtk2go then ⟨true, ascii "B&C", []⟩ else ⟨false, [], []⟩

theorem config_page_round_trip_sample :
    IsUtf8 (configPage quoting true) ∧ sent unescape (configPage quoting true) = fields quoted ∧
      Unchanged quoting (configPost quoting (encodeForm unescaped (fields quoted))).1 ∧
      ∃ s', configPost quoting (encodeForm unescaped (fields edited)) = (s', some .saved) ∧
        sent unescape (configPage s' true) = fields edited ∧
        (s'.loadService rtk2go.name).password = ascii "secret" := by
  obtain ⟨hutf8, hsent, hback, hedit⟩ := config_page_round_trip decodes_unescape quoting true
  have hquoted : sent unescape (configPage quoting true) = fields quoted := by
    rw [hsent]
    decide +kernel
  have hlines : Lines quoting := by
    unfold Lines
    decide +kernel
  have hascii : ∀ service ∈ services,
      (quoting.loadService service.name).mountpoint.all (fun b => decide (b < 128)) = true := by
    decide +kernel
  refine ⟨hutf8.mpr fun service hservice => isUtf8_ascii fun b hb => ?_, hquoted, hback _ hlines ?_, ?_⟩
  · exact of_decide_eq_true (List.all_eq_true.mp (hascii service hservice) b hb)
  · rw [hquoted]
    exact encodesForm_encodeForm _ _
  · have hsaved : (configPost quoting (encodeForm unescaped (fields edited))).2 = some .saved := by
      decide +kernel
    obtain ⟨hshown, hpasswords⟩ := hedit edited _ _ (encodesForm_encodeForm _ _) (Prod.ext rfl hsaved)
    refine ⟨_, Prod.ext rfl hsaved, hshown.trans (by decide +kernel), ?_⟩
    rw [hpasswords rtk2go (by decide)]
    decide +kernel

end GpsBase.Web.ConfigPage
