import GpsBase.Lib.Strtod
import GpsBase.Web.Forms

/-! # Positions entered by hand

The two ways in for a position: the form of the web server and the panel. Both read three texts with
`strtod` and pass the numbers to `request_position`. The form takes a text only if it is a number as a
whole and in range, and checks the height; the panel reads the beginning of a text and lets every height
pass. So they agree exactly where the panel has no more to accept than the form (`agree_iff`). -/

namespace GpsBase.Web.Positions

open GpsBase.Lib.CText GpsBase.Lib.Binary64 GpsBase.Lib.Strtod GpsBase.Web.Forms

/-- The arguments of `request_position`. -/
structure Position where
  lat : Float64
  lon : Float64
  height : Float64
  deriving DecidableEq

/-! ### The form -/

def parseDouble (text : List UInt8) : Option Float64 :=
  if text = [] then none
  else
    let r := strtod (cStr text)
    if r.erange = false ∧ r.rest ≠ cStr text ∧ r.rest = [] ∧ isFinite r.value then some r.value else none

/-- `position_handler`, authorized: the request it makes, or the error it answers. -/
def positionHandler (received : List UInt8) : Except String Position :=
  let body := readBody 512 received
  if body = [] then .error "Invalid form"
  else
    match parseDouble (formValue body "lat"), parseDouble (formValue body "lon"),
        parseDouble (formValue body "hgt") with
    | some lat, some lon, some height =>
      if lat.lt (.fin true 90) ∨ Float64.lt (.fin false 90) lat ∨ lon.lt (.fin true 180) ∨
          Float64.lt (.fin false 180) lon ∨ height.lt (.fin true 1000) ∨ Float64.lt (.fin false 20000) height then
        .error "Invalid coordinates"
      else .ok ⟨lat, lon, height⟩
    | _, _, _ => .error "Invalid coordinates"

/-! ### The panel -/

/-- `on_ps_pos_save`, on the texts of its fields. -/
def onPsPosSave (latS lonS hS : List UInt8) : Except String Position :=
  let lat := strtod latS
  let lon := strtod lonS
  let height := strtod hS
  if latS ≠ [] ∧ lat.rest ≠ latS ∧ lonS ≠ [] ∧ lon.rest ≠ lonS ∧ hS ≠ [] ∧ height.rest ≠ hS ∧
      Float64.le (.fin true 90) lat.value ∧ lat.value.le (.fin false 90) ∧
      Float64.le (.fin true 180) lon.value ∧ lon.value.le (.fin false 180) then
    .ok ⟨lat.value, lon.value, height.value⟩
  else .error "Enter valid lat/lon/height numbers."

/-! ### Agreement -/

/-- A number between two others. -/
def Within (x : Float64) (lo hi : ℚ≥0) : Prop := Float64.le (.fin true lo) x = true ∧ x.le (.fin false hi) = true

/-- A position on the earth. -/
structure Valid (p : Position) : Prop where
  lat : Within p.lat 90 90
  lon : Within p.lon 180 180
  height : Within p.height 1000 20000

def Begins (text : List UInt8) : Prop := text ≠ [] ∧ (strtod text).rest ≠ text

/-- A text is a number that a double can hold, with nothing behind it. -/
def Whole (text : List UInt8) : Prop := (strtod text).rest = [] ∧ (strtod text).erange = false

/-- The panel has no more to accept than the form: texts that begin with a latitude, a longitude and a
number are numbers as a whole, and the height is one. -/
def Strict (lat lon height : List UInt8) : Prop :=
  Begins lat ∧ Begins lon ∧ Begins height ∧ Within (strtod lat).value 90 90 ∧
      Within (strtod lon).value 180 180 →
    Whole lat ∧ Whole lon ∧ Whole height ∧ Within (strtod height).value 1000 20000

theorem Within.finite {x : Float64} {lo hi : ℚ≥0} (h : Within x lo hi) : isFinite x = true :=
  isFinite_of_le h.1 h.2

theorem within_iff {x : Float64} {lo hi : ℚ≥0} (hx : isFinite x = true) :
    Within x lo hi ↔ x.lt (.fin true lo) = false ∧ Float64.lt (.fin false hi) x = false := by
  unfold Within
  rw [lt_eq_not_le hx rfl, lt_eq_not_le rfl hx]
  simp

theorem Valid.finite {p : Position} (h : Valid p) :
    isFinite p.lat = true ∧ isFinite p.lon = true ∧ isFinite p.height = true :=
  ⟨h.lat.finite, h.lon.finite, h.height.finite⟩

theorem parseDouble_eq_some_iff {text : List UInt8} (h0 : 0 ∉ text) {x : Float64} :
    parseDouble text = some x ↔
      Begins text ∧ Whole text ∧ isFinite (strtod text).value = true ∧ (strtod text).value = x := by
  unfold parseDouble Begins Whole
  rw [cStr_eq_self h0]
  dsimp only
  split_ifs with hnil hparse
  · simp [hnil]
  · obtain ⟨h1, h2, h3, h4⟩ := hparse
    simp [hnil, h1, h3, h4]
  · constructor
    · intro h
      cases h
    · rintro ⟨⟨-, h2⟩, ⟨h3, h1⟩, h4, -⟩
      exact absurd ⟨h1, h2, h3, h4⟩ hparse

theorem valid_iff {p : Position} (hlat : isFinite p.lat = true) (hlon : isFinite p.lon = true)
    (hheight : isFinite p.height = true) :
    Valid p ↔ ¬ (p.lat.lt (.fin true 90) = true ∨ Float64.lt (.fin false 90) p.lat = true ∨
      p.lon.lt (.fin true 180) = true ∨ Float64.lt (.fin false 180) p.lon = true ∨
      p.height.lt (.fin true 1000) = true ∨ Float64.lt (.fin false 20000) p.height = true) := by
  simp only [not_or, Bool.not_eq_true]
  constructor
  · rintro ⟨h1, h2, h3⟩
    rw [within_iff hlat] at h1
    rw [within_iff hlon] at h2
    rw [within_iff hheight] at h3
    exact ⟨h1.1, h1.2, h2.1, h2.2, h3.1, h3.2⟩
  · rintro ⟨h1, h2, h3, h4, h5, h6⟩
    exact ⟨(within_iff hlat).mpr ⟨h1, h2⟩, (within_iff hlon).mpr ⟨h3, h4⟩, (within_iff hheight).mpr ⟨h5, h6⟩⟩

theorem positionHandler_ok_iff {received lat lon height : List UInt8}
    (hlat : formValue (readBody 512 received) "lat" = lat) (hlon : formValue (readBody 512 received) "lon" = lon)
    (hheight : formValue (readBody 512 received) "hgt" = height) (h0 : 0 ∉ lat ∧ 0 ∉ lon ∧ 0 ∉ height)
    {p : Position} :
    positionHandler received = .ok p ↔
      (Begins lat ∧ Begins lon ∧ Begins height) ∧ (Whole lat ∧ Whole lon ∧ Whole height) ∧ Valid p ∧
        p = ⟨(strtod lat).value, (strtod lon).value, (strtod height).value⟩ := by
  obtain ⟨h1, h2, h3⟩ := h0
  unfold positionHandler
  dsimp only
  constructor
  · intro h
    by_cases hbody : readBody 512 received = []
    · rw [if_pos hbody] at h
      cases h
    · rw [if_neg hbody, hlat, hlon, hheight] at h
      rcases hx : parseDouble lat with _ | x <;> rcases hy : parseDouble lon with _ | y <;>
        rcases hz : parseDouble height with _ | z <;> rw [hx, hy, hz] at h <;> try cases h
      obtain ⟨hbx, hwx, hfx, rfl⟩ := (parseDouble_eq_some_iff h1).mp hx
      obtain ⟨hby, hwy, hfy, rfl⟩ := (parseDouble_eq_some_iff h2).mp hy
      obtain ⟨hbz, hwz, hfz, rfl⟩ := (parseDouble_eq_some_iff h3).mp hz
      dsimp only at h
      split_ifs at h with hrange
      cases h
      exact ⟨⟨hbx, hby, hbz⟩, ⟨hwx, hwy, hwz⟩, (valid_iff hfx hfy hfz).mpr hrange, rfl⟩
  · rintro ⟨⟨hbx, hby, hbz⟩, ⟨hwx, hwy, hwz⟩, hvalid, rfl⟩
    obtain ⟨hfx, hfy, hfz⟩ := hvalid.finite
    have hbody : readBody 512 received ≠ [] := fun hnil => by
      rw [hnil] at hlat
      exact hbx.1 hlat.symm
    rw [if_neg hbody, hlat, hlon, hheight, (parseDouble_eq_some_iff h1).mpr ⟨hbx, hwx, hfx, rfl⟩,
      (parseDouble_eq_some_iff h2).mpr ⟨hby, hwy, hfy, rfl⟩, (parseDouble_eq_some_iff h3).mpr ⟨hbz, hwz, hfz, rfl⟩]
    exact if_neg ((valid_iff hfx hfy hfz).mp hvalid)

theorem onPsPosSave_ok_iff {lat lon height : List UInt8} {p : Position} :
    onPsPosSave lat lon height = .ok p ↔
      (Begins lat ∧ Begins lon ∧ Begins height) ∧ (Within p.lat 90 90 ∧ Within p.lon 180 180) ∧
        p = ⟨(strtod lat).value, (strtod lon).value, (strtod height).value⟩ := by
  unfold onPsPosSave Begins Within
  dsimp only
  split_ifs with h
  · obtain ⟨h1, h2, h3, h4, h5, h6, h7, h8, h9, h10⟩ := h
    rw [Except.ok.injEq]
    constructor
    · rintro rfl
      exact ⟨⟨⟨h1, h2⟩, ⟨h3, h4⟩, h5, h6⟩, ⟨⟨h7, h8⟩, h9, h10⟩, rfl⟩
    · exact fun hp => hp.2.2.symm
  · constructor
    · intro hp
      cases hp
    · rintro ⟨⟨⟨h1, h2⟩, ⟨h3, h4⟩, h5, h6⟩, ⟨⟨h7, h8⟩, h9, h10⟩, rfl⟩
      exact absurd ⟨h1, h2, h3, h4, h5, h6, h7, h8, h9, h10⟩ h

/-- **The panel and the form accept the same positions, all of them valid, exactly where the panel has no
more to accept.** -/
theorem agree_iff {received lat lon height : List UInt8}
    (hlat : formValue (readBody 512 received) "lat" = lat) (hlon : formValue (readBody 512 received) "lon" = lon)
    (hheight : formValue (readBody 512 received) "hgt" = height) (h0 : 0 ∉ lat ∧ 0 ∉ lon ∧ 0 ∉ height) :
    ((∀ p, onPsPosSave lat lon height = .ok p ↔ positionHandler received = .ok p) ∧
      ∀ p, onPsPosSave lat lon height = .ok p ∨ positionHandler received = .ok p →
        Valid p ∧ isFinite p.lat = true ∧ isFinite p.lon = true ∧ isFinite p.height = true) ↔
      Strict lat lon height := by
  have hform := @positionHandler_ok_iff received lat lon height hlat hlon hheight h0
  constructor
  · rintro ⟨hsame, -⟩ ⟨hblat, hblon, hbheight, hwlat, hwlon⟩
    have hpanel := (onPsPosSave_ok_iff (p := ⟨(strtod lat).value, (strtod lon).value, (strtod height).value⟩)).mpr
      ⟨⟨hblat, hblon, hbheight⟩, ⟨hwlat, hwlon⟩, rfl⟩
    obtain ⟨-, ⟨hlat, hlon, hheight⟩, hvalid, -⟩ := hform.mp ((hsame _).mp hpanel)
    exact ⟨hlat, hlon, hheight, hvalid.height⟩
  · intro hstrict
    have hsame : ∀ p, onPsPosSave lat lon height = .ok p ↔ positionHandler received = .ok p := by
      intro p
      rw [onPsPosSave_ok_iff, hform]
      constructor
      · rintro ⟨⟨hblat, hblon, hbheight⟩, ⟨hwlat, hwlon⟩, rfl⟩
        obtain ⟨h1, h2, h3, h4⟩ := hstrict ⟨hblat, hblon, hbheight, hwlat, hwlon⟩
        exact ⟨⟨hblat, hblon, hbheight⟩, ⟨h1, h2, h3⟩, ⟨hwlat, hwlon, h4⟩, rfl⟩
      · rintro ⟨hbegins, -, hvalid, rfl⟩
        exact ⟨hbegins, ⟨hvalid.lat, hvalid.lon⟩, rfl⟩
    refine ⟨hsame, fun p hp => ?_⟩
    have hok : positionHandler received = .ok p := hp.elim (hsame p).mp id
    have hvalid := (hform.mp hok).2.2.1
    exact ⟨hvalid, hvalid.finite⟩

/-- A position in the form of a browser. -/
theorem agree_plain :
    ∃ p, onPsPosSave (ascii "48.1") (ascii "11.5") (ascii "520") = .ok p ∧
      positionHandler (ascii "lat=48.1&lon=11.5&hgt=520") = .ok p := by
  have hstrict : Strict (ascii "48.1") (ascii "11.5") (ascii "520") := fun _ => by
    unfold Whole Within
    decide +kernel
  have hagree : ∀ p, onPsPosSave (ascii "48.1") (ascii "11.5") (ascii "520") = .ok p ↔
      positionHandler (ascii "lat=48.1&lon=11.5&hgt=520") = .ok p :=
    ((agree_iff (by decide +kernel) (by decide +kernel) (by decide +kernel) (by decide +kernel)).mpr hstrict).1
  let p : Position := ⟨(strtod (ascii "48.1")).value, (strtod (ascii "11.5")).value, (strtod (ascii "520")).value⟩
  have hpanel : onPsPosSave (ascii "48.1") (ascii "11.5") (ascii "520") = .ok p := by decide +kernel
  exact ⟨p, hpanel, (hagree p).mp hpanel⟩

/-- **The panel takes a height of 30 km, and a text that is no number behind its first digits**; the form
takes neither. -/
theorem panel_accepts_more :
    onPsPosSave (ascii "48") (ascii "11 E") (ascii "30000") =
        .ok ⟨.fin false 48, .fin false 11, .fin false 30000⟩ ∧
      positionHandler (ascii "lat=48&lon=11+E&hgt=30000") = .error "Invalid coordinates" ∧
      ¬ Valid ⟨.fin false 48, .fin false 11, .fin false 30000⟩ := by
  refine ⟨by decide +kernel, by decide +kernel, fun h => ?_⟩
  exact absurd h.height.2 (by decide +kernel)

end GpsBase.Web.Positions
