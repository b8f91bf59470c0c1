import GpsBase.Settings.Saves
import GpsBase.Web.Forms

/-! # WiFi credentials

The way of an SSID and a password from the form through the settings to the driver. The form accepts 32
and 64 bytes, as many as the fields of the driver have; `configure_station` keeps a byte of each field for
a NUL, and both the settings and the copy end a text at its first NUL. So the driver gets what was accepted
exactly if it is shorter than the field and has no byte behind a NUL (`configured_iff`). -/

namespace GpsBase.Wifi.Credentials

open GpsBase.Lib.CText GpsBase.Lib.KeyValue GpsBase.Web.Forms
open GpsBase.Settings.Records GpsBase.Settings.Records.Storage GpsBase.Settings.Saves

/-! ### The form -/

/-- The reply of `wifi_handler`. -/
inductive Reply
  | invalid
  | failed (e : EspErr)
  | restarting
  deriving DecidableEq, Repr

/-- The credentials of a form. An empty password stands for the saved one if the SSID is the saved one. -/
def submitted (s : Storage) (received : List UInt8) : WifiCredentials :=
  let body := readBody 512 received
  let credentials : WifiCredentials := ⟨formValue body "ssid", formValue body "password", true⟩
  if credentials.password.isEmpty then
    let saved := s.loadWifi
    if saved.ssid = credentials.ssid then { credentials with password := saved.password } else credentials
  else credentials

/-- `wifi_handler`, authorized; no reply if the power is lost. -/
def wifiHandler (s : Storage) (received : List UInt8) : Storage × Option Reply :=
  let credentials := submitted s received
  if credentials.ssid.isEmpty ∨ 32 < credentials.ssid.length ∨ 64 < credentials.password.length then
    (s, some .invalid)
  else
    let (s, result) := s.saveWifi credentials.ssid credentials.password
    (s, result.map fun e => if e ≠ ESP_OK then .failed e else .restarting)

/-! ### The driver -/

/-- `strlcpy` into a field of zeros. -/
def strlcpy (src : List UInt8) (size : ℕ) : List UInt8 :=
  let kept := (cStr src).take (size - 1)
  kept ++ List.replicate (size - kept.length) 0

/-- `config.sta` of `wifi_config_t`, as far as it is set; the threshold is `WIFI_AUTH_OPEN`. -/
structure StationConfig where
  ssid : List UInt8
  password : List UInt8
  authmode : ℕ := 0
  pmfCapable : Bool := true
  pmfRequired : Bool := false
  deriving DecidableEq, Repr

def configureStation (credentials : WifiCredentials) : StationConfig :=
  { ssid := strlcpy credentials.ssid 32, password := strlcpy credentials.password 64 }

/-- What `start` configures the station with, if it does not start the access point. -/
def stationConfig (s : Storage) : Option StationConfig :=
  if s.loadWifi.valid then some (configureStation s.loadWifi) else none

/-- Credentials as they are, with zeros behind them. -/
def intact (credentials : WifiCredentials) : StationConfig :=
  { ssid := credentials.ssid ++ List.replicate (32 - credentials.ssid.length) 0
    password := credentials.password ++ List.replicate (64 - credentials.password.length) 0 }

/-! ### The copies -/

/-- A text is shorter than a field, and nothing but NULs is behind its first NUL. -/
structure Fits (s : List UInt8) (size : ℕ) : Prop where
  short : (cStr s).length < size
  zeros : s = cStr s ++ List.replicate (s.length - (cStr s).length) 0

theorem cStr_append_zeros (s : List UInt8) (n : ℕ) : cStr (s ++ List.replicate n 0) = cStr s := by
  induction s with
  | nil => cases n <;> rfl
  | cons b s ih =>
    unfold cStr at ih ⊢
    rw [List.cons_append, List.takeWhile_cons, List.takeWhile_cons, ih]

theorem length_cStr_le (s : List UInt8) : (cStr s).length ≤ s.length := (List.takeWhile_sublist _).length_le

/-- **A field holds a text exactly if it fits.** -/
theorem strlcpy_eq_iff {s : List UInt8} {size : ℕ} (hsize : 0 < size) (hs : s.length ≤ size) :
    strlcpy (cStr s) size = s ++ List.replicate (size - s.length) 0 ↔ Fits s size := by
  have hle := length_cStr_le s
  unfold strlcpy
  rw [cStr_cStr]
  dsimp only
  constructor
  · intro h
    have hkept : cStr ((cStr s).take (size - 1)) = (cStr s).take (size - 1) := by
      refine cStr_eq_self fun hmem => ?_
      simpa using List.mem_takeWhile_imp (List.mem_of_mem_take hmem)
    have hsame := congrArg cStr h
    rw [cStr_append_zeros, cStr_append_zeros, hkept] at hsame
    have hlength := congrArg List.length hsame
    rw [List.length_take] at hlength
    rw [hsame] at h
    refine ⟨by omega, ?_⟩
    have htake := congrArg (List.take s.length) h
    rw [List.take_left, List.take_append, List.take_of_length_le hle, List.take_replicate] at htake
    have hroom : min (s.length - (cStr s).length) (size - (cStr s).length) = s.length - (cStr s).length := by
      omega
    rw [hroom] at htake
    exact htake.symm
  · rintro ⟨hshort, hzeros⟩
    have htake : (cStr s).take (size - 1) = cStr s := List.take_of_length_le (by omega)
    have hroom : s.length - (cStr s).length + (size - s.length) = size - (cStr s).length := by omega
    have hpad : s ++ List.replicate (size - s.length) 0 =
        cStr s ++ List.replicate (s.length - (cStr s).length) 0 ++ List.replicate (size - s.length) 0 :=
      congrArg (· ++ List.replicate (size - s.length) (0 : UInt8)) hzeros
    rw [htake, hpad, List.append_assoc, List.replicate_append_replicate, hroom]

/-- Behind a short text without a NUL there is room for one. -/
theorem fits_of_notMem {s : List UInt8} {size : ℕ} (h0 : 0 ∉ s) (hs : s.length < size) : Fits s size := by
  have hself := cStr_eq_self h0
  refine ⟨by rwa [hself], ?_⟩
  rw [hself, Nat.sub_self, List.replicate_zero, List.append_nil]

/-! ### From the form to the driver -/

/-- **What the form accepts is saved.** -/
theorem wifiHandler_restarting {s s' : Storage} {received : List UInt8}
    (h : wifiHandler s received = (s', some .restarting)) :
    let credentials := submitted s received
    credentials.ssid.length ≤ 32 ∧ credentials.password.length ≤ 64 ∧
      s.saveWifi credentials.ssid credentials.password = (s', some ESP_OK) := by
  unfold wifiHandler at h
  dsimp only at h ⊢
  split_ifs at h with hinvalid
  · cases h
  · push Not at hinvalid
    obtain ⟨-, hssid, hpassword⟩ := hinvalid
    refine ⟨hssid, hpassword, ?_⟩
    rcases hsave : s.saveWifi (submitted s received).ssid (submitted s received).password with ⟨t, _ | e⟩
    · rw [hsave] at h
      cases h
    · rw [hsave] at h
      obtain ⟨rfl, hreply⟩ := Prod.mk.inj h
      by_cases he : e = ESP_OK
      · rw [he]
      · rw [Option.map_some, if_pos he] at hreply
        cases hreply

/-- **The driver gets what the form accepted exactly if it fits**: after every save and every restart, the
fields hold the SSID and the password with zeros behind them if and only if each of them is shorter than
its field, has no other byte behind a NUL, and the SSID is not empty up to its first NUL. -/
theorem configured_iff {s s' : Storage} {received : List UInt8}
    (h : wifiHandler s received = (s', some .restarting)) {store : Store String Value}
    (hstore : Survives s'.nvs.committed s'.nvs.pending store) :
    stationConfig (found store) = some (intact (submitted s received)) ↔
      cStr (submitted s received).ssid ≠ [] ∧ Fits (submitted s received).ssid 32 ∧
        Fits (submitted s received).password 64 := by
  obtain ⟨hssid, hpassword, hsave⟩ := wifiHandler_restarting h
  set credentials := submitted s received
  have hspec : SaveSpec (wifi credentials.ssid credentials.password) s
      (s.saveWifi credentials.ssid credentials.password) :=
    saveSpec_saveKeys (wifi credentials.ssid credentials.password) s
  rw [hsave] at hspec
  have hload : (found store).loadWifi =
      ⟨cStr credentials.ssid, cStr credentials.password, !(cStr credentials.ssid).isEmpty⟩ :=
    (hspec.complete rfl).2 store hstore
  unfold stationConfig configureStation intact
  rw [hload]
  dsimp only
  by_cases hempty : cStr credentials.ssid = []
  · rw [hempty]
    simp
  · have hvalid : (!(cStr credentials.ssid).isEmpty) = true := by simpa using hempty
    rw [if_pos hvalid, Option.some_inj, StationConfig.mk.injEq, strlcpy_eq_iff (by decide) hssid,
      strlcpy_eq_iff (by decide) hpassword]
    simp [hempty]

/-- A network with a name of four bytes. -/
theorem configured_blank :
    let body := ascii "ssid=base&password=password"
    stationConfig (found (wifiHandler .blank body).1.nvs.committed) = some (intact (submitted .blank body)) :=
  (configured_iff (Prod.ext rfl (by decide +kernel)) fun _ => Or.inl rfl).mpr
    ⟨by decide +kernel, fits_of_notMem (by decide +kernel) (by decide +kernel),
      fits_of_notMem (by decide +kernel) (by decide +kernel)⟩

/-- **An SSID of 32 bytes is accepted and saved, and the driver gets 31 of them.** -/
theorem ssid_cut :
    let body := ascii "ssid=0123456789abcdef0123456789abcdef&password=password"
    let r := wifiHandler .blank body
    r.2 = some .restarting ∧ stationConfig (found r.1.nvs.committed) =
        some { ssid := ascii "0123456789abcdef0123456789abcde" ++ [0]
               password := ascii "password" ++ List.replicate 56 0 } ∧
      stationConfig (found r.1.nvs.committed) ≠ some (intact (submitted .blank body)) := by
  decide +kernel

end GpsBase.Wifi.Credentials
