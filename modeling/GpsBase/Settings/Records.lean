import GpsBase.Lib.CText
import GpsBase.Lib.KeyValue

/-! # Stored settings

`Storage` over a key-value partition (NVS). The partition answers every `nvs_set_*` and `nvs_commit`
in turn, with an error code or by losing power during the call; a set that returns `ESP_OK` is visible
to the reads that follow, and may be found after a loss of power from then on, committed or not. The
reads of a stored value of the right type succeed. A `double` is its eight bytes. -/

namespace GpsBase.Settings.Records

open GpsBase.Lib.CText GpsBase.Lib.KeyValue

/-! ### The partition -/

/-- `esp_err_t`. -/
abbrev EspErr := ℤ

def ESP_OK : EspErr := 0

def ESP_ERR_INVALID_STATE : EspErr := 0x103

inductive Value
  | u8 (v : UInt8)
  | str (s : List UInt8)
  | blob (bytes : List UInt8)
  deriving DecidableEq, Repr

/-- How a call ends. -/
inductive Answer
  | returns (e : EspErr)
  | powerLost
  deriving DecidableEq, Repr

/-- The partition: what the reads see, what is committed, what was set since, and the answers to the
calls to come. -/
structure Nvs where
  visible : Store String Value
  committed : Store String Value
  pending : List (String × Value)
  answers : ℕ → Answer

/-- The answer to the next call, used up. -/
def Nvs.answered (n : Nvs) : Nvs := { n with answers := fun i => n.answers (i + 1) }

/-- `nvs_set_u8`, `nvs_set_str`, `nvs_set_blob`. No result: the power is lost, and the value may or may
not be there. -/
def Nvs.set (n : Nvs) (key : String) (value : Value) : Nvs × Option EspErr :=
  match n.answers 0 with
  | .returns e =>
    if e = ESP_OK then
      ({ n.answered with visible := put n.visible key value
                         pending := n.pending ++ [(key, value)] }, some e)
    else (n.answered, some e)
  | .powerLost => ({ n.answered with pending := n.pending ++ [(key, value)] }, none)

/-- `nvs_commit`. -/
def Nvs.commit (n : Nvs) : Nvs × Option EspErr :=
  match n.answers 0 with
  | .returns e =>
    if e = ESP_OK then ({ n.answered with committed := n.visible, pending := [] }, some e)
    else (n.answered, some e)
  | .powerLost => (n.answered, none)

/-! ### Values -/

structure Double where
  bytes : List UInt8
  size : bytes.length = 8
  deriving DecidableEq

/-- `0.0`. -/
def Double.zero : Double := ⟨List.replicate 8 0, rfl⟩

/-! ### The class -/

/-- `Storage`: `open_`, and the partition behind `handle_`. -/
structure Storage where
  isOpen : Bool
  nvs : Nvs

namespace Storage

/-- An empty storage whose calls succeed. -/
def blank : Storage := ⟨true, ⟨fun _ => none, fun _ => none, [], fun _ => .returns ESP_OK⟩⟩

/-- A set, if the storage is open. -/
def set (s : Storage) (key : String) (value : Value) : Storage × Option EspErr :=
  if !s.isOpen then (s, some ESP_ERR_INVALID_STATE)
  else ({ s with nvs := (s.nvs.set key value).1 }, (s.nvs.set key value).2)

def setBool (s : Storage) (key : String) (value : Bool) : Storage × Option EspErr :=
  s.set key (.u8 (if value then 1 else 0))

def setString (s : Storage) (key : String) (value : List UInt8) : Storage × Option EspErr :=
  s.set key (.str (cStr value))

def setDouble (s : Storage) (key : String) (value : Double) : Storage × Option EspErr :=
  s.set key (.blob value.bytes)

def commit (s : Storage) : Storage × Option EspErr :=
  if !s.isOpen then (s, some ESP_ERR_INVALID_STATE)
  else ({ s with nvs := s.nvs.commit.1 }, s.nvs.commit.2)

def getBool (s : Storage) (key : String) (defaultValue : Bool) : Bool :=
  if !s.isOpen then defaultValue
  else match s.nvs.visible key with
    | some (.u8 value) => value == 1
    | _ => defaultValue

def getString (s : Storage) (key : String) : List UInt8 :=
  if !s.isOpen then []
  else match s.nvs.visible key with
    | some (.str value) => cStr value
    | _ => []

def getDouble (s : Storage) (key : String) (defaultValue : Double) : Double :=
  if !s.isOpen then defaultValue
  else match s.nvs.visible key with
    | some (.blob bytes) => if h : bytes.length = 8 then ⟨bytes, h⟩ else defaultValue
    | _ => defaultValue

/-- `ESP_RETURN_ON_ERROR`: go on after `ESP_OK`, else return; nothing follows a loss of power. -/
def returnOnError (r : Storage × Option EspErr) (next : Storage → Storage × Option EspErr) :
    Storage × Option EspErr :=
  if r.2 = some ESP_OK then next r.1 else r

/-! ### Records -/

def serviceKey (service suffix : String) : String := service ++ suffix

structure BasePosition where
  lat : Double
  lon : Double
  height : Double
  valid : Bool
  deriving DecidableEq

def loadPosition (s : Storage) : BasePosition where
  valid := s.getBool "pos_valid" false
  lat := s.getDouble "lat" .zero
  lon := s.getDouble "lon" .zero
  height := s.getDouble "hgt" .zero

def savePosition (s : Storage) (lat lon height : Double) : Storage × Option EspErr :=
  returnOnError (s.setDouble "lat" lat) fun s =>
  returnOnError (s.setDouble "lon" lon) fun s =>
  returnOnError (s.setDouble "hgt" height) fun s =>
  returnOnError (s.setBool "pos_valid" true) fun s => s.commit

def clearPosition (s : Storage) : Storage × Option EspErr :=
  returnOnError (s.setBool "pos_valid" false) fun s => s.commit

def setNtripStreamsEnabled (s : Storage) (enabled : Bool) : Storage × Option EspErr :=
  returnOnError (s.setBool "ntrip_on" enabled) fun s => s.commit

def rinexCollectionEnabled (s : Storage) (defaultValue : Bool) : Bool := s.getBool "rinex_on" defaultValue

def setRinexCollectionEnabled (s : Storage) (enabled : Bool) : Storage × Option EspErr :=
  returnOnError (s.setBool "rinex_on" enabled) fun s => s.commit

/-- What `admin_password_set` and `admin_password` answer. -/
structure AdminPassword where
  set : Bool
  password : List UInt8
  deriving DecidableEq

/-- `admin_password_set` and `admin_password`. -/
def loadAdminPassword (s : Storage) : AdminPassword where
  set := s.getBool "admin_set" false
  password := s.getString "admin_pw"

def saveAdminPassword (s : Storage) (password : List UInt8) : Storage × Option EspErr :=
  returnOnError (s.setString "admin_pw" password) fun s =>
  returnOnError (s.setBool "admin_set" true) fun s => s.commit

structure ServiceCredentials where
  mountpoint : List UInt8
  password : List UInt8
  deriving DecidableEq

def loadService (s : Storage) (service : String) : ServiceCredentials where
  mountpoint := s.getString (serviceKey service "_mp")
  password := s.getString (serviceKey service "_pw")

def saveService (s : Storage) (service : String) (credentials : ServiceCredentials) :
    Storage × Option EspErr :=
  returnOnError (s.setString (serviceKey service "_mp") credentials.mountpoint) fun s =>
  returnOnError (s.setString (serviceKey service "_pw") credentials.password) fun s => s.commit

structure WifiCredentials where
  ssid : List UInt8
  password : List UInt8
  valid : Bool
  deriving DecidableEq

def loadWifi (s : Storage) : WifiCredentials where
  ssid := s.getString "wifi_ssid"
  password := s.getString "wifi_pw"
  valid := !(s.getString "wifi_ssid").isEmpty

/-- `save_wifi`, which does not read `valid`. -/
def saveWifi (s : Storage) (ssid password : List UInt8) : Storage × Option EspErr :=
  returnOnError (s.setString "wifi_ssid" ssid) fun s =>
  returnOnError (s.setString "wifi_pw" password) fun s => s.commit

/-- What `antenna_model`, `antenna_radome` and `antenna_height` answer. -/
structure Antenna where
  model : List UInt8
  radome : List UInt8
  height : Double
  deriving DecidableEq

/-- The default of a string that is empty. -/
def orDefault (s : List UInt8) (defaultValue : String) : List UInt8 :=
  if s.isEmpty then ascii defaultValue else s

/-- `antenna_model`, `antenna_radome` and `antenna_height`. -/
def loadAntenna (s : Storage) : Antenna where
  model := orDefault (s.getString "ant_model") "HXCGPS500"
  radome := orDefault (s.getString "ant_radome") "NONE"
  height := s.getDouble "ant_h" .zero

def saveAntenna (s : Storage) (model radome : List UInt8) (height : Double) :
    Storage × Option EspErr :=
  returnOnError (s.setString "ant_model" model) fun s =>
  returnOnError (s.setString "ant_radome" radome) fun s =>
  returnOnError (s.setDouble "ant_h" height) fun s => s.commit

end Storage

end GpsBase.Settings.Records
