import GpsBase.Lib.Base64
import GpsBase.Push.CasterLogin
import GpsBase.Web.Admin

/-! # The forms of the services

`config_post_handler` stores a mountpoint and a password for each caster, whatever bytes they have, and
`reload_services` hands what is stored to the push clients, which put it into the request they send. The
caster reads what was stored exactly if no byte in it ends a field of the request (`told_iff`). -/

namespace GpsBase.Web.ServiceForms

open GpsBase.Lib.CText GpsBase.Lib.KeyValue GpsBase.Web.Forms
open GpsBase.Settings.Records GpsBase.Settings.Records.Storage GpsBase.Settings.Saves
open GpsBase.Push.NtripPush (NtripProtocol Constants Client request)
open GpsBase.Push.CasterLogin

/-! ### The code -/

def serviceEnabled (s : Storage) (service : String) : Bool := s.getBool (serviceKey service "_en") true

def setServiceEnabled (s : Storage) (service : String) (enabled : Bool) : Storage × Option EspErr :=
  returnOnError (s.setBool (serviceKey service "_en") enabled) fun s => s.commit

/-- `ServiceForm`, and what the push client of the service is made with. -/
structure Service where
  name : String
  enable : String
  mountpoint : String
  password : String
  host : String
  port : ℕ
  protocol : NtripProtocol
  connectStaggerMs : ℕ
  deriving DecidableEq

def rtk2go : Service := ⟨"rtk2go", "r2g_en", "r2g_mp", "r2g_pw", "rtk2go.com", 2101, .kV1, 0⟩

def onocoy : Service := ⟨"onocoy", "onc_en", "onc_mp", "onc_pw", "servers.onocoy.com", 2101, .kV2, 10000⟩

def rtkdata : Service := ⟨"rtkdata", "rtk_en", "rtk_mp", "rtk_pw", "rtkdata.online", 2101, .kV1, 20000⟩

def services : List Service := [rtk2go, onocoy, rtkdata]

/-- The members of the push client of a service. -/
def Service.constants (service : Service) (base64 : List UInt8 → List UInt8) : Constants where
  host := ascii service.host
  port := service.port
  protocol := service.protocol
  connectStaggerMs := service.connectStaggerMs
  base64 := base64

/-- The credentials of a form. An empty password stands for the stored one. -/
def credentials (body : List UInt8) (service : Service) (s : Storage) : ServiceCredentials :=
  let old := s.loadService service.name
  let password := formValue body service.password
  ⟨formValue body service.mountpoint, if password.isEmpty then old.password else password⟩

/-- What `config_post_handler` does with a form. -/
def saveForm (body : List UInt8) (service : Service) (s : Storage) : Storage × Option EspErr :=
  returnOnError (s.saveService service.name (credentials body service s)) fun s =>
    setServiceEnabled s service.name (!(formValue body service.enable).isEmpty)

/-- The loop of `config_post_handler`. -/
def saveForms (body : List UInt8) : List Service → Storage → Storage × Option EspErr
  | [], s => (s, some ESP_OK)
  | service :: more, s => returnOnError (saveForm body service s) (saveForms body more)

/-- The reply of `config_post_handler`. -/
inductive Reply
  | invalid
  | failed (e : EspErr)
  | saved
  deriving DecidableEq, Repr

/-- `config_post_handler`, authorized; no reply if the power is lost. -/
def configPost (s : Storage) (received : List UInt8) : Storage × Option Reply :=
  let body := readBody 2048 received
  if body.isEmpty then (s, some .invalid)
  else
    let (s, result) := saveForms body services s
    (s, result.map fun e => if e ≠ ESP_OK then .failed e else .saved)

/-- `reload_services`, for one of the push clients. -/
def reloadService (s : Storage) (service : Service) (client : Client) : Client :=
  let credentials := s.loadService service.name
  client.configure (serviceEnabled s service.name) credentials.mountpoint credentials.password

/-! ### What is stored -/

/-- The credentials that a form leaves; both are stored up to their first NUL. -/
def stored (body : List UInt8) (service : Service) (s : Storage) : ServiceCredentials :=
  ⟨cStr (credentials body service s).mountpoint, cStr (credentials body service s).password⟩

def keys (service : Service) : List String :=
  [serviceKey service.name "_mp", serviceKey service.name "_pw", serviceKey service.name "_en"]

theorem returnOnError_ok {r : Storage × Option EspErr} {next : Storage → Storage × Option EspErr}
    (h : (returnOnError r next).2 = some ESP_OK) : r.2 = some ESP_OK ∧ returnOnError r next = next r.1 := by
  unfold returnOnError at h ⊢
  split_ifs at h ⊢ with hr
  · exact ⟨hr, rfl⟩
  · exact absurd h hr

theorem saveKeys_ok {s : Storage} {kvs : List (String × Value)} (h : (saveKeys s kvs).2 = some ESP_OK) :
    s.isOpen = true ∧ (saveKeys s kvs).1.isOpen = true ∧
      (saveKeys s kvs).1.nvs.visible = putAll s.nvs.visible kvs := by
  rcases hopen : s.isOpen
  · rw [leaves_closed hopen] at h
    cases h
  · obtain ⟨hleaves, -⟩ := saveKeys_spec kvs hopen
    obtain ⟨hj, -⟩ := hleaves.committed h
    refine ⟨rfl, hleaves.isOpen.trans hopen, ?_⟩
    rw [hleaves.visible, hj, List.take_length]

theorem loadService_congr {s t : Storage} {name : String} (hopen : t.isOpen = s.isOpen)
    (h : ∀ suffix ∈ ["_mp", "_pw"], t.nvs.visible (serviceKey name suffix) = s.nvs.visible (serviceKey name suffix)) :
    t.loadService name = s.loadService name := by
  unfold loadService getString
  rw [hopen, h "_mp" (by decide), h "_pw" (by decide)]

theorem saveForm_ok {body : List UInt8} {service : Service} {s : Storage}
    (h : (saveForm body service s).2 = some ESP_OK) :
    s.isOpen = true ∧ (saveForm body service s).1.isOpen = true ∧
      (saveForm body service s).1.loadService service.name = stored body service s ∧
      ∀ key ∉ keys service, (saveForm body service s).1.nvs.visible key = s.nvs.visible key := by
  obtain ⟨hcredentials, hsave⟩ := returnOnError_ok h
  have hsave' : saveForm body service s = saveKeys (s.saveService service.name (credentials body service s)).1
      [(serviceKey service.name "_en", .u8 (if !(formValue body service.enable).isEmpty then 1 else 0))] := hsave
  rw [hsave'] at h ⊢
  rw [saveService_eq] at hcredentials h ⊢
  obtain ⟨hopen, hopen₁, hvisible₁⟩ := saveKeys_ok hcredentials
  obtain ⟨-, hopen₂, hvisible₂⟩ := saveKeys_ok h
  have hspec : SaveSpec (GpsBase.Settings.Saves.service service.name (credentials body service s)) s _ :=
    saveSpec_saveKeys _ s
  have hload := (hspec.complete hcredentials).1
  refine ⟨hopen, hopen₂, ?_, fun key hkey => ?_⟩
  · rw [← show _ = stored body service s from hload]
    refine loadService_congr (hopen₂.trans hopen₁.symm) fun suffix hsuffix => ?_
    rw [hvisible₂]
    refine putAll_of_notMem _ _ fun hmem => ?_
    rw [List.map_singleton, List.mem_singleton] at hmem
    simp only [serviceKey] at hmem
    rcases List.mem_cons.mp hsuffix with rfl | hsuffix
    · simp at hmem
    · rw [List.mem_singleton.mp hsuffix] at hmem
      simp at hmem
  · simp only [keys, List.mem_cons, List.not_mem_nil, or_false, not_or] at hkey
    rw [hvisible₂, putAll_of_notMem _ _ (by simpa using hkey.2.2), hvisible₁,
      putAll_of_notMem _ _ (by simpa [serviceKeys] using ⟨hkey.1, hkey.2.1⟩)]

theorem mem_keys {service : Service} {suffix : String} (h : suffix ∈ ["_mp", "_pw"]) :
    serviceKey service.name suffix ∈ keys service := by
  rcases List.mem_cons.mp h with rfl | h
  · exact List.mem_cons_self
  · rw [List.mem_singleton.mp h]
    exact List.mem_cons_of_mem _ List.mem_cons_self

/-- The credentials of a form where the stored ones are the same. -/
theorem stored_congr {body : List UInt8} {service : Service} {s t : Storage}
    (h : t.loadService service.name = s.loadService service.name) : stored body service t = stored body service s := by
  unfold stored credentials
  rw [h]

/-- **Forms that are saved** leave the credentials of each. -/
theorem saveForms_ok {body : List UInt8} : ∀ {forms : List Service} {s : Storage},
    (forms.flatMap keys).Nodup → (saveForms body forms s).2 = some ESP_OK →
      (∀ service ∈ forms, (saveForms body forms s).1.loadService service.name = stored body service s) ∧
      (saveForms body forms s).1.isOpen = s.isOpen ∧
      ∀ key ∉ forms.flatMap keys, (saveForms body forms s).1.nvs.visible key = s.nvs.visible key
  | [], s, _, _ => ⟨fun _ h => absurd h List.not_mem_nil, rfl, fun _ _ => rfl⟩
  | form :: forms, s, hnodup, h => by
    rw [List.flatMap_cons, List.nodup_append] at hnodup
    obtain ⟨-, hrest, hdisjoint⟩ := hnodup
    obtain ⟨hform, hstep⟩ := returnOnError_ok h
    have hstep' : saveForms body (form :: forms) s = saveForms body forms (saveForm body form s).1 := hstep
    rw [hstep'] at h ⊢
    obtain ⟨hopen, hopen₁, hload₁, hkeys₁⟩ := saveForm_ok hform
    obtain ⟨hload, hopen₂, hkeys⟩ := saveForms_ok hrest h
    refine ⟨fun service hservice => ?_, hopen₂.trans (hopen₁.trans hopen.symm), fun key hkey => ?_⟩
    · rcases List.mem_cons.mp hservice with rfl | hservice
      · rw [← hload₁]
        refine loadService_congr hopen₂ fun suffix hsuffix => hkeys _ fun hmem => ?_
        exact hdisjoint _ (mem_keys hsuffix) _ hmem rfl
      · rw [hload service hservice]
        refine stored_congr (loadService_congr (hopen₁.trans hopen.symm) fun suffix hsuffix => hkeys₁ _ fun hmem => ?_)
        exact hdisjoint _ hmem _ (List.mem_flatMap.mpr ⟨service, hservice, mem_keys hsuffix⟩) rfl
    · rw [List.flatMap_cons, List.mem_append, not_or] at hkey
      rw [hkeys key hkey.2, hkeys₁ key hkey.1]

/-- **What is handed to the push clients** after a form is saved. -/
theorem reloadService_config {s s' : Storage} {received : List UInt8} {service : Service}
    (h : configPost s received = (s', some .saved)) (hservice : service ∈ services) (client : Client) :
    (reloadService s' service client).config.mountpoint = (stored (readBody 2048 received) service s).mountpoint ∧
      (reloadService s' service client).config.password = (stored (readBody 2048 received) service s).password := by
  unfold configPost at h
  dsimp only at h
  split_ifs at h with hempty
  · cases h
  · have hsaved : (saveForms (readBody 2048 received) services s).2 = some ESP_OK := by
      have hreply := (Prod.mk.inj h).2
      obtain ⟨e, he, hsame⟩ := Option.map_eq_some_iff.mp hreply
      split_ifs at hsame with hok
      rw [he, not_not.mp hok]
    obtain ⟨hload, -⟩ := saveForms_ok (by decide +kernel) hsaved
    have hlast := hload service hservice
    rw [(Prod.mk.inj h).1] at hlast
    unfold reloadService Client.configure
    rw [hlast]
    exact ⟨rfl, rfl⟩

/-! ### What the caster is told -/

theorem plain_hostLine {service : Service} (h : service ∈ services) (base64 : List UInt8 → List UInt8) :
    GpsBase.Lib.Crlf.Plain (hostLine (service.constants base64)) := by
  have hall : ∀ service ∈ services, GpsBase.Lib.Crlf.Plain (hostLine (service.constants id)) := by decide +kernel
  exact hall service h

/-- **Every caster reads what was stored for it** exactly if no byte of it ends a field of its request. -/
theorem told_iff {base64 : List UInt8 → List UInt8} {unbase64 : List UInt8 → Option (List UInt8)}
    (hbase : Base64 base64 unbase64) {s s' : Storage} {received : List UInt8}
    (hpost : configPost s received = (s', some .saved)) {service : Service} (hservice : service ∈ services)
    (client : Client) :
    let k := service.constants base64
    let config := (reloadService s' service client).config
    let new := stored (readBody 2048 received) service s
    read unbase64 k.protocol (request k config.mountpoint config.password) =
        some (login k config.mountpoint config.password) ↔
      Clean service.protocol new.mountpoint new.password := by
  obtain ⟨hmountpoint, hpassword⟩ := reloadService_config hpost hservice client
  dsimp only
  rw [hmountpoint, hpassword]
  exact read_request_iff hbase (plain_hostLine hservice base64)

/-! ### Two forms -/

theorem base64_correct : Base64 GpsBase.Lib.Base64.encode GpsBase.Lib.Base64.decode where
  inverse := GpsBase.Lib.Base64.decode_encode
  plain text := ⟨fun h => absurd (GpsBase.Lib.Base64.mem_encode h).1 (by decide),
    fun h => absurd (GpsBase.Lib.Base64.mem_encode h).1 (by decide)⟩

/-- A form that enables RTK2go is saved on a new station. -/
def configured (password : String) : Storage × Option Reply :=
  configPost GpsBase.Web.Admin.blank.storage (ascii "r2g_en=on&r2g_mp=BASE&r2g_pw=" ++ ascii password)

theorem told_plain :
    let k := rtk2go.constants GpsBase.Lib.Base64.encode
    let config := (reloadService (configured "secret").1 rtk2go {}).config
    read GpsBase.Lib.Base64.decode k.protocol (request k config.mountpoint config.password) =
      some (login k config.mountpoint config.password) :=
  (told_iff base64_correct (Prod.ext rfl (by decide +kernel)) (by decide) {}).mpr (by decide +kernel)

/-- **A password of two words** is stored for an enabled service, and the caster cannot read the request. -/
theorem told_two_words :
    let k := rtk2go.constants GpsBase.Lib.Base64.encode
    let config := (reloadService (configured "my+secret").1 rtk2go {}).config
    (configured "my+secret").2 = some .saved ∧ config.enabled = true ∧
      config.mountpoint = ascii "BASE" ∧ config.password = ascii "my secret" ∧
      read GpsBase.Lib.Base64.decode k.protocol (request k config.mountpoint config.password) = none := by
  decide +kernel

end GpsBase.Web.ServiceForms
