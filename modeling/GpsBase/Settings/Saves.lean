import GpsBase.Settings.Records
import Mathlib.Data.List.TakeWhile

/-! # Saves that fail

A save writes its keys in order and stops at the first call that does not return `ESP_OK`, so the
record loaded afterwards is new up to the key it reached and old from there on. All five saves are
`saveKeys` of their own keys; what one of them leaves is said once, for any list of keys
(`saveKeys_spec`), and then for each record. -/

namespace GpsBase.Settings.Saves

open GpsBase.Lib.CText GpsBase.Lib.KeyValue
open GpsBase.Settings.Records GpsBase.Settings.Records.Storage

/-! ### Keys in order -/

/-- The keys are set in order and committed. -/
def saveKeys (s : Storage) : List (String × Value) → Storage × Option EspErr
  | [] => s.commit
  | (key, value) :: kvs => returnOnError (s.set key value) fun s => saveKeys s kvs

def positionKeys (p : BasePosition) : List (String × Value) :=
  [("lat", .blob p.lat.bytes), ("lon", .blob p.lon.bytes), ("hgt", .blob p.height.bytes),
    ("pos_valid", .u8 1)]

def adminPasswordKeys (password : List UInt8) : List (String × Value) :=
  [("admin_pw", .str (cStr password)), ("admin_set", .u8 1)]

def serviceKeys (service : String) (c : ServiceCredentials) : List (String × Value) :=
  [(serviceKey service "_mp", .str (cStr c.mountpoint)),
    (serviceKey service "_pw", .str (cStr c.password))]

def wifiKeys (ssid password : List UInt8) : List (String × Value) :=
  [("wifi_ssid", .str (cStr ssid)), ("wifi_pw", .str (cStr password))]

def antennaKeys (model radome : List UInt8) (height : Double) : List (String × Value) :=
  [("ant_model", .str (cStr model)), ("ant_radome", .str (cStr radome)), ("ant_h", .blob height.bytes)]

theorem savePosition_eq (s : Storage) (p : BasePosition) :
    s.savePosition p.lat p.lon p.height = saveKeys s (positionKeys p) := rfl

theorem saveAdminPassword_eq (s : Storage) (password : List UInt8) :
    s.saveAdminPassword password = saveKeys s (adminPasswordKeys password) := rfl

theorem saveService_eq (s : Storage) (service : String) (c : ServiceCredentials) :
    s.saveService service c = saveKeys s (serviceKeys service c) := rfl

theorem saveWifi_eq (s : Storage) (ssid password : List UInt8) :
    s.saveWifi ssid password = saveKeys s (wifiKeys ssid password) := rfl

theorem saveAntenna_eq (s : Storage) (model radome : List UInt8) (height : Double) :
    s.saveAntenna model radome height = saveKeys s (antennaKeys model radome height) := rfl

/-! ### What a save leaves -/

/-- How many of the next `n` calls return `ESP_OK` before one does not. -/
def okCalls (answers : ℕ → Answer) : ℕ → ℕ
  | 0 => 0
  | n + 1 => if answers 0 = .returns ESP_OK then okCalls (fun i => answers (i + 1)) n + 1 else 0

def result : Answer → Option EspErr
  | .returns e => some e
  | .powerLost => none

/-- What a save of `kvs` that gets through `j` of its sets leaves. -/
structure Leaves (s : Storage) (kvs : List (String × Value)) (j : ℕ) (r : Storage × Option EspErr) :
    Prop where
  isOpen : r.1.isOpen = s.isOpen
  visible : r.1.nvs.visible = putAll s.nvs.visible (kvs.take j)
  committed : r.2 = some ESP_OK →
    j = kvs.length ∧ r.1.nvs.committed = r.1.nvs.visible ∧ r.1.nvs.pending = []
  stopped : r.2 ≠ some ESP_OK → r.1.nvs.committed = s.nvs.committed ∧
    ∃ more, r.1.nvs.pending = s.nvs.pending ++ more ∧ more <+: kvs

theorem leaves_closed {s : Storage} (h : s.isOpen = false) (kvs : List (String × Value)) :
    saveKeys s kvs = (s, some ESP_ERR_INVALID_STATE) := by
  cases kvs with
  | nil => simp [saveKeys, commit, h]
  | cons kv kvs => simp [saveKeys, returnOnError, Storage.set, h, ESP_ERR_INVALID_STATE, ESP_OK]

theorem result_eq_ok {a : Answer} : result a = some ESP_OK ↔ a = .returns ESP_OK := by
  cases a <;> simp [result]

theorem set_ok {s : Storage} (h : s.isOpen = true) (ha : s.nvs.answers 0 = .returns ESP_OK)
    (key : String) (value : Value) :
    s.set key value = ({ s with nvs := { s.nvs.answered with
      visible := put s.nvs.visible key value
      pending := s.nvs.pending ++ [(key, value)] } }, some ESP_OK) := by
  simp [Storage.set, Nvs.set, h, ha]

theorem set_stop {s : Storage} (h : s.isOpen = true) (ha : s.nvs.answers 0 ≠ .returns ESP_OK)
    (key : String) (value : Value) (kvs : List (String × Value)) :
    Leaves s ((key, value) :: kvs) 0 (s.set key value) ∧
      (s.set key value).2 = result (s.nvs.answers 0) := by
  rcases hanswer : s.nvs.answers 0 with e | _
  · have he : e ≠ ESP_OK := fun he => ha (by rw [hanswer, he])
    have hset : s.set key value = ({ s with nvs := s.nvs.answered }, some e) := by
      simp [Storage.set, Nvs.set, h, hanswer, he]
    rw [hset]
    exact ⟨⟨rfl, rfl, fun h => absurd (Option.some.inj h) he,
      fun _ => ⟨rfl, [], (List.append_nil _).symm, List.nil_prefix⟩⟩, rfl⟩
  · have hset : s.set key value = ({ s with nvs := { s.nvs.answered with
        pending := s.nvs.pending ++ [(key, value)] } }, none) := by
      simp [Storage.set, Nvs.set, h, hanswer]
    rw [hset]
    exact ⟨⟨rfl, rfl, fun h => (by cases h),
      fun _ => ⟨rfl, [(key, value)], rfl, List.prefix_append [(key, value)] kvs⟩⟩, rfl⟩

theorem commit_spec {s : Storage} (h : s.isOpen = true) :
    Leaves s [] 0 s.commit ∧ s.commit.2 = result (s.nvs.answers 0) := by
  rcases hanswer : s.nvs.answers 0 with e | _
  · by_cases he : e = ESP_OK
    · have hcommit : s.commit = ({ s with nvs := { s.nvs.answered with
          committed := s.nvs.visible, pending := [] } }, some e) := by
        simp [Storage.commit, Nvs.commit, h, hanswer, he]
      rw [hcommit]
      exact ⟨⟨rfl, rfl, fun _ => ⟨rfl, rfl, rfl⟩, fun hne => absurd (congrArg some he) hne⟩, rfl⟩
    · have hcommit : s.commit = ({ s with nvs := s.nvs.answered }, some e) := by
        simp [Storage.commit, Nvs.commit, h, hanswer, he]
      rw [hcommit]
      exact ⟨⟨rfl, rfl, fun h => absurd (Option.some.inj h) he,
        fun _ => ⟨rfl, [], (List.append_nil _).symm, List.nil_prefix⟩⟩, rfl⟩
  · have hcommit : s.commit = ({ s with nvs := s.nvs.answered }, none) := by
      simp [Storage.commit, Nvs.commit, h, hanswer]
    rw [hcommit]
    exact ⟨⟨rfl, rfl, fun h => (by cases h),
      fun _ => ⟨rfl, [], (List.append_nil _).symm, List.nil_prefix⟩⟩, rfl⟩

/-- **What a save leaves**, and that its result is that of the first call that does not return
`ESP_OK`, or of the commit. -/
theorem saveKeys_spec (kvs : List (String × Value)) : ∀ {s : Storage}, s.isOpen = true →
    Leaves s kvs (okCalls s.nvs.answers kvs.length) (saveKeys s kvs) ∧
      (saveKeys s kvs).2 = result (s.nvs.answers (okCalls s.nvs.answers kvs.length)) := by
  induction kvs with
  | nil => exact fun h => commit_spec h
  | cons kv kvs ih =>
    intro s h
    obtain ⟨key, value⟩ := kv
    rw [saveKeys, List.length_cons, okCalls]
    by_cases ha : s.nvs.answers 0 = .returns ESP_OK
    · rw [set_ok h ha, if_pos ha, returnOnError, if_pos rfl]
      obtain ⟨hl, hr⟩ := ih (s := { s with nvs := { s.nvs.answered with
        visible := put s.nvs.visible key value
        pending := s.nvs.pending ++ [(key, value)] } }) h
      refine ⟨⟨hl.isOpen, hl.visible, fun hok => ?_, fun hstop => ?_⟩, hr⟩
      · obtain ⟨hj, hrest⟩ := hl.committed hok
        exact ⟨congrArg (· + 1) hj, hrest⟩
      · obtain ⟨hcommitted, more, hpending, hmore⟩ := hl.stopped hstop
        refine ⟨hcommitted, (key, value) :: more, ?_, List.prefix_cons_inj _ |>.mpr hmore⟩
        rw [hpending, List.append_assoc]
        rfl
    · obtain ⟨hl, hr⟩ := set_stop h ha key value kvs
      have hne : (s.set key value).2 ≠ some ESP_OK := by
        rw [hr, Ne, result_eq_ok]
        exact ha
      rw [returnOnError, if_neg hne, if_neg ha]
      exact ⟨hl, hr⟩

/-! ### Reads after a save -/

theorem cStr_cStr (s : List UInt8) : cStr (cStr s) = cStr s := by
  unfold cStr
  exact List.takeWhile_idem

section Reads

variable {s t : Storage} {key : String} {c : Prop} [Decidable c]

theorem getDouble_ite (hs : s.isOpen = true) (ht : t.isOpen = true) {d : Double}
    (h : t.nvs.visible key = if c then some (.blob d.bytes) else s.nvs.visible key)
    (dflt : Double) : t.getDouble key dflt = if c then d else s.getDouble key dflt := by
  unfold getDouble
  simp only [hs, ht, h, Bool.not_true, Bool.false_eq_true, if_false]
  by_cases hc : c
  · simp only [if_pos hc]
    exact dif_pos d.size
  · simp only [if_neg hc]

theorem getString_ite (hs : s.isOpen = true) (ht : t.isOpen = true) {v : List UInt8}
    (h : t.nvs.visible key = if c then some (.str (cStr v)) else s.nvs.visible key) :
    t.getString key = if c then cStr v else s.getString key := by
  unfold getString
  simp only [hs, ht, h, Bool.not_true, Bool.false_eq_true, if_false]
  by_cases hc : c
  · simp only [if_pos hc]
    exact cStr_cStr v
  · simp only [if_neg hc]

theorem getBool_ite (hs : s.isOpen = true) (ht : t.isOpen = true)
    (h : t.nvs.visible key = if c then some (.u8 1) else s.nvs.visible key) (dflt : Bool) :
    t.getBool key dflt = if c then true else s.getBool key dflt := by
  unfold getBool
  simp only [hs, ht, h, Bool.not_true, Bool.false_eq_true, if_false]
  by_cases hc : c
  · simp only [if_pos hc]
    rfl
  · simp only [if_neg hc]

end Reads

/-! ### Records -/

/-- The storage after a restart that finds `store`. -/
def found (store : Store String Value) : Storage :=
  ⟨true, ⟨store, store, [], fun _ => .returns ESP_OK⟩⟩

/-- A record to be saved: how it is loaded, its keys and values in the order they are set, the record
as it is loaded when all are set, and the record that is `new` in the fields whose keys `p` tells and
`old` in the others. -/
structure Record (R : Type) where
  load : Storage → R
  kvs : List (String × Value)
  new : R
  mix : (ℕ → Bool) → R → R
  load_congr : ∀ s t : Storage, s.isOpen = t.isOpen → s.nvs.visible = t.nvs.visible →
    load s = load t
  nodup : (kvs.map Prod.fst).Nodup
  load_mix : ∀ (p : ℕ → Bool) (s t : Storage), s.isOpen = true → t.isOpen = true →
    (∀ i key value, kvs[i]? = some (key, value) →
      t.nvs.visible key = if p i = true then some value else s.nvs.visible key) →
    load t = mix p (load s)
  mix_none : ∀ old, mix (fun _ => false) old = old
  mix_all : ∀ old, mix (fun i => decide (i < kvs.length)) old = new

theorem load_of_visible {s t : Storage} (ho : t.isOpen = s.isOpen)
    (hv : t.nvs.visible = s.nvs.visible) (key : String) :
    (∀ d, t.getDouble key d = s.getDouble key d) ∧ t.getString key = s.getString key ∧
      ∀ b, t.getBool key b = s.getBool key b := by
  unfold getDouble getString getBool
  rw [ho, hv]
  exact ⟨fun _ => rfl, rfl, fun _ => rfl⟩

/-- A position: `lat`, `lon`, `hgt`, and `pos_valid` last. -/
def position (new : BasePosition) : Record BasePosition where
  load := loadPosition
  kvs := positionKeys new
  new := { new with valid := true }
  mix p old := ⟨if p 0 then new.lat else old.lat, if p 1 then new.lon else old.lon,
    if p 2 then new.height else old.height, if p 3 then true else old.valid⟩
  load_congr s t ho hv := by
    unfold loadPosition
    simp only [(load_of_visible ho hv _).1, (load_of_visible ho hv _).2.2]
  nodup := by
    show ["lat", "lon", "hgt", "pos_valid"].Nodup
    decide
  load_mix p s t hs ht h := by
    unfold loadPosition
    rw [getDouble_ite hs ht (h 0 _ _ rfl), getDouble_ite hs ht (h 1 _ _ rfl),
      getDouble_ite hs ht (h 2 _ _ rfl), getBool_ite hs ht (h 3 _ _ rfl)]
  mix_none old := rfl
  mix_all old := rfl

/-- The admin password: `admin_pw`, and `admin_set` last. -/
def adminPassword (password : List UInt8) : Record AdminPassword where
  load := loadAdminPassword
  kvs := adminPasswordKeys password
  new := ⟨true, cStr password⟩
  mix p old := ⟨if p 1 then true else old.set, if p 0 then cStr password else old.password⟩
  load_congr s t ho hv := by
    unfold loadAdminPassword
    simp only [(load_of_visible ho hv _).2.1, (load_of_visible ho hv _).2.2]
  nodup := by
    show ["admin_pw", "admin_set"].Nodup
    decide
  load_mix p s t hs ht h := by
    unfold loadAdminPassword
    rw [getString_ite hs ht (h 0 _ _ rfl), getBool_ite hs ht (h 1 _ _ rfl)]
  mix_none old := rfl
  mix_all old := rfl

/-- The credentials of a service: its `_mp` key and its `_pw` key. -/
def service (name : String) (new : ServiceCredentials) : Record ServiceCredentials where
  load s := s.loadService name
  kvs := serviceKeys name new
  new := ⟨cStr new.mountpoint, cStr new.password⟩
  mix p old := ⟨if p 0 then cStr new.mountpoint else old.mountpoint,
    if p 1 then cStr new.password else old.password⟩
  load_congr s t ho hv := by
    unfold loadService
    simp only [(load_of_visible ho hv _).2.1]
  nodup := by
    show [name ++ "_mp", name ++ "_pw"].Nodup
    simp
  load_mix p s t hs ht h := by
    unfold loadService
    rw [getString_ite hs ht (h 0 _ _ rfl), getString_ite hs ht (h 1 _ _ rfl)]
  mix_none old := rfl
  mix_all old := rfl

/-- The WiFi credentials: `wifi_ssid`, which also decides `valid`, and `wifi_pw`. -/
def wifi (ssid password : List UInt8) : Record WifiCredentials where
  load := loadWifi
  kvs := wifiKeys ssid password
  new := ⟨cStr ssid, cStr password, !(cStr ssid).isEmpty⟩
  mix p old := ⟨if p 0 then cStr ssid else old.ssid, if p 1 then cStr password else old.password,
    if p 0 then !(cStr ssid).isEmpty else old.valid⟩
  load_congr s t ho hv := by
    unfold loadWifi
    simp only [(load_of_visible ho hv _).2.1]
  nodup := by
    show ["wifi_ssid", "wifi_pw"].Nodup
    decide
  load_mix p s t hs ht h := by
    unfold loadWifi
    rw [getString_ite hs ht (h 0 _ _ rfl), getString_ite hs ht (h 1 _ _ rfl)]
    rcases p 0 <;> rfl
  mix_none old := rfl
  mix_all old := rfl

/-- The antenna: `ant_model`, `ant_radome`, `ant_h`. -/
def antenna (model radome : List UInt8) (height : Double) : Record Antenna where
  load := loadAntenna
  kvs := antennaKeys model radome height
  new := ⟨orDefault (cStr model) "HXCGPS500", orDefault (cStr radome) "NONE", height⟩
  mix p old := ⟨if p 0 then orDefault (cStr model) "HXCGPS500" else old.model,
    if p 1 then orDefault (cStr radome) "NONE" else old.radome, if p 2 then height else old.height⟩
  load_congr s t ho hv := by
    unfold loadAntenna
    simp only [(load_of_visible ho hv _).1, (load_of_visible ho hv _).2.1]
  nodup := by
    show ["ant_model", "ant_radome", "ant_h"].Nodup
    decide
  load_mix p s t hs ht h := by
    unfold loadAntenna
    rw [getString_ite hs ht (h 0 _ _ rfl), getString_ite hs ht (h 1 _ _ rfl),
      getDouble_ite hs ht (h 2 _ _ rfl)]
    rcases p 0 <;> rcases p 1 <;> rfl
  mix_none old := rfl
  mix_all old := rfl

/-! ### Every save -/

/-- The number of sets of a save that return `ESP_OK`. -/
def setsDone (s : Storage) (n : ℕ) : ℕ := if s.isOpen then okCalls s.nvs.answers n else 0

/-- What a save does to its record. -/
structure SaveSpec {R : Type} (x : Record R) (s : Storage) (r : Storage × Option EspErr) : Prop where
  /-- The result is that of the first call that does not return `ESP_OK`, or of the commit. -/
  result : r.2 = if s.isOpen then result (s.nvs.answers (setsDone s x.kvs.length))
    else some ESP_ERR_INVALID_STATE
  /-- The fields set are new, the others old. -/
  load : x.load r.1 = x.mix (fun i => decide (i < setsDone s x.kvs.length)) (x.load s)
  /-- Other keys are as they were. -/
  frame : ∀ key ∉ x.kvs.map Prod.fst, r.1.nvs.visible key = s.nvs.visible key
  /-- A save that returns `ESP_OK` is complete and durable. -/
  complete : r.2 = some ESP_OK → x.load r.1 = x.new ∧
    ∀ store, Survives r.1.nvs.committed r.1.nvs.pending store → x.load (found store) = x.new
  /-- After a loss of power each field is new or as it could have been found before the save. -/
  torn : r.2 ≠ some ESP_OK → ∀ store, Survives r.1.nvs.committed r.1.nvs.pending store →
    ∃ store' p, Survives s.nvs.committed s.nvs.pending store' ∧
      x.load (found store) = x.mix p (x.load (found store'))

theorem mix_zero {R : Type} (x : Record R) (old : R) :
    x.mix (fun i => decide (i < 0)) old = old := by
  have h : (fun i : ℕ => decide (i < 0)) = fun _ => false := by
    funext i
    exact decide_eq_false (Nat.not_lt_zero i)
  rw [h, x.mix_none]

theorem load_putAll {R : Type} (x : Record R) {s t : Storage} (hs : s.isOpen = true)
    (ht : t.isOpen = true) {j : ℕ} (h : t.nvs.visible = putAll s.nvs.visible (x.kvs.take j)) :
    x.load t = x.mix (fun i => decide (i < j)) (x.load s) := by
  refine x.load_mix _ s t hs ht fun i key value hi => ?_
  rw [h, putAll_take x.nodup hi]
  simp only [decide_eq_true_eq]

/-- The record when each key holds what it held or its new value. -/
theorem load_torn {R : Type} (x : Record R) {s t : Storage} (hs : s.isOpen = true)
    (ht : t.isOpen = true)
    (h : ∀ key, t.nvs.visible key = s.nvs.visible key ∨
      ∃ value, (key, value) ∈ x.kvs ∧ t.nvs.visible key = some value) :
    ∃ p, x.load t = x.mix p (x.load s) := by
  refine ⟨fun i => (x.kvs[i]?).any fun kv => decide (t.nvs.visible kv.1 = some kv.2),
    x.load_mix _ s t hs ht fun i key value hi => ?_⟩
  rw [hi]
  simp only [Option.any_some, decide_eq_true_eq]
  split_ifs with hnew
  · exact hnew
  · rcases h key with h | ⟨value', hmem, h⟩
    · exact h
    · -- the keys are distinct, so the value found is the one at place `i`
      have hi' : (key, value) ∈ x.kvs := List.mem_of_getElem? hi
      have hsame := (putAll_of_mem _ s.nvs.visible x.nodup hmem).symm.trans
        (putAll_of_mem _ s.nvs.visible x.nodup hi')
      rw [hsame] at h
      exact absurd h hnew

theorem saveSpec_saveKeys {R : Type} (x : Record R) (s : Storage) :
    SaveSpec x s (saveKeys s x.kvs) := by
  rcases hopen : s.isOpen
  · rw [leaves_closed hopen]
    have hdone : setsDone s x.kvs.length = 0 := by simp [setsDone, hopen]
    refine ⟨by simp [hopen], ?_, fun _ _ => rfl, fun h => (by cases h), fun _ store hstore => ?_⟩
    · rw [hdone, mix_zero]
    · exact ⟨store, fun _ => false, hstore, (x.mix_none _).symm⟩
  · obtain ⟨hl, hr⟩ := saveKeys_spec x.kvs hopen
    have hdone : setsDone s x.kvs.length = okCalls s.nvs.answers x.kvs.length := by
      simp [setsDone, hopen]
    have hload := load_putAll x hopen (hl.isOpen.trans hopen) hl.visible
    refine ⟨?_, ?_, fun key hkey => ?_, fun hok => ?_, fun hstop store hstore => ?_⟩
    · rw [hdone, if_pos hopen]
      exact hr
    · rw [hdone]
      exact hload
    · rw [hl.visible]
      refine putAll_of_notMem _ _ fun hmem => hkey ?_
      rw [List.map_take] at hmem
      exact List.mem_of_mem_take hmem
    · obtain ⟨hj, hcommitted, hpending⟩ := hl.committed hok
      rw [hj, x.mix_all] at hload
      refine ⟨hload, fun store hstore => ?_⟩
      rw [hpending, hcommitted] at hstore
      rw [← hload]
      exact x.load_congr _ _ (hl.isOpen.trans hopen).symm (survives_nil hstore)
    · obtain ⟨hcommitted, more, hpending, hmore⟩ := hl.stopped hstop
      rw [hcommitted, hpending] at hstore
      obtain ⟨store', hstore', hnew⟩ := hstore.of_append
      obtain ⟨p, hp⟩ := load_torn x (s := found store') (t := found store) rfl rfl fun key => by
        rcases hnew key with h | ⟨value, hvalue, h⟩
        · exact Or.inl h
        · exact Or.inr ⟨value, hmore.subset hvalue, h⟩
      exact ⟨store', p, hstore', hp⟩

/-- **What the five saves leave**, for every stored state, every new value and every call that fails or
loses power. -/
theorem saves_in_order (s : Storage) :
    (∀ new, SaveSpec (position new) s (s.savePosition new.lat new.lon new.height)) ∧
    (∀ name new, SaveSpec (service name new) s (s.saveService name new)) ∧
    (∀ ssid password, SaveSpec (wifi ssid password) s (s.saveWifi ssid password)) ∧
    (∀ model radome height,
      SaveSpec (antenna model radome height) s (s.saveAntenna model radome height)) ∧
    ∀ password, SaveSpec (adminPassword password) s (s.saveAdminPassword password) :=
  ⟨fun new => saveSpec_saveKeys (position new) s, fun name new => saveSpec_saveKeys (service name new) s,
    fun ssid password => saveSpec_saveKeys (wifi ssid password) s,
    fun model radome height => saveSpec_saveKeys (antenna model radome height) s,
    fun password => saveSpec_saveKeys (adminPassword password) s⟩

/-! ### Saves that succeed -/

/-- The storage is open, and every call to come returns `ESP_OK`. -/
def Succeeds (s : Storage) : Prop := s.isOpen = true ∧ ∀ i, s.nvs.answers i = .returns ESP_OK

theorem saveKeys_succeeds (kvs : List (String × Value)) : ∀ {s : Storage}, Succeeds s →
    Succeeds (saveKeys s kvs).1 ∧ (saveKeys s kvs).2 = some ESP_OK ∧
      (saveKeys s kvs).1.nvs.visible = putAll s.nvs.visible kvs := by
  induction kvs with
  | nil =>
    rintro s ⟨hopen, hanswers⟩
    have hcommit : s.commit = ({ s with nvs := { s.nvs.answered with
        committed := s.nvs.visible, pending := [] } }, some ESP_OK) := by
      simp [Storage.commit, Nvs.commit, hopen, hanswers 0]
    rw [saveKeys, hcommit]
    exact ⟨⟨hopen, fun i => hanswers (i + 1)⟩, rfl, rfl⟩
  | cons kv kvs ih =>
    rintro s ⟨hopen, hanswers⟩
    obtain ⟨key, value⟩ := kv
    rw [saveKeys, set_ok hopen (hanswers 0), returnOnError, if_pos rfl]
    exact ih ⟨hopen, fun i => hanswers (i + 1)⟩

theorem savePosition_succeeds {s : Storage} (h : Succeeds s) (lat lon height : Double) :
    Succeeds (s.savePosition lat lon height).1 ∧ (s.savePosition lat lon height).2 = some ESP_OK ∧
      (s.savePosition lat lon height).1.loadPosition = ⟨lat, lon, height, true⟩ := by
  let new : BasePosition := ⟨lat, lon, height, true⟩
  obtain ⟨hsucceeds, hok, -⟩ := saveKeys_succeeds (positionKeys new) h
  have hspec : SaveSpec (position new) s (s.savePosition lat lon height) := saveSpec_saveKeys (position new) s
  exact ⟨hsucceeds, hok, (hspec.complete hok).1⟩

theorem loadPosition_saveKeys {s : Storage} (kvs : List (String × Value)) (h : Succeeds s)
    (hkeys : ∀ key ∈ ["lat", "lon", "hgt", "pos_valid"], key ∉ kvs.map Prod.fst) :
    (saveKeys s kvs).1.loadPosition = s.loadPosition := by
  obtain ⟨hsucceeds, -, hvisible⟩ := saveKeys_succeeds kvs h
  have hsame : ∀ key ∈ ["lat", "lon", "hgt", "pos_valid"],
      (saveKeys s kvs).1.nvs.visible key = s.nvs.visible key := by
    intro key hkey
    rw [hvisible, putAll_of_notMem _ _ (hkeys key hkey)]
  simp only [List.forall_mem_cons] at hsame
  obtain ⟨hlat, hlon, hheight, hvalid, -⟩ := hsame
  unfold loadPosition getDouble getBool
  rw [hsucceeds.1, h.1, hlat, hlon, hheight, hvalid]

/-! ### A position that is mixed -/

/-- A `double` of eight equal bytes. -/
def double (b : UInt8) : Double := ⟨List.replicate 8 b, rfl⟩

/-- A stored position, and no space left after one more set. -/
def almostFull : Storage where
  isOpen := true
  nvs :=
    { visible := putAll (fun _ => none) (positionKeys ⟨double 1, double 2, double 3, true⟩)
      committed := putAll (fun _ => none) (positionKeys ⟨double 1, double 2, double 3, true⟩)
      pending := []
      answers := fun i => .returns (if i = 0 then ESP_OK else 0x1105) }

/-- **A failed save leaves the new latitude with the old longitude and height**, and valid. -/
theorem position_mixed :
    almostFull.loadPosition = ⟨double 1, double 2, double 3, true⟩ ∧
      (almostFull.savePosition (double 4) (double 5) (double 6)).2 = some 0x1105 ∧
      (almostFull.savePosition (double 4) (double 5) (double 6)).1.loadPosition =
        ⟨double 4, double 2, double 3, true⟩ := by
  refine ⟨by decide, by decide, by decide⟩

end GpsBase.Settings.Saves
