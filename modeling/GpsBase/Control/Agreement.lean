import GpsBase.Control.Gating
import GpsBase.Control.Um980
import GpsBase.Lib.Machine
import GpsBase.Rinex.Sessions
import GpsBase.Rtcm.Framing
import GpsBase.Settings.Saves

/-! # Mode, logger, receiver and stored position agree

The station with the components it calls: the effects of an operation are carried out on storage, the
receiver and the logger in their order, and what the operation reads is read from storage. `Agree` says
what holds of all of them together; every operation of `run` ends in it (`agree_step`). -/

namespace GpsBase.Control.Agreement

open GpsBase.Lib GpsBase.Lib.Binary64 GpsBase.Lib.CText GpsBase.Rinex.Logger GpsBase.Rinex.Parts
  GpsBase.Rinex.Sessions
open GpsBase.Mailbox.Slots GpsBase.Rtcm.Framing GpsBase.Control.Modes
open GpsBase.Control.Modes.Station GpsBase.Control.Gating
open GpsBase.Control.Um980 (Receiver rtcmLogs rangeaLog coordinates)
open GpsBase.Settings.Records GpsBase.Settings.Saves

/-! ### The components -/

structure Parts where
  storage : Storage
  receiver : Receiver
  logger : RinexLogger

structure World where
  station : Station Double
  parts : Parts

section

variable (c : Clib) (value : Double → Float64)

namespace Parts

/-- A function of `Um980` on the receiver. -/
def configure (p : Parts) (cs : List Um980.Command) : Option Parts :=
  (p.receiver.configure cs).map fun r => { p with receiver := r }

/-- A call of a component; no result if a command of the receiver fails. -/
def effect (p : Parts) : Effect Double → Option Parts
  | .configureSurveyOutput => p.configure Um980.configureSurveyOutput
  | .configureBase lat lon height antennaModel =>
    p.configure (Um980.configureBase (value lat) (value lon) (value height) antennaModel)
  | .configureRawOutput => p.configure Um980.configureRawOutput
  | .configureSignalGroup => p.configure Um980.configureSignalGroup
  | .rinexStart lat lon height antennaModel antennaRadome antennaHeight =>
    some { p with
      logger := p.logger.start c (value lat) (value lon) (value height) antennaModel antennaRadome
        (value antennaHeight) }
  | .rinexFeed data => some { p with logger := p.logger.feed c data }
  | .rinexStop => some { p with logger := p.logger.stop c }
  | .savePosition lat lon height => some { p with storage := (p.storage.savePosition lat lon height).1 }
  | .clearPosition => some { p with storage := p.storage.clearPosition.1 }
  | .setNtripStreamsEnabled enabled =>
    some { p with storage := (p.storage.setNtripStreamsEnabled enabled).1 }
  | .uartFlushInput | .surveyStart | .surveyReset | .configureService _ _ _ _ => some p

/-- Calls in their order. -/
def effects (p : Parts) (es : List (Effect Double)) : Option Parts := es.foldlM (effect c value) p

/-- What an operation reads from storage. -/
def answers (p : Parts) (now : ℤ) (saved : Bool) : Answers Double where
  now := now
  saved := saved
  position :=
    { lat := p.storage.loadPosition.lat, lon := p.storage.loadPosition.lon
      height := p.storage.loadPosition.height, valid := p.storage.loadPosition.valid }
  antennaModel := p.storage.loadAntenna.model
  antennaRadome := p.storage.loadAntenna.radome
  antennaHeight := p.storage.loadAntenna.height

/-- `save_position` returns `ESP_OK`. -/
def saves (p : Parts) (lat lon height : Double) : Bool :=
  (p.storage.savePosition lat lon height).2 = some ESP_OK

end Parts

/-! ### Operations -/

/-- What `run` does next, or another task. -/
inductive Event
  | action (action : Action Double) (exit now : ℤ)
  | surveyCompleted (lat lon height : Double) (now : ℤ)
  | data (data : List UInt8) (now : ℤ) (pushed : PushDestination → SlotIndex → Bool)
  | rateCheck (now : ℤ)
  | call (call : Call)
  | saveAntenna (model radome : List UInt8) (height : Double)

/-- A position that `save_position` is given by an action. -/
def savedBy (p : Parts) : Action Double → Bool
  | .kPosition lat lon height => p.saves lat lon height
  | _ => false

/-- The station after an event, before its calls are carried out. -/
def react (w : World) : Event → Station Double
  | .action action exit now =>
    w.station.handleAction action (w.parts.answers exit (savedBy w.parts action))
      (w.parts.answers now (savedBy w.parts action))
  | .surveyCompleted lat lon height now =>
    w.station.surveyCompleted lat lon height (w.parts.answers now (w.parts.saves lat lon height))
  | .data data now pushed =>
    match w.station.mode with
    | .kSurvey => w.station
    | .kTransmit =>
      if w.station.rawCollection then w.station.act (.rinexFeed data)
      else w.station.readDataUart data now pushed
  | .rateCheck now => w.station.rateCheck now
  | .call call => w.station.call call
  | .saveAntenna _ _ _ => w.station

/-- The calls of an operation are carried out. -/
def World.settle (w : World) (s : Station Double) : Option World :=
  (w.parts.effects c value (s.effects.drop w.station.effects.length)).map fun p => ⟨s, p⟩

def step (w : World) (e : Event) : Option World :=
  match e with
  | .saveAntenna model radome height =>
    some { w with parts := { w.parts with storage := (w.parts.storage.saveAntenna model radome height).1 } }
  | e => w.settle c value (react w e)

/-- The start of `run`. -/
def boot (w : World) (now : ℤ) : Option World :=
  w.settle c value (w.station.boot (w.parts.answers now false) now)

end

/-! ### Agreement -/

/-- **Mode, raw collection, logger, receiver and stored position agree.** -/
structure Agree (value : Double → Float64) (mode : BaseMode) (raw : Bool) (p : Parts) : Prop where
  transmits : raw = true → mode = .kTransmit
  active : p.logger.active = raw
  closed : raw = false → p.logger.file = none
  rangea : p.receiver.now.logs.getLast? = some rangeaLog ↔ raw = true
  silent : mode = .kSurvey → p.receiver.now.logs = []
  rtcm : mode = .kTransmit → raw = false → rtcmLogs <:+ p.receiver.now.logs
  position : mode = .kTransmit → p.storage.loadPosition.valid = true ∧
    p.receiver.now.base = some (coordinates (value p.storage.loadPosition.lat)
      (value p.storage.loadPosition.lon) (value p.storage.loadPosition.height))

def World.Agrees (value : Double → Float64) (w : World) : Prop :=
  Agree value w.station.mode w.station.rawCollection w.parts

/-! ### The station's calls -/

variable {D : Type}

/-- The calls of `exit_raw_collection`. -/
def exitCalls (raw : Bool) (a : Answers D) : List (Effect D) :=
  if raw then
    [.rinexStop, .uartFlushInput,
      .configureBase a.position.lat a.position.lon a.position.height a.antennaModel]
  else []

/-- The calls of `enter_survey`. -/
def surveyCalls (clearPosition : Bool) : List (Effect D) :=
  (if clearPosition then [.clearPosition] else []) ++
    [.uartFlushInput, .surveyStart, .configureSurveyOutput]

/-- The calls of `enter_transmit`. -/
def transmitCalls (lat lon height : D) (a : Answers D) : List (Effect D) :=
  [.surveyReset, .uartFlushInput, .configureBase lat lon height a.antennaModel]

/-- The calls of `save_position` and `enter_transmit`. -/
def saveCalls (lat lon height : D) (a : Answers D) : List (Effect D) :=
  .savePosition lat lon height :: if a.saved then transmitCalls lat lon height a else []

theorem exit_spec (s : Station D) (a : Answers D) :
    (s.exitRawCollection a).mode = s.mode ∧ (s.exitRawCollection a).rawCollection = false ∧
      (s.exitRawCollection a).effects = s.effects ++ exitCalls s.rawCollection a := by
  unfold Station.exitRawCollection exitCalls
  rcases hraw : s.rawCollection
  · exact ⟨rfl, hraw, (List.append_nil _).symm⟩
  · refine ⟨rfl, rfl, ?_⟩
    show s.effects ++ [_] ++ [_] ++ [_] = _
    simp only [List.append_assoc, if_true, List.cons_append, List.nil_append]

theorem survey_spec (s : Station D) (clear : Bool) (a : Answers D) :
    (s.enterSurvey clear a).mode = .kSurvey ∧ (s.enterSurvey clear a).rawCollection = s.rawCollection ∧
      (s.enterSurvey clear a).effects = s.effects ++ surveyCalls clear := by
  unfold Station.enterSurvey surveyCalls
  cases clear
  · refine ⟨rfl, rfl, ?_⟩
    show s.effects ++ [_] ++ [_] ++ [_] = _
    simp only [List.append_assoc, List.singleton_append]
    rfl
  · refine ⟨rfl, rfl, ?_⟩
    show s.effects ++ [_] ++ [_] ++ [_] ++ [_] = _
    simp only [List.append_assoc, List.singleton_append]
    rfl

theorem transmit_spec (s : Station D) (lat lon height : D) (a : Answers D) :
    (s.enterTransmit lat lon height a).mode = .kTransmit ∧
      (s.enterTransmit lat lon height a).rawCollection = s.rawCollection ∧
      (s.enterTransmit lat lon height a).effects = s.effects ++ transmitCalls lat lon height a := by
  refine ⟨rfl, rfl, ?_⟩
  show s.effects ++ [_] ++ [_] ++ [_] = _
  simp only [List.append_assoc, List.singleton_append]
  rfl

theorem save_spec (s : Station D) (lat lon height : D) (a : Answers D) :
    (s.saveAndTransmit lat lon height a).rawCollection = s.rawCollection ∧
      (s.saveAndTransmit lat lon height a).mode = (if a.saved then .kTransmit else s.mode) ∧
      (s.saveAndTransmit lat lon height a).effects = s.effects ++ saveCalls lat lon height a := by
  unfold Station.saveAndTransmit saveCalls
  rcases a.saved
  · exact ⟨rfl, rfl, rfl⟩
  · refine ⟨rfl, rfl, ?_⟩
    show ((s.act _).enterTransmit lat lon height a).effects = _
    rw [(transmit_spec _ lat lon height a).2.2]
    show s.effects ++ [_] ++ _ = _
    rw [List.append_assoc, List.singleton_append, if_pos rfl]

theorem read_spec (s : Station D) (data : List UInt8) (now : ℤ)
    (pushed : PushDestination → SlotIndex → Bool) :
    (s.readDataUart data now pushed).mode = s.mode ∧
      (s.readDataUart data now pushed).rawCollection = s.rawCollection ∧
      (s.readDataUart data now pushed).effects = s.effects := by
  have hread := feed_induction (P := fun t : Station D =>
    t.mode = s.mode ∧ t.rawCollection = s.rawCollection ∧ t.effects = s.effects) now
    (fun t p ht => ht) (fun t frame ht => ?_) data s ⟨rfl, rfl, rfl⟩
  · exact hread
  · unfold Station.publishRtcmFrame
    split_ifs
    · exact ht
    · rcases t.hasRtcmData
      · exact ht
      · exact ht

theorem rateCheck_spec (s : Station D) (now : ℤ) : (s.rateCheck now).mode = s.mode ∧
    (s.rateCheck now).rawCollection = s.rawCollection ∧ (s.rateCheck now).effects = s.effects := by
  unfold Station.rateCheck
  dsimp only
  split_ifs
  · exact ⟨rfl, rfl, rfl⟩
  · exact ⟨rfl, rfl, rfl⟩
  · exact ⟨rfl, rfl, rfl⟩

theorem call_spec (s : Station D) (call : Call) : (s.call call).mode = s.mode ∧
    (s.call call).rawCollection = s.rawCollection ∧ ∃ es, (s.call call).effects = s.effects ++ es ∧
      ∀ e ∈ es, (∃ b, e = .setNtripStreamsEnabled b) ∨ ∃ d b m p, e = .configureService d b m p := by
  cases call with
  | setStreamsSuspended b => exact ⟨rfl, rfl, [], (List.append_nil _).symm, by simp⟩
  | setStreamsEnabled b =>
    exact ⟨rfl, rfl, [.setNtripStreamsEnabled b], rfl, fun e he => Or.inl ⟨b, List.mem_singleton.mp he⟩⟩
  | applyPersistedStreams b => exact ⟨rfl, rfl, [], (List.append_nil _).symm, by simp⟩
  | setNetworkAvailable b =>
    unfold Station.call Station.setNetworkAvailable
    dsimp only
    split_ifs
    · exact ⟨rfl, rfl, [], (List.append_nil _).symm, by simp⟩
    · exact ⟨rfl, rfl, [], (List.append_nil _).symm, by simp⟩
  | reloadServices services =>
    refine ⟨rfl, rfl, [PushDestination.kPushRtk2go, .kPushOnocoy, .kPushRtkdata].map fun d =>
      .configureService d (services d).1 (services d).2.1 (services d).2.2, ?_, ?_⟩
    · show s.effects ++ [_] ++ [_] ++ [_] = _
      rw [List.append_assoc, List.append_assoc]
      rfl
    · intro e he
      obtain ⟨d, -, rfl⟩ := List.mem_map.mp he
      exact Or.inr ⟨d, _, _, _, rfl⟩

/-! ### The components' part -/

variable {c : Clib} {value : Double → Float64} {p q : Parts}

theorem configure_eq_some {cs : List Um980.Command} (h : p.configure cs = some q) :
    ∃ r, p.receiver.configure cs = some r ∧ q = { p with receiver := r } := by
  obtain ⟨r, hr, rfl⟩ := Option.map_eq_some_iff.mp h
  exact ⟨r, hr, rfl⟩

theorem effects_append {es es' : List (Effect Double)} {r : Parts}
    (h : p.effects c value (es ++ es') = some r) :
    ∃ q, p.effects c value es = some q ∧ q.effects c value es' = some r := by
  unfold Parts.effects at h ⊢
  rw [List.foldlM_append, Option.bind_eq_bind, Option.bind_eq_some_iff] at h
  exact h

theorem effects_cons {e : Effect Double} {es : List (Effect Double)} {r : Parts}
    (h : p.effects c value (e :: es) = some r) :
    ∃ q, p.effect c value e = some q ∧ q.effects c value es = some r := by
  unfold Parts.effects at h ⊢
  rw [List.foldlM_cons, Option.bind_eq_bind, Option.bind_eq_some_iff] at h
  exact h

theorem getLast_rtcm {logs : List (List UInt8)} (h : rtcmLogs <:+ logs) :
    logs.getLast? ≠ some rangeaLog := by
  obtain ⟨before, rfl⟩ := h
  have hne : rtcmLogs ≠ [] := by decide
  rw [List.getLast?_append_of_ne_nil _ hne]
  decide +kernel

theorem agree_survey (hrest : AtRest p.logger) (h : p.configure Um980.configureSurveyOutput = some q) :
    Agree value .kSurvey false q := by
  obtain ⟨r, hr, rfl⟩ := configure_eq_some h
  have hlogs := Um980.configureSurveyOutput_spec hr
  refine ⟨fun h => (by cases h), hrest.1, fun _ => hrest.2, ?_, fun _ => hlogs, fun h => (by cases h),
    fun h => (by cases h)⟩
  rw [hlogs]
  exact ⟨fun h => (by cases h), fun h => (by cases h)⟩

/-- **Base mode at the stored position.** -/
theorem agree_base {antennaModel : List UInt8} (hrest : AtRest p.logger)
    (hvalid : p.storage.loadPosition.valid = true)
    (h : p.configure (Um980.configureBase (value p.storage.loadPosition.lat)
      (value p.storage.loadPosition.lon) (value p.storage.loadPosition.height) antennaModel) = some q) :
    Agree value .kTransmit false q := by
  obtain ⟨r, hr, rfl⟩ := configure_eq_some h
  obtain ⟨hlogs, hbase⟩ := Um980.configureBase_spec hr
  exact ⟨fun h => (by cases h), hrest.1, fun _ => hrest.2,
    ⟨fun h => absurd h (getLast_rtcm hlogs), fun h => (by cases h)⟩, fun h => (by cases h),
    fun _ _ => hlogs, fun _ => ⟨hvalid, hbase⟩⟩

theorem atRest_stop {l : RinexLogger} (h : l.active = true) : AtRest (l.stop c) := by
  unfold RinexLogger.stop
  rw [h, Bool.not_true, if_neg Bool.false_ne_true]
  refine ⟨active_closeFile c _, ?_⟩
  unfold RinexLogger.closeFile
  split
  · assumption
  · rfl

theorem Agree.atRest {mode : BaseMode} (h : Agree value mode false p) : AtRest p.logger :=
  ⟨h.active, h.closed rfl⟩

/-- **Raw collection ends** in base mode, or was none. -/
theorem agree_exit {mode : BaseMode} {raw : Bool} {now : ℤ} {saved : Bool} (h : Agree value mode raw p)
    (he : p.effects c value (exitCalls raw (p.answers now saved)) = some q) :
    Agree value mode false q ∧ q.storage = p.storage := by
  cases raw with
  | false =>
    cases he
    exact ⟨h, rfl⟩
  | true =>
    obtain rfl := h.transmits rfl
    obtain ⟨hvalid, -⟩ := h.position rfl
    have hconfigure : ({ p with logger := p.logger.stop c } : Parts).configure
        (Um980.configureBase (value p.storage.loadPosition.lat) (value p.storage.loadPosition.lon)
          (value p.storage.loadPosition.height) p.storage.loadAntenna.model) = some q := by
      obtain ⟨_, h1, he⟩ := effects_cons he
      cases h1
      obtain ⟨_, h2, he⟩ := effects_cons he
      cases h2
      obtain ⟨r, h3, he⟩ := effects_cons he
      cases he
      exact h3
    obtain ⟨r, -, hq⟩ := configure_eq_some hconfigure
    exact ⟨agree_base (p := { p with logger := p.logger.stop c }) (atRest_stop h.active) hvalid hconfigure,
      by rw [hq]⟩

theorem agree_surveyCalls {clear : Bool} (hrest : AtRest p.logger) (hs : Succeeds p.storage)
    (he : p.effects c value (surveyCalls clear) = some q) :
    Agree value .kSurvey false q ∧ Succeeds q.storage := by
  have hrun : ∀ {p : Parts}, AtRest p.logger → Succeeds p.storage →
      p.effects c value [.uartFlushInput, .surveyStart, .configureSurveyOutput] = some q →
      Agree value .kSurvey false q ∧ Succeeds q.storage := by
    intro p hrest hs he
    obtain ⟨_, h1, he⟩ := effects_cons he
    cases h1
    obtain ⟨_, h2, he⟩ := effects_cons he
    cases h2
    obtain ⟨r, h3, he⟩ := effects_cons he
    cases he
    obtain ⟨r, -, rfl⟩ := configure_eq_some h3
    exact ⟨agree_survey hrest h3, hs⟩
  cases clear with
  | false => exact hrun hrest hs he
  | true =>
    obtain ⟨_, h1, he⟩ := effects_cons he
    cases h1
    refine hrun (p := { p with storage := p.storage.clearPosition.1 }) hrest ?_ he
    exact (saveKeys_succeeds [("pos_valid", .u8 0)] hs).1

theorem agree_transmitCalls {lat lon height : Double} {a : Answers Double} (hrest : AtRest p.logger)
    (hposition : p.storage.loadPosition = ⟨lat, lon, height, true⟩)
    (he : p.effects c value (transmitCalls lat lon height a) = some q) :
    Agree value .kTransmit false q ∧ q.storage = p.storage := by
  obtain ⟨_, h1, he⟩ := effects_cons he
  cases h1
  obtain ⟨_, h2, he⟩ := effects_cons he
  cases h2
  obtain ⟨r, h3, he⟩ := effects_cons he
  cases he
  have hconfigure : p.configure (Um980.configureBase (value p.storage.loadPosition.lat)
      (value p.storage.loadPosition.lon) (value p.storage.loadPosition.height) a.antennaModel) =
      some q := by
    rw [hposition]
    exact h3
  obtain ⟨r, -, hq⟩ := configure_eq_some h3
  exact ⟨agree_base hrest (by rw [hposition]) hconfigure, by rw [hq]⟩

/-- **A saved position** is the base's. -/
theorem agree_saveCalls {lat lon height : Double} {a : Answers Double} (hrest : AtRest p.logger)
    (hs : Succeeds p.storage) (hsaved : a.saved = true)
    (he : p.effects c value (saveCalls lat lon height a) = some q) :
    Agree value .kTransmit false q ∧ Succeeds q.storage := by
  unfold saveCalls at he
  rw [hsaved, if_pos rfl] at he
  obtain ⟨_, h1, he⟩ := effects_cons he
  cases h1
  obtain ⟨hs', -, hposition⟩ := savePosition_succeeds hs lat lon height
  obtain ⟨hagree, hstorage⟩ := agree_transmitCalls
    (p := { p with storage := (p.storage.savePosition lat lon height).1 }) hrest hposition he
  exact ⟨hagree, hstorage ▸ hs'⟩

/-- **Raw collection begins** from base mode. -/
theorem agree_raw {lat lon height antennaHeight : Double} {antennaModel antennaRadome : List UInt8}
    (h : Agree value .kTransmit false p) (he : p.effects c value [.uartFlushInput, .configureRawOutput,
      .rinexStart lat lon height antennaModel antennaRadome antennaHeight] = some q) :
    Agree value .kTransmit true q ∧ q.storage = p.storage := by
  obtain ⟨_, h1, he⟩ := effects_cons he
  cases h1
  obtain ⟨s, h2, he⟩ := effects_cons he
  obtain ⟨r, hr, rfl⟩ := configure_eq_some h2
  obtain ⟨_, h3, he⟩ := effects_cons he
  cases h3
  cases he
  obtain ⟨hlogs, hbase⟩ := Um980.configureRawOutput_spec hr
  refine ⟨⟨fun _ => rfl, ?_, fun h => (by cases h), ⟨fun _ => rfl, fun _ => ?_⟩, fun h => (by cases h),
    fun _ h => (by cases h), fun _ => ?_⟩, rfl⟩
  · show (p.logger.start c _ _ _ _ _ _).active = true
    unfold RinexLogger.start
    rw [h.active, if_neg Bool.false_ne_true]
  · show r.now.logs.getLast? = some rangeaLog
    rw [hlogs]
    rfl
  · show _ ∧ r.now.base = _
    rw [hbase]
    exact h.position rfl

/-! ### Every run -/

theorem settle_spec {w w' : World} {s : Station Double} (es : List (Effect Double))
    (h : w.settle c value s = some w') (hes : s.effects = w.station.effects ++ es) :
    w'.station = s ∧ w.parts.effects c value es = some w'.parts := by
  unfold World.settle at h
  rw [hes, List.drop_left] at h
  obtain ⟨p, hp, rfl⟩ := Option.map_eq_some_iff.mp h
  exact ⟨rfl, hp⟩

/-- The agreement, over a storage whose writes succeed. -/
structure Inv (value : Double → Float64) (w : World) : Prop where
  agrees : w.Agrees value
  succeeds : Succeeds w.parts.storage

theorem agrees_of {w : World} {mode : BaseMode} {raw : Bool} (h : Agree value mode raw w.parts)
    (hmode : w.station.mode = mode) (hraw : w.station.rawCollection = raw) : w.Agrees value := by
  unfold World.Agrees
  rw [hmode, hraw]
  exact h

theorem Inv.same {w w' : World} (h : Inv value w) {s : Station Double}
    (hw : w.settle c value s = some w') (hmode : s.mode = w.station.mode)
    (hraw : s.rawCollection = w.station.rawCollection) (heffects : s.effects = w.station.effects) :
    Inv value w' := by
  obtain ⟨hstation, hparts⟩ := settle_spec [] hw (heffects.trans (List.append_nil _).symm)
  have hsame : w.parts = w'.parts := Option.some.inj hparts
  have hagree : Agree value w.station.mode w.station.rawCollection w'.parts := hsame ▸ h.agrees
  refine ⟨agrees_of hagree ?_ ?_, hsame ▸ h.succeeds⟩
  · rw [hstation, hmode]
  · rw [hstation, hraw]

theorem inv_startRaw {w w' : World} (h : Inv value w) {a : Answers Double}
    (hw : w.settle c value (w.station.enterRawCollection a) = some w') : Inv value w' := by
  unfold Station.enterRawCollection at hw
  by_cases hmode : w.station.mode ≠ .kTransmit
  · rw [if_pos hmode] at hw
    exact h.same hw rfl rfl rfl
  · rw [if_neg hmode] at hw
    rw [not_not] at hmode
    by_cases hraw : w.station.rawCollection = true
    · rw [if_pos hraw] at hw
      exact h.same hw rfl rfl rfl
    · rw [if_neg hraw] at hw
      rw [Bool.not_eq_true] at hraw
      dsimp only at hw
      have hagree := h.agrees
      unfold World.Agrees at hagree
      rw [hmode, hraw] at hagree
      obtain ⟨hstation, hparts⟩ := settle_spec [.uartFlushInput, .configureRawOutput,
          .rinexStart a.position.lat a.position.lon a.position.height a.antennaModel a.antennaRadome
            a.antennaHeight] hw (by
        show w.station.effects ++ [_] ++ [_] ++ [_] = _
        rw [List.append_assoc, List.append_assoc]
        rfl)
      obtain ⟨hnew, hstorage⟩ := agree_raw hagree hparts
      refine ⟨agrees_of hnew ?_ ?_, hstorage ▸ h.succeeds⟩
      · rw [hstation]
        exact hmode
      · rw [hstation]
        rfl

theorem inv_resetUm980 {w w' : World} (h : Inv value w) {now : ℤ} {saved : Bool}
    (hw : w.settle c value (w.station.resetUm980 (w.parts.answers now saved)) = some w') :
    Inv value w' := by
  unfold Station.resetUm980 at hw
  by_cases hstay : w.station.mode ≠ .kTransmit ∨ w.station.rawCollection = true
  · rw [if_pos hstay] at hw
    exact h.same hw rfl rfl rfl
  · rw [if_neg hstay] at hw
    rw [not_or, not_not, Bool.not_eq_true] at hstay
    obtain ⟨hmode, hraw⟩ := hstay
    dsimp only at hw
    have hagree := h.agrees
    unfold World.Agrees at hagree
    rw [hmode, hraw] at hagree
    obtain ⟨hvalid, -⟩ := hagree.position rfl
    obtain ⟨hstation, hparts⟩ := settle_spec [.configureSignalGroup, .uartFlushInput,
        .configureBase w.parts.storage.loadPosition.lat w.parts.storage.loadPosition.lon
          w.parts.storage.loadPosition.height w.parts.storage.loadAntenna.model] hw (by
      show w.station.effects ++ [_] ++ [_] ++ [_] = _
      rw [List.append_assoc, List.append_assoc]
      rfl)
    obtain ⟨p, h1, hparts⟩ := effects_cons hparts
    obtain ⟨r, -, rfl⟩ := configure_eq_some h1
    obtain ⟨_, h2, hparts⟩ := effects_cons hparts
    cases h2
    obtain ⟨q, h3, hparts⟩ := effects_cons hparts
    have hnew : Agree value .kTransmit false q :=
      agree_base (p := { w.parts with receiver := r }) hagree.atRest hvalid h3
    obtain ⟨r', -, hq⟩ := configure_eq_some h3
    have hsame : q = w'.parts := Option.some.inj hparts
    refine ⟨agrees_of (hsame ▸ hnew) ?_ ?_, ?_⟩
    · rw [hstation]
      exact hmode
    · rw [hstation]
      exact hraw
    · rw [← hsame, hq]
      exact h.succeeds

theorem inv_afterExit {w w' : World} (es : List (Effect Double)) (h : Inv value w) {now : ℤ}
    {saved : Bool} {s : Station Double} (hw : w.settle c value s = some w')
    (heffects : s.effects =
      (w.station.exitRawCollection (w.parts.answers now saved)).effects ++ es) :
    ∃ p, Agree value w.station.mode false p ∧ Succeeds p.storage ∧ w'.station = s ∧
      p.effects c value es = some w'.parts := by
  rw [(exit_spec w.station _).2.2, List.append_assoc] at heffects
  obtain ⟨hstation, hparts⟩ := settle_spec _ hw heffects
  obtain ⟨p, hp, hparts⟩ := effects_append hparts
  obtain ⟨hagree, hstorage⟩ := agree_exit h.agrees hp
  exact ⟨p, hagree, hstorage ▸ h.succeeds, hstation, hparts⟩

theorem inv_action {w w' : World} (h : Inv value w) {action : Action Double} {exit now : ℤ}
    (hw : w.settle c value (react w (.action action exit now)) = some w') : Inv value w' := by
  cases action with
  | kSurvey =>
    obtain ⟨hmode, hraw, heffects⟩ := survey_spec
      (w.station.exitRawCollection (w.parts.answers exit false)) true (w.parts.answers now false)
    obtain ⟨p, hagree, hs, hstation, hparts⟩ := inv_afterExit _ h hw heffects
    obtain ⟨hnew, hs'⟩ := agree_surveyCalls hagree.atRest hs hparts
    refine ⟨agrees_of hnew ?_ ?_, hs'⟩
    · rw [hstation]
      exact hmode
    · rw [hstation]
      exact hraw.trans (exit_spec _ _).2.1
  | kPosition lat lon height =>
    have hsaved : w.parts.saves lat lon height = true :=
      decide_eq_true (savePosition_succeeds h.succeeds lat lon height).2.1
    obtain ⟨hraw, hmode, heffects⟩ := save_spec
      (w.station.exitRawCollection (w.parts.answers exit (w.parts.saves lat lon height))) lat lon height
      (w.parts.answers now (w.parts.saves lat lon height))
    obtain ⟨p, hagree, hs, hstation, hparts⟩ := inv_afterExit _ h hw heffects
    obtain ⟨hnew, hs'⟩ := agree_saveCalls hagree.atRest hs hsaved hparts
    refine ⟨agrees_of hnew ?_ ?_, hs'⟩
    · rw [hstation]
      exact hmode.trans (if_pos hsaved)
    · rw [hstation]
      exact hraw.trans (exit_spec _ _).2.1
  | kStartRaw => exact inv_startRaw h hw
  | kStopRaw =>
    obtain ⟨hmode, hraw, heffects⟩ := exit_spec w.station (w.parts.answers exit false)
    obtain ⟨p, hagree, hs, hstation, hparts⟩ :=
      inv_afterExit [] h hw (List.append_nil _).symm
    have hsame : p = w'.parts := Option.some.inj hparts
    refine ⟨agrees_of (hsame ▸ hagree) ?_ ?_, hsame ▸ hs⟩
    · rw [hstation]
      exact hmode
    · rw [hstation]
      exact hraw
  | kResetUm980 => exact inv_resetUm980 h hw

theorem inv_surveyCompleted {w w' : World} (h : Inv value w) {lat lon height : Double} {now : ℤ}
    (hw : w.settle c value (react w (.surveyCompleted lat lon height now)) = some w') : Inv value w' := by
  unfold react Station.surveyCompleted at hw
  dsimp only at hw
  by_cases hmode : w.station.mode = .kSurvey
  · rw [if_pos hmode] at hw
    have hsaved : w.parts.saves lat lon height = true :=
      decide_eq_true (savePosition_succeeds h.succeeds lat lon height).2.1
    have hagree := h.agrees
    unfold World.Agrees at hagree
    have hraw : w.station.rawCollection = false := by
      by_contra htrue
      have htransmit := hagree.transmits (by simpa using htrue)
      rw [hmode] at htransmit
      cases htransmit
    rw [hmode, hraw] at hagree
    obtain ⟨hraw', hmode', heffects⟩ := save_spec w.station lat lon height
      (w.parts.answers now (w.parts.saves lat lon height))
    obtain ⟨hstation, hparts⟩ := settle_spec _ hw heffects
    obtain ⟨hnew, hs'⟩ := agree_saveCalls hagree.atRest h.succeeds hsaved hparts
    refine ⟨agrees_of hnew ?_ ?_, hs'⟩
    · rw [hstation]
      exact hmode'.trans (if_pos hsaved)
    · rw [hstation]
      exact hraw'.trans hraw
  · rw [if_neg hmode] at hw
    exact h.same hw rfl rfl rfl

theorem inv_data {w w' : World} (h : Inv value w) {data : List UInt8} {now : ℤ}
    {pushed : PushDestination → SlotIndex → Bool}
    (hw : w.settle c value (react w (.data data now pushed)) = some w') : Inv value w' := by
  unfold react at hw
  dsimp only at hw
  rcases hmode : w.station.mode with _ | _
  · rw [hmode] at hw
    exact h.same hw rfl rfl rfl
  · rw [hmode] at hw
    dsimp only at hw
    by_cases hraw : w.station.rawCollection = true
    · rw [if_pos hraw] at hw
      obtain ⟨hstation, hparts⟩ := settle_spec [.rinexFeed data] hw rfl
      obtain ⟨p, hp, hparts⟩ := effects_cons hparts
      cases hp
      have hsame := Option.some.inj hparts
      have hagree := h.agrees
      unfold World.Agrees at hagree
      rw [hmode, hraw] at hagree
      have hnew : Agree value .kTransmit true
          { w.parts with logger := w.parts.logger.feed c data } :=
        ⟨hagree.transmits, (active_feed c data _).trans hagree.active, fun h => (by cases h),
          hagree.rangea, hagree.silent, hagree.rtcm, hagree.position⟩
      refine ⟨agrees_of (hsame ▸ hnew) ?_ ?_, hsame ▸ h.succeeds⟩
      · rw [hstation]
        exact hmode
      · rw [hstation]
        exact hraw
    · rw [if_neg hraw] at hw
      obtain ⟨hmode', hraw', heffects⟩ := read_spec w.station data now pushed
      exact h.same hw hmode' hraw' heffects

theorem Agree.storage {mode : BaseMode} {raw : Bool} (h : Agree value mode raw p) {storage : Storage}
    (hposition : storage.loadPosition = p.storage.loadPosition) :
    Agree value mode raw { p with storage := storage } := by
  refine ⟨h.transmits, h.active, h.closed, h.rangea, h.silent, h.rtcm, fun hmode => ?_⟩
  show storage.loadPosition.valid = true ∧ _ = some (coordinates (value storage.loadPosition.lat)
    (value storage.loadPosition.lon) (value storage.loadPosition.height))
  rw [hposition]
  exact h.position hmode

theorem agree_calls {mode : BaseMode} {raw : Bool} {es : List (Effect Double)}
    (hes : ∀ e ∈ es, (∃ b, e = .setNtripStreamsEnabled b) ∨ ∃ d b m p, e = .configureService d b m p)
    (h : Agree value mode raw p) (hs : Succeeds p.storage) (he : p.effects c value es = some q) :
    Agree value mode raw q ∧ Succeeds q.storage := by
  induction es generalizing p with
  | nil =>
    cases he
    exact ⟨h, hs⟩
  | cons e es ih =>
    obtain ⟨r, hr, he⟩ := effects_cons he
    have hrest := fun e he => hes e (List.mem_cons_of_mem _ he)
    rcases hes e List.mem_cons_self with ⟨b, rfl⟩ | ⟨d, b, m, pw, rfl⟩
    · cases hr
      have hkeys : ∀ key ∈ ["lat", "lon", "hgt", "pos_valid"], key ∉ ["ntrip_on"] := by decide
      refine ih hrest (h.storage (loadPosition_saveKeys [("ntrip_on", _)] hs hkeys)) ?_ he
      exact (saveKeys_succeeds [("ntrip_on", _)] hs).1
    · cases hr
      exact ih hrest h hs he

/-- **Every event keeps the agreement.** -/
theorem inv_step {w w' : World} {e : Event} (h : Inv value w) (hw : step c value w e = some w') :
    Inv value w' := by
  cases e with
  | action action exit now => exact inv_action h hw
  | surveyCompleted lat lon height now => exact inv_surveyCompleted h hw
  | data data now pushed => exact inv_data h hw
  | rateCheck now =>
    obtain ⟨hmode, hraw, heffects⟩ := rateCheck_spec w.station now
    exact h.same hw hmode hraw heffects
  | call call =>
    obtain ⟨hmode, hraw, es, heffects, hes⟩ := call_spec w.station call
    obtain ⟨hstation, hparts⟩ := settle_spec _ hw heffects
    obtain ⟨hnew, hs⟩ := agree_calls hes h.agrees h.succeeds hparts
    refine ⟨agrees_of hnew ?_ ?_, hs⟩
    · rw [hstation]
      exact hmode
    · rw [hstation]
      exact hraw
  | saveAntenna model radome height =>
    cases hw
    have hkeys : ∀ key ∈ ["lat", "lon", "hgt", "pos_valid"], key ∉ ["ant_model", "ant_radome", "ant_h"] := by
      decide
    have hposition : (w.parts.storage.saveAntenna model radome height).1.loadPosition =
        w.parts.storage.loadPosition :=
      loadPosition_saveKeys (antennaKeys model radome height) h.succeeds hkeys
    exact ⟨h.agrees.storage hposition, (saveKeys_succeeds (antennaKeys model radome height) h.succeeds).1⟩

/-- The station before `run`. -/
def World.AtStart (w : World) : Prop :=
  (∃ enabled parser corrections, w.station = Station.start enabled parser corrections) ∧
    AtRest w.parts.logger ∧ Succeeds w.parts.storage

theorem inv_boot {w w' : World} {now : ℤ} (h : w.AtStart) (hw : boot c value w now = some w') :
    Inv value w' := by
  obtain ⟨⟨enabled, parser, corrections, hstart⟩, hrest, hs⟩ := h
  unfold boot Station.boot at hw
  dsimp only at hw
  by_cases hvalid : w.parts.storage.loadPosition.valid = true
  · rw [if_pos (show (w.parts.answers now false).position.valid = true from hvalid)] at hw
    obtain ⟨hmode, hraw, heffects⟩ := transmit_spec w.station
      w.parts.storage.loadPosition.lat w.parts.storage.loadPosition.lon
      w.parts.storage.loadPosition.height (w.parts.answers now false)
    obtain ⟨hstation, hparts⟩ := settle_spec _ hw heffects
    have hposition : w.parts.storage.loadPosition = ⟨w.parts.storage.loadPosition.lat,
        w.parts.storage.loadPosition.lon, w.parts.storage.loadPosition.height, true⟩ := by
      rw [← hvalid]
    obtain ⟨hnew, hstorage⟩ := agree_transmitCalls hrest hposition hparts
    refine ⟨agrees_of hnew ?_ ?_, hstorage ▸ hs⟩
    · rw [hstation]
      exact hmode
    · rw [hstation]
      refine hraw.trans ?_
      rw [hstart]
      rfl
  · rw [if_neg (show ¬ (w.parts.answers now false).position.valid = true from hvalid)] at hw
    obtain ⟨hmode, hraw, heffects⟩ := survey_spec w.station false (w.parts.answers now false)
    obtain ⟨hstation, hparts⟩ := settle_spec _ hw heffects
    obtain ⟨hnew, hs'⟩ := agree_surveyCalls hrest hs hparts
    refine ⟨agrees_of hnew ?_ ?_, hs'⟩
    · rw [hstation]
      exact hmode
    · rw [hstation]
      refine hraw.trans ?_
      rw [hstart]
      rfl

/-- **Mode, raw collection, logger, receiver and stored position agree** after every operation, from
either mode at the start, while writes to storage and commands of the receiver succeed. -/
theorem operations_agree (c : Clib) (value : Double → Float64) {w w₀ w' : World} {now : ℤ}
    (hstart : w.AtStart) (hboot : boot c value w now = some w₀) {events : List Event}
    (hrun : Machine.run (step c value) w₀ events = some w') : w'.Agrees value :=
  (Machine.run_invariant (fun _ _ _ h hs => inv_step h hs) (inv_boot hstart hboot) hrun).agrees

/-- A station without a position, a receiver that still sends something, and a logger at rest. -/
def unset : World where
  station := Station.start true freshParser (resetRtcmState 0)
  parts :=
    { storage := { isOpen := true, nvs := { visible := fun _ => none, committed := fun _ => none
                                            pending := [], answers := fun _ => .returns ESP_OK } }
      receiver := { now := ⟨[rangeaLog], none⟩, saved := ⟨[], none⟩, group := [] }
      logger := { opens := fun _ => true } }

/-- A survey, raw collection, a reset, a position given by hand and another survey. -/
def sampleEvents : List Event :=
  [.surveyCompleted (double 1) (double 2) (double 3) 5, .action .kStartRaw 6 6,
    .data [35, 10] 7 fun _ _ => true,
    .action .kStopRaw 8 8, .action .kResetUm980 9 9, .action .kStartRaw 10 10,
    .action (.kPosition (double 4) (double 5) (double 6)) 11 12, .action .kSurvey 13 14]

theorem operations_agree_sample : ∃ w', ((boot sampleClib (fun _ => .ofInt 1) unset 0).bind fun w =>
    Machine.run (step sampleClib fun _ => .ofInt 1) w sampleEvents) = some w' ∧
      w'.Agrees fun _ => .ofInt 1 := by
  have hsome : ((boot sampleClib (fun _ => .ofInt 1) unset 0).bind fun w =>
      Machine.run (step sampleClib fun _ => .ofInt 1) w sampleEvents).isSome = true := by
    decide +kernel
  obtain ⟨w', hw'⟩ := Option.isSome_iff_exists.mp hsome
  obtain ⟨w₀, hboot, hrun⟩ := Option.bind_eq_some_iff.mp hw'
  exact ⟨w', hw', operations_agree sampleClib (fun _ => .ofInt 1)
    ⟨⟨true, freshParser, resetRtcmState 0, rfl⟩, ⟨rfl, rfl⟩, rfl, fun _ => rfl⟩ hboot hrun⟩

end GpsBase.Control.Agreement
