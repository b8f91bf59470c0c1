import GpsBase.Control.Agreement
import GpsBase.Survey.Estimator

/-! # How a survey ends

The station and its survey manager in the loop of `run`: what an operation asks of the manager is done to
it, fixes are read into it, and in survey mode its result is taken and saved. `Live` says that survey mode
is not left alone: the manager collects, or has a result to be taken. Every step keeps it while the
position of a completed survey can be saved (`never_stuck`); otherwise the result is gone and the manager
ignores all further fixes (`stuck`). -/

namespace GpsBase.Control.SurveyEnds

open GpsBase.Lib GpsBase.Mailbox.Slots GpsBase.Rtcm.Framing
open GpsBase.Control.Modes GpsBase.Control.Agreement
open GpsBase.Survey.Manager GpsBase.Survey.Manager.SurveyManager GpsBase.Survey.Estimator

/-! ### The system -/

section

/-- The station and the survey manager. -/
structure World (K : Type) [Zero K] where
  station : Station K
  manager : SurveyManager K

def surveyCall {K : Type} [Field K] (started : ℤ) (m : SurveyManager K) : Effect K → SurveyManager K
  | .surveyStart => m.start started
  | .surveyReset => m.reset
  | _ => m

end

section

variable {K : Type} [Field K] [LinearOrder K] (A : Analysis K)

/-- The station after an operation, and its calls of the manager. -/
def World.settle (w : World K) (s : Station K) (started : ℤ) : World K where
  station := s
  manager := (s.effects.drop w.station.effects.length).foldl (surveyCall started) w.manager

/-- What `run` does next, or another task. -/
inductive Event (K : Type)
  | action (action : Action K) (exit a : Answers K) (started : ℤ)
  | commandUart (f : Survey.Manager.Fix K)
  | survey (a : Answers K) (started : ℤ)
  | data (data : List UInt8) (now : ℤ) (pushed : PushDestination → SlotIndex → Bool)
  | rateCheck (now : ℤ)
  | call (call : Station.Call)

/-- A step. In survey mode the result is taken and the position saved; otherwise the data is read. -/
def step (w : World K) : Event K → Option (World K)
  | .action action exit a started => some (w.settle (w.station.handleAction action exit a) started)
  | .commandUart f => some { w with manager := w.manager.parseLine A f }
  | .survey a started =>
    match w.station.mode with
    | .kTransmit => some w
    | .kSurvey =>
      let r := w.manager.takeCompletedResult
      let w := { w with manager := r.1 }
      match r.2 with
      | none => some w
      | some result =>
        some (w.settle (w.station.surveyCompleted result.lat result.lon result.height a) started)
  | .data data now pushed =>
    match w.station.mode with
    | .kSurvey => some w
    | .kTransmit =>
      if w.station.rawCollection then some { w with station := w.station.act (.rinexFeed data) }
      else some { w with station := w.station.readDataUart data now pushed }
  | .rateCheck now => some { w with station := w.station.rateCheck now }
  | .call call => some { w with station := w.station.call call }

/-- The start of `run`. -/
def boot (enabled : Bool) (corrections : Corrections) (m : SurveyManager K) (a : Answers K)
    (now started : ℤ) : World K :=
  World.settle ⟨Station.start enabled freshParser corrections, m⟩
    ((Station.start enabled freshParser corrections).boot a now) started

/-- **A survey goes on, or has a result to be taken.** -/
def Live (w : World K) : Prop :=
  w.station.mode = .kSurvey → w.manager.state = .kCollecting ∨ w.manager.completionPending = true

/-- **The condition**: a result that is taken can be saved. -/
def Saves (w : World K) : Event K → Prop
  | .survey a _ => w.station.mode = .kSurvey → w.manager.completionPending = true → a.saved = true
  | _ => True

end

/-! ### Operations -/

section

variable {K : Type} [Field K] {started : ℤ}

/-- What an operation leaves of survey mode: it was that before, and the manager is not called; or the
manager starts. -/
def Starts (s t : Station K) : Prop :=
  ∃ es, t.effects = s.effects ++ es ∧ (t.mode = .kSurvey →
    (s.mode = .kSurvey ∧ ∀ started (m : SurveyManager K), es.foldl (surveyCall started) m = m) ∨
      ∀ started (m : SurveyManager K), (es.foldl (surveyCall started) m).state = .kCollecting)

theorem Starts.refl (s : Station K) : Starts s s :=
  ⟨[], (List.append_nil _).symm, fun h => Or.inl ⟨h, fun _ _ => rfl⟩⟩

theorem Starts.trans {s t u : Station K} (h1 : Starts s t) (h2 : Starts t u) : Starts s u := by
  obtain ⟨es, he, h1⟩ := h1
  obtain ⟨es', he', h2⟩ := h2
  refine ⟨es ++ es', by rw [he', he, List.append_assoc], fun hmode => ?_⟩
  rcases h2 hmode with ⟨hmode', hsame⟩ | hstart
  · rcases h1 hmode' with ⟨hmode'', hsame'⟩ | hstart
    · refine Or.inl ⟨hmode'', fun started m => ?_⟩
      rw [List.foldl_append, hsame', hsame]
    · refine Or.inr fun started m => ?_
      rw [List.foldl_append, hsame]
      exact hstart started m
  · refine Or.inr fun started m => ?_
    rw [List.foldl_append]
    exact hstart started _

theorem starts_exitRawCollection (s : Station K) (a : Answers K) : Starts s (s.exitRawCollection a) := by
  obtain ⟨hmode, -, heffects⟩ := exit_spec s a
  refine ⟨_, heffects, fun h => Or.inl ⟨hmode.symm.trans h, fun started m => ?_⟩⟩
  unfold exitCalls
  split_ifs
  · rfl
  · rfl

theorem starts_enterSurvey (s : Station K) (clear : Bool) (a : Answers K) :
    Starts s (s.enterSurvey clear a) := by
  obtain ⟨-, -, heffects⟩ := survey_spec s clear a
  refine ⟨_, heffects, fun _ => Or.inr fun started m => ?_⟩
  cases clear
  · rfl
  · rfl

theorem starts_saveAndTransmit (s : Station K) (lat lon height : K) (a : Answers K) :
    Starts s (s.saveAndTransmit lat lon height a) := by
  obtain ⟨-, hmode, heffects⟩ := save_spec s lat lon height a
  refine ⟨_, heffects, fun h => ?_⟩
  rw [hmode] at h
  unfold saveCalls
  cases hsaved : a.saved
  · rw [hsaved] at h
    exact Or.inl ⟨h, fun _ _ => rfl⟩
  · rw [hsaved] at h
    cases h

theorem starts_enterRawCollection (s : Station K) (a : Answers K) :
    Starts s (s.enterRawCollection a) := by
  unfold Station.enterRawCollection
  split_ifs with hmode hraw
  · exact .refl s
  · exact .refl s
  · refine ⟨[.uartFlushInput, .configureRawOutput, .rinexStart a.position.lat a.position.lon
      a.position.height a.antennaModel a.antennaRadome a.antennaHeight], ?_, fun h => ?_⟩
    · show s.effects ++ [_] ++ [_] ++ [_] = _
      simp only [List.append_assoc, List.cons_append, List.nil_append]
    · exact absurd (show s.mode = .kSurvey from h) (by rw [not_not.mp hmode]; decide)

theorem starts_resetUm980 (s : Station K) (a : Answers K) : Starts s (s.resetUm980 a) := by
  unfold Station.resetUm980
  split_ifs with hmode
  · exact .refl s
  · refine ⟨[.configureSignalGroup, .uartFlushInput, .configureBase a.position.lat a.position.lon
      a.position.height a.antennaModel], ?_, fun h => ?_⟩
    · show s.effects ++ [_] ++ [_] ++ [_] = _
      simp only [List.append_assoc, List.cons_append, List.nil_append]
    · exact absurd (Or.inl (by rw [show s.mode = .kSurvey from h]; decide)) hmode

theorem starts_handleAction (s : Station K) (action : Action K) (exit a : Answers K) :
    Starts s (s.handleAction action exit a) := by
  cases action with
  | kSurvey => exact (starts_exitRawCollection s exit).trans (starts_enterSurvey _ true a)
  | kPosition lat lon height =>
    exact (starts_exitRawCollection s exit).trans (starts_saveAndTransmit _ lat lon height a)
  | kStartRaw => exact starts_enterRawCollection s a
  | kStopRaw => exact starts_exitRawCollection s exit
  | kResetUm980 => exact starts_resetUm980 s a

theorem starts_boot (s : Station K) (a : Answers K) (now : ℤ) :
    ∃ es, (s.boot a now).effects = s.effects ++ es ∧ ((s.boot a now).mode = .kSurvey →
      ∀ started (m : SurveyManager K), (es.foldl (surveyCall started) m).state = .kCollecting) := by
  unfold Station.boot
  split_ifs
  · obtain ⟨hmode, -, heffects⟩ := transmit_spec s a.position.lat a.position.lon a.position.height a
    exact ⟨_, heffects, fun h => absurd (hmode.symm.trans h) (by decide)⟩
  · exact ⟨_, (survey_spec s false a).2.2, fun _ _ _ => rfl⟩

end

/-! ### Survey mode stays alive -/

section

variable {K : Type} [Field K] [LinearOrder K] {A : Analysis K}

omit [LinearOrder K] in
theorem settle_manager {w : World K} {s : Station K} {es : List (Effect K)} (started : ℤ)
    (heffects : s.effects = w.station.effects ++ es) :
    w.settle s started = ⟨s, es.foldl (surveyCall started) w.manager⟩ := by
  unfold World.settle
  rw [heffects, List.drop_left]

omit [LinearOrder K] in
theorem Live.settle {w : World K} (h : Live w) {s : Station K} (hs : Starts w.station s) (started : ℤ) :
    Live (w.settle s started) := by
  obtain ⟨es, heffects, hcases⟩ := hs
  rw [settle_manager started heffects]
  intro hmode
  rcases hcases hmode with ⟨hbefore, hsame⟩ | hstart
  · rw [hsame]
    exact h hbefore
  · exact Or.inl (hstart started w.manager)

theorem parseLine_live {m : SurveyManager K} (h : m.state = .kCollecting ∨ m.completionPending = true)
    (f : Survey.Manager.Fix K) : (m.parseLine A f).state = .kCollecting ∨
      (m.parseLine A f).completionPending = true := by
  unfold SurveyManager.parseLine
  split_ifs with hstate
  · obtain ⟨hkept, -⟩ := absorb_kept m f ((m.sample f).elapsed f.now / kSurveyBlockTimeSec)
    unfold SurveyManager.parseBestPosition SurveyManager.complete
    dsimp only
    split_ifs
    · exact Or.inr rfl
    · exact Or.inl (hkept.trans hstate)
  · exact h

omit [LinearOrder K] in
theorem Live.station {w : World K} (h : Live w) {s : Station K} (hmode : s.mode = w.station.mode) :
    Live { w with station := s } := fun hs => h (hmode.symm.trans hs)

/-- **Every step that meets the condition keeps survey mode alive.** -/
theorem live_step {w w' : World K} {e : Event K} (h : Live w) (hsaves : Saves w e)
    (hw : step A w e = some w') : Live w' := by
  cases e with
  | action action exit a started =>
    cases hw
    exact h.settle (starts_handleAction _ action exit a) started
  | commandUart f =>
    cases hw
    exact fun hmode => parseLine_live (h hmode) f
  | survey a started =>
    unfold step at hw
    rcases hmode : w.station.mode
    · rw [hmode] at hw
      unfold SurveyManager.takeCompletedResult at hw
      dsimp only at hw
      rcases hpending : w.manager.completionPending
      · rw [hpending, if_neg Bool.false_ne_true] at hw
        cases hw
        exact h
      · -- the position is saved, and transmission begins
        rw [hpending, if_pos rfl] at hw
        have hsaved := hsaves hmode hpending
        cases hw
        intro hsurvey
        obtain ⟨-, hmode', -⟩ := save_spec w.station w.manager.result.lat w.manager.result.lon
          w.manager.result.height a
        have hcompleted : w.station.surveyCompleted w.manager.result.lat w.manager.result.lon
            w.manager.result.height a = w.station.saveAndTransmit w.manager.result.lat
              w.manager.result.lon w.manager.result.height a := if_pos hmode
        have hnow : (w.station.surveyCompleted w.manager.result.lat w.manager.result.lon
            w.manager.result.height a).mode = .kSurvey := hsurvey
        rw [hcompleted, hmode', hsaved] at hnow
        cases hnow
    · rw [hmode] at hw
      cases hw
      exact h
  | data data now pushed =>
    unfold step at hw
    rcases hmode : w.station.mode
    · rw [hmode] at hw
      cases hw
      exact h
    · rw [hmode] at hw
      dsimp only at hw
      split_ifs at hw
      · cases hw
        exact h.station rfl
      · cases hw
        exact h.station (read_spec w.station data now pushed).1
  | rateCheck now =>
    cases hw
    exact h.station (rateCheck_spec w.station now).1
  | call call =>
    cases hw
    exact h.station (call_spec w.station call).1

omit [LinearOrder K] in
theorem live_boot (enabled : Bool) (corrections : Corrections) (m : SurveyManager K) (a : Answers K)
    (now started : ℤ) : Live (boot enabled corrections m a now started) := by
  obtain ⟨es, heffects, hstart⟩ := starts_boot (Station.start enabled freshParser corrections) a now
  unfold boot
  rw [settle_manager (w := ⟨Station.start enabled freshParser corrections, m⟩) started heffects]
  exact fun hmode => Or.inl (hstart hmode started m)

/-- **A survey never gets stuck** in a run in which every result that is taken can be saved. -/
theorem never_stuck (A : Analysis K) (enabled : Bool) (corrections : Corrections) (m : SurveyManager K)
    (a : Answers K) (now started : ℤ) {events : List (Event K)} {w : World K}
    (hsaves : Machine.Along (step A) Saves (boot enabled corrections m a now started) events)
    (hrun : Machine.run (step A) (boot enabled corrections m a now started) events = some w) : Live w :=
  Machine.run_invariant_along (I := Live) (fun _ _ _ h hs hw => live_step h hs hw) events
    (live_boot enabled corrections m a now started) hsaves hrun

end

/-! ### A result that cannot be saved -/

/-- Storage without a position, in which `saved` tells whether one can be saved. -/
noncomputable def empty (saved : Bool) : Answers ℝ where
  now := 0
  saved := saved
  position := ⟨0, 0, 0, false⟩
  antennaModel := []
  antennaRadome := []
  antennaHeight := 0

/-- The station in survey mode from second 0 on. -/
noncomputable def surveying : World ℝ := boot true (resetRtcmState 0) unused (empty false) 0 0

/-- A fix each minute, and the result is taken. -/
noncomputable def survey (saved : Bool) : List (Event ℝ) :=
  [.commandUart (fixAt 0), .commandUart (fixAt 60), .commandUart (fixAt 120), .commandUart (fixAt 180),
    .commandUart (fixAt 240), .commandUart (fixAt 300), .survey (empty saved) 301]

/-- The manager after the fixes. -/
noncomputable def surveyed : SurveyManager ℝ :=
  sixFixes.foldl (SurveyManager.parseLine realAnalysis) (unused.start 0)

theorem surveyed_spec : surveyed.state = .kDone ∧ surveyed.completionPending = true := by
  have hfixes : fixes (sixFixes.map Survey.Estimator.Event.fix) = sixFixes := rfl
  have hrun : run realAnalysis ⟨unused.start 0, []⟩ (sixFixes.map Survey.Estimator.Event.fix) =
      ⟨surveyed, []⟩ := rfl
  have houtcome := outcome_run (A := realAnalysis) unused 0 (hfixes ▸ timely_sixFixes)
  rw [hfixes, hrun] at houtcome
  obtain ⟨hstate, hresults⟩ := houtcome.state_sixFixes
  refine ⟨hstate, ?_⟩
  unfold Course.results at hresults
  rcases hpending : surveyed.completionPending
  · simp [hpending] at hresults
  · rfl

theorem run_survey (saved : Bool) : Machine.run (step realAnalysis) surveying (survey saved) =
    step realAnalysis ⟨surveying.station, surveyed⟩ (.survey (empty saved) 301) := by
  show (step realAnalysis ⟨surveying.station, surveyed⟩ (.survey (empty saved) 301)).bind some = _
  exact Option.bind_fun_some _

/-- **A result that is taken and cannot be saved is lost**, and the survey does not go on. -/
theorem stuck : ∃ w, Machine.run (step realAnalysis) surveying (survey false) = some w ∧
    w.station.mode = .kSurvey ∧ w.manager.state = .kDone ∧ w.manager.completionPending = false := by
  obtain ⟨hdone, hpending⟩ := surveyed_spec
  refine ⟨⟨surveying.station.act (.savePosition surveyed.result.lat surveyed.result.lon
    surveyed.result.height), { surveyed with completionPending := false }⟩, ?_, rfl, hdone, rfl⟩
  rw [run_survey]
  unfold step SurveyManager.takeCompletedResult
  dsimp only
  rw [hpending, if_pos rfl]
  rfl

theorem never_stuck_sample : ∃ w, Machine.run (step realAnalysis) surveying (survey true) = some w ∧
    Live w := by
  have hsome : ∃ w, Machine.run (step realAnalysis) surveying (survey true) = some w := by
    rw [run_survey]
    unfold step SurveyManager.takeCompletedResult
    dsimp only
    rw [surveyed_spec.2, if_pos rfl]
    exact ⟨_, rfl⟩
  obtain ⟨w, hw⟩ := hsome
  refine ⟨w, hw, never_stuck realAnalysis true (resetRtcmState 0) unused (empty false) 0 0
    (Machine.along_of_forall _ _ fun e he w => ?_) hw⟩
  have hcases : (∃ f, e = .commandUart f) ∨ e = .survey (empty true) 301 := by
    simp only [survey, List.mem_cons, List.not_mem_nil, or_false] at he
    rcases he with rfl | rfl | rfl | rfl | rfl | rfl | rfl
    all_goals simp
  rcases hcases with ⟨f, rfl⟩ | rfl
  · trivial
  · exact fun _ _ => rfl

end GpsBase.Control.SurveyEnds
