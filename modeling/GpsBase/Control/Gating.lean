import GpsBase.Control.Modes

/-! # Stream gating

After every completed operation the clients run exactly when the flags say so. `Applied` is that, for
one state; an operation that ends in `apply_stream_state` gives it, and the others touch none of the
flags it speaks of. `Marked` ties the two data flags to what has happened since the last transition,
which is what an unsuspended client then rests on. -/

namespace GpsBase.Control.Gating

open GpsBase.Mailbox.Slots GpsBase.Rtcm.Parser GpsBase.Control.Modes GpsBase.Control.Modes.Station

variable {D : Type}

/-! ### Operations -/

/-- The operations of the station, each as one step: those of `run`, with a published frame also on
its own, and the calls of other tasks. -/
inductive Operation (D : Type)
  | boot (a : Answers D) (now : ℤ)
  | action (action : Action D) (exit a : Answers D)
  | surveyCompleted (lat lon height : D) (a : Answers D)
  | rinexFeed (data : List UInt8)
  | readDataUart (data : List UInt8) (now : ℤ) (pushed : PushDestination → SlotIndex → Bool)
  | publish (data : List UInt8) (now : ℤ)
  | rateCheck (now : ℤ)
  | call (c : Call)

def perform (s : Station D) : Operation D → Station D
  | .boot a now => s.boot a now
  | .action action exit a => s.handleAction action exit a
  | .surveyCompleted lat lon height a => s.surveyCompleted lat lon height a
  | .rinexFeed data => s.act (.rinexFeed data)
  | .readDataUart data now pushed => s.readDataUart data now pushed
  | .publish data now => s.publishRtcmFrame data now
  | .rateCheck now => s.rateCheck now
  | .call c => s.call c

/-! ### Reading -/

/-- What a byte does to the station: its parser takes the byte, and a frame may be published. -/
theorem feedRtcmByte_cases (s : Station D) (now : ℤ) (byte : UInt8) :
    let t := { s with parser := (s.parser.feedRtcmByte byte).1 }
    ((s.parser.feedRtcmByte byte).2 = none ∧ s.feedRtcmByte now byte = t) ∨
      ∃ frame, (s.parser.feedRtcmByte byte).2 = some frame ∧
        s.feedRtcmByte now byte = t.publishRtcmFrame frame now := by
  unfold Station.feedRtcmByte
  dsimp only
  rcases h : (s.parser.feedRtcmByte byte).2 with _ | frame
  · exact Or.inl ⟨rfl, rfl⟩
  · exact Or.inr ⟨frame, rfl, rfl⟩

/-- What neither a byte of the parser nor a frame changes, no byte changes. -/
theorem feed_induction {P : Station D → Prop} (now : ℤ)
    (hparser : ∀ s p, P s → P { s with parser := p })
    (hframe : ∀ s frame, P s → P (s.publishRtcmFrame frame now)) (data : List UInt8) (s : Station D)
    (hs : P s) : P (data.foldl (fun s byte => s.feedRtcmByte now byte) s) := by
  induction data generalizing s with
  | nil => exact hs
  | cons byte data ih =>
    refine ih _ ?_
    show P (s.feedRtcmByte now byte)
    rcases feedRtcmByte_cases s now byte with ⟨-, h⟩ | ⟨frame, -, h⟩
    · rw [h]
      exact hparser s _ hs
    · rw [h]
      exact hframe _ frame (hparser s _ hs)

/-! ### The suspended flags -/

/-- The clients' flags are those of the stream state. -/
structure Applied (s : Station D) : Prop where
  caster : s.casterSuspended = s.effectiveStreamsSuspended
  client : ∀ d, s.clientSuspended d = s.effectiveOutboundStreamsSuspended

theorem applied_applyStreamState (s : Station D) : Applied s.applyStreamState := ⟨rfl, fun _ => rfl⟩

/-- A call of another component does not touch the flags. -/
theorem Applied.act {s : Station D} (hs : Applied s) (e : Effect D) : Applied (s.act e) :=
  ⟨hs.caster, hs.client⟩

theorem Applied.resetRtcm {s : Station D} (hs : Applied s) (now : ℤ) : Applied (s.resetRtcm now) :=
  ⟨hs.caster, hs.client⟩

theorem applied_enterSurvey (s : Station D) (clear : Bool) (a : Answers D) :
    Applied (s.enterSurvey clear a) := by
  have h := applied_applyStreamState { s with mode := .kSurvey }.clearStreamData
  unfold enterSurvey
  cases clear
  · exact (((h.act _).resetRtcm _).act _).act _
  · exact ((((h.act _).act _).resetRtcm _).act _).act _

theorem applied_enterTransmit (s : Station D) (lat lon height : D) (a : Answers D) :
    Applied (s.enterTransmit lat lon height a) := applied_applyStreamState _

theorem Applied.enterRawCollection {s : Station D} (hs : Applied s) (a : Answers D) :
    Applied (s.enterRawCollection a) := by
  unfold Station.enterRawCollection
  split_ifs
  · exact hs
  · exact hs
  · exact ((((applied_applyStreamState _).act _).resetRtcm _).act _).act _

theorem Applied.exitRawCollection {s : Station D} (hs : Applied s) (a : Answers D) :
    Applied (s.exitRawCollection a) := by
  unfold Station.exitRawCollection
  split_ifs
  · exact applied_applyStreamState _
  · exact hs

theorem Applied.resetUm980 {s : Station D} (hs : Applied s) (a : Answers D) :
    Applied (s.resetUm980 a) := by
  unfold Station.resetUm980
  split_ifs
  · exact hs
  · exact applied_applyStreamState _

theorem Applied.saveAndTransmit {s : Station D} (hs : Applied s) (lat lon height : D)
    (a : Answers D) : Applied (s.saveAndTransmit lat lon height a) := by
  unfold Station.saveAndTransmit
  dsimp only
  split_ifs
  · exact applied_enterTransmit _ _ _ _ _
  · exact hs.act _

theorem Applied.handleAction {s : Station D} (hs : Applied s) (action : Action D)
    (exit a : Answers D) : Applied (s.handleAction action exit a) := by
  cases action with
  | kSurvey => exact applied_enterSurvey _ _ _
  | kPosition lat lon height => exact (hs.exitRawCollection exit).saveAndTransmit lat lon height a
  | kStartRaw => exact hs.enterRawCollection a
  | kStopRaw => exact hs.exitRawCollection exit
  | kResetUm980 => exact hs.resetUm980 a

/-- The first frame changes a flag and applies it; a later one changes none. -/
theorem Applied.publishRtcmFrame {s : Station D} (hs : Applied s) (data : List UInt8) (now : ℤ) :
    Applied (s.publishRtcmFrame data now) := by
  unfold Station.publishRtcmFrame
  by_cases hdata : data = [] ∨ kMaxRtcmFrame < data.length
  · rw [if_pos hdata]
    exact hs
  · rw [if_neg hdata]
    rcases hfirst : s.hasRtcmData
    · exact ⟨rfl, fun _ => rfl⟩
    · have hcaster := hs.caster
      have hclient := hs.client
      simp only [effectiveOutboundStreamsSuspended, effectiveStreamsSuspended, hfirst] at hcaster hclient
      exact ⟨hcaster, hclient⟩

theorem Applied.readDataUart {s : Station D} (hs : Applied s) (data : List UInt8) (now : ℤ)
    (pushed : PushDestination → SlotIndex → Bool) : Applied (s.readDataUart data now pushed) := by
  have h := feed_induction (P := Applied) now (fun s p hs => ⟨hs.caster, hs.client⟩)
    (fun s frame hs => hs.publishRtcmFrame frame now) data s hs
  exact ⟨h.caster, h.client⟩

theorem Applied.window {s : Station D} (hs : Applied s) (bps bytes old : ℕ) (started : ℤ)
    (straddles : Bool) : Applied { s with
      rtcmBps := bps, rateBytes := bytes, rateStarted := started, straddles := straddles
      oldBytes := old } :=
  ⟨hs.caster, hs.client⟩

theorem Applied.rateCheck {s : Station D} (hs : Applied s) (now : ℤ) :
    Applied (s.rateCheck now) := by
  unfold Station.rateCheck
  dsimp only
  generalize s.rateBytes * 1000000 / (now - s.rateStarted).toNat % 2 ^ 32 = bps
  split_ifs
  · exact applied_applyStreamState _
  · exact hs.window bps 0 0 now false
  · exact hs

theorem Applied.call {s : Station D} (hs : Applied s) (c : Call) : Applied (s.call c) := by
  cases c with
  | setStreamsSuspended b => exact applied_applyStreamState _
  | setStreamsEnabled b => exact applied_applyStreamState _
  | applyPersistedStreams b => exact applied_applyStreamState _
  | setNetworkAvailable b =>
    show Applied (s.setNetworkAvailable b)
    unfold Station.setNetworkAvailable
    split_ifs
    · exact hs
    · exact applied_applyStreamState _
  | reloadServices services => exact applied_applyStreamState _

/-- **Every operation ends with the stream state applied.** -/
theorem Applied.perform {s : Station D} (hs : Applied s) (op : Operation D) :
    Applied (perform s op) := by
  cases op with
  | boot a now =>
    have h : Applied (if a.position.valid then
        s.enterTransmit a.position.lat a.position.lon a.position.height a
      else s.enterSurvey false a) := by
      split_ifs
      · exact applied_enterTransmit _ _ _ _ _
      · exact applied_enterSurvey _ _ _
    exact ⟨h.caster, h.client⟩
  | action action exit a => exact hs.handleAction action exit a
  | surveyCompleted lat lon height a =>
    unfold Gating.perform Station.surveyCompleted
    split_ifs
    · exact hs.saveAndTransmit lat lon height a
    · exact hs
  | rinexFeed data => exact hs.act _
  | readDataUart data now pushed => exact hs.readDataUart data now pushed
  | publish data now => exact hs.publishRtcmFrame data now
  | rateCheck now => exact hs.rateCheck now
  | call c => exact hs.call c

/-! ### What the data flags rest on -/

/-- `m` has happened since the last transition. -/
def Since (m : Mark) (marks : List Mark) : Prop :=
  ∃ before after, marks = before ++ m :: after ∧ .cleared ∉ after

/-- The data flags are set only by what happened since the last transition. -/
structure Marked (s : Station D) : Prop where
  frame : s.hasRtcmData = true → Since .frame s.marks
  latched : s.outboundRateReady = true → Since .latched s.marks

theorem Since.append {m : Mark} {marks : List Mark} (h : Since m marks) {m' : Mark}
    (hm : m' ≠ .cleared) : Since m (marks ++ [m']) := by
  obtain ⟨before, after, rfl, hafter⟩ := h
  refine ⟨before, after ++ [m'], by simp, fun hmem => ?_⟩
  rcases List.mem_append.mp hmem with hmem | hmem
  · exact hafter hmem
  · exact hm (List.mem_singleton.mp hmem).symm

theorem since_last (m : Mark) (marks : List Mark) : Since m (marks ++ [m]) :=
  ⟨marks, [], rfl, List.not_mem_nil⟩

/-- What an operation outside the frames and the rate does to the data flags and the record: it
leaves them, or it is a transition, which clears the flags and is seen by the open window. -/
inductive Transition (s s' : Station D) : Prop
  | kept (hframe : s'.hasRtcmData = s.hasRtcmData)
      (hlatch : s'.outboundRateReady = s.outboundRateReady) (hmarks : s'.marks = s.marks)
      (hstraddles : s'.straddles = s.straddles) (hold : s'.oldBytes = s.oldBytes)
  | cleared (hframe : s'.hasRtcmData = false) (hlatch : s'.outboundRateReady = false)
      (hstraddles : s'.straddles = true)

theorem Marked.transition {s s' : Station D} (hs : Marked s) (h : Transition s s') : Marked s' := by
  rcases h with ⟨h1, h2, h3, -, -⟩ | ⟨h1, h2, -⟩
  · refine ⟨fun h => ?_, fun h => ?_⟩ <;> rw [h3]
    · exact hs.frame (h1 ▸ h)
    · exact hs.latched (h2 ▸ h)
  · refine ⟨fun h => ?_, fun h => ?_⟩
    · rw [h1] at h
      cases h
    · rw [h2] at h
      cases h

theorem Transition.refl (s : Station D) : Transition s s := kept rfl rfl rfl rfl rfl

theorem Transition.trans {s t u : Station D} (h : Transition s t) (h' : Transition t u) :
    Transition s u := by
  rcases h' with ⟨h1, h2, h3, h4, h5⟩ | ⟨h1, h2, h3⟩
  · rcases h with ⟨g1, g2, g3, g4, g5⟩ | ⟨g1, g2, g3⟩
    · exact kept (h1.trans g1) (h2.trans g2) (h3.trans g3) (h4.trans g4) (h5.trans g5)
    · exact cleared (h1.trans g1) (h2.trans g2) (h4.trans g3)
  · exact cleared h1 h2 h3

theorem transition_act (s : Station D) (e : Effect D) : Transition s (s.act e) :=
  .kept rfl rfl rfl rfl rfl

theorem transition_applyStreamState (s : Station D) : Transition s s.applyStreamState :=
  .kept rfl rfl rfl rfl rfl

theorem transition_enterSurvey (s : Station D) (clear : Bool) (a : Answers D) :
    Transition s (s.enterSurvey clear a) := by
  unfold enterSurvey
  cases clear <;> exact .cleared rfl rfl rfl

theorem transition_enterTransmit (s : Station D) (lat lon height : D) (a : Answers D) :
    Transition s (s.enterTransmit lat lon height a) := .cleared rfl rfl rfl

theorem transition_exitRawCollection (s : Station D) (a : Answers D) :
    Transition s (s.exitRawCollection a) := by
  unfold Station.exitRawCollection
  split_ifs
  · exact .cleared rfl rfl rfl
  · exact .refl s

theorem transition_saveAndTransmit (s : Station D) (lat lon height : D) (a : Answers D) :
    Transition s (s.saveAndTransmit lat lon height a) := by
  unfold Station.saveAndTransmit
  dsimp only
  split_ifs
  · exact .cleared rfl rfl rfl
  · exact .kept rfl rfl rfl rfl rfl

theorem transition_handleAction (s : Station D) (action : Action D) (exit a : Answers D) :
    Transition s (s.handleAction action exit a) := by
  cases action with
  | kSurvey => exact (transition_exitRawCollection s exit).trans (transition_enterSurvey _ _ _)
  | kPosition lat lon height =>
    exact (transition_exitRawCollection s exit).trans (transition_saveAndTransmit _ _ _ _ _)
  | kStartRaw =>
    unfold Station.handleAction Station.enterRawCollection
    dsimp only
    split_ifs <;> exact .kept rfl rfl rfl rfl rfl
  | kStopRaw => exact transition_exitRawCollection s exit
  | kResetUm980 =>
    unfold Station.handleAction Station.resetUm980
    dsimp only
    split_ifs
    · exact .refl s
    · exact .cleared rfl rfl rfl

theorem transition_mode (s : Station D) (a : Answers D) :
    Transition s (if a.position.valid then
        s.enterTransmit a.position.lat a.position.lon a.position.height a
      else s.enterSurvey false a) := by
  split_ifs
  · exact transition_enterTransmit _ _ _ _ _
  · exact transition_enterSurvey _ _ _

theorem transition_surveyCompleted (s : Station D) (lat lon height : D) (a : Answers D) :
    Transition s (s.surveyCompleted lat lon height a) := by
  unfold Station.surveyCompleted
  split_ifs
  · exact transition_saveAndTransmit _ _ _ _ _
  · exact .refl s

theorem transition_call (s : Station D) (c : Call) : Transition s (s.call c) := by
  cases c with
  | setNetworkAvailable b =>
    show Transition s (s.setNetworkAvailable b)
    unfold Station.setNetworkAvailable
    split_ifs <;> exact .kept rfl rfl rfl rfl rfl
  | reloadServices services =>
    exact (((transition_act _ _).trans (transition_act _ _)).trans (transition_act _ _)).trans
      (transition_applyStreamState _)
  | _ => exact .kept rfl rfl rfl rfl rfl

theorem Marked.publishRtcmFrame {s : Station D} (hs : Marked s) (data : List UInt8) (now : ℤ) :
    Marked (s.publishRtcmFrame data now) := by
  unfold Station.publishRtcmFrame
  by_cases hdata : data = [] ∨ kMaxRtcmFrame < data.length
  · rw [if_pos hdata]
    exact hs
  · rw [if_neg hdata]
    have hlatched : s.outboundRateReady = true → Since .latched (s.marks ++ [.frame]) :=
      fun h => (hs.latched h).append (by rintro ⟨⟩)
    rcases s.hasRtcmData
    · exact ⟨fun _ => since_last _ _, hlatched⟩
    · exact ⟨fun _ => since_last _ _, hlatched⟩

theorem Marked.readDataUart {s : Station D} (hs : Marked s) (data : List UInt8) (now : ℤ)
    (pushed : PushDestination → SlotIndex → Bool) : Marked (s.readDataUart data now pushed) := by
  have h := feed_induction (P := Marked) now (fun s p hs => ⟨hs.frame, hs.latched⟩)
    (fun s frame hs => hs.publishRtcmFrame frame now) data s hs
  exact ⟨h.frame, h.latched⟩

theorem Marked.rateCheck {s : Station D} (hs : Marked s) (now : ℤ) : Marked (s.rateCheck now) := by
  unfold Station.rateCheck
  dsimp only
  split_ifs
  · exact ⟨fun h => (hs.frame h).append (by rintro ⟨⟩), fun _ => since_last _ _⟩
  · exact ⟨hs.frame, hs.latched⟩
  · exact hs

theorem Marked.perform {s : Station D} (hs : Marked s) (op : Operation D) :
    Marked (perform s op) := by
  cases op with
  | boot a now =>
    have h' := hs.transition (transition_mode s a)
    exact ⟨h'.frame, h'.latched⟩
  | action action exit a => exact hs.transition (transition_handleAction s action exit a)
  | surveyCompleted lat lon height a =>
    exact hs.transition (transition_surveyCompleted s lat lon height a)
  | rinexFeed data => exact ⟨hs.frame, hs.latched⟩
  | readDataUart data now pushed => exact hs.readDataUart data now pushed
  | publish data now => exact hs.publishRtcmFrame data now
  | rateCheck now => exact hs.rateCheck now
  | call c => exact hs.transition (transition_call s c)

/-! ### Runs -/

theorem gated_start (enabled : Bool) (parser : RtcmParser) (corrections : Corrections) :
    Applied (start enabled parser corrections : Station D) ∧
      Marked (start enabled parser corrections : Station D) :=
  ⟨⟨rfl, fun _ => rfl⟩, ⟨fun h => (by cases h), fun h => (by cases h)⟩⟩

theorem gated_run (s : Station D) (ops : List (Operation D)) (hs : Applied s ∧ Marked s) :
    Applied (ops.foldl perform s) ∧ Marked (ops.foldl perform s) :=
  List.foldlRecOn (motive := fun s => Applied s ∧ Marked s) ops perform hs
    fun _ h op _ => ⟨h.1.perform op, h.2.perform op⟩

/-- Everything an unsuspended push client needs. -/
structure MayConnect (s : Station D) : Prop where
  mode : s.mode = .kTransmit
  notRaw : s.rawCollection = false
  frame : Since .frame s.marks
  latched : Since .latched s.marks
  enabled : s.userStreamsEnabled = true
  notTransient : s.transientStreamsSuspended = false
  network : s.networkAvailable = true

theorem mayConnect_of_unsuspended {s : Station D} (ha : Applied s) (hm : Marked s)
    {d : PushDestination} (h : s.clientSuspended d = false) : MayConnect s := by
  rw [ha.client d] at h
  simp only [effectiveOutboundStreamsSuspended, effectiveStreamsSuspended, Bool.or_eq_false_iff,
    Bool.not_eq_eq_eq_not, Bool.not_false, bne_eq_false_iff_eq] at h
  obtain ⟨⟨⟨⟨⟨⟨htransient, huser⟩, hmode⟩, hframe⟩, hraw⟩, hnetwork⟩, hrate⟩ := h
  exact ⟨hmode, hraw, hm.frame hframe, hm.latched hrate, huser, htransient, hnetwork⟩

/-- **Stream gating**: after any sequence of operations the local caster and the push clients are
suspended exactly as the flags say, and no push client is unsuspended without all it needs. -/
theorem stream_gating (enabled : Bool) (parser : RtcmParser) (corrections : Corrections)
    (ops : List (Operation D)) :
    let s := ops.foldl perform (start enabled parser corrections)
    s.casterSuspended = s.effectiveStreamsSuspended ∧
      (∀ d, s.clientSuspended d = s.effectiveOutboundStreamsSuspended) ∧
      ∀ d, s.clientSuspended d = false → MayConnect s := by
  have h := gated_run _ ops (gated_start enabled parser corrections)
  exact ⟨h.1.caster, h.1.client, fun d => mayConnect_of_unsuspended h.1 h.2⟩

end GpsBase.Control.Gating
