import GpsBase.Control.Gating
import GpsBase.Rtcm.Framing
import GpsBase.Web.Upload

/-! # Streams and a failed upload

The station and the handler of uploads, in any order of their steps. An upload that fails clears the
transient flag, whoever had set it: the flag is what it was before the request exactly if the request was not
let in or the flag was clear (`flag_restored`). During the hold-off after a start it is set, and a failed
upload starts the streams. -/

namespace GpsBase.Web.UploadStreams

open GpsBase.Lib.Machine GpsBase.Mailbox.Slots GpsBase.Rtcm.Parser GpsBase.Settings.Records
open GpsBase.Rtcm.Framing GpsBase.Control.Modes GpsBase.Control.Gating GpsBase.Web.Upload

variable {D : Type}

/-- The station and the last upload; of its request the record keeps whether it was let in, the flag as it
came, and the flag after the last call of the handler. `applied` is that `apply_persisted_streams` was
called. -/
structure System (D : Type) where
  station : Station D
  upload : Option Handler := none
  granted : Bool := false
  before : Bool := false
  after : Bool := false
  applied : Bool := false

/-- A step of the station or of another task, a new request, or what a call of the handler answers. -/
inductive Event (D : Type)
  | operate (op : Operation D)
  | request (contentLen : ℕ) (granted : Bool)
  | answer (i : Input)

/-- `set_streams_suspended(false)`, which only the handler of uploads calls. -/
def Resumes : Operation D → Bool
  | .call (.setStreamsSuspended false) => true
  | _ => false

/-- `apply_persisted_streams`. -/
def Applies : Operation D → Bool
  | .call (.applyPersistedStreams _) => true
  | _ => false

/-- A call of the handler reaches the station. -/
def reaches (st : Station D) : Upload.Call → Station D
  | .setStreamsSuspended suspended => st.setStreamsSuspended suspended
  | _ => st

/-- The handler is not at work; the server handles one request at a time. -/
def idle (upload : Option Handler) : Bool :=
  match upload with
  | none => true
  | some h => match h.phase with
    | .finished _ => true
    | _ => false

/-- The handler takes a step, with what it calls of the station. -/
def handle (s : System D) (h : Handler) (i : Input) : Option (System D) :=
  (h.step i).map fun h' =>
    let station := (h'.calls.drop h.calls.length).foldl reaches s.station
    { s with station := station, upload := some h', after := station.transientStreamsSuspended }

def step (s : System D) : Event D → Option (System D)
  | .operate op =>
    if Resumes op then none
    else some { s with station := perform s.station op, applied := s.applied || Applies op }
  | .request contentLen granted =>
    if idle s.upload then
      handle { s with granted := granted, before := s.station.transientStreamsSuspended }
        { contentLen := contentLen } (.authorize granted)
    else none
  | .answer i =>
    match s.upload with
    | none => none
    | some h => handle s h i

/-- The station after `start`. -/
def boot (enabled : Bool) (parser : RtcmParser) (corrections : Corrections) : System D :=
  { station := Station.start enabled parser corrections }

/-! ### The handler -/

theorem calls_step {h h' : Handler} {i : Input} (hstep : h.step i = some h') :
    h'.calls = h.calls ∨ ∃ c, h'.calls = h.calls ++ [c] := by
  unfold Handler.step at hstep
  split at hstep
  case h_6 =>
    obtain ⟨_, _, rfl⟩ := Option.map_eq_some_iff.mp hstep
    exact Or.inr ⟨_, rfl⟩
  case h_10 =>
    dsimp only at hstep
    split_ifs at hstep <;> cases hstep <;> exact Or.inr ⟨_, rfl⟩
  case h_12 => cases hstep
  all_goals
    cases hstep
    first
    | exact Or.inl rfl
    | exact Or.inr ⟨_, rfl⟩

/-- The handler has begun, and has not ended. -/
def UnderWay (p : Phase) : Prop := p ≠ .authorizing ∧ ∀ reply, p ≠ .finished reply

theorem underWay_check (h : Handler) (size : Option ℕ) : UnderWay (h.check size) := by
  unfold Handler.check
  split_ifs
  · exact ⟨by simp, by simp⟩
  · rcases size with _ | size
    · exact ⟨by simp, by simp⟩
    · dsimp only
      split_ifs <;> exact ⟨by simp, by simp⟩

theorem underWay_receive {remaining timeouts : ℕ} {r : Received} {phase : Phase}
    (hr : Handler.receive remaining timeouts r = some phase) : UnderWay phase := by
  unfold Handler.receive at hr
  rcases r with bytes | _ | _
  · dsimp only at hr
    split_ifs at hr
    cases hr
    exact ⟨by simp, by simp⟩
  · dsimp only at hr
    split_ifs at hr <;> cases hr <;> exact ⟨by simp, by simp⟩
  · cases hr
    exact ⟨by simp, by simp⟩

theorem underWay_wrote (remaining : ℕ) (data : List UInt8) (result : EspErr) :
    UnderWay (Handler.wrote remaining data result) := by
  unfold Handler.wrote
  split_ifs <;> exact ⟨by simp, by simp⟩

/-- A request that was let in ends with a success, or with the streams resumed. -/
theorem step_finishes {h h' : Handler} {i : Input} (hphase : h.phase ≠ .authorizing)
    (hstep : h.step i = some h') : h'.phase ≠ .authorizing ∧ ∀ reply, h'.phase = .finished reply →
      reply ≠ .accepted → h'.calls = h.calls ++ [.setStreamsSuspended false] := by
  have hgoes : UnderWay h'.phase → h'.phase ≠ .authorizing ∧ ∀ reply, h'.phase = .finished reply →
      reply ≠ .accepted → h'.calls = h.calls ++ [.setStreamsSuspended false] :=
    fun hu => ⟨hu.1, fun reply hfin => absurd hfin (hu.2 reply)⟩
  unfold Handler.step at hstep
  split at hstep
  · next heq => exact absurd heq hphase
  · next heq => exact absurd heq hphase
  · cases hstep
    exact hgoes ⟨by simp [Handler.goes], by simp [Handler.goes]⟩
  · cases hstep
    exact hgoes (underWay_check h _)
  · cases hstep
    refine hgoes ?_
    show UnderWay (if _ then _ else _)
    split_ifs <;> exact ⟨by simp, by simp⟩
  · obtain ⟨_, hr, rfl⟩ := Option.map_eq_some_iff.mp hstep
    exact hgoes (underWay_receive hr)
  · cases hstep
    exact hgoes (underWay_wrote _ _ _)
  · cases hstep
    exact hgoes ⟨by simp [Handler.goes], by simp [Handler.goes]⟩
  · cases hstep
    refine hgoes ?_
    show UnderWay (if _ then _ else _)
    split_ifs <;> exact ⟨by simp, by simp⟩
  · dsimp only at hstep
    split_ifs at hstep
    · cases hstep
      refine ⟨by simp [Handler.goes], fun reply hfin hne => ?_⟩
      cases hfin
      exact absurd rfl hne
    · cases hstep
      exact hgoes ⟨by simp [Handler.goes], by simp [Handler.goes]⟩
  · cases hstep
    exact ⟨by simp [Handler.goes], fun _ _ _ => rfl⟩
  · cases hstep

theorem reaches_step {h h' : Handler} {i : Input} (hstep : h.step i = some h') (st : Station D) :
    (h'.calls.drop h.calls.length).foldl reaches st = st ∨
      ∃ c, h'.calls = h.calls ++ [c] ∧ (h'.calls.drop h.calls.length).foldl reaches st = reaches st c := by
  rcases calls_step hstep with heq | ⟨c, heq⟩
  · rw [heq, List.drop_length]
    exact Or.inl rfl
  · refine Or.inr ⟨c, heq, ?_⟩
    rw [heq, List.drop_left]
    rfl

theorem Applied.reaches {st : Station D} (hs : Applied st) (c : Upload.Call) : Applied (reaches st c) := by
  unfold UploadStreams.reaches
  split
  · exact applied_applyStreamState _
  · exact hs

/-! ### The flag -/

/-- A request that was refused changed nothing, and one that was let in and failed cleared the flag. -/
structure Recorded (s : System D) : Prop where
  refused : s.granted = false → ∀ h, s.upload = some h → h.phase = .finished .unauthorized ∧ s.after = s.before
  let_in : s.granted = true → ∀ h, s.upload = some h → h.phase ≠ .authorizing ∧
    ∀ reply, h.phase = .finished reply → reply ≠ .accepted → s.after = false

theorem recorded_boot (enabled : Bool) (parser : RtcmParser) (corrections : Corrections) :
    Recorded (boot enabled parser corrections : System D) :=
  ⟨fun _ _ h => (nomatch h), fun _ _ h => (nomatch h)⟩

/-- **The record of each upload** is kept by every step. -/
theorem Recorded.step {s s' : System D} {e : Event D} (hs : Recorded s) (hstep : step s e = some s') :
    Recorded s' := by
  unfold UploadStreams.step at hstep
  cases e with
  | operate op =>
    dsimp only at hstep
    split_ifs at hstep
    cases hstep
    exact ⟨hs.refused, hs.let_in⟩
  | request contentLen granted =>
    dsimp only at hstep
    split_ifs at hstep
    obtain ⟨h', hh, rfl⟩ := Option.map_eq_some_iff.mp hstep
    cases granted with
    | false =>
      cases hh
      refine ⟨fun _ h heq => ?_, fun h => nomatch h⟩
      cases heq
      exact ⟨rfl, rfl⟩
    | true =>
      cases hh
      refine ⟨fun h => (nomatch h), fun _ h heq => ?_⟩
      cases heq
      exact ⟨by simp [Handler.goes], fun reply hfin => nomatch hfin⟩
  | answer i =>
    dsimp only at hstep
    split at hstep
    · cases hstep
    · next h hupload =>
      obtain ⟨h', hh, rfl⟩ := Option.map_eq_some_iff.mp hstep
      refine ⟨fun hgranted t heq => ?_, fun hgranted t heq => ?_⟩
      · -- a handler that has ended makes no further call
        have hfin := (hs.refused hgranted h hupload).1
        unfold Handler.step at hh
        rw [hfin] at hh
        cases hh
      · cases heq
        obtain ⟨hne, hfinish⟩ := step_finishes (hs.let_in hgranted h hupload).1 hh
        refine ⟨hne, fun reply hfin hreply => ?_⟩
        have hcalls := hfinish reply hfin hreply
        show ((h'.calls.drop h.calls.length).foldl reaches s.station).transientStreamsSuspended = false
        rw [hcalls, List.drop_left]
        rfl

/-! ### The hold-off -/

/-- The station's own operations leave the transient flag, but for its setters. -/
theorem transient_exitRaw (st : Station D) (a : Answers D) :
    (st.exitRawCollection a).transientStreamsSuspended = st.transientStreamsSuspended := by
  unfold Station.exitRawCollection
  split_ifs <;> rfl

theorem transient_enterSurvey (st : Station D) (clear : Bool) (a : Answers D) :
    (st.enterSurvey clear a).transientStreamsSuspended = st.transientStreamsSuspended := by
  unfold Station.enterSurvey
  cases clear <;> rfl

theorem transient_saveAndTransmit (st : Station D) (lat lon height : D) (a : Answers D) :
    (st.saveAndTransmit lat lon height a).transientStreamsSuspended = st.transientStreamsSuspended := by
  unfold Station.saveAndTransmit
  dsimp only
  split_ifs <;> rfl

theorem transient_handleAction (st : Station D) (action : Action D) (exit a : Answers D) :
    (st.handleAction action exit a).transientStreamsSuspended = st.transientStreamsSuspended := by
  cases action with
  | kSurvey => exact (transient_enterSurvey _ _ _).trans (transient_exitRaw st exit)
  | kPosition lat lon height => exact (transient_saveAndTransmit _ _ _ _ _).trans (transient_exitRaw st exit)
  | kStartRaw =>
    unfold Station.handleAction Station.enterRawCollection
    dsimp only
    split_ifs <;> rfl
  | kStopRaw => exact transient_exitRaw st exit
  | kResetUm980 =>
    unfold Station.handleAction Station.resetUm980
    dsimp only
    split_ifs <;> rfl

theorem transient_publish (st : Station D) (data : List UInt8) (now : ℤ) :
    (st.publishRtcmFrame data now).transientStreamsSuspended = st.transientStreamsSuspended := by
  unfold Station.publishRtcmFrame
  dsimp only
  split_ifs <;> rfl

theorem transient_readDataUart (st : Station D) (data : List UInt8) (now : ℤ)
    (pushed : PushDestination → SlotIndex → Bool) :
    (st.readDataUart data now pushed).transientStreamsSuspended = st.transientStreamsSuspended := by
  have hfeed := feed_induction (P := fun t : Station D => t.transientStreamsSuspended =
    st.transientStreamsSuspended) now (fun _ _ h => h) (fun t frame h => (transient_publish t frame now).trans h)
    data st rfl
  exact hfeed

theorem transient_rateCheck (st : Station D) (now : ℤ) :
    (st.rateCheck now).transientStreamsSuspended = st.transientStreamsSuspended := by
  unfold Station.rateCheck
  dsimp only
  split_ifs <;> rfl

theorem transient_perform (st : Station D) {op : Operation D} (hresumes : Resumes op = false)
    (happlies : Applies op = false) (h : st.transientStreamsSuspended = true) :
    (perform st op).transientStreamsSuspended = true := by
  cases op with
  | boot a now =>
    show (Station.boot st a now).transientStreamsSuspended = true
    unfold Station.boot
    dsimp only
    split_ifs
    · exact h
    · exact (transient_enterSurvey st false a).trans h
  | action action exit a => exact (transient_handleAction st action exit a).trans h
  | surveyCompleted lat lon height a =>
    show (Station.surveyCompleted st lat lon height a).transientStreamsSuspended = true
    unfold Station.surveyCompleted
    split_ifs
    · exact (transient_saveAndTransmit st lat lon height a).trans h
    · exact h
  | rinexFeed data => exact h
  | readDataUart data now pushed => exact (transient_readDataUart st data now pushed).trans h
  | publish data now => exact (transient_publish st data now).trans h
  | rateCheck now => exact (transient_rateCheck st now).trans h
  | call c =>
    cases c with
    | setStreamsSuspended b =>
      cases b
      · cases hresumes
      · rfl
    | setStreamsEnabled b => exact h
    | applyPersistedStreams b => cases happlies
    | setNetworkAvailable b =>
      show (Station.setNetworkAvailable st b).transientStreamsSuspended = true
      unfold Station.setNetworkAvailable
      split_ifs <;> exact h
    | reloadServices services => exact h

/-- **The condition**: a request that is let in finds the transient flag clear. -/
def ComesClear (s : System D) : Event D → Prop
  | .request _ granted => granted = true → s.station.transientStreamsSuspended = false
  | _ => True

/-- Until `apply_persisted_streams` the flag is set and no upload is at work. -/
structure HeldOff (s : System D) : Prop where
  station : Applied s.station
  flag : s.applied = false → s.station.transientStreamsSuspended = true
  upload : s.applied = false → idle s.upload = true

theorem heldOff_boot (enabled : Bool) (parser : RtcmParser) (corrections : Corrections) :
    HeldOff (boot enabled parser corrections : System D) :=
  ⟨(gated_start enabled parser corrections).1, fun _ => rfl, fun _ => rfl⟩

theorem Applied.handle {s s' : System D} {h : Handler} {i : Input} (hs : Applied s.station)
    (hstep : UploadStreams.handle s h i = some s') : Applied s'.station := by
  obtain ⟨h', hh, rfl⟩ := Option.map_eq_some_iff.mp hstep
  rcases reaches_step hh s.station with heq | ⟨c, -, heq⟩
  · show Applied ((h'.calls.drop h.calls.length).foldl UploadStreams.reaches s.station)
    rw [heq]
    exact hs
  · show Applied ((h'.calls.drop h.calls.length).foldl UploadStreams.reaches s.station)
    rw [heq]
    exact Applied.reaches hs c

/-- **The hold-off** is kept by every step that meets the condition. -/
theorem HeldOff.step {s s' : System D} {e : Event D} (hs : HeldOff s) (hclear : ComesClear s e)
    (hstep : UploadStreams.step s e = some s') : HeldOff s' := by
  cases e with
  | operate op =>
    unfold UploadStreams.step at hstep
    dsimp only at hstep
    split_ifs at hstep with hresumes
    cases hstep
    refine ⟨hs.station.perform op, fun happlied => ?_, fun happlied => ?_⟩
    · obtain ⟨h1, h2⟩ := Bool.or_eq_false_iff.mp happlied
      exact transient_perform s.station (Bool.eq_false_of_not_eq_true hresumes) h2 (hs.flag h1)
    · exact hs.upload (Bool.or_eq_false_iff.mp happlied).1
  | request contentLen granted =>
    unfold UploadStreams.step at hstep
    dsimp only at hstep
    split_ifs at hstep
    have hstation : Applied s'.station := Applied.handle
      (s := { s with granted := granted, before := s.station.transientStreamsSuspended }) hs.station hstep
    obtain ⟨h', hh, rfl⟩ := Option.map_eq_some_iff.mp hstep
    cases granted with
    | false =>
      cases hh
      exact ⟨hstation, hs.flag, fun _ => rfl⟩
    | true =>
      have hset : s.applied ≠ false := fun happlied => by
        have hflag := hs.flag happlied
        rw [hclear rfl] at hflag
        cases hflag
      exact ⟨hstation, fun happlied => absurd happlied hset, fun happlied => absurd happlied hset⟩
  | answer i =>
    unfold UploadStreams.step at hstep
    dsimp only at hstep
    split at hstep
    · cases hstep
    · next h hupload =>
      have hstation : Applied s'.station := Applied.handle hs.station hstep
      obtain ⟨h', hh, rfl⟩ := Option.map_eq_some_iff.mp hstep
      -- a handler that has ended makes no further call
      have hset : s.applied ≠ false := fun happlied => by
        have hidle := hs.upload happlied
        rw [hupload] at hidle
        unfold Handler.step at hh
        unfold idle at hidle
        dsimp only at hidle
        split at hidle
        · next reply hphase =>
          rw [hphase] at hh
          cases hh
        · cases hidle
      exact ⟨hstation, fun happlied => absurd happlied hset, fun happlied => absurd happlied hset⟩

/-- **A failed upload leaves the transient flag as it was** exactly if it was not let in or found the flag
clear. In a run where every request that is let in finds it clear, no stream is started before
`apply_persisted_streams`. -/
theorem flag_restored (enabled : Bool) (parser : RtcmParser) (corrections : Corrections)
    {events : List (Event D)} {s : System D}
    (hrun : run step (boot enabled parser corrections) events = some s) :
    (∀ h reply, s.upload = some h → h.phase = .finished reply → reply ≠ .accepted →
      (s.after = s.before ↔ (s.granted = true → s.before = false))) ∧
    (Along step ComesClear (boot enabled parser corrections) events → s.applied = false →
      s.station.transientStreamsSuspended = true ∧ s.station.casterSuspended = true ∧
        ∀ d, s.station.clientSuspended d = true) := by
  constructor
  · intro h reply hupload hphase hreply
    have hrecorded : Recorded s := run_invariant (I := Recorded) (fun _ _ _ h hstep => h.step hstep)
      (recorded_boot enabled parser corrections) hrun
    rcases hgranted : s.granted with _ | _
    · exact iff_of_true (hrecorded.refused hgranted h hupload).2 fun hg => nomatch hg
    · rw [((hrecorded.let_in hgranted h hupload).2 reply hphase hreply), imp_iff_right rfl]
      exact eq_comm
  · intro halong happlied
    have hheld : HeldOff s := run_invariant_along (I := HeldOff)
      (fun _ _ _ h hC hstep => h.step hC hstep) events (heldOff_boot enabled parser corrections) halong hrun
    have hflag := hheld.flag happlied
    have hstreams : s.station.effectiveStreamsSuspended = true := by
      unfold Station.effectiveStreamsSuspended
      rw [hflag]
      rfl
    refine ⟨hflag, hheld.station.caster.trans hstreams, fun d => (hheld.station.client d).trans ?_⟩
    unfold Station.effectiveOutboundStreamsSuspended
    rw [hstreams]
    rfl

def emptyImage : List (Event Unit) :=
  [.request 0 true, .answer .proceed, .answer (.partition none), .answer .proceed]

def fresh : System Unit := boot true freshParser (resetRtcmState 0)

/-- The streams are set up, and corrections come, during the hold-off. -/
def setUp : List (Event Unit) :=
  [.operate (.boot Answers.stored 0), .operate (.publish [211, 0, 2, 62, 208, 1, 2, 3] 0)]

/-- After the hold-off an empty image changes nothing; during it, a request that is not let in. -/
theorem flag_restored_later :
    (∃ s, run step fresh (.operate (.call (.applyPersistedStreams true)) :: emptyImage) = some s ∧
      s.before = false ∧ s.after = s.before) ∧
    ∃ s, run step fresh (setUp ++ [.request 0 false]) = some s ∧ s.station.casterSuspended = true := by
  constructor
  · have hfinal : (run step fresh (.operate (.call (.applyPersistedStreams true)) :: emptyImage)).map
        (fun s => (s.before, s.upload.map Handler.phase)) =
          some (false, some (.finished (.error 400 (.text "Empty image")))) := by
      decide +kernel
    obtain ⟨s, hrun, hlast⟩ := Option.map_eq_some_iff.mp hfinal
    obtain ⟨hbefore, hphase⟩ := Prod.mk.inj hlast
    obtain ⟨h, hupload, hphase⟩ := Option.map_eq_some_iff.mp hphase
    have hresult := (flag_restored true freshParser (resetRtcmState 0) hrun).1 h _ hupload hphase (by simp)
    exact ⟨s, hrun, hbefore, hresult.mpr fun _ => hbefore⟩
  · have hfinal : (run step fresh (setUp ++ [.request 0 false])).map System.applied = some false := by
      decide +kernel
    obtain ⟨s, hrun, happlied⟩ := Option.map_eq_some_iff.mp hfinal
    have hheld := (flag_restored true freshParser (resetRtcmState 0) hrun).2
      (along_of_forall _ _ fun e he s => ?_) happlied
    · exact ⟨s, hrun, hheld.2.1⟩
    · simp only [setUp, List.cons_append, List.nil_append, List.mem_cons, List.not_mem_nil, or_false] at he
      rcases he with rfl | rfl | rfl
      · exact trivial
      · exact trivial
      · exact fun hgranted => absurd hgranted Bool.false_ne_true

/-- **During the hold-off an empty image starts the local caster.** -/
theorem flag_cleared :
    (run step fresh (setUp ++ emptyImage)).map
      (fun s => (s.applied, s.before, s.after, s.station.casterSuspended)) =
        some (false, true, false, false) := by
  decide +kernel

end GpsBase.Web.UploadStreams
