import GpsBase.Control.Gating
import GpsBase.Lib.Machine
import GpsBase.Rtcm.Framing

/-! # The outbound rate gate

`outbound_rate_ready_` is to say that the rate was reached over a full measurement window since the
last mode transition. A transition clears the latch but neither the byte count nor the start of the
window, which are locals of `run`: the latch rises on a window that lies after the transition exactly
if no window a transition falls into reaches the rate, and on new bytes only exactly if none of these
holds bytes from before.

A run is a list of the loop's steps and of the calls of other tasks, in any order; a turn of the loop
is such a run (`turn_operations`). -/

namespace GpsBase.Control.RateGate

open GpsBase.Lib.Machine
open GpsBase.Mailbox.Slots GpsBase.Rtcm.Parser GpsBase.Rtcm.Parser.RtcmParser GpsBase.Rtcm.Framing
open GpsBase.Control.Modes GpsBase.Control.Modes.Station GpsBase.Control.Gating

variable {D : Type}

/-! ### Steps -/

def step (s : Station D) (op : Operation D) : Option (Station D) := some (perform s op)

theorem actions_operations (as : List (Action D × Answers D × Answers D)) (s : Station D) :
    Reaches step s (as.foldl (fun s a => s.handleAction a.1 a.2.1 a.2.2) s) := by
  induction as generalizing s with
  | nil => exact .refl s
  | cons a as ih => exact (Reaches.single (i := .action a.1 a.2.1 a.2.2) rfl).trans (ih _)

theorem serve_operations (s : Station D) (t : Turn D) : Reaches step s (s.serve t) := by
  have hactions := actions_operations t.actions s
  unfold serve
  dsimp only
  split
  · split
    · exact hactions
    · exact hactions.trans (.single (i := .surveyCompleted _ _ _ t.answers) rfl)
  · split_ifs
    · exact hactions.trans (.single (i := .rinexFeed t.data) rfl)
    · exact hactions.trans (.single (i := .readDataUart t.data t.readTime t.pushed) rfl)

theorem turn_operations (s : Station D) (t : Turn D) : Reaches step s (s.turn t) :=
  (serve_operations s t).trans (.single (i := .rateCheck t.now) rfl)

/-! ### Reading the data UART -/

structure ReadKept (s s' : Station D) : Prop where
  mode : s'.mode = s.mode
  rawCollection : s'.rawCollection = s.rawCollection
  latch : s'.outboundRateReady = s.outboundRateReady
  straddles : s'.straddles = s.straddles
  oldBytes : s'.oldBytes = s.oldBytes
  rateStarted : s'.rateStarted = s.rateStarted
  rateBytes : s'.rateBytes = s.rateBytes

theorem ReadKept.refl (s : Station D) : ReadKept s s := ⟨rfl, rfl, rfl, rfl, rfl, rfl, rfl⟩

theorem ReadKept.trans {s t u : Station D} (h : ReadKept s t) (h' : ReadKept t u) : ReadKept s u :=
  ⟨h'.mode.trans h.mode, h'.rawCollection.trans h.rawCollection, h'.latch.trans h.latch,
    h'.straddles.trans h.straddles, h'.oldBytes.trans h.oldBytes,
    h'.rateStarted.trans h.rateStarted, h'.rateBytes.trans h.rateBytes⟩

theorem readKept_publishRtcmFrame (s : Station D) (data : List UInt8) (now : ℤ) :
    ReadKept s (s.publishRtcmFrame data now) := by
  unfold Station.publishRtcmFrame
  split_ifs
  · exact .refl s
  · dsimp only
    rcases s.hasRtcmData <;> exact ⟨rfl, rfl, rfl, rfl, rfl, rfl, rfl⟩

theorem rtcmTotal_publishRtcmFrame (s : Station D) {data : List UInt8} (now : ℤ)
    (h : data ≠ [] ∧ data.length ≤ kMaxRtcmFrame) :
    (s.publishRtcmFrame data now).rtcmTotal = s.rtcmTotal + data.length := by
  unfold Station.publishRtcmFrame
  rw [if_neg (by rintro (h' | h'); exacts [h.1 h', absurd h.2 (by omega)])]
  dsimp only
  rcases s.hasRtcmData <;> rfl

theorem readKept_feed (now : ℤ) (data : List UInt8) (s : Station D) :
    ReadKept s (data.foldl (fun s byte => s.feedRtcmByte now byte) s) :=
  feed_induction (P := ReadKept s) now
    (fun _ _ h => h.trans ⟨rfl, rfl, rfl, rfl, rfl, rfl, rfl⟩)
    (fun _ _ h => h.trans (readKept_publishRtcmFrame _ _ _)) data s (.refl s)

theorem parser_publishRtcmFrame (s : Station D) (data : List UInt8) (now : ℤ) :
    (s.publishRtcmFrame data now).parser = s.parser := by
  unfold Station.publishRtcmFrame
  split_ifs
  · rfl
  · dsimp only
    rcases s.hasRtcmData <;> rfl

theorem rtcmTotal_feed (now : ℤ) (data : List UInt8) (s : Station D)
    (h : ∀ f ∈ (feedRtcm s.parser data).2, f ≠ [] ∧ f.length ≤ kMaxRtcmFrame) :
    (data.foldl (fun s byte => s.feedRtcmByte now byte) s).rtcmTotal =
      s.rtcmTotal + ((feedRtcm s.parser data).2.map List.length).sum := by
  induction data generalizing s with
  | nil => rfl
  | cons byte data ih =>
    rw [List.foldl_cons]
    simp only [feedRtcm] at h ⊢
    rcases feedRtcmByte_cases s now byte with ⟨hf, hs⟩ | ⟨frame, hf, hs⟩
    · rw [hf] at h ⊢
      rw [hs, ih { s with parser := (s.parser.feedRtcmByte byte).1 } h]
      rfl
    · rw [hf] at h ⊢
      have hp := parser_publishRtcmFrame { s with parser := (s.parser.feedRtcmByte byte).1 } frame now
      have hrest : ∀ f ∈ (feedRtcm (s.parser.feedRtcmByte byte).1 data).2,
          f ≠ [] ∧ f.length ≤ kMaxRtcmFrame := fun f hmem => h f (List.mem_cons_of_mem _ hmem)
      rw [hs, ih _ (by rwa [hp]), hp, rtcmTotal_publishRtcmFrame _ now (h frame List.mem_cons_self)]
      simp [add_assoc]

theorem readKept_readDataUart (s : Station D) (data : List UInt8) (now : ℤ)
    (pushed : PushDestination → SlotIndex → Bool) :
    ReadKept s { s.readDataUart data now pushed with rateBytes := s.rateBytes } := by
  have h := readKept_feed now data s
  exact ⟨h.mode, h.rawCollection, h.latch, h.straddles, h.oldBytes, h.rateStarted, rfl⟩

/-- The rate counts the bytes of the frames read, modulo `2 ^ 32`. -/
theorem rateBytes_readDataUart (s : Station D) (data : List UInt8) (now : ℤ)
    (pushed : PushDestination → SlotIndex → Bool)
    (h : ∀ f ∈ (feedRtcm s.parser data).2, f ≠ [] ∧ f.length ≤ kMaxRtcmFrame) :
    (s.readDataUart data now pushed).rateBytes =
      (s.rateBytes + ((feedRtcm s.parser data).2.map List.length).sum % 2 ^ 32) % 2 ^ 32 := by
  have hfeed := readKept_feed now data s
  have htotal := rtcmTotal_feed now data s h
  show ((data.foldl (fun s byte => s.feedRtcmByte now byte) s).rateBytes +
    ((data.foldl (fun s byte => s.feedRtcmByte now byte) s).rtcmTotal - s.rtcmTotal) % 2 ^ 32) %
      2 ^ 32 = _
  rw [hfeed.rateBytes, htotal, Nat.add_sub_cancel_left]

/-! ### The latch and the open window -/

/-- While a transition falls into the open window the latch is clear; otherwise all its bytes are
new. -/
structure OpenWindow (s : Station D) : Prop where
  clear : s.straddles = true → s.outboundRateReady = false
  new : s.straddles = false → s.oldBytes = 0

theorem OpenWindow.transition {s s' : Station D} (hs : OpenWindow s) (h : Transition s s') :
    OpenWindow s' := by
  rcases h with ⟨-, h2, -, h4, h5⟩ | ⟨-, h2, h3⟩
  · exact ⟨fun h => h2.trans (hs.clear (h4 ▸ h)), fun h => h5.trans (hs.new (h4 ▸ h))⟩
  · refine ⟨fun _ => h2, fun h => ?_⟩
    rw [h3] at h
    cases h

theorem OpenWindow.rateCheck {s : Station D} (hs : OpenWindow s) (now : ℤ) :
    OpenWindow (s.rateCheck now) := by
  unfold Station.rateCheck
  dsimp only
  split_ifs
  · exact ⟨fun h => (by cases h), fun _ => rfl⟩
  · exact ⟨fun h => (by cases h), fun _ => rfl⟩
  · exact hs

theorem openWindow_boot (s : Station D) (a : Answers D) (now : ℤ) : OpenWindow (s.boot a now) :=
  ⟨fun h => (by cases h), fun _ => rfl⟩

theorem openWindow_step (s : Station D) (op : Operation D) (s' : Station D) (hs : OpenWindow s)
    (h : step s op = some s') : OpenWindow s' := by
  cases h
  cases op with
  | boot a now => exact openWindow_boot s a now
  | action action exit a => exact hs.transition (transition_handleAction s action exit a)
  | surveyCompleted lat lon height a =>
    exact hs.transition (transition_surveyCompleted s lat lon height a)
  | rinexFeed data => exact ⟨hs.clear, hs.new⟩
  | readDataUart data now pushed =>
    have ht := readKept_readDataUart s data now pushed
    exact ⟨fun h => ht.latch.trans (hs.clear (ht.straddles ▸ h)),
      fun h => ht.oldBytes.trans (hs.new (ht.straddles ▸ h))⟩
  | publish data now =>
    have ht := readKept_publishRtcmFrame s data now
    exact ⟨fun h => ht.latch.trans (hs.clear (ht.straddles ▸ h)),
      fun h => ht.oldBytes.trans (hs.new (ht.straddles ▸ h))⟩
  | rateCheck now => exact hs.rateCheck now
  | call c => exact hs.transition (transition_call s c)

/-! ### Rises -/

/-- `outbound_rate_ready_` becomes true. -/
def Rises (s : Station D) (op : Operation D) : Prop :=
  s.outboundRateReady = false ∧ (perform s op).outboundRateReady = true

/-- The open window is closed at `now` and reaches `kMinOutboundRtcmBps`. -/
def Reached (s : Station D) (now : ℤ) : Prop :=
  1000000 ≤ now - s.rateStarted ∧
    kMinOutboundRtcmBps ≤ s.rateBytes * 1000000 / (now - s.rateStarted).toNat % 2 ^ 32

theorem not_rises {s s' : Station D} (h : Transition s s')
    (hs : s.outboundRateReady = false) : s'.outboundRateReady ≠ true := by
  rcases h with ⟨-, h2, -⟩ | ⟨-, h2, -⟩
  · simp [h2, hs]
  · simp [h2]

/-- **The latch rises at a rate check whose window reaches the rate, and nowhere else.** -/
theorem rises_iff (s : Station D) (op : Operation D) :
    Rises s op ↔ s.outboundRateReady = false ∧ ∃ now, op = .rateCheck now ∧ Reached s now := by
  refine and_congr_right fun hs => ?_
  cases op with
  | boot a now =>
    have hmode := not_rises (transition_mode s a) hs
    exact iff_of_false hmode (by rintro ⟨_, ⟨⟩, _⟩)
  | action action exit a =>
    exact iff_of_false (not_rises (transition_handleAction s action exit a) hs) (by rintro ⟨_, ⟨⟩, _⟩)
  | surveyCompleted lat lon height a =>
    exact iff_of_false (not_rises (transition_surveyCompleted s lat lon height a) hs)
      (by rintro ⟨_, ⟨⟩, _⟩)
  | rinexFeed data => exact iff_of_false (by simp [perform, act, hs]) (by rintro ⟨_, ⟨⟩, _⟩)
  | readDataUart data now pushed =>
    have ht := (readKept_readDataUart s data now pushed).latch
    exact iff_of_false (fun h => Bool.false_ne_true ((ht.trans hs).symm.trans h))
      (by rintro ⟨_, ⟨⟩, _⟩)
  | publish data now =>
    have ht := (readKept_publishRtcmFrame s data now).latch
    exact iff_of_false (fun h => Bool.false_ne_true ((ht.trans hs).symm.trans h))
      (by rintro ⟨_, ⟨⟩, _⟩)
  | call c => exact iff_of_false (not_rises (transition_call s c) hs) (by rintro ⟨_, ⟨⟩, _⟩)
  | rateCheck now =>
    show (s.rateCheck now).outboundRateReady = true ↔ _
    unfold Station.rateCheck
    dsimp only
    split_ifs with h1 h2
    · rw [Bool.and_eq_true, decide_eq_true_eq] at h2
      exact iff_of_true rfl ⟨now, rfl, h1, h2.1⟩
    · rw [Bool.and_eq_true, decide_eq_true_eq, hs] at h2
      refine iff_of_false (by simp [hs]) ?_
      rintro ⟨_, ⟨⟩, -, hreached⟩
      exact h2 ⟨hreached, rfl⟩
    · refine iff_of_false (by simp [hs]) ?_
      rintro ⟨_, ⟨⟩, helapsed, -⟩
      exact h1 helapsed

/-! ### Runs -/

/-- Whenever the latch rises, the measured window lies after the last transition. -/
def WindowAfter (s : Station D) (op : Operation D) : Prop := Rises s op → s.straddles = false

/-- Whenever the latch rises, no byte measured was published before the last transition. -/
def BytesAfter (s : Station D) (op : Operation D) : Prop := Rises s op → s.oldBytes = 0

/-- **The outbound rate gate.** In every run of the station, whenever the latch rises the window
measured lies after the last transition, exactly if no window into which a transition falls reaches
the rate; and its bytes were published after that transition, exactly if no window that holds bytes
from before one reaches it. -/
theorem rate_gate_iff (enabled : Bool) (parser : RtcmParser) (corrections : Corrections)
    (a : Answers D) (now : ℤ) (ops : List (Operation D)) :
    let s := (start enabled parser corrections).boot a now
    (Along step WindowAfter s ops ↔
      Along step (fun s op => ∀ now, op = .rateCheck now → s.straddles = true → ¬ Reached s now)
        s ops) ∧
    (Along step BytesAfter s ops ↔
      Along step (fun s op => ∀ now, op = .rateCheck now → s.oldBytes ≠ 0 → ¬ Reached s now)
        s ops) := by
  have hboot := openWindow_boot (start enabled parser corrections) a now
  refine ⟨along_congr openWindow_step (fun s op hs => ?_) ops hboot,
    along_congr openWindow_step (fun s op hs => ?_) ops hboot⟩
  · unfold WindowAfter
    rw [rises_iff]
    constructor
    · rintro h now rfl hstraddles hreached
      rw [h ⟨hs.clear hstraddles, now, rfl, hreached⟩] at hstraddles
      cases hstraddles
    · rintro h ⟨-, now, he, hreached⟩
      by_contra hstraddles
      exact h now he (by simpa using hstraddles) hreached
  · unfold BytesAfter
    rw [rises_iff]
    constructor
    · rintro h now rfl hold hreached
      have hstraddles : s.straddles = true := by
        by_contra hnot
        exact hold (hs.new (by simpa using hnot))
      exact hold (h ⟨hs.clear hstraddles, now, rfl, hreached⟩)
    · rintro h ⟨-, now, he, hreached⟩
      by_contra hold
      exact h now he hold hreached

/-! ### A window that straddles a new position -/

def answers : Answers ℤ := ⟨0, true, ⟨1, 2, 3, true⟩, [], [], 0⟩

/-- Bytes read before the rate check at half a second. -/
def readTurn (data : List UInt8) : Turn ℤ :=
  ⟨[], none, answers, data, 200000, fun _ _ => true, 500000⟩

/-- A new position, no byte after it, and the rate check at one second. -/
def positionTurn : Turn ℤ :=
  ⟨[(.kPosition 4 5 6, answers, answers)], none, answers, [], 1000000, fun _ _ => true, 1000000⟩

/-- The station as its loop begins. -/
def booted : Station ℤ := (start true freshParser (resetRtcmState 0)).boot answers 0

theorem rateCheck_early {s : Station D} {now : ℤ} (h : now - s.rateStarted < 1000000) :
    s.rateCheck now = s := by
  unfold Station.rateCheck
  rw [if_neg (by omega)]

theorem serve_positionTurn {s : Station ℤ} (hraw : s.rawCollection = false) :
    s.serve positionTurn = (s.saveAndTransmit 4 5 6 answers).readDataUart [] 1000000
      (fun _ _ => true) := by
  have hexit : s.exitRawCollection answers = s := by
    unfold exitRawCollection
    rw [hraw]
    rfl
  unfold serve
  simp only [positionTurn, List.foldl_cons, List.foldl_nil, handleAction, hexit]
  have hraw' : (s.saveAndTransmit 4 5 6 answers).rawCollection = false := hraw
  have hmode : (s.saveAndTransmit 4 5 6 answers).mode = .kTransmit := rfl
  rw [hmode, hraw']
  rfl

theorem sum_lengths_replicate (n : ℕ) (f : List UInt8) :
    ((List.replicate n f).map List.length).sum = n * f.length := by
  simp

/-- 150 frames of 6 bytes are 900 bytes in the first half second. -/
theorem turn_readTurn {data : List UInt8}
    (hframes : (feedRtcm booted.parser data).2 = List.replicate 150 nullFrame) :
    (booted.turn (readTurn data)).rawCollection = false ∧
      (booted.turn (readTurn data)).rateBytes = 900 ∧
      (booted.turn (readTurn data)).rateStarted = 0 := by
  have hserve : booted.serve (readTurn data) = booted.readDataUart data 200000 fun _ _ => true := rfl
  have hkept := readKept_readDataUart booted data 200000 fun _ _ => true
  have hbytes := rateBytes_readDataUart booted data 200000 (fun _ _ => true) (by
    rw [hframes]
    intro f hf
    rw [List.eq_of_mem_replicate hf]
    decide)
  rw [hframes, sum_lengths_replicate] at hbytes
  have hstarted : (booted.readDataUart data 200000 fun _ _ => true).rateStarted = 0 :=
    hkept.rateStarted
  have hearly : booted.turn (readTurn data) =
      booted.readDataUart data 200000 fun _ _ => true := by
    unfold turn
    rw [hserve, rateCheck_early]
    rw [hstarted]
    show (500000 : ℤ) - 0 < 1000000
    norm_num
  rw [hearly]
  exact ⟨hkept.rawCollection, hbytes, hstarted⟩

theorem frames_nullFrames :
    (feedRtcm booted.parser (List.replicate 150 nullFrame).flatten).2 =
      List.replicate 150 nullFrame := by
  have hparser : booted.parser = freshParser.resetRtcmParser := rfl
  rw [hparser, feedRtcm_eq]
  refine congrArg Prod.snd (collectAll_flatten _ fun f hf => ?_)
  rw [List.eq_of_mem_replicate hf]
  exact valid_nullFrame

/-- A window with 900 bytes reaches the rate after the new position. -/
theorem rises_positionTurn {s : Station ℤ} (hraw : s.rawCollection = false)
    (hbytes : s.rateBytes = 900) (hstarted : s.rateStarted = 0) :
    Rises (s.serve positionTurn) (.rateCheck positionTurn.now) ∧
      (s.serve positionTurn).straddles = true ∧ (s.serve positionTurn).oldBytes = 900 ∧
      (s.serve positionTurn).rateBytes = 900 := by
  rw [serve_positionTurn hraw]
  set t := s.saveAndTransmit 4 5 6 answers
  have hkept := readKept_readDataUart t [] 1000000 fun _ _ => true
  have hnew : (t.readDataUart [] 1000000 fun _ _ => true).rateBytes = 900 := by
    rw [rateBytes_readDataUart _ _ _ _ (by simp [feedRtcm])]
    show (s.rateBytes + 0 % 2 ^ 32) % 2 ^ 32 = 900
    omega
  have hstart : (t.readDataUart [] 1000000 fun _ _ => true).rateStarted = 0 :=
    hkept.rateStarted.trans hstarted
  refine ⟨?_, hkept.straddles, hkept.oldBytes.trans hbytes, hnew⟩
  rw [rises_iff]
  refine ⟨hkept.latch, _, rfl, ?_⟩
  unfold Reached
  rw [hstart, hnew]
  decide

/-- **The latch rises on bytes published before the new position was set.** -/
theorem latch_rises_on_old_bytes :
    let s := (booted.turn (readTurn (List.replicate 150 nullFrame).flatten)).serve positionTurn
    Rises s (.rateCheck positionTurn.now) ∧ s.straddles = true ∧ s.oldBytes = 900 ∧
      s.rateBytes = 900 ∧ ¬ WindowAfter s (.rateCheck positionTurn.now) ∧
      ¬ BytesAfter s (.rateCheck positionTurn.now) := by
  obtain ⟨hraw, hbytes, hstarted⟩ := turn_readTurn frames_nullFrames
  obtain ⟨hrises, hstraddles, hold, hnew⟩ := rises_positionTurn hraw hbytes hstarted
  refine ⟨hrises, hstraddles, hold, hnew, fun h => ?_, fun h => ?_⟩
  · exact Bool.false_ne_true ((h hrises).symm.trans hstraddles)
  · exact absurd (hold.symm.trans (h hrises)) (by decide)

end GpsBase.Control.RateGate
