import GpsBase.Push.LocalBatch
import GpsBase.Push.WholeFrames
import GpsBase.Push.QueueAccounting

/-! # From the receiver to the casters

The way of a correction through the whole station: the base task reads the receiver's bytes
(`read_data_uart`), the parser publishes frames into the batch of the local caster and into the mailbox
of the push destinations, and their flushes call `push` of the local caster and of the three clients,
while the workers of all four, and everybody else who calls them, take turns with it in any order.

The machine is made of those of its parts: a step is one of the base task, which does a step of `push`
where it is in such a call, or one of a part's own. The suspensions that the base task itself asks for
are among those that can come at any time. A reset of parser, batch and mailbox happens between two
calls of `read_data_uart`, as in every change of mode. -/

namespace GpsBase.Flow.Pipeline

open GpsBase.Lib.Machine GpsBase.Mailbox.Slots GpsBase.Rtcm.Parser GpsBase.Rtcm.Parser.RtcmParser
open GpsBase.Push GpsBase.Push.LocalBatch
open GpsBase.Push.LocalCaster (Caster)
open GpsBase.Push.NtripPush (Client Constants)

/-! ### The base task -/

/-- `sizeof(buffer)` in `read_data_uart`. -/
def kReadBuffer : ℕ := 256

/-- What follows a flush of the batch: the rest of `publish_rtcm_frame` and of the bytes read, or the
flushes at the end of `read_data_uart`. -/
inductive After
  | publish (frame : List UInt8) (now : ℤ) (bytes : List UInt8) (again : Bool)
  | flushed (now : ℤ)
  deriving DecidableEq, Repr

/-- Where the base task is. `again` says that the buffer was full. -/
inductive Pc
  | top
  | read
  | feed (bytes : List UInt8) (again : Bool)
  | batch (calls : List (List UInt8)) (after : After)
  | batchCall (calls : List (List UInt8)) (after : After)
  | destination (dest : PushDestination) (now : ℤ)
  | slot (dest : PushDestination) (now : ℤ) (i : ℕ)
  | slotCall (dest : PushDestination) (now : ℤ) (i : SlotIndex)
  deriving DecidableEq, Repr

/-- The members of `BaseStation` that corrections go through, with a record: the bytes read, the frames
published, and those of them that the mailbox has been given. -/
structure Station where
  parser : RtcmParser
  batch : RtcmBatch
  box : Corrections
  caster : Caster
  client : PushDestination → Client
  rtcmTotal : UInt64 := 0
  now : ℤ := 0
  pc : Pc := .top
  fed : List UInt8 := []
  published : List (List UInt8) := []
  posted : List (List UInt8) := []

namespace Station

/-- `reset_rtcm_parser` and `reset_rtcm_state`. -/
def reset (s : Station) : Station :=
  { s with parser := s.parser.resetRtcmParser, batch := s.batch.reset, box := resetRtcmState s.now }

/-- The destination that `flush_due_corrections` looks at next. -/
def nextDestination : PushDestination → Option PushDestination
  | .kPushRtk2go => some .kPushOnocoy
  | .kPushOnocoy => some .kPushRtkdata
  | .kPushRtkdata => none

/-- The end of a `flush_destination_if_due`. -/
def nextPc (dest : PushDestination) (now : ℤ) : Pc :=
  match nextDestination dest with
  | some d => .destination d now
  | none => .top

/-- `publish_rtcm_frame` up to the flush of the batch. -/
def publish (s : Station) (frame : List UInt8) (bytes : List UInt8) (again : Bool) : Option Station :=
  if frame = [] ∨ kMaxRtcmFrame < frame.length then some { s with pc := .feed bytes again }
  else
    (s.batch.publishToBatch frame s.now 0).map fun r =>
      { s with batch := r.1, published := s.published ++ [frame]
               pc := .batch r.2 (.publish frame s.now bytes again) }

/-- `feed_rtcm_byte`. -/
def feedByte (s : Station) (x : UInt8) (bytes : List UInt8) (again : Bool) : Option Station :=
  let r := feedRtcmByte s.parser x
  let s := { s with parser := r.1, fed := s.fed ++ [x] }
  match r.2 with
  | none => some { s with pc := .feed bytes again }
  | some frame => s.publish frame bytes again

/-- `flush_due_batch` at the end of `read_data_uart`. -/
def flushDue (s : Station) : Station :=
  let r := s.batch.flushDueBatch s.now
  { s with batch := r.1, pc := .batch r.2 (.flushed s.now) }

/-- The batch is flushed: what comes after. -/
def goOn (s : Station) : After → Station
  | .publish frame now bytes again =>
    { s with box := publishRtcmFrame s.box frame now, posted := s.posted ++ [frame]
             rtcmTotal := s.rtcmTotal + UInt64.ofNat frame.length, pc := .feed bytes again }
  | .flushed now => { s with pc := .destination .kPushRtk2go now }

/-- A turn of the loop of `flush_destination_if_due`, up to the call of `push`. -/
def slotStep (s : Station) (d : PushDestination) (now : ℤ) (i : ℕ) : Option Station :=
  if h : i < kMaxCorrectionSlots then
    let slot := s.box.correctionSlots ⟨i, h⟩
    if skips d slot then some { s with pc := .slot d now (i + 1) }
    else
      ((s.client d).push slot.frame).map fun c =>
        { s with client := Function.update s.client d c, pc := .slotCall d now ⟨i, h⟩ }
  else
    some { s with
      box := { s.box with
        pushNextFlushUs := Function.update s.box.pushNextFlushUs d (now + kRtcmBatchUs) }
      pc := nextPc d now }

/-- A step in a call of a client's `push`, and what the loop does with the answer. -/
def slotCallStep (s : Station) (d : PushDestination) (now : ℤ) (i : SlotIndex) : Option Station :=
  match (s.client d).producer with
  | .returned true =>
    some { s with
      box := { s.box with
        correctionSlots := Function.update s.box.correctionSlots i
          ((s.box.correctionSlots i).markSent d) }
      pc := .slot d now (i + 1) }
  | .returned false => some { s with pc := .slot d now (i + 1) }
  | _ => (s.client d).produce.map fun c => { s with client := Function.update s.client d c }

/-- A step of the base task inside `read_data_uart`; `received` is what `uart_read_bytes` puts in the
buffer. -/
def base (s : Station) (received : List UInt8) : Option Station :=
  match s.pc with
  | .top => none
  | .read =>
    if received.length ≤ kReadBuffer then
      some { s with pc := .feed received (received.length = kReadBuffer) }
    else none
  | .feed [] again => some (if again then { s with pc := .read } else s.flushDue)
  | .feed (x :: bytes) again => s.feedByte x bytes again
  | .batch [] after => some (s.goOn after)
  | .batch (frame :: calls) after =>
    (s.caster.push frame).map fun c => { s with caster := c, pc := .batchCall calls after }
  | .batchCall calls after =>
    if s.caster.producer = .idle then some { s with pc := .batch calls after }
    else s.caster.produce.map fun c => { s with caster := c }
  | .destination d now =>
    some { s with pc := if now < s.box.pushNextFlushUs d then nextPc d now else .slot d now 0 }
  | .slot d now i => s.slotStep d now i
  | .slotCall d now i => s.slotCallStep d now i

end Station

open Station

/-! ### The machine -/

/-- The steps of the local caster that are not the base task's. -/
def casterOwn : LocalCaster.Input → Bool
  | .push _ => false
  | .produce => false
  | .tick _ => false
  | _ => true

/-- The steps of a client that are not the base task's. -/
def clientOwn : NtripPush.Input → Bool
  | .push _ => false
  | .produce => false
  | .tick _ => false
  | _ => true

/-- A step: of the base task, of the local caster or a client on their own, or of the clock. -/
inductive Input
  | reset
  | readDataUart
  | base (received : List UInt8)
  | caster (i : LocalCaster.Input)
  | client (d : PushDestination) (i : NtripPush.Input)
  | tick (us : ℕ)

/-- **The machine.** -/
def step (k : PushDestination → Constants) (s : Station) : Input → Option Station
  | .reset => if s.pc = .top then some s.reset else none
  | .readDataUart => if s.pc = .top then some { s with pc := .read } else none
  | .base received => s.base received
  | .caster i =>
    if casterOwn i then (LocalCaster.step s.caster i).map fun c => { s with caster := c } else none
  | .client d i =>
    if clientOwn i then
      (NtripPush.step (k d) (s.client d) i).map fun c =>
        { s with client := Function.update s.client d c }
    else none
  | .tick us =>
    some { s with now := s.now + us
                  caster := { s.caster with now := s.caster.now + us }
                  client := fun d => { s.client d with now := (s.client d).now + us } }

/-- The station after `start`: nothing read, the parts started. -/
structure Started (s : Station) : Prop where
  parser : s.parser.rtcmFrameLength = 0 ∧ s.parser.rtcmFrameExpected = 0
  batch : s.batch.length = 0 ∧ s.batch.frameCount = 0
  box : ∀ i, s.box.correctionSlots i = {}
  caster : CasterWire.Started s.caster
  client : ∀ d, PushWire.Started (s.client d)
  clocks : s.caster.now = s.now ∧ ∀ d, (s.client d).now = s.now
  pc : s.pc = .top
  record : s.fed = [] ∧ s.published = [] ∧ s.posted = []

/-! ### What a step does -/

/-- No call of a `push` is in progress or to be made, and no frame is half published. -/
def Pc.Quiet : Pc → Prop
  | .batch calls after => calls = [] ∧ ∃ now, after = .flushed now
  | .batchCall _ _ => False
  | .slotCall _ _ _ => False
  | _ => True

/-- **All that a step can do**, with where the base task is when it does it. -/
inductive StepTo (k : PushDestination → Constants) (s : Station) : Station → Prop
  | reset (hpc : s.pc = .top) : StepTo k s s.reset
  | move (pc : Pc) (times : PushDestination → ℤ) (hfrom : s.pc.Quiet) (hto : pc.Quiet) :
    StepTo k s { s with pc := pc, box := { s.box with pushNextFlushUs := times } }
  | byte (x : UInt8) (bytes : List UInt8) (again : Bool) (hpc : s.pc = .feed (x :: bytes) again)
    (hframe : ∀ frame, (feedRtcmByte s.parser x).2 = some frame →
      frame = [] ∨ kMaxRtcmFrame < frame.length) :
    StepTo k s { s with parser := (feedRtcmByte s.parser x).1, fed := s.fed ++ [x]
                        pc := .feed bytes again }
  | publish (x : UInt8) (bytes : List UInt8) (again : Bool) (hpc : s.pc = .feed (x :: bytes) again)
    (frame : List UInt8) (hframe : (feedRtcmByte s.parser x).2 = some frame)
    (r : RtcmBatch × List (List UInt8)) (hr : s.batch.publishToBatch frame s.now 0 = some r) :
    StepTo k s { s with parser := (feedRtcmByte s.parser x).1, fed := s.fed ++ [x], batch := r.1
                        published := s.published ++ [frame]
                        pc := .batch r.2 (.publish frame s.now bytes again) }
  | flush (hpc : s.pc = .feed [] false) : StepTo k s s.flushDue
  | post (frame : List UInt8) (now : ℤ) (bytes : List UInt8) (again : Bool)
    (hpc : s.pc = .batch [] (.publish frame now bytes again)) :
    StepTo k s (s.goOn (.publish frame now bytes again))
  | casterPush (frame : List UInt8) (calls : List (List UInt8)) (after : After)
    (hpc : s.pc = .batch (frame :: calls) after) (c : Caster) (hc : s.caster.push frame = some c) :
    StepTo k s { s with caster := c, pc := .batchCall calls after }
  | casterProduce (calls : List (List UInt8)) (after : After) (hpc : s.pc = .batchCall calls after)
    (c : Caster) (hc : s.caster.produce = some c) : StepTo k s { s with caster := c }
  | casterReturn (calls : List (List UInt8)) (after : After) (hpc : s.pc = .batchCall calls after)
    (hidle : s.caster.producer = .idle) : StepTo k s { s with pc := .batch calls after }
  | clientPush (d : PushDestination) (now : ℤ) (i : SlotIndex) (hpc : s.pc = .slot d now i)
    (hskip : skips d (s.box.correctionSlots i) = false) (c : Client)
    (hc : (s.client d).push (s.box.correctionSlots i).frame = some c) :
    StepTo k s { s with client := Function.update s.client d c, pc := .slotCall d now i }
  | clientProduce (d : PushDestination) (now : ℤ) (i : SlotIndex) (hpc : s.pc = .slotCall d now i)
    (c : Client) (hc : (s.client d).produce = some c) :
    StepTo k s { s with client := Function.update s.client d c }
  | accepted (d : PushDestination) (now : ℤ) (i : SlotIndex) (hpc : s.pc = .slotCall d now i)
    (hreturned : (s.client d).producer = .returned true) :
    StepTo k s { s with
      box := { s.box with
        correctionSlots := Function.update s.box.correctionSlots i
          ((s.box.correctionSlots i).markSent d) }
      pc := .slot d now (i + 1) }
  | refused (d : PushDestination) (now : ℤ) (i : SlotIndex) (hpc : s.pc = .slotCall d now i)
    (hreturned : (s.client d).producer = .returned false) :
    StepTo k s { s with pc := .slot d now (i + 1) }
  | caster (j : LocalCaster.Input) (hj : casterOwn j = true) (c : Caster)
    (hc : LocalCaster.step s.caster j = some c) : StepTo k s { s with caster := c }
  | client (d : PushDestination) (j : NtripPush.Input) (hj : clientOwn j = true) (c : Client)
    (hc : NtripPush.step (k d) (s.client d) j = some c) :
    StepTo k s { s with client := Function.update s.client d c }
  | tick (us : ℕ) :
    StepTo k s { s with now := s.now + us
                        caster := { s.caster with now := s.caster.now + us }
                        client := fun d => { s.client d with now := (s.client d).now + us } }

theorem quiet_nextPc (d : PushDestination) (now : ℤ) : (nextPc d now).Quiet := by
  cases d <;> exact trivial

theorem stepTo_feedByte {k : PushDestination → Constants} {s s' : Station} {x : UInt8}
    {bytes : List UInt8} {again : Bool} (hpc : s.pc = .feed (x :: bytes) again)
    (h : s.feedByte x bytes again = some s') : StepTo k s s' := by
  unfold Station.feedByte at h
  rcases hframe : (feedRtcmByte s.parser x).2 with _ | frame
  · simp only [hframe] at h
    cases h
    exact .byte x bytes again hpc (by simp [hframe])
  · simp only [hframe, Station.publish] at h
    split_ifs at h with hbad
    · cases h
      refine .byte x bytes again hpc fun f hf => ?_
      obtain rfl : frame = f := Option.some.inj (hframe.symm.trans hf)
      exact hbad
    · obtain ⟨r, hr, rfl⟩ := Option.map_eq_some_iff.mp h
      exact .publish x bytes again hpc frame hframe r hr

theorem stepTo_slotStep {k : PushDestination → Constants} {s s' : Station} {d : PushDestination}
    {now : ℤ} {i : ℕ} (hpc : s.pc = .slot d now i) (h : s.slotStep d now i = some s') :
    StepTo k s s' := by
  have hfrom : s.pc.Quiet := by rw [hpc]; exact trivial
  unfold Station.slotStep at h
  dsimp only at h
  split_ifs at h with hi hskip
  · cases h
    exact .move _ s.box.pushNextFlushUs hfrom trivial
  · obtain ⟨c, hc, rfl⟩ := Option.map_eq_some_iff.mp h
    exact .clientPush d now ⟨i, hi⟩ hpc (Bool.eq_false_of_not_eq_true hskip) c hc
  · cases h
    exact .move _ _ hfrom (quiet_nextPc d now)

theorem stepTo_slotCallStep {k : PushDestination → Constants} {s s' : Station} {d : PushDestination}
    {now : ℤ} {i : SlotIndex} (hpc : s.pc = .slotCall d now i)
    (h : s.slotCallStep d now i = some s') : StepTo k s s' := by
  unfold Station.slotCallStep at h
  split at h
  · cases h
    exact .accepted d now i hpc ‹_›
  · cases h
    exact .refused d now i hpc ‹_›
  · obtain ⟨c, hc, rfl⟩ := Option.map_eq_some_iff.mp h
    exact .clientProduce d now i hpc c hc

theorem stepTo_base {k : PushDestination → Constants} {s s' : Station} {received : List UInt8}
    (h : s.base received = some s') : StepTo k s s' := by
  have hmove : ∀ pc, s.pc.Quiet → pc.Quiet → StepTo k s { s with pc := pc } := fun pc =>
    .move pc s.box.pushNextFlushUs
  rcases hpc : s.pc with _ | _ | ⟨_ | ⟨x, bytes⟩, again⟩ | ⟨_ | ⟨frame, calls⟩, after⟩ |
    ⟨calls, after⟩ | ⟨d, now⟩ | ⟨d, now, i⟩ | ⟨d, now, i⟩
  all_goals simp only [Station.base, hpc] at h
  · cases h
  · split_ifs at h
    cases h
    exact hmove _ (by rw [hpc]; exact trivial) trivial
  · cases h
    cases again
    · exact .flush hpc
    · exact hmove .read (by rw [hpc]; exact trivial) trivial
  · exact stepTo_feedByte hpc h
  · cases h
    rcases after with ⟨frame, now, bytes, again⟩ | now
    · exact .post frame now bytes again hpc
    · exact hmove _ (by rw [hpc]; exact ⟨rfl, now, rfl⟩) trivial
  · obtain ⟨c, hc, rfl⟩ := Option.map_eq_some_iff.mp h
    exact .casterPush frame calls after hpc c hc
  · split_ifs at h with hidle
    · cases h
      exact .casterReturn calls after hpc hidle
    · obtain ⟨c, hc, rfl⟩ := Option.map_eq_some_iff.mp h
      have hproduce := StepTo.casterProduce (k := k) calls after hpc c hc
      rwa [hpc] at hproduce
  · cases h
    refine hmove _ (by rw [hpc]; exact trivial) ?_
    split_ifs
    · exact quiet_nextPc d now
    · exact trivial
  · exact stepTo_slotStep hpc h
  · exact stepTo_slotCallStep hpc h

theorem stepTo_step {k : PushDestination → Constants} {s s' : Station} {i : Input}
    (h : step k s i = some s') : StepTo k s s' := by
  cases i with
  | base received => exact stepTo_base h
  | reset =>
    simp only [step] at h
    split_ifs at h with hpc
    cases h
    exact .reset hpc
  | readDataUart =>
    simp only [step] at h
    split_ifs at h with hpc
    cases h
    exact .move .read s.box.pushNextFlushUs (by rw [hpc]; exact trivial) trivial
  | caster j =>
    simp only [step] at h
    split_ifs at h with hj
    obtain ⟨c, hc, rfl⟩ := Option.map_eq_some_iff.mp h
    exact .caster j hj c hc
  | client d j =>
    simp only [step] at h
    split_ifs at h with hj
    obtain ⟨c, hc, rfl⟩ := Option.map_eq_some_iff.mp h
    exact .client d j hj c hc
  | tick us =>
    cases h
    exact .tick us

/-! ### The parts -/

/-- A step of the station is nothing to the local caster, or a step of its own machine. -/
theorem StepTo.caster_step {k : PushDestination → Constants} {s s' : Station} (h : StepTo k s s') :
    s'.caster = s.caster ∨ ∃ j, LocalCaster.step s.caster j = some s'.caster := by
  cases h with
  | casterPush frame calls after hpc c hc => exact Or.inr ⟨.push frame, hc⟩
  | casterProduce calls after hpc c hc => exact Or.inr ⟨.produce, hc⟩
  | caster j hj c hc => exact Or.inr ⟨j, hc⟩
  | tick us => exact Or.inr ⟨.tick us, rfl⟩
  | _ => exact Or.inl rfl

theorem StepTo.client_step {k : PushDestination → Constants} {s s' : Station} (h : StepTo k s s')
    (d : PushDestination) :
    s'.client d = s.client d ∨ ∃ j, NtripPush.step (k d) (s.client d) j = some (s'.client d) := by
  have hupdate : ∀ (d' : PushDestination) (j : NtripPush.Input) (c : Client),
      NtripPush.step (k d') (s.client d') j = some c →
      Function.update s.client d' c d = s.client d ∨
        ∃ j, NtripPush.step (k d) (s.client d) j = some (Function.update s.client d' c d) := by
    intro d' j c hc
    rcases eq_or_ne d d' with rfl | hne
    · exact Or.inr ⟨j, by rw [Function.update_self]; exact hc⟩
    · exact Or.inl (Function.update_of_ne hne _ _)
  cases h with
  | clientPush d' now i hpc hskip c hc => exact hupdate d' (.push _) c hc
  | clientProduce d' now i hpc c hc => exact hupdate d' .produce c hc
  | client d' j hj c hc => exact hupdate d' j c hc
  | tick us => exact Or.inr ⟨.tick us, rfl⟩
  | _ => exact Or.inl rfl

/-- **The local caster of a station is one of its own runs.** -/
theorem caster_reaches {k : PushDestination → Constants} {s s' : Station}
    (h : Reaches (step k) s s') : Reaches LocalCaster.step s.caster s'.caster :=
  h.relation (I := fun _ => True) (R := fun s s' => Reaches LocalCaster.step s.caster s'.caster)
    (fun _ _ _ _ _ => trivial) (fun _ => .refl _) (fun _ _ _ => .trans)
    (fun s i s' _ hs => by
      rcases (stepTo_step hs).caster_step with heq | ⟨j, hj⟩
      · rw [heq]
        exact .refl _
      · exact .single hj) trivial

/-- **A client of a station is one of its own runs.** -/
theorem client_reaches {k : PushDestination → Constants} {s s' : Station} (d : PushDestination)
    (h : Reaches (step k) s s') : Reaches (NtripPush.step (k d)) (s.client d) (s'.client d) :=
  h.relation (I := fun _ => True)
    (R := fun s s' => Reaches (NtripPush.step (k d)) (s.client d) (s'.client d))
    (fun _ _ _ _ _ => trivial) (fun _ => .refl _) (fun _ _ _ => .trans)
    (fun s i s' _ hs => by
      rcases (stepTo_step hs).client_step d with heq | ⟨j, hj⟩
      · rw [heq]
        exact .refl _
      · exact .single hj) trivial

end GpsBase.Flow.Pipeline
