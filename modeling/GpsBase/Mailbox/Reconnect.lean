import GpsBase.Mailbox.Slots
import GpsBase.Push.StalePackets

/-! # The mailbox in front of a push client

The mailbox together with the client of one destination. A tick of that destination calls the
client's `push` for slot after slot, while the client's worker goes on working: the schedule of a
tick lists, for each slot, the client's steps from the call of `push` to the next one. `handedAt` is
the record of how many connections had been established when the frame a slot holds was last handed
to `push`.

A sent bit is not cleared when the client's connection is lost. A tick hands over every slot whose
bit is clear, so after a tick every slot has been handed over on the connection that was up when the
tick began, except those whose bit dates from an earlier one (`tick_refreshes_iff`). -/

namespace GpsBase.Mailbox.Reconnect

open GpsBase.Lib.Machine GpsBase.Mailbox.Slots
open GpsBase.Rtcm.Parser (kMaxRtcmFrame)
open GpsBase.Push.NtripPush (Client Constants Input Outbox PushPc)
open GpsBase.Push.PushWire (OutStep outStep_step Started)

/-! ### The relay -/

/-- The steps of the client's own tasks; those of `push` belong to a tick. -/
def ownInput : Input → Bool
  | .push _ => false
  | .produce => false
  | _ => true

/-- What the ticks of the destination work on: the client, and the record. -/
structure Handing where
  client : Client
  handedAt : SlotIndex → Option ℕ

/-- A call of `push` with the client's steps up to the next call, and its answer. -/
def callPush (k : Constants) (inputs : List Input) (data : List UInt8) (c : Client) :
    Option (Bool × Client) :=
  if inputs.all fun i => ownInput i || i matches .produce then
    match run (GpsBase.Push.NtripPush.step k) c (.push data :: inputs) with
    | some c' => match c'.producer with
      | .returned ok => some (ok, c')
      | _ => none
    | none => none
  else none

/-- `push` as the flush loop sees it; `none` once a schedule does not fit. -/
def handOver (k : Constants) (schedule : SlotIndex → List Input) (i : SlotIndex)
    (data : List UInt8) (w : Option Handing) : Bool × Option Handing :=
  match w with
  | none => (false, none)
  | some h => match callPush k (schedule i) data h.client with
    | none => (false, none)
    | some (ok, c') =>
      (ok, some ⟨c', Function.update h.handedAt i (some h.client.out.established)⟩)

/-- The mailbox, the client of the destination, and the record. -/
structure Relay where
  box : Corrections
  handing : Handing

inductive Event
  | publish (data : List UInt8) (now : ℤ)
  | reset (now : ℤ)
  | otherTick (d : PushDestination) (now : ℤ) (answers : SlotIndex → Bool)
  | tick (now : ℤ) (schedule : SlotIndex → List Input)
  | client (i : Input)

namespace Relay

/-- A frame is published; a slot that is written holds a frame not yet handed over. -/
def publish (s : Relay) (data : List UInt8) (now : ℤ) : Relay where
  box := publishRtcmFrame s.box data now
  handing :=
    if data = [] ∨ kMaxRtcmFrame < data.length then s.handing
    else match findSlot s.box.correctionSlots (rtcmMessageNumber data) with
      | none => s.handing
      | some i => { s.handing with handedAt := Function.update s.handing.handedAt i none }

/-- `flush_destination_if_due` for the destination of the client. -/
def tick (k : Constants) (d : PushDestination) (s : Relay) (now : ℤ)
    (schedule : SlotIndex → List Input) : Option Relay :=
  let after := flushDestinationIfDue (handOver k schedule) d now s.box (some s.handing)
  after.2.map fun h => ⟨after.1, h⟩

def step (k : Constants) (d : PushDestination) (s : Relay) : Event → Option Relay
  | .publish data now => some (s.publish data now)
  | .reset now => some ⟨resetRtcmState now, { s.handing with handedAt := fun _ => none }⟩
  | .otherTick d' now answers =>
    if d' = d then none
    else
      some { s with box := (flushDestinationIfDue (fun i _ u => (answers i, u)) d' now s.box ()).1 }
  | .tick now schedule => s.tick k d now schedule
  | .client i =>
    if ownInput i then
      (GpsBase.Push.NtripPush.step k s.handing.client i).map fun c =>
        { s with handing := { s.handing with client := c } }
    else none

/-- The mailbox after `reset_rtcm_state`, the client after `start`. -/
def start (t₀ : ℤ) (c : Client) : Relay := ⟨resetRtcmState t₀, ⟨c, fun _ => none⟩⟩

abbrev slots (s : Relay) : SlotIndex → CorrectionSlot := s.box.correctionSlots

/-- How many connections have been established. -/
abbrev established (s : Relay) : ℕ := s.handing.client.out.established

/-- The frame of every used slot has been handed to `push` since the `e`-th connection was
established. -/
def HandedSince (s : Relay) (e : ℕ) : Prop :=
  ∀ i, (s.slots i).used = true → ∃ n, s.handing.handedAt i = some n ∧ e ≤ n

/-- The slot's bit for `d` is set, and dates from before the current connection. -/
def StaleBit (d : PushDestination) (s : Relay) (i : SlotIndex) : Prop :=
  (s.slots i).used = true ∧ HasBit (s.slots i).sentMask d ∧
    ∀ n, s.handing.handedAt i = some n → n < s.established

end Relay

open Relay

/-! ### Connections only grow in number -/

theorem established_onLink (o : Outbox) (f) : (o.onLink f).established = o.established := by
  unfold Outbox.onLink
  split <;> rfl

theorem established_step {k : Constants} {c c' : Client} {i : Input}
    (h : GpsBase.Push.NtripPush.step k c i = some c') : c.out.established ≤ c'.out.established := by
  have hout := outStep_step h
  generalize c'.out = o' at hout ⊢
  cases hout with
  | establish => exact Nat.le_succ _
  | receive p => exact (established_onLink { c.out with queue := _, packet := p } _).ge
  | close => exact (established_onLink c.out _).ge
  | finish | tear | put => exact (established_onLink c.out _).ge
  | _ => exact le_rfl

theorem established_run {k : Constants} {c c' : Client} {is : List Input}
    (h : run (GpsBase.Push.NtripPush.step k) c is = some c') :
    c.out.established ≤ c'.out.established :=
  Reaches.relation (I := fun _ => True) (R := fun c c' => c.out.established ≤ c'.out.established)
    (fun _ _ _ _ _ => trivial) (fun _ => le_rfl) (fun _ _ _ => le_trans)
    (fun _ _ _ _ => established_step) trivial ⟨is, h⟩

theorem callPush_established {k : Constants} {inputs : List Input} {data : List UInt8}
    {c c' : Client} {ok : Bool} (h : callPush k inputs data c = some (ok, c')) :
    c.out.established ≤ c'.out.established := by
  unfold callPush at h
  split_ifs at h
  rcases hr : run (GpsBase.Push.NtripPush.step k) c (.push data :: inputs) with _ | c₁ <;>
    rw [hr] at h
  · cases h
  · dsimp only at h
    split at h <;> cases h
    exact established_run hr

/-! ### A tick -/

theorem flushSlots_none (k : Constants) (schedule : SlotIndex → List Input)
    (d : PushDestination) :
    ∀ (is : List SlotIndex) (slots : SlotIndex → CorrectionSlot),
      (flushSlots (handOver k schedule) d is (slots, none)).2 = none
  | [], _ => rfl
  | i :: is, slots => by
    have hone : (flushSlot (handOver k schedule) d (slots, none) i) = (slots, none) := by
      unfold flushSlot
      split_ifs <;> rfl
    rw [flushSlots, List.foldl_cons, hone]
    exact flushSlots_none k schedule d is slots

/-- The loop of a tick hands over the slots it does not skip, and leaves the others alone. -/
theorem flushSlots_handOver (k : Constants) (schedule : SlotIndex → List Input)
    (d : PushDestination) :
    ∀ (is : List SlotIndex) (slots : SlotIndex → CorrectionSlot) (h h' : Handing), is.Nodup →
      (flushSlots (handOver k schedule) d is (slots, some h)).2 = some h' → ∀ i,
      ((i ∉ is ∨ skips d (slots i) = true) → h'.handedAt i = h.handedAt i) ∧
        (i ∈ is → skips d (slots i) = false →
          ∃ n, h'.handedAt i = some n ∧ h.client.out.established ≤ n)
  | [], _, h, h', _, hres, i => by
    cases hres
    exact ⟨fun _ => rfl, fun hi => by cases hi⟩
  | j :: is, slots, h, h', hnodup, hres, i => by
    obtain ⟨hj, hnodup⟩ := List.nodup_cons.mp hnodup
    rw [flushSlots, List.foldl_cons] at hres
    by_cases hskip : skips d (slots j) = true
    · have hone : flushSlot (handOver k schedule) d (slots, some h) j = (slots, some h) := by
        rw [flushSlot, if_pos hskip]
      rw [hone] at hres
      have hrest := flushSlots_handOver k schedule d is slots h h' hnodup hres i
      refine ⟨fun hi => hrest.1 ?_, fun hi hne => ?_⟩
      · exact hi.imp (fun hmem hi => hmem (List.mem_cons_of_mem _ hi)) id
      · rcases List.mem_cons.mp hi with rfl | hi
        · rw [hskip] at hne
          cases hne
        · exact hrest.2 hi hne
    · rcases hcall : callPush k (schedule j) (slots j).frame h.client with _ | ⟨ok, c'⟩
      · have hone : (flushSlot (handOver k schedule) d (slots, some h) j) = (slots, none) := by
          simp [flushSlot, hskip, handOver, hcall]
        rw [hone] at hres
        exact absurd (hres.symm.trans (flushSlots_none k schedule d is slots)) (by simp)
      · -- slot `j` is offered; what the rest of the loop finds in the other slots is unchanged
        have hone : ∃ slots₁, flushSlot (handOver k schedule) d (slots, some h) j =
            (slots₁, some ⟨c', Function.update h.handedAt j (some h.client.out.established)⟩) ∧
            ∀ i, i ≠ j → slots₁ i = slots i := by
          unfold flushSlot
          rw [if_neg hskip]
          simp only [handOver, hcall]
          split_ifs
          · exact ⟨_, rfl, fun i hne => Function.update_of_ne hne ..⟩
          · exact ⟨_, rfl, fun i _ => rfl⟩
        obtain ⟨slots₁, hone, hsame⟩ := hone
        rw [hone] at hres
        have hrest := flushSlots_handOver k schedule d is slots₁ _ h' hnodup hres i
        rcases eq_or_ne i j with rfl | hne
        · have hat := hrest.1 (Or.inl hj)
          dsimp only at hat
          rw [Function.update_self] at hat
          refine ⟨fun hi => ?_, fun _ _ => ⟨_, hat, le_rfl⟩⟩
          rcases hi with hi | hi
          · exact absurd List.mem_cons_self hi
          · exact absurd hi hskip
        · rw [hsame i hne] at hrest
          dsimp only at hrest
          rw [Function.update_of_ne hne] at hrest
          refine ⟨fun hi => hrest.1 ?_, fun hi hskip => ?_⟩
          · exact hi.imp (fun hmem hi => hmem (List.mem_cons_of_mem _ hi)) id
          · obtain ⟨n, hn, hle⟩ := hrest.2 (List.mem_of_ne_of_mem hne hi) hskip
            exact ⟨n, hn, (callPush_established hcall).trans hle⟩

/-- A used slot holds a frame of at least one byte. -/
def Filled (s : Relay) : Prop := ∀ i, (s.slots i).used = true → (s.slots i).length ≠ 0

/-- **A due tick leaves every frame handed over on the current connection, exactly if no slot has a
bit from an earlier one.** -/
theorem tick_refreshes_iff {k : Constants} {d : PushDestination} {s s' : Relay} {now : ℤ}
    {schedule : SlotIndex → List Input} (hs : Filled s) (hdue : s.box.pushNextFlushUs d ≤ now)
    (h : s.tick k d now schedule = some s') :
    s'.HandedSince s.established ↔ ∀ i, ¬ StaleBit d s i := by
  obtain ⟨h', hres, rfl⟩ := Option.map_eq_some_iff.mp h
  rw [flushDestinationIfDue, if_neg (not_lt.mpr hdue)] at hres ⊢
  have hloop := flushSlots_handOver k schedule d _ s.slots s.handing h'
    (List.nodup_finRange _) hres
  have hused : ∀ i, ((flushSlots (handOver k schedule) d (List.finRange kMaxCorrectionSlots)
      (s.slots, some s.handing)).1 i).used = (s.slots i).used := by
    intro i
    obtain ⟨m, hm⟩ := flushSlots_slots (handOver k schedule) d i
      (List.finRange kMaxCorrectionSlots) (s.slots, some s.handing)
    rw [hm]
  constructor
  · rintro hall i ⟨hi, hbit, hold⟩
    obtain ⟨n, hn, hle⟩ := hall i ((hused i).trans hi)
    have hskip : skips d (s.slots i) = true := by
      by_contra hne
      exact (skips_eq_false.mp (Bool.eq_false_of_not_eq_true hne)).2.2 hbit
    have hsame := (hloop i).1 (Or.inr hskip)
    exact absurd (hold n (hsame.symm.trans hn)) (not_lt.mpr hle)
  · intro hno i hi
    have hi : (s.slots i).used = true := (hused i).symm.trans hi
    by_cases hbit : HasBit (s.slots i).sentMask d
    · have hskip : skips d (s.slots i) = true := by
        by_contra hne
        exact (skips_eq_false.mp (Bool.eq_false_of_not_eq_true hne)).2.2 hbit
      have hfresh : ∃ n, s.handing.handedAt i = some n ∧ s.established ≤ n := by
        by_contra hne
        refine hno i ⟨hi, hbit, fun n hn => ?_⟩
        by_contra hlt
        exact hne ⟨n, hn, not_lt.mp hlt⟩
      obtain ⟨n, hn, hle⟩ := hfresh
      exact ⟨n, ((hloop i).1 (Or.inr hskip)).trans hn, hle⟩
    · exact (hloop i).2 (List.mem_finRange i) (skips_eq_false.mpr ⟨hi, hs i hi, hbit⟩)

/-! ### Runs -/

theorem filled_flush {σ : Type*} {s : Relay} (hs : Filled s)
    (flush : SlotIndex → List UInt8 → σ → Bool × σ) (d : PushDestination) (now : ℤ) (w : σ)
    (i : SlotIndex) :
    ((flushDestinationIfDue flush d now s.box w).1.correctionSlots i).used = true →
      ((flushDestinationIfDue flush d now s.box w).1.correctionSlots i).length ≠ 0 := by
  unfold flushDestinationIfDue
  split_ifs
  · exact hs i
  · obtain ⟨m, hm⟩ := flushSlots_slots flush d i (List.finRange kMaxCorrectionSlots)
      (s.box.correctionSlots, w)
    dsimp only
    rw [hm]
    exact hs i

theorem filled_publish {s : Relay} (hs : Filled s) (data : List UInt8) (now : ℤ) (i : SlotIndex) :
    ((publishRtcmFrame s.box data now).correctionSlots i).used = true →
      ((publishRtcmFrame s.box data now).correctionSlots i).length ≠ 0 := by
  unfold publishRtcmFrame
  split_ifs with hdata
  · exact hs i
  · have hne : data.length ≠ 0 := fun h => hdata (Or.inl (List.length_eq_zero_iff.mp h))
    unfold publishToCorrections
    rcases findSlot s.box.correctionSlots (rtcmMessageNumber data) with _ | j
    · exact hs i
    · dsimp only
      rcases eq_or_ne i j with rfl | hij
      · rw [Function.update_self]
        exact fun _ => hne
      · rw [Function.update_of_ne hij]
        exact hs i

theorem filled_step {k : Constants} {d : PushDestination} {s s' : Relay} {e : Event}
    (hs : Filled s) (h : s.step k d e = some s') : Filled s' := by
  rcases e with ⟨data, now⟩ | now | ⟨d', now, answers⟩ | ⟨now, schedule⟩ | i
  · cases h
    exact filled_publish hs data now
  · cases h
    intro i hi
    cases hi
  · simp only [step] at h
    split_ifs at h
    cases h
    exact filled_flush hs _ _ _ _
  · obtain ⟨h', -, rfl⟩ := Option.map_eq_some_iff.mp h
    exact filled_flush hs _ _ _ _
  · simp only [step] at h
    split_ifs at h
    obtain ⟨c, -, rfl⟩ := Option.map_eq_some_iff.mp h
    exact hs

theorem filled_run {k : Constants} {d : PushDestination} {c₀ : Client} {t₀ : ℤ}
    {events : List Event} {s : Relay} (h : run (step k d) (start t₀ c₀) events = some s) :
    Filled s :=
  run_invariant (fun _ _ _ => filled_step) (fun i hi => (by cases hi)) h

/-- **In every state a run reaches, a due tick of the destination hands everything over on the current
connection, exactly if no slot's bit was left by an earlier one.** -/
theorem tick_after_reconnect_iff (k : Constants) (d : PushDestination) (c₀ : Client) (t₀ : ℤ)
    (events : List Event) (s s' : Relay) (now : ℤ) (schedule : SlotIndex → List Input)
    (hr : run (step k d) (start t₀ c₀) events = some s)
    (hdue : s.box.pushNextFlushUs d ≤ now) (ht : s.step k d (.tick now schedule) = some s') :
    s'.HandedSince s.established ↔ ∀ i, ¬ StaleBit d s i :=
  tick_refreshes_iff (filled_run hr) hdue ht

/-! ### A reconnect -/

/-- The next tick is the first since a connection was established. -/
def FirstTick (k : Constants) (d : PushDestination) (s₀ : Relay) (events : List Event) (s : Relay) :
    Prop :=
  ∃ before after s₁, events = before ++ after ∧ run (step k d) s₀ before = some s₁ ∧
    s₁.established < s.established ∧ ∀ e ∈ after, ∀ now schedule, e ≠ .tick now schedule

def frame1006 : List UInt8 := [0xD3, 0, 2, 0x3E, 0xE0, 0, 0, 0]

def frame1077 : List UInt8 := [0xD3, 0, 2, 0x43, 0x50, 0, 0, 0]

open GpsBase.Push.WholeFrames (connectInputs sampleConstants sampleClient)

/-- The slot of the first message number published. -/
def firstSlot : SlotIndex := ⟨0, by decide⟩

/-- Both slots' calls of `push` run to their end without a step of the worker. -/
def plainSchedule : SlotIndex → List Input := fun _ => [.produce, .produce, .produce]

/-- The client connects and 1006 is published. -/
def firstFrame : List Event :=
  (connectInputs sampleConstants [77] [112]).map Event.client ++ [Event.publish frame1006 0]

/-- The tick that hands 1006 over on the first connection. -/
theorem tick_after_reconnect_iff_firstFrame :
    ∃ s s', run (step sampleConstants .kPushRtk2go) (start 0 sampleClient) firstFrame = some s ∧
      s.step sampleConstants .kPushRtk2go (.tick 250000 plainSchedule) = some s' ∧
      (s'.HandedSince s.established ↔ ∀ i, ¬ StaleBit .kPushRtk2go s i) :=
  ⟨_, _, rfl, rfl, tick_after_reconnect_iff sampleConstants .kPushRtk2go sampleClient 0 firstFrame
    _ _ 250000 plainSchedule rfl (by decide) rfl⟩

def firstHandover : List Event := firstFrame ++ [Event.tick 250000 plainSchedule]

/-- The worker sends 1006, and fails to send 1077, which is handed over in between. -/
def lostConnection : List Event :=
  List.flatten [.replicate 2 (.client (.work {})), [.client (.work { send := .sent 8 })],
    .replicate 3 (.client (.work {})), [.publish frame1077 300000, .tick 450000 plainSchedule],
    .replicate 8 (.client (.work {})), [.client (.work { send := .failed })]]

/-- The worker closes the socket, waits, and connects again. -/
def newConnection : List Event :=
  List.flatten [.replicate 4 (.client (.work {})), [.client (.tick 10000000)],
    .replicate 11 (.client (.work {})),
    [.client (.work { send := .sent (GpsBase.Push.NtripPush.request sampleConstants [77] [112]).length }),
      .client (.work {}), .client (.work {}),
      .client (.work { response := GpsBase.Lib.CText.ascii "ICY 200 OK" }), .client (.work {})]]

/-- **After a reconnect the first tick does not hand over 1006**, which was sent on the connection
that was lost. -/
theorem reconnect_misses_1006 :
    ¬ ∀ (k : Constants) (d : PushDestination) (c₀ : Client) (t₀ : ℤ) (events : List Event)
      (s s' : Relay) (now : ℤ) (schedule : SlotIndex → List Input), Started c₀ →
      run (step k d) (start t₀ c₀) events = some s → s.box.pushNextFlushUs d ≤ now →
      FirstTick k d (start t₀ c₀) events s → s.step k d (.tick now schedule) = some s' →
      s'.HandedSince s.established := by
  intro hall
  have hbefore : ∃ s₁, run (step sampleConstants .kPushRtk2go) (start 0 sampleClient)
      (firstHandover ++ lostConnection) = some s₁ ∧ s₁.established = 1 := ⟨_, rfl, rfl⟩
  have hrun : ∃ s s', run (step sampleConstants .kPushRtk2go) (start 0 sampleClient)
      (firstHandover ++ lostConnection ++ newConnection) = some s ∧
      s.box.pushNextFlushUs .kPushRtk2go = 650000 ∧ s.established = 2 ∧
      s.step sampleConstants .kPushRtk2go (.tick 20000000 plainSchedule) = some s' ∧
      (s'.slots firstSlot).used = true ∧ s'.handing.handedAt firstSlot = some 1 :=
    ⟨_, _, rfl, rfl, rfl, rfl, rfl, rfl⟩
  obtain ⟨s₁, hr₁, he₁⟩ := hbefore
  obtain ⟨s, s', hr, hdue, he, ht, hused, hat⟩ := hrun
  have hfirst : FirstTick sampleConstants .kPushRtk2go (start 0 sampleClient)
      (firstHandover ++ lostConnection ++ newConnection) s := by
    refine ⟨_, newConnection, s₁, rfl, hr₁, by omega, fun e he now schedule => ?_⟩
    rintro rfl
    simp [newConnection] at he
  obtain ⟨n, hn, hle⟩ := hall sampleConstants .kPushRtk2go sampleClient 0 _ s s' 20000000
    plainSchedule ⟨true, [77], [112], false, 0, 0, rfl⟩ hr (by omega) hfirst ht firstSlot hused
  rw [hat] at hn
  cases hn
  omega

end GpsBase.Mailbox.Reconnect
