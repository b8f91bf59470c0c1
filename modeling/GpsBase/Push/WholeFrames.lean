import GpsBase.Push.CasterWire

/-! # Whole frames on the wire

The result for both senders of corrections: on every connection the bytes written after the handshake
are whole packets in the order they were accepted, then at most one packet cut short, and after a cut
nothing more is written there. -/

namespace GpsBase.Push.WholeFrames

open GpsBase.Lib.Wire GpsBase.Lib.Machine GpsBase.Push.SendLoop
open GpsBase.Push.NtripPush (Client Constants SendCall)
open GpsBase.Push.LocalCaster (Caster)
open GpsBase.Lib.CText (ascii)

/-- What is promised of the connections in a state: `inSendAll c` says that a packet's `send_all` is
running on `c` there, and `later` are the links of the states that can follow. -/
structure WireSpec (accepted : List (List UInt8)) (links : ℕ → Link UInt8) (returns : List SendCall)
    (inSendAll : ℕ → Prop) (later : (ℕ → Link UInt8) → Prop) : Prop where
  whole : ∀ c, WholePackets accepted (links c)
  cut : ∀ c p n, (links c).phase.current = some (p, n) →
    inSendAll c ∨ ∀ links', later links' → (links' c).wire = (links c).wire
  exact : ∀ r ∈ returns, r.ok = true ↔ r.handed = r.data

theorem sending_or_over {l : Link UInt8} {p : Packet UInt8} {n : ℕ}
    (h : l.phase.current = some (p, n)) : l.phase = .sending p n ∨ l.phase.over = true := by
  rcases hp : l.phase with _ | ⟨q, k⟩ | ⟨q, k⟩ | cut <;> rw [hp] at h
  · cases h
  · cases h
    exact Or.inl rfl
  · exact Or.inr rfl
  · exact Or.inr rfl

/-! ### The push client -/

/-- The worker is in the `send_all` of a packet on connection `c`. -/
def PushSending (s : Client) (c : ℕ) : Prop :=
  (∃ call, s.pc = .sending call) ∧ s.out.socket = some c

theorem pushSending_of_sending {s : Client} (hs : PushWire.Inv s) {c : ℕ} {p : Packet UInt8}
    {k : ℕ} (h : (s.out.links c).phase = .sending p k) : PushSending s c := by
  have hsocket : s.out.socket = some c := by
    by_contra hne
    rcases lt_or_ge c s.out.opened with hlt | hge
    · obtain ⟨cut, hcut⟩ := hs.out.closed c hlt hne
      rw [hcut] at h
      cases h
    · rw [hs.out.unopened c hge] at h
      cases h
  have hidle : ¬ PushWire.Idle s.out := by
    intro hi
    rw [hi c hsocket] at h
    cases h
  have hat := hs.pc
  rcases hpc : s.pc <;> rw [hpc] at hat
  case sending call => exact ⟨⟨call, hpc⟩, hsocket⟩
  case connecting | readConfig | connectSocket | connectFailed =>
    cases hsocket.symm.trans hat
  case handshake => exact absurd hat.1.1 hidle
  case readResponse | establish | receive => exact absurd hat.1 hidle
  case sendFailed | sendClose =>
    have hover := hat c hsocket
    rw [h] at hover
    cases hover
  all_goals exact absurd hat hidle

theorem push_wireSpec {k : Constants} {s₀ s : Client} (h₀ : PushWire.Started s₀)
    (h : Reaches (NtripPush.step k) s₀ s) :
    WireSpec (PushWire.acceptedData s.out) s.out.links s.returns (PushSending s)
      fun links' => ∃ s', Reaches (NtripPush.step k) s s' ∧ s'.out.links = links' := by
  have hs := PushWire.inv_reaches h₀ h
  refine ⟨fun c => (hs.out.whole c).wholePackets (hs.out.begun c), fun c p n hcur => ?_, hs.calls⟩
  rcases sending_or_over hcur with hsend | hover
  · exact Or.inl (pushSending_of_sending hs hsend)
  · refine Or.inr ?_
    rintro links' ⟨s', hs', rfl⟩
    exact (PushWire.kept_reaches hs hs' c hover).2

/-! ### The local caster -/

/-- The worker is in the `send_all` of a packet on descriptor `c`. -/
def CasterSending (s : Caster) (c : ℕ) : Prop :=
  ∃ slot call, s.pc = .sending slot call ∧ s.out.clients slot = some c

theorem casterSending_of_sending {s : Caster} (hs : CasterWire.Inv s) {c : ℕ} {p : Packet UInt8}
    {k : ℕ} (h : (s.out.links c).phase = .sending p k) : CasterSending s c := by
  have hquiet : ¬ CasterWire.Quiet s.out := fun hq => hq c p k h
  have hat := hs.pc
  rcases hpc : s.pc <;> rw [hpc] at hat
  case sending slot call =>
    obtain ⟨-, -, -, d, hd, -, hrest⟩ := hat
    rcases eq_or_ne c d with rfl | hne
    · exact ⟨slot, call, hpc, hd⟩
    · exact absurd h (hrest c hne p k)
  case request | sendTable | sendReply | broadcast => exact absurd hat.1 hquiet
  all_goals exact absurd hat hquiet

theorem caster_wireSpec {s₀ s : Caster} (h₀ : CasterWire.Started s₀)
    (h : Reaches LocalCaster.step s₀ s) :
    WireSpec s.out.accepted s.out.links s.returns (CasterSending s)
      fun links' => ∃ s', Reaches LocalCaster.step s s' ∧ s'.out.links = links' := by
  have hs := CasterWire.inv_reaches h₀ h
  refine ⟨fun c => (hs.out.whole c).wholePackets (hs.out.begun c), fun c p n hcur => ?_, hs.calls⟩
  rcases sending_or_over hcur with hsend | hover
  · exact Or.inl (casterSending_of_sending hs hsend)
  · refine Or.inr ?_
    rintro links' ⟨s', hs', rfl⟩
    exact (CasterWire.kept_reaches hs hs' c hover).2

/-! ### The result -/

/-- **Whole frames on the wire**, for every run of the push client and of the local caster. -/
theorem whole_frames_on_wire :
    (∀ (k : Constants) (s₀ s : Client), PushWire.Started s₀ → Reaches (NtripPush.step k) s₀ s →
      WireSpec (PushWire.acceptedData s.out) s.out.links s.returns (PushSending s)
        fun links' => ∃ s', Reaches (NtripPush.step k) s s' ∧ s'.out.links = links') ∧
    ∀ s₀ s : Caster, CasterWire.Started s₀ → Reaches LocalCaster.step s₀ s →
      WireSpec s.out.accepted s.out.links s.returns (CasterSending s)
        fun links' => ∃ s', Reaches LocalCaster.step s s' ∧ s'.out.links = links' :=
  ⟨fun _ _ _ h₀ h => push_wireSpec h₀ h, fun _ _ h₀ h => caster_wireSpec h₀ h⟩

/-! ### A cut frame -/

/-- The worker's steps from `start` to an established connection, for a caster that takes the request
in one piece and accepts it. -/
def connectInputs (k : Constants) (mountpoint password : List UInt8) : List NtripPush.Input :=
  List.replicate 12 (.work {}) ++
    [.work { send := .sent (NtripPush.request k mountpoint password).length }, .work {}, .work {},
      .work { response := ascii "ICY 200 OK" }, .work {}]

/-- A call of `push` on a client that takes it. -/
def pushInputs (data : List UInt8) : List NtripPush.Input := [.push data, .produce, .produce, .produce]

/-- A client of protocol v1. -/
def sampleConstants : Constants := ⟨[], 2101, .kV1, 0, id⟩

/-- The sample client after `start`. -/
def sampleClient : Client := Client.start true [77] [112] false 0 0

/-- Two packets pushed; of the first, two bytes are written, then the connection fails. -/
def cutPush : List NtripPush.Input :=
  List.flatten [connectInputs sampleConstants [77] [112], pushInputs [1, 2, 3], pushInputs [4, 5],
    [.work {}, .work {}, .work { send := .sent 2 }, .work {}, .work { send := .failed }, .work {}]]

/-- A client admitted, and a packet of which two bytes are written before the client fails. -/
def cutBroadcast : List LocalCaster.Input :=
  List.flatten [.replicate 4 (.work {}),
    [.work { incoming := some (1, LocalCaster.requestPrefix) }, .work {}, .work {},
      .work { send := .sent LocalCaster.icyResponse.length }, .work {}, .work {},
      .push [1, 2, 3], .produce, .produce, .work {}, .work {}, .work {},
      .work { send := .sent 2 }, .work {}, .work { send := .failed }, .work {}]]

theorem whole_frames_on_wire_cut :
    (∃ s, run (NtripPush.step sampleConstants) sampleClient cutPush = some s ∧
      (s.out.links 0).wire = [1, 2] ∧ s.pc = .sendFailed ∧
      WireSpec (PushWire.acceptedData s.out) s.out.links s.returns (PushSending s)
        fun links' => ∃ s', Reaches (NtripPush.step sampleConstants) s s' ∧ s'.out.links = links') ∧
    ∃ s, run LocalCaster.step (Caster.start false false) cutBroadcast = some s ∧
      (s.out.links 0).wire = [1, 2] ∧ s.out.closes = [0] ∧
      WireSpec s.out.accepted s.out.links s.returns (CasterSending s)
        fun links' => ∃ s', Reaches LocalCaster.step s s' ∧ s'.out.links = links' :=
  ⟨⟨_, rfl, rfl, rfl,
      whole_frames_on_wire.1 _ _ _ ⟨true, [77], [112], false, 0, 0, rfl⟩ ⟨cutPush, rfl⟩⟩,
    ⟨_, rfl, rfl, rfl, whole_frames_on_wire.2 _ _ ⟨false, false, rfl⟩ ⟨cutBroadcast, rfl⟩⟩⟩

end GpsBase.Push.WholeFrames
