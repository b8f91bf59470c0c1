import GpsBase.Rtcm.Parser

/-! # The correction mailbox

One slot per RTCM message number, with the newest frame of that number and one bit per push
destination: `publishToCorrections` writes a slot and clears its bits, `flushDestinationIfDue` walks
the slots and sets a destination's bit where its `push` answers true.

`flushDestinationIfDue` is generic in the state its `flush` argument works on, so that the same
definition serves a mailbox on its own and one in front of a push client. The index of the slot is
handed to `flush` with the frame; the code does not pass it, and it serves only to name the call. -/

namespace GpsBase.Mailbox.Slots

open GpsBase.Rtcm.Parser (kMaxRtcmFrame)

/-! ### The code -/

def kRtcmBatchUs : ℤ := 200000

def kRtcmStaggerUs : ℤ := kRtcmBatchUs / 4

def kMaxCorrectionSlots : ℕ := 16

abbrev SlotIndex := Fin kMaxCorrectionSlots

inductive PushDestination
  | kPushRtk2go
  | kPushOnocoy
  | kPushRtkdata
  deriving DecidableEq, Repr

def PushDestination.toNat : PushDestination → ℕ
  | .kPushRtk2go => 0
  | .kPushOnocoy => 1
  | .kPushRtkdata => 2

/-- `static_cast<uint8_t>(1u << dest)`. -/
def PushDestination.bit (d : PushDestination) : UInt8 := UInt8.ofNat (1 <<< d.toNat)

structure CorrectionSlot where
  used : Bool := false
  messageNumber : UInt16 := 0
  data : List UInt8 := List.replicate kMaxRtcmFrame 0
  length : ℕ := 0
  sentMask : UInt8 := 0
  updatedUs : ℤ := 0

def CorrectionSlot.frame (s : CorrectionSlot) : List UInt8 := s.data.take s.length

/-- The mailbox members of `BaseStation`. -/
structure Corrections where
  correctionSlots : SlotIndex → CorrectionSlot
  pushNextFlushUs : PushDestination → ℤ

/-- A frame as `publish_rtcm_frame` passes it on: no longer than a slot's buffer. -/
structure Frame where
  bytes : List UInt8
  length_le : bytes.length ≤ kMaxRtcmFrame

/-- The mailbox part of `BaseStation::reset_rtcm_state`. -/
def resetRtcmState (now : ℤ) : Corrections where
  correctionSlots := fun _ => {}
  pushNextFlushUs := fun d => now + kRtcmStaggerUs * (d.toNat + 1) + kRtcmBatchUs

/-- `memcpy` to the start of a buffer. -/
def memcpy (dst src : List UInt8) : List UInt8 := src ++ dst.drop src.length

/-- The slot `publish_to_corrections` writes: the used one of this number, else the first free
one. -/
def findSlot (slots : SlotIndex → CorrectionSlot) (messageNumber : UInt16) : Option SlotIndex :=
  ((List.finRange kMaxCorrectionSlots).find? fun i =>
      (slots i).used && (slots i).messageNumber == messageNumber) <|>
    (List.finRange kMaxCorrectionSlots).find? fun i => !(slots i).used

/-- The slot after a frame is written to it. -/
def CorrectionSlot.write (s : CorrectionSlot) (frame : Frame) (messageNumber : UInt16) (now : ℤ) :
    CorrectionSlot where
  used := true
  messageNumber := messageNumber
  data := memcpy s.data frame.bytes
  length := frame.bytes.length
  sentMask := 0
  updatedUs := now

def publishToCorrections (m : Corrections) (frame : Frame) (messageNumber : UInt16) (now : ℤ) :
    Corrections :=
  match findSlot m.correctionSlots messageNumber with
  | none => m
  | some i =>
    let slot := (m.correctionSlots i).write frame messageNumber now
    { m with correctionSlots := Function.update m.correctionSlots i slot }

/-- `slot.sent_mask |= bit`. -/
def CorrectionSlot.markSent (s : CorrectionSlot) (dest : PushDestination) : CorrectionSlot :=
  { s with sentMask := s.sentMask ||| dest.bit }

def rtcmMessageNumber (data : List UInt8) : UInt16 :=
  if data.length < 5 then 0
  else ((data.getD 3 0).toUInt16 <<< 4) ||| ((data.getD 4 0) >>> 4).toUInt16

/-- The mailbox part of `BaseStation::publish_rtcm_frame`. -/
def publishRtcmFrame (m : Corrections) (data : List UInt8) (now : ℤ) : Corrections :=
  if h : data = [] ∨ kMaxRtcmFrame < data.length then m
  else
    publishToCorrections m ⟨data, not_lt.mp fun hlt => h (Or.inr hlt)⟩ (rtcmMessageNumber data) now

section Flush

variable {σ : Type*} (flush : SlotIndex → List UInt8 → σ → Bool × σ) (dest : PushDestination)

/-- The slots the loop of `flush_destination_if_due` passes over. -/
def skips (slot : CorrectionSlot) : Bool :=
  !slot.used || slot.length == 0 || slot.sentMask &&& dest.bit != 0

/-- One turn of the loop of `flush_destination_if_due`. -/
def flushSlot (acc : (SlotIndex → CorrectionSlot) × σ) (i : SlotIndex) :
    (SlotIndex → CorrectionSlot) × σ :=
  if skips dest (acc.1 i) then acc
  else
    let answer := flush i (acc.1 i).frame acc.2
    if answer.1 then
      (Function.update acc.1 i ((acc.1 i).markSent dest), answer.2)
    else (acc.1, answer.2)

/-- The loop of `flush_destination_if_due` over some of the slots. -/
def flushSlots (is : List SlotIndex) (acc : (SlotIndex → CorrectionSlot) × σ) :
    (SlotIndex → CorrectionSlot) × σ := is.foldl (flushSlot flush dest) acc

def flushDestinationIfDue (now : ℤ) (m : Corrections) (w : σ) : Corrections × σ :=
  if now < m.pushNextFlushUs dest then (m, w)
  else
    let r := flushSlots flush dest (List.finRange kMaxCorrectionSlots) (m.correctionSlots, w)
    ({ correctionSlots := r.1
       pushNextFlushUs := Function.update m.pushNextFlushUs dest (now + kRtcmBatchUs) }, r.2)

end Flush

/-! ### Bits -/

/-- The bit of `d` is set in a mask. -/
def HasBit (mask : UInt8) (d : PushDestination) : Prop := mask &&& d.bit ≠ 0

instance (mask : UInt8) (d : PushDestination) : Decidable (HasBit mask d) := by
  unfold HasBit; infer_instance

theorem hasBit_iff (mask : UInt8) (d : PushDestination) :
    HasBit mask d ↔ mask.toNat.testBit d.toNat = true := by
  have hd : d.bit.toNat = 2 ^ d.toNat := by cases d <;> rfl
  unfold HasBit
  rw [Ne, ← UInt8.toNat_inj, UInt8.toNat_and, hd, Nat.and_two_pow]
  cases mask.toNat.testBit d.toNat <;> simp

theorem not_hasBit_zero (d : PushDestination) : ¬ HasBit 0 d := by
  rw [hasBit_iff]; simp

theorem hasBit_or (mask : UInt8) (d d' : PushDestination) :
    HasBit (mask ||| d.bit) d' ↔ HasBit mask d' ∨ d' = d := by
  have hd : d.bit.toNat = 2 ^ d.toNat := by cases d <;> rfl
  have hinj : d.toNat = d'.toNat ↔ d' = d := by cases d <;> cases d' <;> decide
  rw [hasBit_iff, hasBit_iff, UInt8.toNat_or, Nat.testBit_or, hd, Nat.testBit_two_pow]
  simp [hinj]

theorem skips_eq_false {d : PushDestination} {s : CorrectionSlot} :
    skips d s = false ↔ s.used = true ∧ s.length ≠ 0 ∧ ¬ HasBit s.sentMask d := by
  simp [skips, HasBit, and_assoc]

/-! ### What the operations do to a slot -/

theorem frame_write (s : CorrectionSlot) (f : Frame) (n : UInt16) (now : ℤ) :
    (s.write f n now).frame = f.bytes := by
  simp [CorrectionSlot.frame, CorrectionSlot.write, memcpy]

/-- The slot found is the used one of the number, or a free one when no used slot has it. -/
theorem findSlot_some {slots : SlotIndex → CorrectionSlot} {n : UInt16} {i : SlotIndex}
    (h : findSlot slots n = some i) :
    ((slots i).used = true ∧ (slots i).messageNumber = n) ∨
      ((slots i).used = false ∧ ∀ j, (slots j).used = true → (slots j).messageNumber ≠ n) := by
  unfold findSlot at h
  rcases hf : (List.finRange kMaxCorrectionSlots).find? (fun i =>
      (slots i).used && (slots i).messageNumber == n) with _ | j
  · rw [hf, Option.orElse_eq_orElse, Option.orElse_none] at h
    have hu := List.find?_some h
    rw [List.find?_eq_none] at hf
    refine Or.inr ⟨by simpa using hu, fun j hj he => hf j (List.mem_finRange j) ?_⟩
    simp [hj, he]
  · rw [hf] at h
    obtain rfl : j = i := by simpa using h
    have := List.find?_some hf
    exact Or.inl (by simpa using this)

/-- No slot is found only when all are used, none by this number. -/
theorem findSlot_none {slots : SlotIndex → CorrectionSlot} {n : UInt16}
    (h : findSlot slots n = none) (i : SlotIndex) :
    (slots i).used = true ∧ (slots i).messageNumber ≠ n := by
  unfold findSlot at h
  rw [Option.orElse_eq_orElse, Option.orElse_eq_or, Option.or_eq_none_iff, List.find?_eq_none,
    List.find?_eq_none] at h
  have hu : (slots i).used = true := by simpa using h.2 i (List.mem_finRange i)
  refine ⟨hu, fun hn => h.1 i (List.mem_finRange i) ?_⟩
  simp [hu, hn]

theorem flushSlots_slots {σ : Type*} (flush : SlotIndex → List UInt8 → σ → Bool × σ)
    (dest : PushDestination) (j : SlotIndex) :
    ∀ (is : List SlotIndex) (acc : (SlotIndex → CorrectionSlot) × σ),
      ∃ mask, (flushSlots flush dest is acc).1 j = { acc.1 j with sentMask := mask }
  | [], acc => ⟨(acc.1 j).sentMask, rfl⟩
  | i :: is, acc => by
    obtain ⟨mask, hrest⟩ := flushSlots_slots flush dest j is (flushSlot flush dest acc i)
    have hone : ∃ m, (flushSlot flush dest acc i).1 j = { acc.1 j with sentMask := m } := by
      unfold flushSlot
      dsimp only
      split_ifs
      · exact ⟨_, rfl⟩
      · rcases eq_or_ne j i with rfl | hne
        · exact ⟨_, Function.update_self ..⟩
        · exact ⟨_, Function.update_of_ne hne ..⟩
      · exact ⟨_, rfl⟩
    obtain ⟨m, hm⟩ := hone
    rw [hm] at hrest
    exact ⟨mask, hrest⟩

end GpsBase.Mailbox.Slots
