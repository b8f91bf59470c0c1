import GpsBase.Mailbox.Slots
import GpsBase.Push.NtripPush

/-! # A burst of messages and the queue

`flush_destination_if_due` in front of a push client whose worker does nothing meanwhile: each call of
`push` runs through without a step of another task. The queue keeps the last eight packets it is given
(`pushAlone_spec`, `queue_flushSlots`), while `push` answers true for every one, so that the slots marked
are those queued exactly if no more than eight were due (`queued_iff`). -/

namespace GpsBase.Mailbox.Burst

open GpsBase.Mailbox.Slots GpsBase.Push.NtripPush
open GpsBase.Rtcm.Parser (kMaxRtcmFrame)

/-! ### A call of `push` alone -/

/-- The rest of a call of `push`, for so many steps at most. -/
def produceAll (c : Client) : ℕ → Client
  | 0 => c
  | n + 1 => match c.produce with
    | none => c
    | some c' => produceAll c' n

/-- A call of `push` without a step of another task, and its answer. -/
def pushAlone (c : Client) (data : List UInt8) : Bool × Client :=
  match c.push data with
  | none => (false, c)
  | some c' => (decide ((produceAll c' 5).producer = .returned true), produceAll c' 5)

/-- A client that takes packets: connected, not suspended, and no call of `push` in progress. -/
structure Ready (c : Client) : Prop where
  connected : c.connected = true
  unsuspended : c.suspended = false
  free : c.producer = .idle ∨ ∃ ok, c.producer = .returned ok
  room : c.out.queue.length ≤ kQueueDepth

def queued (c : Client) : List (List UInt8) := c.out.queue.map fun p => p.data

def newest (l : List (List UInt8)) : List (List UInt8) := l.drop (l.length - kQueueDepth)

theorem newest_of_le {l : List (List UInt8)} (h : l.length ≤ kQueueDepth) : newest l = l := by
  unfold newest
  rw [Nat.sub_eq_zero_of_le h, List.drop_zero]

theorem length_newest (l : List (List UInt8)) : (newest l).length = min l.length kQueueDepth := by
  unfold newest
  rw [List.length_drop]
  omega

theorem newest_newest_append (l l' : List (List UInt8)) : newest (newest l ++ l') = newest (l ++ l') := by
  unfold newest
  rw [List.length_append, List.length_append, List.length_drop]
  rcases Nat.le_total l.length kQueueDepth with h | h
  · rw [Nat.sub_eq_zero_of_le h, List.drop_zero, Nat.sub_zero]
  · rw [List.drop_append, List.drop_append, List.drop_drop, List.length_drop]
    congr 2
    · omega
    · omega

theorem produceAll_step {c c' : Client} (h : c.produce = some c') (n : ℕ) :
    produceAll c (n + 1) = produceAll c' n := by
  rw [produceAll, h]

/-- **A packet is taken**, and it is the last in the queue; a full queue loses its first. -/
theorem pushAlone_spec {c : Client} (h : Ready c) {data : List UInt8} (hne : data ≠ [])
    (hlength : data.length ≤ kMaxPacket) :
    (pushAlone c data).1 = true ∧ Ready (pushAlone c data).2 ∧
      queued (pushAlone c data).2 = newest (queued c ++ [data]) := by
  have hcall : c.push data = some { c with producer := .checkSuspended data } := by
    unfold Client.push
    rw [List.take_of_length_le hlength, if_neg hne]
    rcases h.free with hfree | ⟨ok, hfree⟩
    · rw [hfree]
    · rw [hfree]
  have hsuspended : ({ c with producer := .checkSuspended data } : Client).produce =
      some { c with producer := .checkConnected data } := by
    show some { c with producer := if c.suspended then _ else _ } = _
    rw [h.unsuspended]
    rfl
  have hconnected : ({ c with producer := .checkConnected data } : Client).produce =
      some { c with producer := .send data } := by
    show some { c with producer := if c.connected then _ else _ } = _
    rw [h.connected]
    rfl
  have hreturned : ∀ (c : Client) n, c.producer = .returned true → produceAll c n = c := by
    intro c n hc
    cases n with
    | zero => rfl
    | succ n => rw [produceAll, Client.produce, hc]
  have hlengths : (queued c ++ [data]).length = c.out.queue.length + 1 := by
    rw [List.length_append, queued, List.length_map, List.length_singleton]
  have hfirst : produceAll { c with producer := .checkSuspended data } 5 =
      produceAll { c with producer := .send data } 3 :=
    (produceAll_step hsuspended 4).trans (produceAll_step hconnected 3)
  unfold pushAlone
  rw [hcall]
  dsimp only
  rw [hfirst]
  by_cases hroom : c.out.queue.length < kQueueDepth
  · have hsend : ({ c with producer := .send data } : Client).produce =
        some { c with out := c.out.enqueue data, producer := .returned true } := if_pos hroom
    rw [produceAll_step hsend 2, hreturned _ _ rfl]
    refine ⟨rfl, ⟨h.connected, h.unsuspended, Or.inr ⟨true, rfl⟩, ?_⟩, ?_⟩
    · show (c.out.queue ++ [_]).length ≤ _
      rw [List.length_append, List.length_singleton]
      omega
    · rw [newest_of_le (by omega)]
      show (c.out.queue ++ [_]).map _ = _
      rw [List.map_append]
      rfl
  · -- the queue is full: its first packet is dropped, and then there is room
    have hsend : ({ c with producer := .send data } : Client).produce =
        some { c with producer := .evict data } := if_neg hroom
    have hfull : c.out.queue.length = kQueueDepth := Nat.le_antisymm h.room (Nat.le_of_not_lt hroom)
    have htail : c.out.evict.queue.length < kQueueDepth := by
      show c.out.queue.tail.length < _
      rw [List.length_tail, hfull]
      decide
    have hresend : ({ c with
        out := c.out.evict, droppedBatches := c.droppedBatches + 1, producer := .resend data } :
          Client).produce = some { c with
            out := c.out.evict.enqueue data, droppedBatches := c.droppedBatches + 1
            producer := .returned true } := if_pos htail
    have hevict : ({ c with producer := .evict data } : Client).produce = some { c with
        out := c.out.evict, droppedBatches := c.droppedBatches + 1, producer := .resend data } := rfl
    rw [produceAll_step hsend 2, produceAll_step hevict 1, produceAll_step hresend 0, produceAll]
    refine ⟨rfl, ⟨h.connected, h.unsuspended, Or.inr ⟨true, rfl⟩, ?_⟩, ?_⟩
    · show (c.out.queue.tail ++ [_]).length ≤ _
      rw [List.length_append, List.length_tail, List.length_singleton]
      omega
    · show (c.out.queue.tail ++ [_]).map _ = _
      unfold newest
      rw [hlengths, hfull, Nat.add_sub_cancel_left, List.map_append, List.drop_one, queued,
        List.map_tail, List.tail_append_of_ne_nil]
      · rfl
      · rintro hnil
        rw [List.map_eq_nil_iff] at hnil
        rw [hnil] at hfull
        cases hfull

/-! ### The loop over the slots -/

/-- A slot as its array has it: 1200 bytes, and a frame that is no longer. -/
structure Fits (slot : CorrectionSlot) : Prop where
  size : slot.data.length = kMaxRtcmFrame
  length_le : slot.length ≤ kMaxRtcmFrame

/-- The slots of a reachable mailbox fit. -/
def Sound (m : Corrections) : Prop := ∀ i, Fits (m.correctionSlots i)

theorem fits_empty : Fits {} := ⟨List.length_replicate, Nat.zero_le _⟩

theorem sound_resetRtcmState (now : ℤ) : Sound (resetRtcmState now) := fun _ => fits_empty

theorem Sound.publishRtcmFrame {m : Corrections} (h : Sound m) (data : List UInt8) (now : ℤ) :
    Sound (publishRtcmFrame m data now) := by
  unfold Slots.publishRtcmFrame
  split_ifs with hdata
  · exact h
  · unfold publishToCorrections
    split
    · exact h
    · rename_i i _
      intro j
      dsimp only
      rcases eq_or_ne j i with rfl | hne
      · rw [Function.update_self]
        have hlength : data.length ≤ kMaxRtcmFrame := not_lt.mp fun hlt => hdata (Or.inr hlt)
        refine ⟨?_, hlength⟩
        show (data ++ (m.correctionSlots j).data.drop data.length).length = _
        rw [List.length_append, List.length_drop, (h j).size]
        omega
      · rw [Function.update_of_ne hne]
        exact h j

theorem Sound.flushDestinationIfDue {σ : Type*} {m : Corrections} (h : Sound m)
    (flush : SlotIndex → List UInt8 → σ → Bool × σ) (d : PushDestination) (now : ℤ) (w : σ) :
    Sound (flushDestinationIfDue flush d now m w).1 := by
  unfold Slots.flushDestinationIfDue
  split_ifs
  · exact h
  · intro i
    obtain ⟨mask, hslot⟩ := flushSlots_slots flush d i (List.finRange kMaxCorrectionSlots)
      (m.correctionSlots, w)
    dsimp only
    rw [hslot]
    exact ⟨(h i).size, (h i).length_le⟩

variable {d : PushDestination}

def pushTo (_ : SlotIndex) (data : List UInt8) (c : Client) : Bool × Client := pushAlone c data

/-- A slot that is not passed over has a frame that `push` takes. -/
theorem Fits.frame {slot : CorrectionSlot} (h : Fits slot) (hskips : skips d slot = false) :
    slot.frame ≠ [] ∧ slot.frame.length ≤ kMaxPacket := by
  obtain ⟨-, hlength, -⟩ := skips_eq_false.mp hskips
  have hframe : slot.frame.length = slot.length := by
    unfold CorrectionSlot.frame
    rw [List.length_take, h.size]
    exact Nat.min_eq_left h.length_le
  refine ⟨fun hnil => hlength ?_, hframe.trans_le h.length_le⟩
  rw [← hframe, hnil]
  rfl

/-- The slot after its turn of the loop. -/
def mark (d : PushDestination) (slot : CorrectionSlot) : CorrectionSlot :=
  if skips d slot then slot else slot.markSent d

theorem frame_mark (slot : CorrectionSlot) : (mark d slot).frame = slot.frame := by
  unfold mark
  split_ifs
  · rfl
  · rfl

theorem flushSlot_spec {slots : SlotIndex → CorrectionSlot} {c : Client} (hc : Ready c) (i : SlotIndex)
    (hfits : Fits (slots i)) :
    Ready (flushSlot pushTo d (slots, c) i).2 ∧
      queued (flushSlot pushTo d (slots, c) i).2 =
        newest (queued c ++ if skips d (slots i) then [] else [(slots i).frame]) ∧
      (flushSlot pushTo d (slots, c) i).1 = Function.update slots i (mark d (slots i)) := by
  unfold flushSlot pushTo mark
  dsimp only
  rcases hskips : skips d (slots i)
  · obtain ⟨hne, hlength⟩ := hfits.frame hskips
    obtain ⟨hok, hready, hqueued⟩ := pushAlone_spec hc hne hlength
    rw [if_neg Bool.false_ne_true, if_pos hok]
    exact ⟨hready, hqueued, rfl⟩
  · rw [if_pos rfl, if_pos rfl, if_pos rfl, List.append_nil, Function.update_eq_self,
      newest_of_le (by rw [queued, List.length_map]; exact hc.room)]
    exact ⟨hc, rfl, rfl⟩

/-- The slots among some that are due for the destination. -/
def due (d : PushDestination) (slots : SlotIndex → CorrectionSlot) (is : List SlotIndex) : List SlotIndex :=
  is.filter fun i => !skips d (slots i)

/-- **The loop**: each slot that is due is marked, and the queue has the last eight of their frames. -/
theorem flushSlots_spec {is : List SlotIndex} (hnodup : is.Nodup) {slots : SlotIndex → CorrectionSlot}
    {c : Client} (hc : Ready c) (hfits : ∀ i ∈ is, Fits (slots i)) :
    Ready (flushSlots pushTo d is (slots, c)).2 ∧
      queued (flushSlots pushTo d is (slots, c)).2 =
        newest (queued c ++ (due d slots is).map fun i => (slots i).frame) ∧
      ∀ j, (flushSlots pushTo d is (slots, c)).1 j = if j ∈ is then mark d (slots j) else slots j := by
  induction is generalizing slots c with
  | nil =>
    refine ⟨hc, ?_, fun j => rfl⟩
    show queued c = newest (queued c ++ [])
    rw [List.append_nil, newest_of_le (by rw [queued, List.length_map]; exact hc.room)]
  | cons i is ih =>
    obtain ⟨hready, hqueued, hslots⟩ := flushSlot_spec (d := d) hc i (hfits i List.mem_cons_self)
    have hi : i ∉ is := (List.nodup_cons.mp hnodup).1
    have hothers : ∀ j ∈ is, (flushSlot pushTo d (slots, c) i).1 j = slots j := by
      intro j hj
      rw [hslots]
      refine Function.update_of_ne ?_ _ _
      rintro rfl
      exact hi hj
    have hdue : due d (flushSlot pushTo d (slots, c) i).1 is = due d slots is := by
      refine List.filter_congr fun j hj => ?_
      rw [hothers j hj]
    obtain ⟨hready', hqueued', hslots'⟩ := ih (List.nodup_cons.mp hnodup).2
      hready fun j hj => (hothers j hj).symm ▸ hfits j (List.mem_cons_of_mem _ hj)
    have hframes : (due d slots is).map (fun j => ((flushSlot pushTo d (slots, c) i).1 j).frame) =
        (due d slots is).map fun j => (slots j).frame := by
      refine List.map_congr_left fun j hj => ?_
      rw [hothers j (List.mem_of_mem_filter hj)]
    rw [hdue, hframes, hqueued, newest_newest_append] at hqueued'
    refine ⟨hready', ?_, fun j => ?_⟩
    · refine hqueued'.trans ?_
      unfold due
      rw [List.append_assoc, List.filter_cons]
      rcases skips d (slots i)
      · rfl
      · rfl
    · refine (hslots' j).trans ?_
      by_cases hj : j ∈ is
      · rw [if_pos hj, if_pos (List.mem_cons_of_mem _ hj), hothers j hj]
      · rw [if_neg hj, hslots]
        rcases eq_or_ne j i with rfl | hne
        · rw [if_pos List.mem_cons_self, Function.update_self]
        · rw [if_neg (fun h => (List.mem_cons.mp h).elim hne hj), Function.update_of_ne hne]

/-! ### Marked and queued -/

/-- The slots whose bit a call sets. -/
def marked (d : PushDestination) (m m' : Corrections) : List SlotIndex :=
  (List.finRange kMaxCorrectionSlots).filter fun i =>
    !decide (HasBit (m.correctionSlots i).sentMask d) && decide (HasBit (m'.correctionSlots i).sentMask d)

/-- **The slots marked are those queued**: each once, in the order of the slots. -/
def Queued (d : PushDestination) (m : Corrections) (r : Corrections × Client) : Prop :=
  queued r.2 = (marked d m r.1).map fun i => (r.1.correctionSlots i).frame

theorem hasBit_mark (slot : CorrectionSlot) :
    HasBit (mark d slot).sentMask d ↔ HasBit slot.sentMask d ∨ skips d slot = false := by
  unfold mark
  rcases hskips : skips d slot
  · have hset : HasBit (slot.markSent d).sentMask d := (hasBit_or slot.sentMask d d).mpr (Or.inr rfl)
    simp [hset]
  · simp

theorem marked_eq_due {m m' : Corrections}
    (hslots : ∀ i, m'.correctionSlots i = mark d (m.correctionSlots i)) :
    marked d m m' = due d m.correctionSlots (List.finRange kMaxCorrectionSlots) := by
  refine List.filter_congr fun i _ => ?_
  have hbit : HasBit (m'.correctionSlots i).sentMask d ↔
      HasBit (m.correctionSlots i).sentMask d ∨ skips d (m.correctionSlots i) = false := by
    rw [hslots i]
    exact hasBit_mark _
  rw [Bool.eq_iff_iff, Bool.and_eq_true, Bool.not_eq_true', Bool.not_eq_true', decide_eq_true_iff,
    decide_eq_false_iff_not, hbit]
  constructor
  · rintro ⟨hno, hset | hdue⟩
    · exact absurd hset hno
    · exact hdue
  · exact fun hdue => ⟨(skips_eq_false.mp hdue).2.2, Or.inr hdue⟩

/-- **The slots marked are queued** exactly if no more than eight were due, or it was not time. -/
theorem queued_iff (d : PushDestination) (now : ℤ) {m : Corrections} (hm : Sound m) {c : Client}
    (hc : Ready c)
    (hempty : c.out.queue = []) :
    Queued d m (flushDestinationIfDue pushTo d now m c) ↔
      (m.pushNextFlushUs d ≤ now →
        (due d m.correctionSlots (List.finRange kMaxCorrectionSlots)).length ≤ kQueueDepth) := by
  have hnone : queued c = [] := by
    unfold queued
    rw [hempty]
    rfl
  unfold Queued flushDestinationIfDue
  by_cases htime : now < m.pushNextFlushUs d
  · rw [if_pos htime, hnone]
    have hmarked : marked d m m = [] := by
      refine List.filter_eq_nil_iff.mpr fun i _ => ?_
      simp
    rw [hmarked]
    exact ⟨fun _ hle => absurd htime (not_lt.mpr hle), fun _ => rfl⟩
  · rw [if_neg htime]
    obtain ⟨-, hqueued, hslots⟩ := flushSlots_spec (d := d) (List.nodup_finRange kMaxCorrectionSlots) hc
      (fun i _ => hm i)
    rw [hnone, List.nil_append] at hqueued
    have hall : ∀ i, (flushSlots pushTo d (List.finRange kMaxCorrectionSlots) (m.correctionSlots, c)).1 i =
        mark d (m.correctionSlots i) := by
      intro i
      rw [hslots i, if_pos (List.mem_finRange i)]
    dsimp only
    rw [marked_eq_due (m := m) hall, hqueued]
    simp only [hall, frame_mark]
    refine ⟨fun heq _ => ?_, fun hle => newest_of_le ?_⟩
    · have hlengths := congrArg List.length heq
      rw [length_newest, List.length_map] at hlengths
      omega
    · rw [List.length_map]
      exact hle (not_lt.mp htime)

/-! ### The nine messages of a base -/

/-- A client that is connected and has nothing to send. -/
def connectedClient : Client := { out := { socket := some 0, opened := 1, up := true, established := 1 }
                                  connected := true, suspended := false }

theorem ready_connectedClient : Ready connectedClient := ⟨rfl, rfl, Or.inl rfl, Nat.zero_le _⟩

/-- The header of a frame with a message number. -/
def frameOf (number : ℕ) : List UInt8 :=
  [0xD3, 0, 2, UInt8.ofNat (number / 16), UInt8.ofNat (number % 16 * 16), 0, 0, 0]

/-- The mailbox after frames of some numbers. -/
def mailbox (numbers : List ℕ) : Corrections :=
  numbers.foldl (fun m n => publishRtcmFrame m (frameOf n) 1) (resetRtcmState 0)

theorem sound_mailbox (numbers : List ℕ) : Sound (mailbox numbers) := by
  unfold mailbox
  generalize hm : resetRtcmState 0 = m
  have hsound : Sound m := hm ▸ sound_resetRtcmState 0
  clear hm
  induction numbers generalizing m with
  | nil => exact hsound
  | cons n ns ih => exact ih _ (hsound.publishRtcmFrame (frameOf n) 1)

theorem queued_iff_eight : Queued .kPushOnocoy (mailbox [1006, 1033, 1077, 1087, 1097, 1117, 1127, 1137])
    (flushDestinationIfDue pushTo .kPushOnocoy 300000
      (mailbox [1006, 1033, 1077, 1087, 1097, 1117, 1127, 1137]) connectedClient) :=
  (queued_iff .kPushOnocoy 300000 (sound_mailbox _) ready_connectedClient rfl).mpr
    fun _ => by decide +kernel

/-- **Nine messages** are marked, and the first is not in the queue. -/
theorem nine_not_queued :
    ¬ Queued .kPushOnocoy (mailbox [1006, 1033, 1077, 1087, 1097, 1117, 1127, 1137, 1230])
      (flushDestinationIfDue pushTo .kPushOnocoy 300000
        (mailbox [1006, 1033, 1077, 1087, 1097, 1117, 1127, 1137, 1230]) connectedClient) := by
  unfold Queued
  decide +kernel

end GpsBase.Mailbox.Burst
