import GpsBase.Flow.Delivery
import GpsBase.Mailbox.Run

/-! # What reaches the outside casters

The mailbox keeps the newest frame of each message number, and a client is handed it again until its
`push` answers true. `Posted` is what that keeps true of the frames a client has accepted, number by
number: they are a subsequence of those posted to the mailbox, and one that stops before the frame in the
slot as long as the client's bit is clear. So the stream on a connection of a client is, for every message
number, a subsequence of the frames published (`push_delivery`), whatever the tasks and the network do. -/

namespace GpsBase.Flow.PushDelivery

open GpsBase.Lib.Machine GpsBase.Lib.Wire GpsBase.Mailbox.Slots
open GpsBase.Rtcm.Parser GpsBase.Rtcm.Framing GpsBase.Rtcm.Decoding
open GpsBase.Push GpsBase.Flow.Pipeline GpsBase.Flow.Delivery
open GpsBase.Push.NtripPush (Client Constants)
open GpsBase.Push.PushWire (acceptedData)

/-! ### Frames of one message number -/

def ofNumber (n : UInt16) (frames : List (List UInt8)) : List (List UInt8) :=
  frames.filter fun f => rtcmMessageNumber f = n

theorem ofNumber_append (n : UInt16) (frames frames' : List (List UInt8)) :
    ofNumber n (frames ++ frames') = ofNumber n frames ++ ofNumber n frames' := List.filter_append ..

theorem ofNumber_singleton (n : UInt16) (frame : List UInt8) :
    ofNumber n [frame] = if rtcmMessageNumber frame = n then [frame] else [] := by
  unfold ofNumber
  split_ifs with h
  · rw [List.filter_cons_of_pos (by simpa using h), List.filter_nil]
  · rw [List.filter_cons_of_neg (by simpa using h), List.filter_nil]

theorem ofNumber_sublist (n : UInt16) {frames frames' : List (List UInt8)} (h : frames.Sublist frames') :
    (ofNumber n frames).Sublist (ofNumber n frames') := h.filter _

theorem mem_of_ofNumber {frames frames' : List (List UInt8)}
    (h : ∀ n, (ofNumber n frames).Sublist (ofNumber n frames')) {f : List UInt8} (hf : f ∈ frames) :
    f ∈ frames' := by
  have hmem : f ∈ ofNumber (rtcmMessageNumber f) frames := List.mem_filter.mpr ⟨hf, by simp⟩
  exact (List.mem_filter.mp ((h _).subset hmem)).1

/-! ### The mailbox and what was accepted -/

/-- **The slots against the frames posted and those accepted.** `busy d i` says that `d` has just
answered for slot `i`, with the bit still to be set. -/
structure Posted (slots : SlotIndex → CorrectionSlot) (posted : List (List UInt8))
    (taken : PushDestination → List (List UInt8)) (busy : PushDestination → SlotIndex → Prop) : Prop where
  unique : ∀ i j, (slots i).used = true → (slots j).used = true →
    (slots i).messageNumber = (slots j).messageNumber → i = j
  newest : ∀ i, (slots i).used = true → ∃ before,
    ofNumber (slots i).messageNumber posted = before ++ [(slots i).frame] ∧
      ∀ d, ¬ HasBit (slots i).sentMask d → ¬ busy d i →
        (ofNumber (slots i).messageNumber (taken d)).Sublist before
  order : ∀ d n, (ofNumber n (taken d)).Sublist (ofNumber n posted)

def Free (_ : PushDestination) (_ : SlotIndex) : Prop := False

/-- This one is, with this slot. -/
def Busy (d : PushDestination) (i : SlotIndex) (d' : PushDestination) (j : SlotIndex) : Prop :=
  d' = d ∧ j = i

theorem Posted.mono {slots : SlotIndex → CorrectionSlot} {posted : List (List UInt8)}
    {taken : PushDestination → List (List UInt8)} {busy busy' : PushDestination → SlotIndex → Prop}
    (h : Posted slots posted taken busy) (hbusy : ∀ d i, busy d i → busy' d i) :
    Posted slots posted taken busy' := by
  refine ⟨h.unique, fun i hi => ?_, h.order⟩
  obtain ⟨before, heq, hbefore⟩ := h.newest i hi
  exact ⟨before, heq, fun d hbit hfree => hbefore d hbit fun hb => hfree (hbusy d i hb)⟩

theorem Posted.frame {slots : SlotIndex → CorrectionSlot} {posted : List (List UInt8)}
    {taken : PushDestination → List (List UInt8)} {busy : PushDestination → SlotIndex → Prop}
    (h : Posted slots posted taken busy) {i : SlotIndex} (hi : (slots i).used = true) :
    (slots i).frame ∈ posted ∧ rtcmMessageNumber (slots i).frame = (slots i).messageNumber := by
  obtain ⟨before, heq, -⟩ := h.newest i hi
  have hmem : (slots i).frame ∈ ofNumber (slots i).messageNumber posted := by rw [heq]; simp
  obtain ⟨hposted, hnumber⟩ := List.mem_filter.mp hmem
  exact ⟨hposted, by simpa using hnumber⟩

theorem Posted.reset {posted : List (List UInt8)} {taken : PushDestination → List (List UInt8)}
    (horder : ∀ d n, (ofNumber n (taken d)).Sublist (ofNumber n posted)) (now : ℤ) :
    Posted (resetRtcmState now).correctionSlots posted taken Free :=
  ⟨fun i j hi => (by cases hi), fun i hi => (by cases hi), horder⟩

theorem Posted.post {m : Corrections} {posted : List (List UInt8)}
    {taken : PushDestination → List (List UInt8)} (h : Posted m.correctionSlots posted taken Free)
    {frame : List UInt8} (hne : frame ≠ []) (hlength : frame.length ≤ kMaxRtcmFrame) (now : ℤ) :
    Posted (publishRtcmFrame m frame now).correctionSlots (posted ++ [frame]) taken Free := by
  have horder : ∀ d n, (ofNumber n (taken d)).Sublist (ofNumber n (posted ++ [frame])) := fun d n =>
    (h.order d n).trans (ofNumber_sublist n (List.sublist_append_left _ _))
  -- a slot of another number is as it was
  have hother : ∀ i, (m.correctionSlots i).used = true →
      (m.correctionSlots i).messageNumber ≠ rtcmMessageNumber frame → ∃ before,
      ofNumber (m.correctionSlots i).messageNumber (posted ++ [frame]) =
          before ++ [(m.correctionSlots i).frame] ∧
        ∀ d, ¬ HasBit (m.correctionSlots i).sentMask d → ¬ Free d i →
          (ofNumber (m.correctionSlots i).messageNumber (taken d)).Sublist before := by
    intro i hi hn
    rw [ofNumber_append, ofNumber_singleton, if_neg (Ne.symm hn), List.append_nil]
    exact h.newest i hi
  unfold publishRtcmFrame publishToCorrections
  rw [dif_neg (by simp [hne, hlength])]
  dsimp only
  rcases hf : findSlot m.correctionSlots (rtcmMessageNumber frame) with _ | i
  · have hfull := findSlot_none hf
    exact ⟨h.unique, fun i hi => hother i hi (hfull i).2, horder⟩
  · dsimp only
    have hothers : ∀ j, j ≠ i → (m.correctionSlots j).used = true →
        (m.correctionSlots j).messageNumber ≠ rtcmMessageNumber frame := by
      intro j hj hu
      rcases findSlot_some hf with ⟨hi, hn⟩ | ⟨-, hn⟩
      · exact fun heq => hj (h.unique j i hu hi (heq.trans hn.symm))
      · exact hn j hu
    refine ⟨fun j l hj hl hjl => ?_, fun j hj => ?_, horder⟩
    · by_cases hji : j = i
      · by_cases hli : l = i
        · exact hji.trans hli.symm
        · rw [hji, Function.update_self, Function.update_of_ne hli] at hjl
          rw [Function.update_of_ne hli] at hl
          exact absurd hjl.symm (hothers l hli hl)
      · rw [Function.update_of_ne hji] at hj hjl
        by_cases hli : l = i
        · rw [hli, Function.update_self] at hjl
          exact absurd hjl (hothers j hji hj)
        · rw [Function.update_of_ne hli] at hl hjl
          exact h.unique j l hj hl hjl
    · rcases eq_or_ne j i with rfl | hji
      · rw [Function.update_self, frame_write]
        refine ⟨ofNumber (rtcmMessageNumber frame) posted, ?_, fun d _ _ => h.order d _⟩
        show ofNumber (rtcmMessageNumber frame) (posted ++ [frame]) = _
        rw [ofNumber_append, ofNumber_singleton, if_pos rfl]
      · rw [Function.update_of_ne hji] at hj ⊢
        exact hother j hj (hothers j hji hj)

/-- **A client accepts the frame of a slot**, whose bit is clear. -/
theorem Posted.take {slots : SlotIndex → CorrectionSlot} {posted : List (List UInt8)}
    {taken taken' : PushDestination → List (List UInt8)} (h : Posted slots posted taken Free)
    {d : PushDestination} {i : SlotIndex} (hi : (slots i).used = true)
    (hbit : ¬ HasBit (slots i).sentMask d) (htaken : taken' d = taken d ++ [(slots i).frame])
    (hothers : ∀ d', d' ≠ d → taken' d' = taken d') : Posted slots posted taken' (Busy d i) := by
  obtain ⟨-, hnumber⟩ := h.frame hi
  have hsame : ∀ n, n ≠ (slots i).messageNumber → ofNumber n (taken' d) = ofNumber n (taken d) := by
    intro n hn
    rw [htaken, ofNumber_append, ofNumber_singleton, if_neg (by rw [hnumber]; exact hn.symm),
      List.append_nil]
  refine ⟨h.unique, fun j hj => ?_, fun d' n => ?_⟩
  · obtain ⟨before, heq, hbefore⟩ := h.newest j hj
    refine ⟨before, heq, fun d' hbit' hbusy => ?_⟩
    rcases eq_or_ne d' d with rfl | hd
    · have hji : j ≠ i := fun hji => hbusy ⟨rfl, hji⟩
      rw [hsame _ fun hn => hji (h.unique j i hj hi hn)]
      exact hbefore d' hbit' id
    · rw [hothers d' hd]
      exact hbefore d' hbit' id
  · rcases eq_or_ne d' d with rfl | hd
    · rcases eq_or_ne n (slots i).messageNumber with rfl | hn
      · obtain ⟨before, heq, hbefore⟩ := h.newest i hi
        rw [htaken, ofNumber_append, ofNumber_singleton, if_pos hnumber, heq]
        exact (hbefore d' hbit id).append (List.Sublist.refl _)
      · rw [hsame n hn]
        exact h.order d' n
    · rw [hothers d' hd]
      exact h.order d' n

theorem Posted.mark {slots : SlotIndex → CorrectionSlot} {posted : List (List UInt8)}
    {taken : PushDestination → List (List UInt8)} {d : PushDestination} {i : SlotIndex}
    (h : Posted slots posted taken (Busy d i)) :
    Posted (Function.update slots i ((slots i).markSent d)) posted taken Free := by
  have hslot : ∀ j, ∃ mask, Function.update slots i ((slots i).markSent d) j =
      { slots j with sentMask := mask } ∧
        ∀ d', HasBit mask d' ↔ HasBit (slots j).sentMask d' ∨ (j = i ∧ d' = d) :=
    fun j => Mailbox.Run.update_markSent slots i j d
  refine ⟨fun j l hj hl hjl => ?_, fun j hj => ?_, h.order⟩
  · obtain ⟨_, ej, -⟩ := hslot j
    obtain ⟨_, el, -⟩ := hslot l
    rw [ej] at hj hjl
    rw [el] at hl hjl
    exact h.unique j l hj hl hjl
  · obtain ⟨mask, ej, hmask⟩ := hslot j
    rw [ej] at hj ⊢
    obtain ⟨before, heq, hbefore⟩ := h.newest j hj
    refine ⟨before, heq, fun d' hbit _ => ?_⟩
    have hclear := mt (hmask d').mpr hbit
    exact hbefore d' (fun hb => hclear (Or.inl hb)) fun hb => hclear (Or.inr ⟨hb.2, hb.1⟩)

/-! ### The calls of `push` -/

/-- The packet that a call of `push` has in hand. -/
def handing : NtripPush.PushPc → Option (List UInt8)
  | .idle => none
  | .checkSuspended data => some data
  | .checkConnected data => some data
  | .send data => some data
  | .evict data => some data
  | .resend data => some data
  | .returned _ => none

/-- **A step of `push`** goes on with the packet, or queues it and returns true. -/
theorem produce_cases {c c' : Client} (h : c.produce = some c') :
    c'.producer ≠ .idle ∧ ∃ data, handing c.producer = some data ∧
      ((acceptedData c'.out = acceptedData c.out ∧
          ∀ data', handing c'.producer = some data' → data' = data) ∨
        (acceptedData c'.out = acceptedData c.out ++ [data] ∧ c'.producer = .returned true)) := by
  have hqueued : ∀ (o : NtripPush.Outbox) (data : List UInt8),
      acceptedData (o.enqueue data) = acceptedData o ++ [data] := by
    intro o data
    simp [acceptedData, NtripPush.Outbox.enqueue]
  unfold Client.produce at h
  rcases hp : c.producer with _ | data | data | data | data | data | ok <;> rw [hp] at h
  case checkSuspended | checkConnected =>
    cases h
    dsimp only
    split_ifs
    all_goals exact ⟨by simp, data, rfl, Or.inl ⟨rfl, fun _ heq => by cases heq <;> rfl⟩⟩
  case send | resend =>
    simp only at h
    split_ifs at h <;> cases h
    · exact ⟨by simp, data, rfl, Or.inr ⟨hqueued c.out data, rfl⟩⟩
    · exact ⟨by simp, data, rfl, Or.inl ⟨rfl, fun _ heq => by cases heq <;> rfl⟩⟩
  case evict =>
    cases h
    exact ⟨by simp, data, rfl, Or.inl ⟨rfl, fun _ heq => (Option.some.inj heq).symm⟩⟩
  all_goals cases h

/-- A client's own steps leave the packets accepted and `push` alone. -/
theorem client_own {k : Constants} {c c' : Client} {j : NtripPush.Input} (hj : clientOwn j = true)
    (h : NtripPush.step k c j = some c') :
    acceptedData c'.out = acceptedData c.out ∧ c'.producer = c.producer := by
  cases j with
  | work e =>
    have hworked := QueueAccounting.worked h
    exact ⟨congrArg (List.map NtripPush.Accepted.data) hworked.accepted, hworked.producer⟩
  | push data => cases hj
  | produce => cases hj
  | tick us => cases hj
  | call i =>
    simp only [NtripPush.step, Client.callStep] at h
    split at h
    · rename_i w ws _
      cases h
      cases w <;> exact ⟨rfl, rfl⟩
    · cases h
  | setSuspended b =>
    cases h
    exact ⟨rfl, rfl⟩
  | configure enabled mountpoint password =>
    cases h
    exact ⟨rfl, rfl⟩
  | stop =>
    cases h
    exact ⟨rfl, rfl⟩

/-! ### The way to the clients -/

/-- The frame that is published and not yet posted. -/
def unposted : Pc → List (List UInt8)
  | .batch _ (.publish frame _ _ _) => [frame]
  | .batchCall _ (.publish frame _ _ _) => [frame]
  | _ => []

/-- The packets each client has accepted. -/
def taken (s : Station) (d : PushDestination) : List (List UInt8) := acceptedData (s.client d).out

/-- `d` has answered true for slot `i`. -/
def Answered (s : Station) (d : PushDestination) (i : SlotIndex) : Prop :=
  (∃ now, s.pc = .slotCall d now i) ∧ (s.client d).producer = .returned true

/-- What holds while `push` of `d` has slot `i`. -/
structure InCall (s : Station) (d : PushDestination) (i : SlotIndex) : Prop where
  used : (s.box.correctionSlots i).used = true
  bit : ¬ HasBit (s.box.correctionSlots i).sentMask d
  begun : (s.client d).producer ≠ .idle
  frame : ∀ data, handing (s.client d).producer = some data → data = (s.box.correctionSlots i).frame

/-- **What is on its way to the clients.** -/
structure Outside (s : Station) : Prop where
  reading : Reading s
  split : s.published = s.posted ++ unposted s.pc
  posted : Posted s.box.correctionSlots s.posted (taken s) (Answered s)
  call : ∀ d now i, s.pc = .slotCall d now i → InCall s d i
  free : ∀ d, (∀ now i, s.pc ≠ .slotCall d now i) → handing (s.client d).producer = none

/-- The base task is in no call of a client's `push`. -/
def NoCall (pc : Pc) : Prop := ∀ d now i, pc ≠ .slotCall d now i

theorem answered_noCall {s : Station} (h : NoCall s.pc) (d : PushDestination) (i : SlotIndex) :
    ¬ Answered s d i := fun ⟨⟨now, hpc⟩, _⟩ => h d now i hpc

theorem Outside.noCall {s : Station} (h : Outside s) (hpc : NoCall s.pc) :
    Posted s.box.correctionSlots s.posted (taken s) Free :=
  h.posted.mono fun d i hanswered => answered_noCall hpc d i hanswered

/-- From outside a call to outside a call, with the clients as they were. -/
theorem Outside.apart {s s' : Station} (h : Outside s) (hreading : Reading s')
    (hsplit : s'.published = s'.posted ++ unposted s'.pc)
    (hposted : Posted s'.box.correctionSlots s'.posted (taken s') Free) (hpc : NoCall s.pc)
    (hpc' : NoCall s'.pc) (hclient : ∀ d, (s'.client d).producer = (s.client d).producer) :
    Outside s' := by
  refine ⟨hreading, hsplit, hposted.mono fun _ _ => False.elim, fun d now i heq => ?_, fun d _ => ?_⟩
  · exact absurd heq (hpc' d now i)
  · rw [hclient]
    exact h.free d (hpc d)

/-- The same mailbox and calls, and the clients the same as far as this goes. -/
theorem Outside.same {s s' : Station} (h : Outside s) (hreading : Reading s')
    (hpublished : s'.published = s.published) (hposted : s'.posted = s.posted)
    (hslots : s'.box.correctionSlots = s.box.correctionSlots) (hpc : s'.pc = s.pc)
    (hclient : ∀ d, taken s' d = taken s d ∧ (s'.client d).producer = (s.client d).producer) :
    Outside s' := by
  have htaken : taken s' = taken s := funext fun d => (hclient d).1
  refine ⟨hreading, by rw [hpublished, hposted, hpc]; exact h.split, ?_, fun d now i heq => ?_,
    fun d hno => ?_⟩
  · rw [hslots, hposted, htaken]
    refine h.posted.mono fun d i hanswered => ?_
    unfold Answered
    rw [hpc, (hclient d).2]
    exact hanswered
  · rw [hpc] at heq
    obtain ⟨hused, hbit, hbegun, hframe⟩ := h.call d now i heq
    refine ⟨by rw [hslots]; exact hused, by rw [hslots]; exact hbit, ?_, ?_⟩
    · rw [(hclient d).2]
      exact hbegun
    · rw [(hclient d).2, hslots]
      exact hframe
  · rw [hpc] at hno
    rw [(hclient d).2]
    exact h.free d hno

theorem noCall_quiet {pc : Pc} (h : pc.Quiet) : NoCall pc ∧ unposted pc = [] := by
  cases pc with
  | slotCall d now i => exact absurd h id
  | batchCall frames after => exact absurd h id
  | batch frames after =>
    obtain ⟨-, now, rfl⟩ := h
    exact ⟨fun _ _ _ => nofun, rfl⟩
  | _ => exact ⟨fun _ _ _ => nofun, rfl⟩

/-- The frame of the slot a client is about to be handed is one it takes whole. -/
theorem Outside.slot_valid {s : Station} (h : Outside s) {i : SlotIndex}
    (hi : (s.box.correctionSlots i).used = true) : (s.box.correctionSlots i).frame ≠ [] ∧
      (s.box.correctionSlots i).frame.length ≤ NtripPush.kMaxPacket := by
  have hmem : (s.box.correctionSlots i).frame ∈ s.published := by
    rw [h.split]
    exact List.mem_append_left _ (h.posted.frame hi).1
  obtain ⟨-, hlength, hne⟩ := validFrame_length (h.reading.valid _ hmem)
  exact ⟨hne, hlength⟩

theorem Outside.clientPush {s : Station} (h : Outside s) {d : PushDestination} {now : ℤ} {i : SlotIndex}
    (hpc : s.pc = .slot d now i) (hskip : skips d (s.box.correctionSlots i) = false) {c : Client}
    (hc : (s.client d).push (s.box.correctionSlots i).frame = some c) :
    Outside { s with client := Function.update s.client d c, pc := .slotCall d now i } := by
  obtain ⟨hused, -, hbit⟩ := skips_eq_false.mp hskip
  obtain ⟨hne, hlength⟩ := h.slot_valid hused
  have hno : NoCall s.pc := by
    rw [hpc]
    exact fun _ _ _ => nofun
  have hpush : c = { s.client d with producer := .checkSuspended (s.box.correctionSlots i).frame } := by
    unfold Client.push at hc
    rw [if_neg hne, List.take_of_length_le hlength] at hc
    split at hc <;> cases hc <;> rfl
  subst hpush
  have htaken : ∀ d', acceptedData (Function.update s.client d { s.client d with
      producer := .checkSuspended (s.box.correctionSlots i).frame } d').out = taken s d' := by
    intro d'
    rcases eq_or_ne d' d with rfl | hd
    · rw [Function.update_self]
      rfl
    · rw [Function.update_of_ne hd]
      rfl
  refine ⟨⟨h.reading.wf, h.reading.begun, h.reading.pieces, h.reading.valid⟩, ?_, ?_, ?_, ?_⟩
  · have hsplit := h.split
    rwa [hpc] at hsplit
  · have hposted := h.noCall hno
    rw [← funext htaken] at hposted
    exact hposted.mono fun _ _ => False.elim
  · rintro d' now' i' ⟨⟩
    refine ⟨hused, hbit, ?_, ?_⟩
    · show (Function.update s.client d _ d).producer ≠ .idle
      rw [Function.update_self]
      nofun
    · show ∀ data, handing (Function.update s.client d _ d).producer = some data → _
      rw [Function.update_self]
      exact fun data heq => (Option.some.inj heq).symm
  · intro d' hfree
    have hd : d' ≠ d := by
      rintro rfl
      exact hfree now i rfl
    show handing (Function.update s.client d _ d').producer = none
    rw [Function.update_of_ne hd]
    exact h.free d' (hno d')

theorem Outside.clientProduce {s : Station} (h : Outside s) {d : PushDestination} {now : ℤ}
    {i : SlotIndex} (hpc : s.pc = .slotCall d now i) {c : Client}
    (hc : (s.client d).produce = some c) :
    Outside { s with client := Function.update s.client d c } := by
  obtain ⟨hused, hbit, -, hframe⟩ := h.call d now i hpc
  obtain ⟨hbegun, data, hdata, hcase⟩ := produce_cases hc
  obtain rfl := hframe data hdata
  have hfree : ∀ d' i', ¬ Answered s d' i' := by
    rintro d' i' ⟨⟨now', hpc'⟩, hproducer⟩
    obtain ⟨rfl, -, -⟩ := Pc.slotCall.inj (hpc.symm.trans hpc')
    rw [hproducer] at hdata
    cases hdata
  have hposted : Posted s.box.correctionSlots s.posted (taken s) Free :=
    h.posted.mono fun d' i' hanswered => hfree d' i' hanswered
  have hothers : ∀ d', d' ≠ d → taken { s with client := Function.update s.client d c } d' = taken s d' := by
    intro d' hd
    unfold taken
    dsimp only
    rw [Function.update_of_ne hd]
  refine ⟨⟨h.reading.wf, h.reading.begun, h.reading.pieces, h.reading.valid⟩, h.split, ?_, ?_, ?_⟩
  · rcases hcase with ⟨hsame, -⟩ | ⟨hqueued, hreturned⟩
    · have htaken : taken { s with client := Function.update s.client d c } = taken s := by
        funext d'
        rcases eq_or_ne d' d with rfl | hd
        · unfold taken
          dsimp only
          rw [Function.update_self]
          exact hsame
        · exact hothers d' hd
      rw [htaken]
      exact hposted.mono fun _ _ => False.elim
    · refine (hposted.take hused hbit ?_ hothers).mono fun d' i' hbusy => ?_
      · unfold taken
        dsimp only
        rw [Function.update_self]
        exact hqueued
      · obtain ⟨rfl, rfl⟩ := hbusy
        refine ⟨⟨now, hpc⟩, ?_⟩
        dsimp only
        rw [Function.update_self]
        exact hreturned
  · intro d' now' i' hpc'
    obtain ⟨rfl, -, rfl⟩ := Pc.slotCall.inj (hpc.symm.trans hpc')
    refine ⟨hused, hbit, ?_, ?_⟩
    · dsimp only
      rw [Function.update_self]
      exact hbegun
    · dsimp only
      rw [Function.update_self]
      intro data' hdata'
      rcases hcase with ⟨-, hsame⟩ | ⟨-, hreturned⟩
      · exact hsame data' hdata'
      · rw [hreturned] at hdata'
        cases hdata'
  · intro d' hno
    have hd : d' ≠ d := by
      rintro rfl
      exact hno now i hpc
    dsimp only
    rw [Function.update_of_ne hd]
    exact h.free d' hno

theorem Outside.answered {s : Station} (h : Outside s) {d : PushDestination} {now : ℤ} {i : SlotIndex}
    {ok : Bool} {box : Corrections} {pc : Pc}
    (hreading : Reading { s with box := box, pc := pc }) (hpc : s.pc = .slotCall d now i)
    (hreturned : (s.client d).producer = .returned ok) (hsplit : s.published = s.posted ++ [])
    (hto : pc = .slot d now (i + 1)) (hposted : Posted box.correctionSlots s.posted (taken s) Free) :
    Outside { s with box := box, pc := pc } := by
  subst hto
  refine ⟨hreading, hsplit, hposted.mono fun _ _ => False.elim, nofun, fun d' _ => ?_⟩
  rcases eq_or_ne d' d with rfl | hd
  · show handing (s.client d').producer = none
    rw [hreturned]
    rfl
  · refine h.free d' fun now' i' heq => ?_
    exact hd (Pc.slotCall.inj (hpc.symm.trans heq)).1.symm

theorem Outside.step {k : PushDestination → Constants} {s s' : Station} (h : Outside s)
    (hs : StepTo k s s') : Outside s' := by
  have hreading := h.reading.step hs
  have hsplit := h.split
  cases hs with
  | reset hpc =>
    have hno : NoCall s.pc := by rw [hpc]; exact fun _ _ _ => nofun
    exact h.apart hreading hsplit (Posted.reset h.posted.order s.now) hno hno fun _ => rfl
  | move pc times hfrom hto =>
    obtain ⟨hno, hnil⟩ := noCall_quiet hfrom
    obtain ⟨hno', hnil'⟩ := noCall_quiet hto
    refine h.apart hreading ?_ (h.noCall hno) hno hno' fun _ => rfl
    rw [hnil] at hsplit
    rw [hnil']
    exact hsplit
  | byte x bytes again hpc hframe =>
    have hno : NoCall s.pc := by rw [hpc]; exact fun _ _ _ => nofun
    rw [hpc] at hsplit
    exact h.apart hreading hsplit (h.noCall hno) hno (fun _ _ _ => nofun) fun _ => rfl
  | publish x bytes again hpc frame hframe r hr =>
    have hno : NoCall s.pc := by rw [hpc]; exact fun _ _ _ => nofun
    rw [hpc] at hsplit
    refine h.apart hreading ?_ (h.noCall hno) hno (fun _ _ _ => nofun) fun _ => rfl
    show s.published ++ [frame] = s.posted ++ [frame]
    rw [hsplit]
    exact congrArg (· ++ [frame]) (List.append_nil _)
  | flush hpc =>
    have hno : NoCall s.pc := by rw [hpc]; exact fun _ _ _ => nofun
    rw [hpc] at hsplit
    exact h.apart hreading hsplit (h.noCall hno) hno (fun _ _ _ => nofun) fun _ => rfl
  | post frame now bytes again hpc =>
    have hno : NoCall s.pc := by rw [hpc]; exact fun _ _ _ => nofun
    rw [hpc] at hsplit
    have hvalid := h.reading.valid frame (by rw [hsplit]; simp [unposted])
    obtain ⟨-, hlength, hne⟩ := validFrame_length hvalid
    refine h.apart hreading ?_ ((h.noCall hno).post hne hlength now) hno (fun _ _ _ => nofun)
      fun _ => rfl
    show s.published = s.posted ++ [frame] ++ []
    rw [List.append_nil]
    exact hsplit
  | casterPush frame frames after hpc c hc =>
    have hno : NoCall s.pc := by rw [hpc]; exact fun _ _ _ => nofun
    refine h.apart hreading ?_ (h.noCall hno) hno (fun _ _ _ => nofun) fun _ => rfl
    rw [hpc] at hsplit
    cases after <;> exact hsplit
  | casterProduce frames after hpc c hc => exact h.same hreading rfl rfl rfl rfl fun _ => ⟨rfl, rfl⟩
  | casterReturn frames after hpc hidle =>
    have hno : NoCall s.pc := by rw [hpc]; exact fun _ _ _ => nofun
    refine h.apart hreading ?_ (h.noCall hno) hno (fun _ _ _ => nofun) fun _ => rfl
    rw [hpc] at hsplit
    cases after <;> exact hsplit
  | clientPush d now i hpc hskip c hc => exact h.clientPush hpc hskip hc
  | clientProduce d now i hpc c hc => exact h.clientProduce hpc hc
  | accepted d now i hpc hreturned =>
    refine h.answered hreading hpc hreturned (by rw [hpc] at hsplit; exact hsplit) rfl ?_
    refine (h.posted.mono fun d' i' hanswered => ?_).mark
    obtain ⟨⟨now', hpc'⟩, -⟩ := hanswered
    obtain ⟨rfl, -, rfl⟩ := Pc.slotCall.inj (hpc.symm.trans hpc')
    exact ⟨rfl, rfl⟩
  | refused d now i hpc hreturned =>
    refine h.answered hreading hpc hreturned (by rw [hpc] at hsplit; exact hsplit) rfl ?_
    refine h.posted.mono fun d' i' hanswered => ?_
    obtain ⟨⟨now', hpc'⟩, hproducer⟩ := hanswered
    obtain ⟨rfl, -, -⟩ := Pc.slotCall.inj (hpc.symm.trans hpc')
    rw [hreturned] at hproducer
    cases hproducer
  | caster j hj c hc => exact h.same hreading rfl rfl rfl rfl fun _ => ⟨rfl, rfl⟩
  | client d j hj c hc =>
    refine h.same hreading rfl rfl rfl rfl fun d' => ?_
    rcases eq_or_ne d' d with rfl | hd
    · unfold taken
      dsimp only
      rw [Function.update_self]
      exact client_own hj hc
    · unfold taken
      dsimp only
      rw [Function.update_of_ne hd]
      exact ⟨rfl, rfl⟩
  | tick us => exact h.same hreading rfl rfl rfl rfl fun _ => ⟨rfl, rfl⟩

theorem outside_started {s : Station} (h : Started s) : Outside s := by
  obtain ⟨-, hpublished, hposted⟩ := h.record
  have hclient : ∀ d, taken s d = [] ∧ handing (s.client d).producer = none := by
    intro d
    obtain ⟨enabled, mountpoint, password, suspended, resumed, now, hd⟩ := h.client d
    unfold taken
    rw [hd]
    exact ⟨rfl, rfl⟩
  refine ⟨(local_started h).reading, by rw [hpublished, hposted, h.pc]; rfl, ⟨fun i j hi => ?_, fun i hi => ?_,
    fun d n => ?_⟩, fun d now i hpc => ?_, fun d _ => (hclient d).2⟩
  · rw [h.box i] at hi
    cases hi
  · rw [h.box i] at hi
    cases hi
  · rw [(hclient d).1]
    exact List.nil_sublist _
  · rw [h.pc] at hpc
    cases hpc

theorem outside_reaches {k : PushDestination → Constants} {s₀ s : Station} (h₀ : Started s₀)
    (h : Reaches (step k) s₀ s) : Outside s :=
  h.invariant (I := Outside) (fun _ _ _ ht hs => ht.step (stepTo_step hs)) (outside_started h₀)

/-- **From the receiver to an outside caster.** In every run of the station, what can be decoded of the
bytes written on a connection of a client after the handshake are valid frames that were published, those
of each message number a subsequence of the ones published with it; and what cannot be decoded is less
than one frame. -/
theorem push_delivery {k : PushDestination → Constants} {s₀ s : Station} (h₀ : Started s₀)
    (h : Reaches (step k) s₀ s) (d : PushDestination) (c : ℕ) (p : RtcmParser) :
    let frames := heard p ((s.client d).out.links c).wire
    (∀ n, (ofNumber n frames).Sublist (ofNumber n s.published)) ∧
      (∀ f ∈ frames, ValidFrame f ∧ f ∈ s.published) ∧
      ∃ cut, ((s.client d).out.links c).wire = frames.flatten ++ cut ∧ CutShort cut := by
  have houtside := outside_reaches h₀ h
  have hnumber : ∀ n, (ofNumber n (taken s d)).Sublist (ofNumber n s.published) := by
    intro n
    rw [houtside.split]
    exact (houtside.posted.order d n).trans (ofNumber_sublist n (List.sublist_append_left _ _))
  have hvalid : ∀ f ∈ taken s d, ValidFrame f := fun f hf =>
    houtside.reading.valid f (mem_of_ofNumber hnumber hf)
  have hspec := WholeFrames.push_wireSpec (h₀.client d) (client_reaches d h)
  obtain ⟨hheard, hcut⟩ := heard_link (hspec.whole c) hvalid [] nofun p
  refine ⟨fun n => (ofNumber_sublist n hheard).trans (hnumber n), fun f hf => ?_, hcut⟩
  exact ⟨hvalid f (hheard.subset hf), mem_of_ofNumber hnumber (hheard.subset hf)⟩

/-- A client connects, the receiver sends a frame, and 250 ms later the client is handed it. -/
def samplePush : List Input :=
  let worker (e : NtripPush.Env) : Input := .client .kPushRtk2go (.work e)
  List.flatten [
    (WholeFrames.connectInputs WholeFrames.sampleConstants [77] [112]).map (.client .kPushRtk2go),
    [.readDataUart, .base nullFrame], .replicate 12 (.base []), [.tick 250000, .readDataUart],
    .replicate 14 (.base []), [worker {}, worker {}, worker { send := .sent 6 }, worker {}, worker {}]]

theorem run_samplePush :
    ((run (step fun _ => WholeFrames.sampleConstants) sampleStation samplePush).map fun s =>
      ((s.client .kPushRtk2go).out.links 0).wire) = some nullFrame := by decide +kernel

theorem push_delivery_sample :
    ∃ s, run (step fun _ => WholeFrames.sampleConstants) sampleStation samplePush = some s ∧
      ((s.client .kPushRtk2go).out.links 0).wire = nullFrame ∧
      let frames := heard freshParser ((s.client .kPushRtk2go).out.links 0).wire
      (∀ n, (ofNumber n frames).Sublist (ofNumber n s.published)) ∧
        (∀ f ∈ frames, ValidFrame f ∧ f ∈ s.published) ∧
        ∃ cut, ((s.client .kPushRtk2go).out.links 0).wire = frames.flatten ++ cut ∧ CutShort cut := by
  obtain ⟨s, hs, hwire⟩ := Option.map_eq_some_iff.mp run_samplePush
  exact ⟨s, hs, hwire,
    push_delivery started_sampleStation ⟨samplePush, hs⟩ .kPushRtk2go 0 freshParser⟩

end GpsBase.Flow.PushDelivery
