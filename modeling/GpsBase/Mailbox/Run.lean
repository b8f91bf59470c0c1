import GpsBase.Mailbox.Slots

/-! # Runs of the correction mailbox

A run is any list of calls of `publish_to_corrections` and `flush_destination_if_due` after
`reset_rtcm_state`. Beside the mailbox it records what the code does not keep: the frames published,
which of them each slot holds (its version, a position in that list), and every call of a
destination's `push` with its answer. `Inv` ties the slots and their sent bits to this record. A
publication and one turn of the flush loop keep it, hence so does every run. -/

namespace GpsBase.Mailbox.Run

open GpsBase.Mailbox.Slots

/-! ### The record -/

/-- A call of `publish_to_corrections`. -/
structure Publication where
  messageNumber : UInt16
  frame : Frame

/-- A call of a destination's `push` with the bytes of a slot, the version the slot held, and the
answer. -/
structure Handoff where
  dest : PushDestination
  version : ℕ
  data : List UInt8
  accepted : Bool

/-- The mailbox with the record of its run. `writer` is the version a used slot holds. -/
structure MailboxRun where
  box : Corrections
  published : List Publication
  writer : SlotIndex → ℕ
  handoffs : List Handoff

/-- A call. The answers of `push` are one for each slot, as a tick offers each at most once. -/
inductive Call
  | publish (messageNumber : UInt16) (frame : Frame) (now : ℤ)
  | flush (dest : PushDestination) (now : ℤ) (answers : SlotIndex → Bool)

namespace MailboxRun

/-- The run that starts with `reset_rtcm_state`. -/
def start (now : ℤ) : MailboxRun where
  box := resetRtcmState now
  published := []
  writer := fun _ => 0
  handoffs := []

/-- `publish_to_corrections`. -/
def publish (r : MailboxRun) (n : UInt16) (f : Frame) (now : ℤ) : MailboxRun where
  box := publishToCorrections r.box f n now
  published := r.published ++ [⟨n, f⟩]
  writer := match findSlot r.box.correctionSlots n with
    | none => r.writer
    | some i => Function.update r.writer i r.published.length
  handoffs := r.handoffs

/-- `push` as the flush loop sees it: an answer, and the call in the record. -/
def offer (writer : SlotIndex → ℕ) (dest : PushDestination) (answers : SlotIndex → Bool)
    (i : SlotIndex) (data : List UInt8) (handoffs : List Handoff) : Bool × List Handoff :=
  (answers i, handoffs ++ [⟨dest, writer i, data, answers i⟩])

/-- `flush_destination_if_due`. -/
def flush (r : MailboxRun) (d : PushDestination) (now : ℤ) (answers : SlotIndex → Bool) :
    MailboxRun :=
  let after := flushDestinationIfDue (offer r.writer d answers) d now r.box r.handoffs
  { r with box := after.1, handoffs := after.2 }

def step (r : MailboxRun) : Call → MailboxRun
  | .publish n f now => r.publish n f now
  | .flush d now answers => r.flush d now answers

/-- A run of calls from `reset_rtcm_state` at time `t₀`. -/
def after (t₀ : ℤ) (calls : List Call) : MailboxRun := calls.foldl step (start t₀)

abbrev slots (r : MailboxRun) : SlotIndex → CorrectionSlot := r.box.correctionSlots

def numberOf (r : MailboxRun) (version : ℕ) : Option UInt16 :=
  r.published[version]?.map Publication.messageNumber

/-- The distinct numbers published so far. -/
def numbers (r : MailboxRun) : Finset UInt16 :=
  (r.published.map Publication.messageNumber).toFinset

/-- `v` is the last version of its number, and it is `p`. -/
def IsNewest (r : MailboxRun) (v : ℕ) (p : Publication) : Prop :=
  r.published[v]? = some p ∧
    ∀ k q, v < k → r.published[k]? = some q → q.messageNumber ≠ p.messageNumber

end MailboxRun

open MailboxRun

/-! ### The invariant -/

/-- `h` then `h'` to one destination are in publication order. -/
def InOrder (r : MailboxRun) (h h' : Handoff) : Prop :=
  h.accepted → h'.accepted → h.dest = h'.dest → r.numberOf h.version = r.numberOf h'.version →
    h.version < h'.version

/-- `d` has accepted version `v`. -/
def Accepted (r : MailboxRun) (d : PushDestination) (v : ℕ) : Prop :=
  ∃ h ∈ r.handoffs, h.accepted = true ∧ h.dest = d ∧ h.version = v

/-- **The mailbox invariant.** -/
structure Inv (r : MailboxRun) : Prop where
  /-- one slot a number -/
  unique : ∀ i j, (r.slots i).used = true → (r.slots j).used = true →
    (r.slots i).messageNumber = (r.slots j).messageNumber → i = j
  /-- a used slot holds the newest frame of its number -/
  newest : ∀ i, (r.slots i).used = true → ∃ p, r.IsNewest (r.writer i) p ∧
    p.messageNumber = (r.slots i).messageNumber ∧ (r.slots i).frame = p.frame.bytes ∧
    (r.slots i).length = p.frame.bytes.length
  /-- every number published has a slot, unless there are too many -/
  complete : (∀ p ∈ r.published, ∃ i, (r.slots i).used = true ∧
    (r.slots i).messageNumber = p.messageNumber) ∨ kMaxCorrectionSlots < r.numbers.card
  /-- the bits are the acceptances of the version held -/
  sent : ∀ i d, (r.slots i).used = true →
    (HasBit (r.slots i).sentMask d ↔ Accepted r d (r.writer i))
  /-- an unused slot has no bit -/
  unsent : ∀ i d, (r.slots i).used = false → ¬ HasBit (r.slots i).sentMask d
  /-- what was handed over is the frame of the version -/
  handed : ∀ h ∈ r.handoffs, ∃ p, r.published[h.version]? = some p ∧ h.data = p.frame.bytes
  ordered : r.handoffs.Pairwise (InOrder r)

theorem inv_start (t₀ : ℤ) : Inv (start t₀) where
  unique := by intro i j hi; cases hi
  newest := by intro i hi; cases hi
  complete := Or.inl (by intro p hp; cases hp)
  sent := by intro i d hi; cases hi
  unsent := fun i d _ => not_hasBit_zero d
  handed := by intro h hh; cases hh
  ordered := List.Pairwise.nil

/-- A handoff of a number is no newer than the version its slot holds. -/
theorem Inv.version_le {r : MailboxRun} (hr : Inv r) {i : SlotIndex}
    (hi : (r.slots i).used = true) {h : Handoff} (hh : h ∈ r.handoffs)
    (hn : r.numberOf h.version = r.numberOf (r.writer i)) : h.version ≤ r.writer i := by
  obtain ⟨p, ⟨hp, hlast⟩, -⟩ := hr.newest i hi
  obtain ⟨q, hq, -⟩ := hr.handed h hh
  rw [numberOf, numberOf, hp, hq] at hn
  by_contra hlt
  exact hlast h.version q (not_le.mp hlt) hq (by simpa using hn)

/-! ### A publication -/

theorem published_append_some {l : List Publication} {p q : Publication} {k : ℕ}
    (h : (l ++ [p])[k]? = some q) : l[k]? = some q ∨ (k = l.length ∧ q = p) := by
  rcases lt_trichotomy k l.length with hk | rfl | hk
  · rw [List.getElem?_append_left hk] at h
    exact Or.inl h
  · rw [List.getElem?_concat_length] at h
    exact Or.inr ⟨rfl, (Option.some.inj h).symm⟩
  · rw [List.getElem?_eq_none (by simp; omega)] at h
    cases h

theorem getElem?_append_of_some {l : List Publication} {p q : Publication} {k : ℕ}
    (h : l[k]? = some q) : (l ++ [p])[k]? = some q := by
  rw [List.getElem?_append_left (List.getElem?_eq_some_iff.mp h).1, h]

theorem numberOf_publish {r : MailboxRun} {h : Handoff} (hr : Inv r) (hh : h ∈ r.handoffs)
    (n : UInt16) (f : Frame) (now : ℤ) :
    (r.publish n f now).numberOf h.version = r.numberOf h.version := by
  obtain ⟨p, hp, -⟩ := hr.handed h hh
  rw [numberOf, numberOf, hp]
  exact congrArg _ (getElem?_append_of_some hp)

theorem handoffs_publish {r : MailboxRun} (hr : Inv r) (n : UInt16) (f : Frame) (now : ℤ) :
    (∀ h ∈ r.handoffs, ∃ p, (r.publish n f now).published[h.version]? = some p ∧
      h.data = p.frame.bytes) ∧ r.handoffs.Pairwise (InOrder (r.publish n f now)) := by
  refine ⟨fun h hh => ?_, hr.ordered.imp_of_mem fun {a b} ha hb hab h1 h2 h3 h4 => ?_⟩
  · obtain ⟨p, hp, hd⟩ := hr.handed h hh
    exact ⟨p, getElem?_append_of_some hp, hd⟩
  · rw [numberOf_publish hr ha, numberOf_publish hr hb] at h4
    exact hab h1 h2 h3 h4

/-- No destination has accepted a version that is only now published. -/
theorem not_accepted_new {r : MailboxRun} (hr : Inv r) (d : PushDestination) :
    ¬ Accepted r d r.published.length := by
  rintro ⟨h, hh, -, -, hv⟩
  obtain ⟨p, hp, -⟩ := hr.handed h hh
  rw [hv, List.getElem?_eq_none le_rfl] at hp
  cases hp

theorem isNewest_publish {r : MailboxRun} {v : ℕ} {p : Publication} {n : UInt16}
    (h : r.IsNewest v p) (hn : n ≠ p.messageNumber) (f : Frame) (now : ℤ) :
    (r.publish n f now).IsNewest v p := by
  refine ⟨getElem?_append_of_some h.1, fun k q hk hq => ?_⟩
  rcases published_append_some hq with hq | ⟨-, rfl⟩
  · exact h.2 k q hk hq
  · exact hn

theorem isNewest_new (r : MailboxRun) (n : UInt16) (f : Frame) (now : ℤ) :
    (r.publish n f now).IsNewest r.published.length ⟨n, f⟩ := by
  refine ⟨List.getElem?_concat_length, fun k q hk hq => ?_⟩
  rw [publish, List.getElem?_eq_none (by simp; omega)] at hq
  cases hq

theorem numbers_publish (r : MailboxRun) (n : UInt16) (f : Frame) (now : ℤ) :
    (r.publish n f now).numbers = insert n r.numbers := by
  ext m
  simp [numbers, publish]

/-- When no slot is left, more numbers than slots have been published. -/
theorem numbers_card_of_full {r : MailboxRun} (hr : Inv r) {n : UInt16}
    (hf : findSlot r.slots n = none) : kMaxCorrectionSlots < (insert n r.numbers).card := by
  have hfull := findSlot_none hf
  have himage : Finset.univ.image (fun i => (r.slots i).messageNumber) ⊆ r.numbers := by
    intro m hm
    obtain ⟨i, -, rfl⟩ := Finset.mem_image.mp hm
    obtain ⟨p, hp, hn, -⟩ := hr.newest i (hfull i).1
    rw [numbers, List.mem_toFinset, ← hn]
    exact List.mem_map_of_mem (List.mem_of_getElem? hp.1)
  have hcard : (Finset.univ.image fun i => (r.slots i).messageNumber).card =
      kMaxCorrectionSlots := by
    rw [Finset.card_image_of_injective _ fun i j h => hr.unique i j (hfull i).1 (hfull j).1 h]
    exact Finset.card_fin _
  have hnew : n ∉ Finset.univ.image fun i => (r.slots i).messageNumber := by
    intro hm
    obtain ⟨i, -, hi⟩ := Finset.mem_image.mp hm
    exact (hfull i).2 hi
  calc kMaxCorrectionSlots
      < (insert n (Finset.univ.image fun i => (r.slots i).messageNumber)).card := by
        rw [Finset.card_insert_of_notMem hnew, hcard]
        exact Nat.lt_succ_self _
    _ ≤ (insert n r.numbers).card := Finset.card_le_card (Finset.insert_subset_insert _ himage)

/-- A frame that finds no slot leaves the slots as they are. -/
theorem inv_publish_full {r : MailboxRun} (hr : Inv r) {n : UInt16}
    (hf : findSlot r.slots n = none) (f : Frame) (now : ℤ) : Inv (r.publish n f now) := by
  have hslots : (r.publish n f now).slots = r.slots := by
    simp [publish, publishToCorrections, slots, hf]
  have hwriter : (r.publish n f now).writer = r.writer := by simp [publish, hf]
  obtain ⟨hhanded, hordered⟩ := handoffs_publish hr n f now
  refine ⟨?_, ?_, Or.inr ?_, ?_, ?_, hhanded, hordered⟩
  · rw [hslots]
    exact hr.unique
  · intro i hi
    rw [hslots] at hi ⊢
    obtain ⟨p, hp, hn, hd⟩ := hr.newest i hi
    refine ⟨p, ?_, hn, hd⟩
    rw [hwriter]
    exact isNewest_publish hp (by rw [hn]; exact ((findSlot_none hf i).2).symm) f now
  · rw [numbers_publish]
    exact numbers_card_of_full hr hf
  · rw [hslots, hwriter]
    exact hr.sent
  · rw [hslots]
    exact hr.unsent

/-- A frame that is written is the newest of its number in the one slot of that number. -/
theorem inv_publish_slot {r : MailboxRun} (hr : Inv r) {n : UInt16} {i : SlotIndex}
    (hf : findSlot r.slots n = some i) (f : Frame) (now : ℤ) : Inv (r.publish n f now) := by
  have hslots : (r.publish n f now).slots =
      Function.update r.slots i ((r.slots i).write f n now) := by
    simp [publish, publishToCorrections, slots, hf]
  have hwriter : (r.publish n f now).writer = Function.update r.writer i r.published.length := by
    simp [publish, hf]
  have hother : ∀ j, j ≠ i → (r.slots j).used = true → (r.slots j).messageNumber ≠ n := by
    intro j hj hu
    rcases findSlot_some hf with ⟨hi, hn⟩ | ⟨-, hn⟩
    · exact fun he => hj (hr.unique j i hu hi (he.trans hn.symm))
    · exact hn j hu
  obtain ⟨hhanded, hordered⟩ := handoffs_publish hr n f now
  refine ⟨fun j k hj hk hjk => ?_, fun j hj => ?_, ?_, fun j d hj => ?_, fun j d hj => ?_, hhanded,
    hordered⟩
  · rw [hslots] at hj hk hjk
    rcases eq_or_ne j i with rfl | hji <;> rcases eq_or_ne k j with rfl | hkj
    · rfl
    · rw [Function.update_self, Function.update_of_ne hkj] at hjk
      rw [Function.update_of_ne hkj] at hk
      exact absurd hjk.symm (hother k hkj hk)
    · rfl
    · rw [Function.update_of_ne hji] at hj hjk
      rcases eq_or_ne k i with rfl | hki
      · rw [Function.update_self] at hjk
        exact absurd hjk (hother j hji hj)
      · rw [Function.update_of_ne hki] at hk hjk
        exact hr.unique j k hj hk hjk
  · rw [hslots] at hj ⊢
    rw [hwriter]
    rcases eq_or_ne j i with rfl | hji
    · rw [Function.update_self, Function.update_self]
      exact ⟨⟨n, f⟩, isNewest_new r n f now, rfl, frame_write _ f n now, rfl⟩
    · rw [Function.update_of_ne hji] at hj ⊢
      rw [Function.update_of_ne hji]
      obtain ⟨p, hp, hn, hd⟩ := hr.newest j hj
      exact ⟨p, isNewest_publish hp (by rw [hn]; exact (hother j hji hj).symm) f now, hn, hd⟩
  · rw [numbers_publish]
    refine hr.complete.imp (fun hc p hp => ?_) fun hc =>
      lt_of_lt_of_le hc (Finset.card_le_card (Finset.subset_insert _ _))
    rw [hslots]
    rcases eq_or_ne p.messageNumber n with he | hne
    · exact ⟨i, by rw [Function.update_self]; exact ⟨rfl, he.symm⟩⟩
    · rcases List.mem_append.mp hp with hp | hp
      · obtain ⟨j, hj, hn⟩ := hc p hp
        have hji : j ≠ i := by
          rintro rfl
          rcases findSlot_some hf with ⟨-, h⟩ | ⟨h, -⟩
          · exact hne (hn.symm.trans h)
          · rw [hj] at h
            cases h
        exact ⟨j, by rw [Function.update_of_ne hji]; exact ⟨hj, hn⟩⟩
      · exact absurd (congrArg Publication.messageNumber (List.mem_singleton.mp hp)) hne
  · rw [hslots] at hj ⊢
    rw [hwriter]
    rcases eq_or_ne j i with rfl | hji
    · rw [Function.update_self, Function.update_self]
      exact iff_of_false (not_hasBit_zero d) (not_accepted_new hr d)
    · rw [Function.update_of_ne hji] at hj ⊢
      rw [Function.update_of_ne hji]
      exact hr.sent j d hj
  · rw [hslots] at hj ⊢
    rcases eq_or_ne j i with rfl | hji
    · rw [Function.update_self] at hj
      cases hj
    · rw [Function.update_of_ne hji] at hj ⊢
      exact hr.unsent j d hj

theorem inv_publish {r : MailboxRun} (hr : Inv r) (n : UInt16) (f : Frame) (now : ℤ) :
    Inv (r.publish n f now) := by
  rcases hf : findSlot r.slots n with _ | i
  · exact inv_publish_full hr hf f now
  · exact inv_publish_slot hr hf f now

/-! ### A flush -/

/-- The run with other slots and handoffs: where a turn of the flush loop has taken it. -/
def MailboxRun.withFlush (r : MailboxRun) (acc : (SlotIndex → CorrectionSlot) × List Handoff) :
    MailboxRun :=
  { r with box := { r.box with correctionSlots := acc.1 }, handoffs := acc.2 }

/-- A version whose bit is clear may be handed over next. -/
theorem ordered_offer {r : MailboxRun} (hr : Inv r) {i : SlotIndex} {d : PushDestination}
    (hi : (r.slots i).used = true) (hbit : ¬ HasBit (r.slots i).sentMask d) {h : Handoff}
    (hh : h ∈ r.handoffs) (data : List UInt8) (a : Bool) :
    InOrder r h ⟨d, r.writer i, data, a⟩ := by
  intro hacc _ hd hn
  refine lt_of_le_of_ne (hr.version_le hi hh hn) fun hv => hbit ?_
  exact (hr.sent i d hi).mpr ⟨h, hh, hacc, hd, hv⟩

theorem handoffs_offer {r : MailboxRun} (hr : Inv r) {i : SlotIndex} {d : PushDestination}
    (hi : (r.slots i).used = true) (hbit : ¬ HasBit (r.slots i).sentMask d) (a : Bool) :
    (∀ h ∈ r.handoffs ++ [(⟨d, r.writer i, (r.slots i).frame, a⟩ : Handoff)],
      ∃ p, r.published[h.version]? = some p ∧ h.data = p.frame.bytes) ∧
    (r.handoffs ++ [(⟨d, r.writer i, (r.slots i).frame, a⟩ : Handoff)]).Pairwise (InOrder r) := by
  refine ⟨fun h hh => ?_, List.pairwise_append.mpr
    ⟨hr.ordered, List.pairwise_singleton _ _, fun h hh h' hh' => ?_⟩⟩
  · rcases List.mem_append.mp hh with hh | hh
    · exact hr.handed h hh
    · obtain ⟨p, hp, -, hd, -⟩ := hr.newest i hi
      rw [List.mem_singleton.mp hh]
      exact ⟨p, hp.1, hd⟩
  · rw [List.mem_singleton.mp hh']
    exact ordered_offer hr hi hbit hh _ _

theorem inv_offer_refused {r : MailboxRun} (hr : Inv r) {i : SlotIndex} {d : PushDestination}
    (hi : (r.slots i).used = true) (hbit : ¬ HasBit (r.slots i).sentMask d) :
    Inv { r with handoffs := r.handoffs ++ [⟨d, r.writer i, (r.slots i).frame, false⟩] } := by
  obtain ⟨hhanded, hordered⟩ := handoffs_offer hr hi hbit false
  refine ⟨hr.unique, hr.newest, hr.complete, fun j d' hj => ?_, hr.unsent, hhanded, hordered⟩
  rw [hr.sent j d' hj]
  constructor
  · rintro ⟨h, hh, h1⟩
    exact ⟨h, List.mem_append_left _ hh, h1⟩
  · rintro ⟨h, hh, h1, h2⟩
    rcases List.mem_append.mp hh with hh | hh
    · exact ⟨h, hh, h1, h2⟩
    · rw [List.mem_singleton.mp hh] at h1
      cases h1

theorem update_markSent (slots : SlotIndex → CorrectionSlot) (i j : SlotIndex)
    (d : PushDestination) :
    ∃ mask, Function.update slots i ((slots i).markSent d) j = { slots j with sentMask := mask } ∧
      ∀ d', HasBit mask d' ↔ HasBit (slots j).sentMask d' ∨ (j = i ∧ d' = d) := by
  rcases eq_or_ne j i with rfl | hji
  · refine ⟨_, by rw [Function.update_self]; rfl, fun d' => ?_⟩
    rw [hasBit_or]
    simp
  · refine ⟨(slots j).sentMask, by rw [Function.update_of_ne hji], fun d' => ?_⟩
    simp [hji]

theorem inv_offer_taken {r : MailboxRun} (hr : Inv r) {i : SlotIndex} {d : PushDestination}
    (hi : (r.slots i).used = true) (hbit : ¬ HasBit (r.slots i).sentMask d) :
    Inv (r.withFlush (Function.update r.slots i ((r.slots i).markSent d),
      r.handoffs ++ [⟨d, r.writer i, (r.slots i).frame, true⟩])) := by
  obtain ⟨hhanded, hordered⟩ := handoffs_offer hr hi hbit true
  refine ⟨fun j k hj hk hjk => ?_, fun j hj => ?_, hr.complete.imp (fun hc q hq => ?_) id,
    fun j d' hj => ?_, fun j d' hj => ?_, hhanded, hordered⟩
  · obtain ⟨_, ej, -⟩ := update_markSent r.slots i j d
    obtain ⟨_, ek, -⟩ := update_markSent r.slots i k d
    simp only [withFlush, slots, ej, ek] at hj hk hjk
    exact hr.unique j k hj hk hjk
  · obtain ⟨_, ej, -⟩ := update_markSent r.slots i j d
    simp only [withFlush, slots, ej] at hj ⊢
    exact hr.newest j hj
  · obtain ⟨j, hj⟩ := hc q hq
    obtain ⟨_, ej, -⟩ := update_markSent r.slots i j d
    refine ⟨j, ?_⟩
    simp only [withFlush, slots, ej]
    exact hj
  · obtain ⟨mask, ej, hmask⟩ := update_markSent r.slots i j d
    simp only [withFlush, slots, ej] at hj ⊢
    rw [hmask, hr.sent j d' hj]
    constructor
    · rintro (⟨h, hh, h1⟩ | ⟨rfl, rfl⟩)
      · exact ⟨h, List.mem_append_left _ hh, h1⟩
      · exact ⟨_, List.mem_append_right _ (List.mem_singleton_self _), rfl, rfl, rfl⟩
    · rintro ⟨h, hh, h1, rfl, h3⟩
      rcases List.mem_append.mp hh with hh | hh
      · exact Or.inl ⟨h, hh, h1, rfl, h3⟩
      · -- the version just taken is held by the slot offered, and by no other
        rw [List.mem_singleton.mp hh] at h3 ⊢
        obtain ⟨q, hq, hqn, -⟩ := hr.newest j hj
        obtain ⟨p, hp, hpn, -⟩ := hr.newest i hi
        have hpq : p = q := by
          have hp' : r.published[r.writer j]? = some p := by rw [← h3]; exact hp.1
          exact Option.some.inj (hp'.symm.trans hq.1)
        exact Or.inr ⟨hr.unique j i hj hi (by rw [← hqn, ← hpn, hpq]), rfl⟩
  · obtain ⟨mask, ej, hmask⟩ := update_markSent r.slots i j d
    simp only [withFlush, slots, ej] at hj ⊢
    rw [hmask]
    rintro (h | ⟨rfl, -⟩)
    · exact hr.unsent j d' hj h
    · exact absurd (hi.symm.trans hj) (by decide)

theorem inv_flushSlot {r : MailboxRun} (hr : Inv r) (d : PushDestination)
    (answers : SlotIndex → Bool) (i : SlotIndex) :
    Inv (r.withFlush (flushSlot (offer r.writer d answers) d (r.slots, r.handoffs) i)) := by
  by_cases hskip : skips d (r.slots i) = true
  · rw [flushSlot, if_pos hskip]
    exact hr
  · obtain ⟨hi, -, hbit⟩ := skips_eq_false.mp (Bool.eq_false_of_not_eq_true hskip)
    rw [flushSlot, if_neg hskip]
    rcases ha : answers i
    · simp only [offer, ha]
      exact inv_offer_refused hr hi hbit
    · simp only [offer, ha]
      exact inv_offer_taken hr hi hbit

theorem inv_flushSlots (d : PushDestination) (answers : SlotIndex → Bool) :
    ∀ (is : List SlotIndex) {r : MailboxRun}, Inv r →
      Inv (r.withFlush (flushSlots (offer r.writer d answers) d is (r.slots, r.handoffs)))
  | [], _, hr => hr
  | i :: is, _, hr => inv_flushSlots d answers is (inv_flushSlot hr d answers i)

theorem inv_withTimes {r : MailboxRun} (hr : Inv r) (t : PushDestination → ℤ) :
    Inv { r with box := { r.box with pushNextFlushUs := t } } :=
  ⟨hr.unique, hr.newest, hr.complete, hr.sent, hr.unsent, hr.handed, hr.ordered⟩

theorem inv_flush {r : MailboxRun} (hr : Inv r) (d : PushDestination) (now : ℤ)
    (answers : SlotIndex → Bool) : Inv (r.flush d now answers) := by
  unfold flush flushDestinationIfDue
  split_ifs
  · exact hr
  · exact inv_withTimes (inv_flushSlots d answers _ hr) _

/-! ### Runs -/

theorem inv_step {r : MailboxRun} (hr : Inv r) : ∀ c, Inv (r.step c)
  | .publish n f now => inv_publish hr n f now
  | .flush d now answers => inv_flush hr d now answers

/-- **Every run keeps the invariant.** -/
theorem inv_after (t₀ : ℤ) (calls : List Call) : Inv (after t₀ calls) :=
  List.foldlRecOn calls step (inv_start t₀) fun _ hr c _ => inv_step hr c

/-- What the mailbox promises: one slot a message number, with the newest frame of it; a sent bit
exactly for the acceptance of the version held; each version accepted at most once by a destination,
and never after a newer one of its number. -/
structure MailboxSpec (r : MailboxRun) : Prop where
  oneSlot : ∀ i j, (r.slots i).used = true → (r.slots j).used = true →
    (r.slots i).messageNumber = (r.slots j).messageNumber → i = j
  newest : r.numbers.card ≤ kMaxCorrectionSlots → ∀ a p b, r.published = a ++ p :: b →
    (∀ q ∈ b, q.messageNumber ≠ p.messageNumber) →
    ∃ i, (r.slots i).used = true ∧ (r.slots i).messageNumber = p.messageNumber ∧
      r.writer i = a.length ∧ (r.slots i).length = p.frame.bytes.length ∧
      (r.slots i).frame = p.frame.bytes
  sentBit : ∀ i d, HasBit (r.slots i).sentMask d ↔ (r.slots i).used = true ∧
    ∃ h ∈ r.handoffs, h.accepted = true ∧ h.dest = d ∧ h.version = r.writer i ∧
      h.data = (r.slots i).frame
  acceptedOnce : ∀ d v,
    (r.handoffs.filter fun h => h.accepted && h.dest = d && h.version = v).length ≤ 1
  acceptedInOrder : (r.handoffs.filter Handoff.accepted).Pairwise fun h h' =>
    h.dest = h'.dest → r.numberOf h.version = r.numberOf h'.version → h.version < h'.version

theorem newest_of_inv {r : MailboxRun} (hr : Inv r)
    (hc : r.numbers.card ≤ kMaxCorrectionSlots) {a b : List Publication} {p : Publication}
    (hp : r.published = a ++ p :: b) (hlast : ∀ q ∈ b, q.messageNumber ≠ p.messageNumber) :
    ∃ i, (r.slots i).used = true ∧ (r.slots i).messageNumber = p.messageNumber ∧
      r.writer i = a.length ∧ (r.slots i).length = p.frame.bytes.length ∧
      (r.slots i).frame = p.frame.bytes := by
  obtain ⟨i, hi, hn⟩ := (hr.complete.resolve_right (not_lt.mpr hc)) p (by rw [hp]; simp)
  obtain ⟨q, hq, hqn, hframe, hlen⟩ := hr.newest i hi
  have hpa : r.published[a.length]? = some p := by rw [hp]; simp
  have hv : r.writer i = a.length := by
    rcases lt_trichotomy (r.writer i) a.length with hlt | heq | hgt
    · exact absurd (hn.symm.trans hqn.symm) (hq.2 _ p hlt hpa)
    · exact heq
    · have hqb := hq.1
      rw [hp, List.getElem?_append_right hgt.le,
        List.getElem?_cons, if_neg (by omega)] at hqb
      exact absurd (hqn.trans hn) (hlast q (List.mem_of_getElem? hqb))
  have hpq : p = q := by
    have := hq.1
    rw [hv, hpa] at this
    exact Option.some.inj this
  subst hpq
  exact ⟨i, hi, hn, hv, hlen, hframe⟩

/-- The bytes accepted with the version a slot holds are the slot's. -/
theorem data_of_inv {r : MailboxRun} (hr : Inv r) {i : SlotIndex}
    (hi : (r.slots i).used = true) {h : Handoff} (hh : h ∈ r.handoffs)
    (hv : h.version = r.writer i) : h.data = (r.slots i).frame := by
  obtain ⟨p, hp, -, hframe, -⟩ := hr.newest i hi
  obtain ⟨q, hq, hd⟩ := hr.handed h hh
  rw [hv, hp.1] at hq
  rw [hd, hframe, Option.some.inj hq]

theorem sentBit_of_inv {r : MailboxRun} (hr : Inv r) (i : SlotIndex) (d : PushDestination) :
    HasBit (r.slots i).sentMask d ↔ (r.slots i).used = true ∧
      ∃ h ∈ r.handoffs, h.accepted = true ∧ h.dest = d ∧ h.version = r.writer i ∧
        h.data = (r.slots i).frame := by
  rcases hi : (r.slots i).used
  · simpa using hr.unsent i d hi
  · rw [hr.sent i d hi]
    constructor
    · rintro ⟨h, hh, h1, h2, h3⟩
      exact ⟨rfl, h, hh, h1, h2, h3, data_of_inv hr hi hh h3⟩
    · rintro ⟨-, h, hh, h1, h2, h3, -⟩
      exact ⟨h, hh, h1, h2, h3⟩

theorem acceptedOnce_of_inv {r : MailboxRun} (hr : Inv r) (d : PushDestination) (v : ℕ) :
    (r.handoffs.filter fun h => h.accepted && h.dest = d && h.version = v).length ≤ 1 := by
  have hpair : (r.handoffs.filter fun h => h.accepted && h.dest = d && h.version = v).Pairwise
      fun _ _ => False := by
    rw [List.pairwise_filter]
    refine hr.ordered.imp fun {a b} hab ha hb => ?_
    simp only [Bool.and_eq_true, decide_eq_true_eq] at ha hb
    have := hab ha.1.1 hb.1.1 (ha.1.2.trans hb.1.2.symm) (by rw [ha.2, hb.2])
    omega
  revert hpair
  rcases r.handoffs.filter _ with _ | ⟨x, _ | ⟨y, l⟩⟩
  · exact fun _ => Nat.zero_le 1
  · exact fun _ => le_rfl
  · exact fun hpair => False.elim (List.rel_of_pairwise_cons hpair List.mem_cons_self)

/-- **The correction mailbox invariant over every run.** -/
theorem mailbox_run_spec (t₀ : ℤ) (calls : List Call) : MailboxSpec (after t₀ calls) where
  oneSlot := (inv_after t₀ calls).unique
  newest := fun hc _ _ _ hp hlast => newest_of_inv (inv_after t₀ calls) hc hp hlast
  sentBit := sentBit_of_inv (inv_after t₀ calls)
  acceptedOnce := acceptedOnce_of_inv (inv_after t₀ calls)
  acceptedInOrder := by
    rw [List.pairwise_filter]
    exact (inv_after t₀ calls).ordered.imp fun hab ha hb => hab ha hb

end GpsBase.Mailbox.Run
