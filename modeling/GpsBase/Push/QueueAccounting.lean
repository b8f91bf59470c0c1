import GpsBase.Push.PushWire
import GpsBase.Push.WholeFrames

/-! # What becomes of a packet

The machine of the push client with a record of the pushes that returned true and of the packets that the
worker received, that `push` evicted and that a reset discarded. Every push that returns true puts its
packet in the queue once, and each packet is in one of these places or still queued (`Inv`). The count of
dropped packets is that of the evictions while `push` finds a packet to evict (`Evicts`, `accounted`): it
counts before it has looked whether a reset was faster (`dropped_without_eviction`). -/

namespace GpsBase.Push.QueueAccounting

open GpsBase.Lib.Wire GpsBase.Lib.Machine GpsBase.Push.SendLoop GpsBase.Push.NtripPush
open GpsBase.Push.PushWire (acceptedData Started)
open GpsBase.Push.WholeFrames (connectInputs pushInputs sampleConstants sampleClient)

/-! ### The record -/

/-- The packets received, evicted and discarded, and the data of the pushes that returned true. -/
structure Record where
  received : List (Packet UInt8) := []
  evicted : List (Packet UInt8) := []
  discarded : List (Packet UInt8) := []
  taken : List (List UInt8) := []

/-- The data of a call of `push`. -/
def dataOf : PushPc → List UInt8
  | .checkSuspended data | .checkConnected data | .send data | .evict data | .resend data => data
  | .idle | .returned _ => []

/-- What a step of the worker adds: `xQueueReceive` and `xQueueReset`. -/
def Record.noteWork (r : Record) (s : Client) : Record :=
  match s.pc with
  | .receive => { r with received := r.received ++ s.out.queue.take 1 }
  | .suspendedReset | .reconnectReset => { r with discarded := r.discarded ++ s.out.queue }
  | _ => r

/-- What a step adds to the record; `push` adds the packet it receives, and its return. -/
def Record.note (r : Record) (s s' : Client) : Input → Record
  | .work _ => r.noteWork s
  | .produce =>
    let evicted := match s.producer with
      | .evict _ => r.evicted ++ s.out.queue.take 1
      | _ => r.evicted
    let taken := if s'.producer = .returned true then r.taken ++ [dataOf s.producer] else r.taken
    { r with evicted := evicted, taken := taken }
  | _ => r

structure World where
  client : Client
  record : Record

def step (k : Constants) (w : World) (i : Input) : Option World :=
  (NtripPush.step k w.client i).map fun s' => ⟨s', w.record.note w.client s' i⟩

def packets (o : Outbox) : List (Packet UInt8) := o.accepted.mapIdx fun i a => ⟨i, a.data⟩

/-- **The packets are accounted for.** -/
structure Accounted (w : World) : Prop where
  pushes : w.record.taken = acceptedData w.client.out
  distinct : (packets w.client.out).Nodup
  fates : (w.record.received ++ w.record.evicted ++ w.record.discarded ++ w.client.out.queue).Perm
    (packets w.client.out)
  order : w.record.received.Sublist (packets w.client.out)
  dropped : w.client.droppedBatches = w.record.evicted.length

/-- **The condition**: `push` finds a packet where it evicts one. -/
def Evicts (w : World) : Input → Prop
  | .produce => (∃ data, w.client.producer = .evict data) → w.client.out.queue ≠ []
  | _ => True

/-! ### Steps -/

theorem queue_onLink (o : Outbox) (f : Link UInt8 → Link UInt8) :
    (o.onLink f).queue = o.queue ∧ (o.onLink f).accepted = o.accepted := by
  unfold Outbox.onLink
  split
  · exact ⟨rfl, rfl⟩
  · exact ⟨rfl, rfl⟩

theorem queue_closeSocket (o : Outbox) :
    o.closeSocket.queue = o.queue ∧ o.closeSocket.accepted = o.accepted := queue_onLink o Link.close

/-- The queue after a step of the worker. -/
def queueAfter (pc : Pc) (queue : List (Packet UInt8)) : List (Packet UInt8) :=
  match pc with
  | .receive => queue.tail
  | .suspendedReset | .reconnectReset => []
  | _ => queue

/-- What a step of the worker does to the queue, and leaves of `push`. -/
structure Worked (s s' : Client) : Prop where
  queue : s'.out.queue = queueAfter s.pc s.out.queue
  accepted : s'.out.accepted = s.out.accepted
  producer : s'.producer = s.producer
  dropped : s'.droppedBatches = s.droppedBatches

theorem worked {k : Constants} {s s' : Client} {e : Env} (h : s.work k e = some s') : Worked s s' := by
  rcases hpc : s.pc with _ | _ | en | _ | _ | _ | _ | _ | _ | _ | _ | _ | _ | _ | _ | ⟨m, w⟩ | call |
    _ | _ | _ | _ | _ | call | _ | _ | _ | _ | wake | _ | _
  all_goals simp only [Client.work, hpc] at h
  case handshake =>
    unfold Client.handshakeStep at h
    split at h
    · cases h
      exact ⟨by rw [hpc]; rfl, rfl, rfl, rfl⟩
    · cases h
      exact ⟨by rw [hpc]; rfl, rfl, rfl, rfl⟩
    · obtain ⟨next, -, rfl⟩ := Option.map_eq_some_iff.mp h
      exact ⟨by rw [hpc]; rfl, rfl, rfl, rfl⟩
  case sending =>
    unfold Client.sendingStep at h
    split at h
    · cases h
      obtain ⟨hq, ha⟩ := queue_onLink s.out Link.finish
      exact ⟨by rw [hpc]; exact hq, ha, rfl, rfl⟩
    · cases h
      obtain ⟨hq, ha⟩ := queue_onLink s.out Link.tear
      exact ⟨by rw [hpc]; exact hq, ha, rfl, rfl⟩
    · obtain ⟨next, -, rfl⟩ := Option.map_eq_some_iff.mp h
      obtain ⟨hq, ha⟩ := queue_onLink s.out (·.put (Client.sendAllChunk e call))
      exact ⟨by rw [hpc]; exact hq, ha, rfl, rfl⟩
  case receive =>
    split at h
    · cases h
      rename_i hq
      exact ⟨by rw [hpc, hq]; rfl, rfl, rfl, rfl⟩
    · cases h
      rename_i p rest hq
      obtain ⟨hqueue, ha⟩ := queue_onLink { s.out with queue := s.out.queue.tail, packet := p } (·.start p)
      exact ⟨by rw [hpc]; exact hqueue, ha, rfl, rfl⟩
  case suspendedClose | reconnectClose | finalClose | rejected | sendClose =>
    cases h
    obtain ⟨hq, ha⟩ := queue_closeSocket s.out
    exact ⟨by rw [hpc]; exact hq, ha, rfl, rfl⟩
  case exited => cases h
  case connectSocket | delayed | stagger =>
    split_ifs at h
    all_goals
      cases h
      exact ⟨by rw [hpc]; rfl, rfl, rfl, rfl⟩
  all_goals
    cases h
    exact ⟨by rw [hpc]; rfl, rfl, rfl, rfl⟩

theorem others_kept {k : Constants} {s s' : Client} {i : Input} (h : NtripPush.step k s i = some s')
    (hi : (∀ e, i ≠ .work e) ∧ i ≠ .produce) : s'.out = s.out ∧ s'.droppedBatches = s.droppedBatches ∧
      (s'.producer = s.producer ∨ ∀ data, s'.producer ≠ .resend data) := by
  rcases i with e | data | _ | b | ⟨en, m, w⟩ | _ | i | us
  case work => exact absurd rfl (hi.1 e)
  case produce => exact absurd rfl hi.2
  case push =>
    simp only [NtripPush.step, Client.push] at h
    split at h
    · cases h
      refine ⟨rfl, rfl, Or.inr fun d => ?_⟩
      dsimp only
      split_ifs
      · exact fun heq => by cases heq
      · exact fun heq => by cases heq
    · cases h
      refine ⟨rfl, rfl, Or.inr fun d => ?_⟩
      dsimp only
      split_ifs
      · exact fun heq => by cases heq
      · exact fun heq => by cases heq
    · cases h
  case call =>
    simp only [NtripPush.step, Client.callStep] at h
    split at h
    · rename_i w ws _
      cases h
      cases w
      all_goals exact ⟨rfl, rfl, Or.inl rfl⟩
    · cases h
  all_goals
    cases h
    exact ⟨rfl, rfl, Or.inl rfl⟩

/-! ### The invariant -/

/-- What every step keeps: all but the count, and room where `push` sends again. -/
structure Inv (w : World) : Prop where
  room : w.client.out.queue.length ≤ kQueueDepth
  resend : ∀ data, w.client.producer = .resend data → w.client.out.queue.length < kQueueDepth
  pushes : w.record.taken = acceptedData w.client.out
  order : (w.record.received ++ w.client.out.queue).Sublist (packets w.client.out)
  fates : (w.record.received ++ w.record.evicted ++ w.record.discarded ++ w.client.out.queue).Perm
    (packets w.client.out)

theorem packets_enqueue (o : Outbox) (data : List UInt8) :
    packets (o.enqueue data) = packets o ++ [⟨o.accepted.length, data⟩] :=
  List.mapIdx_concat

theorem Inv.enqueue {w : World} (h : Inv w) {s : Client} (data : List UInt8)
    (hroom : w.client.out.queue.length < kQueueDepth) (hout : s.out = w.client.out.enqueue data)
    (hproducer : s.producer = .returned true) :
    Inv ⟨s, { w.record with taken := w.record.taken ++ [data] }⟩ := by
  have hpackets : packets s.out = packets w.client.out ++ [⟨w.client.out.accepted.length, data⟩] := by
    rw [hout, packets_enqueue]
  have hqueue : s.out.queue = w.client.out.queue ++ [⟨w.client.out.accepted.length, data⟩] := by
    rw [hout]
    rfl
  refine ⟨?_, fun d hd => ?_, ?_, ?_, ?_⟩
  · show s.out.queue.length ≤ _
    rw [hqueue, List.length_append, List.length_singleton]
    exact hroom
  · have hd : s.producer = .resend d := hd
    rw [hproducer] at hd
    cases hd
  · show w.record.taken ++ [data] = acceptedData s.out
    rw [hout, h.pushes]
    unfold acceptedData Outbox.enqueue
    rw [List.map_append]
    rfl
  · show (w.record.received ++ s.out.queue).Sublist (packets s.out)
    rw [hpackets, hqueue, ← List.append_assoc]
    exact h.order.append (List.Sublist.refl _)
  · show (w.record.received ++ w.record.evicted ++ w.record.discarded ++ s.out.queue).Perm (packets s.out)
    rw [hpackets, hqueue, ← List.append_assoc]
    exact h.fates.append_right _

theorem accepted_congr {o o' : Outbox} (h : o.accepted = o'.accepted) :
    packets o = packets o' ∧ acceptedData o = acceptedData o' := by
  unfold packets acceptedData
  rw [h]
  exact ⟨rfl, rfl⟩

theorem Inv.same {w : World} (h : Inv w) {s : Client} (hqueue : s.out.queue = w.client.out.queue)
    (haccepted : s.out.accepted = w.client.out.accepted)
    (hproducer : ∀ data, s.producer = .resend data → w.client.out.queue.length < kQueueDepth) :
    Inv ⟨s, w.record⟩ := by
  obtain ⟨hpackets, hdata⟩ := accepted_congr haccepted
  refine ⟨?_, ?_, ?_, ?_, ?_⟩
  · show s.out.queue.length ≤ _
    rw [hqueue]
    exact h.room
  · intro data hresend
    show s.out.queue.length < _
    rw [hqueue]
    exact hproducer data hresend
  · exact h.pushes.trans hdata.symm
  · show (w.record.received ++ s.out.queue).Sublist (packets s.out)
    rw [hpackets, hqueue]
    exact h.order
  · show (w.record.received ++ w.record.evicted ++ w.record.discarded ++ s.out.queue).Perm (packets s.out)
    rw [hpackets, hqueue]
    exact h.fates

theorem Inv.receive {w : World} (h : Inv w) {s : Client} (hqueue : s.out.queue = w.client.out.queue.tail)
    (haccepted : s.out.accepted = w.client.out.accepted) (hproducer : s.producer = w.client.producer) :
    Inv ⟨s, { w.record with received := w.record.received ++ w.client.out.queue.take 1 }⟩ := by
  obtain ⟨hpackets, hdata⟩ := accepted_congr haccepted
  have hsplit : w.client.out.queue = w.client.out.queue.take 1 ++ s.out.queue := by
    rw [hqueue, ← List.drop_one, List.take_append_drop]
  have hlength : s.out.queue.length ≤ w.client.out.queue.length := by
    rw [hqueue, List.length_tail]
    omega
  refine ⟨hlength.trans h.room,
    fun d hd => lt_of_le_of_lt hlength (h.resend d (hproducer.symm.trans hd)), ?_, ?_, ?_⟩
  · exact h.pushes.trans hdata.symm
  · show (w.record.received ++ w.client.out.queue.take 1 ++ s.out.queue).Sublist (packets s.out)
    rw [hpackets, List.append_assoc, ← hsplit]
    exact h.order
  · show (w.record.received ++ w.client.out.queue.take 1 ++ w.record.evicted ++ w.record.discarded ++
      s.out.queue).Perm (packets s.out)
    rw [hpackets]
    refine List.Perm.trans ?_ h.fates
    rw [List.perm_iff_count]
    intro p
    have hcount := congrArg (List.count p) hsplit
    simp only [List.count_append] at hcount ⊢
    omega

theorem Inv.discard {w : World} (h : Inv w) {s : Client} (hqueue : s.out.queue = [])
    (haccepted : s.out.accepted = w.client.out.accepted) :
    Inv ⟨s, { w.record with discarded := w.record.discarded ++ w.client.out.queue }⟩ := by
  obtain ⟨hpackets, hdata⟩ := accepted_congr haccepted
  refine ⟨?_, fun d hd => ?_, ?_, ?_, ?_⟩
  · show s.out.queue.length ≤ _
    rw [hqueue]
    exact Nat.zero_le _
  · show s.out.queue.length < _
    rw [hqueue]
    decide
  · exact h.pushes.trans hdata.symm
  · show (w.record.received ++ s.out.queue).Sublist (packets s.out)
    rw [hpackets, hqueue, List.append_nil]
    exact (List.sublist_append_left _ _).trans h.order
  · show (w.record.received ++ w.record.evicted ++ (w.record.discarded ++ w.client.out.queue) ++
      s.out.queue).Perm (packets s.out)
    rw [hpackets, hqueue, List.append_nil, ← List.append_assoc]
    exact h.fates

theorem Inv.evict {w : World} (h : Inv w) {s : Client} (hqueue : s.out.queue = w.client.out.queue.tail)
    (haccepted : s.out.accepted = w.client.out.accepted) :
    Inv ⟨s, { w.record with evicted := w.record.evicted ++ w.client.out.queue.take 1 }⟩ := by
  obtain ⟨hpackets, hdata⟩ := accepted_congr haccepted
  have hsplit : w.client.out.queue = w.client.out.queue.take 1 ++ s.out.queue := by
    rw [hqueue, ← List.drop_one, List.take_append_drop]
  have hlength : s.out.queue.length < kQueueDepth := by
    have hroom := h.room
    rw [hqueue, List.length_tail]
    unfold kQueueDepth at hroom ⊢
    omega
  refine ⟨hlength.le, fun d hd => hlength, ?_, ?_, ?_⟩
  · exact h.pushes.trans hdata.symm
  · show (w.record.received ++ s.out.queue).Sublist (packets s.out)
    rw [hpackets, hqueue]
    exact ((List.Sublist.refl _).append (List.tail_sublist _)).trans h.order
  · show (w.record.received ++ (w.record.evicted ++ w.client.out.queue.take 1) ++ w.record.discarded ++
      s.out.queue).Perm (packets s.out)
    rw [hpackets]
    refine List.Perm.trans ?_ h.fates
    rw [List.perm_iff_count]
    intro p
    have hcount := congrArg (List.count p) hsplit
    simp only [List.count_append] at hcount ⊢
    omega

theorem Inv.work {k : Constants} {w : World} (h : Inv w) {s : Client} {e : Env}
    (hs : w.client.work k e = some s) : Inv ⟨s, w.record.noteWork w.client⟩ := by
  obtain ⟨hqueue, haccepted, hproducer, -⟩ := worked hs
  unfold Record.noteWork
  split
  · rename_i hpc
    exact h.receive (by rw [hqueue, hpc]; rfl) haccepted hproducer
  · rename_i hpc
    exact h.discard (by rw [hqueue, hpc]; rfl) haccepted
  · rename_i hpc
    exact h.discard (by rw [hqueue, hpc]; rfl) haccepted
  · rename_i hreceive hsuspended hreconnect
    refine h.same ?_ haccepted fun d hd => h.resend d (hproducer.symm.trans hd)
    rw [hqueue]
    unfold queueAfter
    split
    · exact absurd ‹_› hreceive
    · exact absurd ‹_› hsuspended
    · exact absurd ‹_› hreconnect
    · rfl

theorem Inv.produce {w : World} (h : Inv w) {s : Client} (hs : w.client.produce = some s) :
    Inv ⟨s, w.record.note w.client s .produce⟩ := by
  unfold Client.produce at hs
  unfold Record.note
  rcases hp : w.client.producer with _ | data | data | data | data | data | ok
  all_goals
    rw [hp] at hs
    dsimp only at hs ⊢
  · cases hs
  · cases hs
    have hno : ¬ (if w.client.suspended = true then PushPc.returned false else .checkConnected data) =
        .returned true := by
      split_ifs
      · exact fun heq => by cases heq
      · exact fun heq => by cases heq
    rw [if_neg hno]
    refine h.same rfl rfl fun d hd => ?_
    dsimp only at hd
    split_ifs at hd
  · cases hs
    have hno : ¬ (if w.client.connected = true then PushPc.send data else .returned false) =
        .returned true := by
      split_ifs
      · exact fun heq => by cases heq
      · exact fun heq => by cases heq
    rw [if_neg hno]
    refine h.same rfl rfl fun d hd => ?_
    dsimp only at hd
    split_ifs at hd
  · split_ifs at hs with hroom
    · cases hs
      exact h.enqueue data hroom rfl rfl
    · cases hs
      exact h.same rfl rfl fun d hd => by cases hd
  · cases hs
    exact h.evict rfl rfl
  · -- one packet is gone, and no other task sends
    have hroom := h.resend data hp
    rw [if_pos hroom] at hs
    cases hs
    exact h.enqueue data hroom rfl rfl
  · cases hs

/-- Who acts: the worker, `push`, or another caller. -/
theorem input_cases (i : Input) : (∃ e, i = .work e) ∨ i = .produce ∨ (∀ e, i ≠ .work e) ∧ i ≠ .produce := by
  by_cases hwork : ∃ e, i = .work e
  · exact Or.inl hwork
  · by_cases hproduce : i = .produce
    · exact Or.inr (Or.inl hproduce)
    · exact Or.inr (Or.inr ⟨fun e he => hwork ⟨e, he⟩, hproduce⟩)

theorem note_others (r : Record) (s s' : Client) {i : Input} (hi : (∀ e, i ≠ .work e) ∧ i ≠ .produce) :
    r.note s s' i = r := by
  unfold Record.note
  split
  · exact absurd rfl (hi.1 _)
  · exact absurd rfl hi.2
  · rfl

theorem inv_step {k : Constants} {w w' : World} {i : Input} (h : Inv w) (hw : step k w i = some w') :
    Inv w' := by
  obtain ⟨s, hs, rfl⟩ := Option.map_eq_some_iff.mp hw
  rcases input_cases i with ⟨e, rfl⟩ | rfl | hi
  · exact h.work hs
  · exact h.produce hs
  · obtain ⟨hout, -, hproducer⟩ := others_kept hs hi
    rw [note_others _ _ _ hi]
    refine h.same (by rw [hout]) (by rw [hout]) fun d hd => ?_
    rcases hproducer with hsame | hno
    · exact h.resend d (hsame.symm.trans hd)
    · exact absurd hd (hno d)

/-! ### The count -/

/-- **The count is kept** where `push` finds a packet to evict. -/
theorem dropped_step {k : Constants} {w w' : World} {i : Input} (hevicts : Evicts w i)
    (h : w.client.droppedBatches = w.record.evicted.length) (hw : step k w i = some w') :
    w'.client.droppedBatches = w'.record.evicted.length := by
  obtain ⟨s, hs, rfl⟩ := Option.map_eq_some_iff.mp hw
  rcases input_cases i with ⟨e, rfl⟩ | rfl | hi
  · have hnote : (w.record.note w.client s (.work e)).evicted = w.record.evicted := by
      show (w.record.noteWork w.client).evicted = _
      unfold Record.noteWork
      split
      all_goals rfl
    rw [hnote]
    exact (worked hs).dropped.trans h
  · have hs : w.client.produce = some s := hs
    unfold Client.produce at hs
    unfold Record.note
    rcases hp : w.client.producer with _ | data | data | data | data | data | ok
    all_goals
      rw [hp] at hs
      dsimp only at hs ⊢
    · cases hs
    · cases hs
      exact h
    · cases hs
      exact h
    · split_ifs at hs
      · cases hs
        exact h
      · cases hs
        exact h
    · cases hs
      have hne := hevicts ⟨data, hp⟩
      have hone : (w.client.out.queue.take 1).length = 1 := by
        rw [List.length_take]
        exact Nat.min_eq_left (List.length_pos_iff.mpr hne)
      rw [List.length_append, hone, ← h]
    · split_ifs at hs
      · cases hs
        exact h
      · cases hs
        exact h
    · cases hs
  · obtain ⟨-, hdropped, -⟩ := others_kept hs hi
    rw [note_others _ _ _ hi]
    exact hdropped.trans h

theorem nodup_packets (o : Outbox) : (packets o).Nodup := by
  have hnumbers : (packets o).map (fun p => p.number) = List.range o.accepted.length := by
    refine List.ext_getElem (by simp [packets]) fun i h1 h2 => ?_
    simp [packets]
  refine List.Nodup.of_map (fun p => p.number) ?_
  rw [hnumbers]
  exact List.nodup_range

/-- **The queue is accounted for**, in every run in which `push` finds a packet where it evicts one. -/
theorem accounted (k : Constants) {s₀ : Client} (hstart : Started s₀) {is : List Input} {w : World}
    (hevicts : Along (step k) Evicts ⟨s₀, {}⟩ is) (hrun : run (step k) ⟨s₀, {}⟩ is = some w) :
    Accounted w := by
  obtain ⟨en, m, pw, b, r, t, rfl⟩ := hstart
  have hinit : Inv ⟨Client.start en m pw b r t, {}⟩ ∧
      (Client.start en m pw b r t).droppedBatches = ([] : List (Packet UInt8)).length :=
    ⟨⟨Nat.zero_le _, fun d hd => (by cases hd), rfl, List.Sublist.refl _, List.Perm.refl _⟩, rfl⟩
  obtain ⟨hinv, hdropped⟩ := run_invariant_along
    (I := fun w => Inv w ∧ w.client.droppedBatches = w.record.evicted.length)
    (fun _ _ _ h hC hw => ⟨inv_step h.1 hw, dropped_step hC h.2 hw⟩) is hinit hevicts hrun
  exact ⟨hinv.pushes, nodup_packets _, hinv.fates, (List.sublist_append_left _ _).trans hinv.order, hdropped⟩

/-! ### Runs -/

/-- Nine packets for a worker that waits: the first is evicted. -/
def nine : List Input :=
  List.flatten [connectInputs sampleConstants [77] [112],
    (List.range 8).flatMap fun n => pushInputs [UInt8.ofNat n],
    [.push [8], .produce, .produce, .produce, .produce, .produce]]

/-- `Evicts`, computed. -/
def evicts (w : World) : Input → Bool
  | .produce => match w.client.producer with
    | .evict _ => !w.client.out.queue.isEmpty
    | _ => true
  | _ => true

theorem evicts_iff (w : World) (i : Input) : evicts w i = true → Evicts w i := by
  cases i with
  | produce =>
    rintro h ⟨data, hp⟩ hnil
    simp [evicts, hp, hnil] at h
  | _ => exact fun _ => trivial

theorem accounted_nine : ∃ w, run (step sampleConstants) ⟨sampleClient, {}⟩ nine = some w ∧
    w.client.droppedBatches = 1 ∧ Accounted w := by
  have hdropped : (run (step sampleConstants) ⟨sampleClient, {}⟩ nine).map
      (fun w => w.client.droppedBatches) = some 1 := by decide +kernel
  obtain ⟨w, hw, hone⟩ := Option.map_eq_some_iff.mp hdropped
  exact ⟨w, hw, hone, accounted sampleConstants ⟨true, [77], [112], false, 0, 0, rfl⟩
    (along_of_check evicts_iff nine _ (by decide +kernel)) hw⟩

/-- The ninth push finds the queue full. Before it evicts, the worker sends a packet and resets the queue,
for the client is configured anew. -/
def resetInBetween : List Input :=
  List.flatten [connectInputs sampleConstants [77] [112],
    (List.range 8).flatMap fun n => pushInputs [UInt8.ofNat n],
    [.push [8], .produce, .produce, .produce, .configure true [77] [112], .call 0, .work {}, .work {},
      .work { send := .sent 1 }], .replicate 9 (.work {}), [.produce, .produce]]

/-- **A packet counts as dropped, and none was evicted.** -/
theorem dropped_without_eviction : ∃ w,
    run (step sampleConstants) ⟨sampleClient, {}⟩ resetInBetween = some w ∧
      w.client.droppedBatches = 1 ∧ w.record.evicted.length = 0 := by
  have hcounts : (run (step sampleConstants) ⟨sampleClient, {}⟩ resetInBetween).map
      (fun w => (w.client.droppedBatches, w.record.evicted.length)) = some (1, 0) := by decide +kernel
  obtain ⟨w, hw, heq⟩ := Option.map_eq_some_iff.mp hcounts
  exact ⟨w, hw, congrArg Prod.fst heq, congrArg Prod.snd heq⟩

end GpsBase.Push.QueueAccounting
