import GpsBase.Push.WholeFrames

/-! # Packets that outlive their connection

The queue is not emptied when a send fails, so a packet accepted on one connection can be written on
the next (`stale_packet_transmitted`). Whether that happens is decided when a connection is
established: in a run in which the queue is empty at every such moment, each packet written on a
connection was accepted while that connection was up. -/

namespace GpsBase.Push.StalePackets

open GpsBase.Lib.Wire GpsBase.Lib.Machine GpsBase.Push.SendLoop GpsBase.Push.NtripPush
open GpsBase.Push.PushWire GpsBase.Push.WholeFrames
open GpsBase.Lib.CText (ascii)

/-- The packet was accepted while connection `c` was up. -/
def AcceptedOn (o : Outbox) (c : ℕ) (p : Packet UInt8) : Prop :=
  ∃ a, o.accepted[p.number]? = some a ∧ a.upOn = some c

/-- Every packet begun on a connection was accepted while it was up. -/
def NoStale (o : Outbox) : Prop := ∀ c, ∀ p ∈ (o.links c).begun, AcceptedOn o c p

/-- When the worker announces a connection, the queue is empty. -/
def EmptyOnEstablish (s : Client) : Input → Prop
  | .work _ => s.pc = .establish → s.out.queue = []
  | _ => True

/-! ### The connection that is up -/

/-- Whether the socket's connection has been announced, by the place in `run`. -/
def UpAt (o : Outbox) : Pc → Prop
  | .handshake _ | .readResponse | .rejected | .establish => o.up = false
  | _ => o.socket.isSome = true → o.up = true

/-- A connection that is up has a socket, and a socket outside the handshake is up. -/
structure UpInv (s : Client) : Prop where
  socket : s.out.up = true → s.out.socket.isSome = true
  at_pc : UpAt s.out s.pc

@[simp] theorem onLink_socket (o : Outbox) (f : Link UInt8 → Link UInt8) :
    (o.onLink f).socket = o.socket := by
  unfold Outbox.onLink
  split <;> rfl

@[simp] theorem onLink_up (o : Outbox) (f : Link UInt8 → Link UInt8) :
    (o.onLink f).up = o.up := by
  unfold Outbox.onLink
  split <;> rfl

@[simp] theorem onLink_queue (o : Outbox) (f : Link UInt8 → Link UInt8) :
    (o.onLink f).queue = o.queue := by
  unfold Outbox.onLink
  split <;> rfl

@[simp] theorem onLink_accepted (o : Outbox) (f : Link UInt8 → Link UInt8) :
    (o.onLink f).accepted = o.accepted := by
  unfold Outbox.onLink
  split <;> rfl

theorem upInv_handshake {s s' : Client} {e : Env} {call : SendAll} (hs : UpInv s)
    (hup : s.out.up = false) (h : s.handshakeStep e call = some s') : UpInv s' := by
  unfold Client.handshakeStep at h
  split at h
  · cases h
    exact ⟨hs.socket, hup⟩
  · cases h
    exact ⟨hs.socket, hup⟩
  · obtain ⟨next, -, rfl⟩ := Option.map_eq_some_iff.mp h
    exact ⟨hs.socket, hup⟩

theorem upInv_sending {s s' : Client} {e : Env} {call : SendAll} (hs : UpInv s)
    (hup : s.out.socket.isSome = true → s.out.up = true) (h : s.sendingStep e call = some s') :
    UpInv s' := by
  have hlink : ∀ f, ((s.out.onLink f).up = true → (s.out.onLink f).socket.isSome = true) ∧
      ((s.out.onLink f).socket.isSome = true → (s.out.onLink f).up = true) := by
    intro f
    rw [onLink_socket, onLink_up]
    exact ⟨hs.socket, hup⟩
  unfold Client.sendingStep at h
  split at h
  · cases h
    exact ⟨(hlink _).1, (hlink _).2⟩
  · cases h
    exact ⟨(hlink _).1, (hlink _).2⟩
  · obtain ⟨next, -, rfl⟩ := Option.map_eq_some_iff.mp h
    exact ⟨(hlink _).1, (hlink _).2⟩

theorem upInv_work {k : Constants} {s s' : Client} {e : Env} (hi : Inv s) (hs : UpInv s)
    (h : s.work k e = some s') : UpInv s' := by
  have hat := hi.pc
  have hup := hs.at_pc
  have hsock := hs.socket
  rcases hpc : s.pc with _ | _ | en | _ | _ | _ | _ | _ | _ | _ | _ | _ | _ | _ | _ | ⟨m, w⟩ | call |
    _ | _ | _ | _ | _ | call | _ | _ | _ | _ | wake | _ | _
  all_goals
    rw [hpc] at hat hup
    simp only [Client.work, hpc] at h
  case handshake => exact upInv_handshake hs hup h
  case sending => exact upInv_sending hs hup h
  case suspendedClose | reconnectClose | finalClose | rejected | sendClose =>
    cases h
    exact ⟨fun h => (by cases h), fun h => (by cases h)⟩
  case connectSocket =>
    split_ifs at h <;> cases h
    · have hnone : s.out.socket = none := hat
      refine ⟨fun _ => rfl, ?_⟩
      by_contra hne
      have := hsock (Bool.eq_true_of_not_eq_false hne)
      rw [hnone] at this
      cases this
    · exact ⟨hsock, hup⟩
  case establish =>
    cases h
    exact ⟨fun _ => hat.2, fun _ => rfl⟩
  case readResponse =>
    cases h
    refine ⟨hsock, ?_⟩
    dsimp only
    split_ifs <;> exact hup
  case receive =>
    split at h <;> cases h
    · exact ⟨hsock, hup⟩
    · refine ⟨fun h => ?_, fun h => ?_⟩
      · simp only [Outbox.receive, onLink_up, onLink_socket] at h ⊢
        exact hsock h
      · simp only [Outbox.receive, onLink_up, onLink_socket] at h ⊢
        exact hup h
  case delayed | stagger =>
    split_ifs at h <;>
    · cases h
      exact ⟨hsock, hup⟩
  case top | checkSuspended | checkReconnect | socketCheck =>
    cases h
    refine ⟨hsock, ?_⟩
    dsimp only
    split_ifs <;> exact hup
  case exited => cases h
  all_goals
    cases h
    exact ⟨hsock, hup⟩

theorem upInv_produce {s s' : Client} (hs : UpInv s) (h : s.produce = some s') : UpInv s' := by
  have hcongr : ∀ (o : Outbox), o.socket = s.out.socket → o.up = s.out.up →
      ∀ s'' : Client, s''.out = o → s''.pc = s.pc → UpInv s'' := by
    intro o hsock hup s'' hout hpc
    refine ⟨by rw [hout, hsock, hup]; exact hs.socket, ?_⟩
    have hat := hs.at_pc
    rw [hout, hpc]
    cases hc : s.pc <;> rw [hc] at hat <;> simpa only [UpAt, hsock, hup] using hat
  unfold Client.produce at h
  rcases hp : s.producer with _ | data | data | data | data | data | ok <;> rw [hp] at h
  case send | resend =>
    simp only at h
    split_ifs at h <;> cases h
    · exact hcongr (s.out.enqueue data) rfl rfl _ rfl rfl
    · exact hcongr s.out rfl rfl _ rfl rfl
  case evict =>
    cases h
    exact hcongr s.out.evict rfl rfl _ rfl rfl
  all_goals
    cases h
  all_goals
    exact hcongr s.out rfl rfl _ rfl rfl

theorem upInv_step {k : Constants} {s s' : Client} {i : Input} (hi : Inv s) (hs : UpInv s)
    (h : step k s i = some s') : UpInv s' := by
  rcases i with e | data | _ | b | ⟨en, m, w⟩ | _ | i | us
  case work => exact upInv_work hi hs h
  case produce => exact upInv_produce hs h
  case push =>
    simp only [step, Client.push] at h
    split at h <;> cases h <;> exact ⟨hs.socket, hs.at_pc⟩
  case call =>
    simp only [step, Client.callStep] at h
    split at h
    · rename_i w ws _
      cases h
      cases w <;> exact ⟨hs.socket, hs.at_pc⟩
    · cases h
  all_goals
    cases h
    exact ⟨hs.socket, hs.at_pc⟩

/-! ### What the condition keeps -/

/-- What is queued while a connection is up was accepted on it, and so was what is begun. -/
structure StampInv (o : Outbox) : Prop where
  queued : ∀ c, o.live = some c → ∀ p ∈ o.queue, AcceptedOn o c p
  begun : NoStale o

theorem AcceptedOn.enqueue {o : Outbox} {c : ℕ} {p : Packet UInt8} (h : AcceptedOn o c p)
    (data : List UInt8) : AcceptedOn (o.enqueue data) c p := by
  obtain ⟨a, ha, hc⟩ := h
  refine ⟨a, ?_, hc⟩
  rw [Outbox.enqueue, List.getElem?_append_left (List.getElem?_eq_some_iff.mp ha).1, ha]

theorem StampInv.enqueue {o : Outbox} (ho : StampInv o) (data : List UInt8) :
    StampInv (o.enqueue data) := by
  refine ⟨fun c hc p hp => ?_, fun c p hp => (ho.begun c p hp).enqueue data⟩
  have hlive : o.live = some c := hc
  rcases List.mem_append.mp hp with hp | hp
  · exact (ho.queued c hlive p hp).enqueue data
  · rw [List.mem_singleton.mp hp]
    exact ⟨⟨data, o.live⟩, List.getElem?_concat_length, hlive⟩

/-- An operation on the link of the socket that begins nothing new. -/
theorem StampInv.onLink {o : Outbox} (ho : StampInv o) {f : Link UInt8 → Link UInt8}
    (hf : ∀ l, ∀ p ∈ (f l).begun, p ∈ l.begun) : StampInv (o.onLink f) := by
  refine ⟨?_, fun c p hp => ?_⟩
  · unfold Outbox.live AcceptedOn
    rw [onLink_socket, onLink_up, onLink_queue, onLink_accepted]
    exact ho.queued
  · unfold AcceptedOn
    rw [onLink_accepted]
    refine ho.begun c p ?_
    unfold Outbox.onLink at hp
    split at hp
    · exact hp
    · rename_i d _
      rcases eq_or_ne c d with rfl | hne
      · simp only [Function.update_self] at hp
        exact hf _ p hp
      · simpa only [Function.update_of_ne hne] using hp

theorem StampInv.close {o : Outbox} (ho : StampInv o) : StampInv o.closeSocket :=
  ⟨fun c hc => (by cases hc), (ho.onLink (f := Link.close) fun _ _ hp => hp).begun⟩

theorem StampInv.receive {o : Outbox} (ho : StampInv o) {c : ℕ} (hc : o.socket = some c)
    (hup : o.up = true) (hidle : (o.links c).phase = .idle) {p : Packet UInt8}
    {rest : List (Packet UInt8)} (hq : o.queue = p :: rest) : StampInv (o.receive p) := by
  have hlive : o.live = some c := by rw [Outbox.live, if_pos hup, hc]
  have hreceive : o.receive p = { o with
      queue := o.queue.tail, packet := p
      links := Function.update o.links c ((o.links c).start p) } :=
    onLink_some (o := { o with queue := o.queue.tail, packet := p }) hc _
  rw [hreceive]
  refine ⟨fun d hd q h => ho.queued d hd q (List.mem_of_mem_tail h), fun d q h => ?_⟩
  rcases eq_or_ne d c with rfl | hdc
  · have hbegun : ((o.links d).start p).begun = (o.links d).begun ++ [p] := by
      simp [Link.begun, Link.start, hidle, Phase.current]
    simp only [Function.update_self, hbegun] at h
    rcases List.mem_append.mp h with h | h
    · exact ho.begun d q h
    · rw [List.mem_singleton.mp h]
      exact ho.queued d hlive p (by rw [hq]; exact List.mem_cons_self)
  · simp only [Function.update_of_ne hdc] at h
    exact ho.begun d q h

/-- **A step that meets the condition keeps the packets on their connections.** -/
theorem stampInv_step {k : Constants} {s s' : Client} {i : Input} (hi : Inv s) (hu : UpInv s)
    (ho : StampInv s.out) (hfresh : EmptyOnEstablish s i) (h : step k s i = some s') :
    StampInv s'.out := by
  have hat := hi.pc
  have hup := hu.at_pc
  have hout := outStep_step h
  generalize s'.out = o' at hout ⊢
  cases hout with
  | same => exact ho
  | enqueue data => exact ho.enqueue data
  | drop queue hq => exact ⟨fun c hc p hp => ho.queued c hc p (hq.subset hp), ho.begun⟩
  | close => exact ho.close
  | opened m w hpc =>
    -- a socket is only opened when there is none, so nothing is up
    rw [hpc] at hat
    have hnone : s.out.socket = none := hat
    have hdown : s.out.up = false := by
      by_contra hne
      have := hu.socket (Bool.eq_true_of_not_eq_false hne)
      rw [hnone] at this
      cases this
    refine ⟨fun c hc => ?_, ho.begun⟩
    simp [Outbox.live, Outbox.openSocket, hdown] at hc
  | establish e hwork hpc =>
    subst hwork
    refine ⟨fun c hc p hp => ?_, ho.begun⟩
    have hempty : s.out.queue = [] := hfresh hpc
    rw [Outbox.establish, hempty] at hp
    cases hp
  | receive p rest hpc hq =>
    rw [hpc] at hat hup
    obtain ⟨c, hc⟩ := Option.isSome_iff_exists.mp hat.2
    exact ho.receive hc (hup hat.2) (hat.1 c hc) hq
  | finish call hpc => exact ho.onLink fun _ _ => Link.mem_begun_finish
  | tear call hpc => exact ho.onLink fun _ _ => Link.mem_begun_tear
  | put call chunk hpc => exact ho.onLink (f := (·.put chunk)) fun _ _ => Link.mem_begun_put

/-! ### Runs -/

theorem upInv_start {s : Client} (h : Started s) : UpInv s := by
  obtain ⟨en, m, w, b, r, t, rfl⟩ := h
  exact ⟨fun h => (by cases h), fun h => (by cases h)⟩

theorem stampInv_start {s : Client} (h : Started s) : StampInv s.out := by
  obtain ⟨en, m, w, b, r, t, rfl⟩ := h
  exact ⟨fun c hc => (by cases hc), fun c p hp => (by cases hp)⟩

/-- **In a run in which every connection is established with an empty queue, what is written on a
connection was accepted while it was up.** -/
theorem noStale_of_empty_on_establish (k : Constants) (s₀ s : Client) (is : List Input)
    (h₀ : Started s₀) (hfresh : Along (step k) EmptyOnEstablish s₀ is)
    (hr : run (step k) s₀ is = some s) : NoStale s.out := by
  have hinit : Inv s₀ ∧ UpInv s₀ ∧ StampInv s₀.out := by
    refine ⟨?_, upInv_start h₀, stampInv_start h₀⟩
    obtain ⟨en, m, w, b, r, t, rfl⟩ := h₀
    exact inv_start en m w b r t
  have hend := run_invariant_along (I := fun s => Inv s ∧ UpInv s ∧ StampInv s.out)
    (fun t i t' ht hC hstep => ⟨inv_step ht.1 hstep, upInv_step ht.1 ht.2.1 hstep,
      stampInv_step ht.1 ht.2.1 ht.2.2 hC hstep⟩) is hinit hfresh hr
  exact hend.2.2.begun

/-- `EmptyOnEstablish`, computed. -/
def emptyOnEstablish (s : Client) : Input → Bool
  | .work _ => s.pc != .establish || s.out.queue.isEmpty
  | _ => true

theorem emptyOnEstablish_iff (s : Client) (i : Input) :
    emptyOnEstablish s i = true → EmptyOnEstablish s i := by
  cases i with
  | work e =>
    intro h hpc
    simpa [emptyOnEstablish, hpc] using h
  | _ => exact fun _ => trivial

/-- The sending of a packet fails, and the client connects again after its delay. -/
def reconnectInputs : List Input :=
  List.flatten [.replicate 2 (.work {}), [.work { send := .failed }], .replicate 4 (.work {}),
    [.tick 10000000], .replicate 11 (.work {}),
    [.work { send := .sent (request sampleConstants [77] [112]).length }, .work {}, .work {},
      .work { response := ascii "ICY 200 OK" }, .work {}]]

/-- A packet is lost with the first connection, and one is sent on the second. -/
def sendAgain : List Input :=
  List.flatten [connectInputs sampleConstants [77] [112], pushInputs [1, 2, 3], reconnectInputs,
    pushInputs [4, 5], [.work {}, .work {}, .work { send := .sent 2 }, .work {}, .work {}]]

theorem noStale_sendAgain :
    ∃ s, run (step sampleConstants) sampleClient sendAgain = some s ∧
      (s.out.links 0).wire = [] ∧ (s.out.links 1).wire = [4, 5] ∧ NoStale s.out :=
  ⟨_, rfl, rfl, rfl, noStale_of_empty_on_establish sampleConstants sampleClient _ sendAgain
    ⟨true, [77], [112], false, 0, 0, rfl⟩ (along_of_check emptyOnEstablish_iff _ _ rfl) rfl⟩

/-! ### The defect -/

/-- Two packets are accepted, the sending of the first fails, the client reconnects and sends the
second. -/
def staleRun : List Input :=
  List.flatten [connectInputs sampleConstants [77] [112], pushInputs [1, 2, 3], pushInputs [4, 5],
    reconnectInputs, [.work {}, .work {}, .work { send := .sent 2 }, .work {}, .work {}]]

/-- **A packet accepted on connection 0 is transmitted whole on connection 1.** -/
theorem stale_packet_transmitted :
    ¬ ∀ (k : Constants) (s₀ s : Client) (is : List Input), Started s₀ →
      run (step k) s₀ is = some s → NoStale s.out := by
  intro hall
  have hrun : ∃ s, run (step sampleConstants) sampleClient staleRun = some s ∧
      (s.out.links 1).wire = [4, 5] ∧ (s.out.links 1).begun = [⟨1, [4, 5]⟩] ∧
      s.out.accepted[1]? = some ⟨[4, 5], some 0⟩ :=
    ⟨_, rfl, rfl, rfl, rfl⟩
  obtain ⟨s, hr, -, hbegun, haccepted⟩ := hrun
  have hstale := hall sampleConstants sampleClient s staleRun ⟨true, [77], [112], false, 0, 0, rfl⟩ hr
  obtain ⟨a, ha, hup⟩ := hstale 1 ⟨1, [4, 5]⟩ (by rw [hbegun]; exact List.mem_singleton_self _)
  rw [haccepted] at ha
  cases ha
  cases hup

end GpsBase.Push.StalePackets
