import GpsBase.Push.NtripPush

/-! # What the push client writes

`OutboxInv` is the invariant of the queue and of the links: queued packets are accepted ones in
order, every packet begun on a link is older than every packet queued, each link holds whole packets,
and every connection but the one on the socket is closed. `AtPc` says what the place in `run` adds:
inside a packet's `send_all` the link is at the call's offset, after a failed one it is torn until the
socket is closed, and everywhere else it is idle. Every step keeps both (`inv_step`) and leaves the
links on which sending is over as they are (`over_step`). -/

namespace GpsBase.Push.PushWire

open GpsBase.Lib.Wire GpsBase.Lib.Machine GpsBase.Push.SendLoop GpsBase.Push.NtripPush

/-! ### The invariant -/

def acceptedData (o : Outbox) : List (List UInt8) := o.accepted.map Accepted.data

/-- **The invariant of the outbox.** -/
structure OutboxInv (o : Outbox) : Prop extends
    Feeds (acceptedData o) o.queue o.links o.opened where
  socket_lt : ∀ c, o.socket = some c → c < o.opened
  closed : ∀ c, c < o.opened → o.socket ≠ some c → ∃ cut, (o.links c).phase = .closed cut

/-- The link of the socket is between two packets. -/
def Idle (o : Outbox) : Prop := ∀ c, o.socket = some c → (o.links c).phase = .idle

/-- What holds at a place in `run`. -/
def AtPc (o : Outbox) : Pc → Prop
  | .connecting | .readConfig | .connectSocket _ _ | .connectFailed => o.socket = none
  | .handshake call => (Idle o ∧ o.socket.isSome = true) ∧ Exact call
  | .readResponse | .establish | .receive => Idle o ∧ o.socket.isSome = true
  | .sending call => Exact call ∧ call.data = o.packet.data ∧
      ∃ c, o.socket = some c ∧ (o.links c).phase = .sending o.packet call.offset
  | .sendFailed | .sendClose => ∀ c, o.socket = some c → (o.links c).phase.over = true
  | _ => Idle o

/-- A call of `send_all` returned true exactly if it handed over its bytes. -/
def Exactly (r : SendCall) : Prop := r.ok = true ↔ r.handed = r.data

/-- **The invariant of the client.** -/
structure Inv (s : Client) : Prop where
  out : OutboxInv s.out
  pc : AtPc s.out s.pc
  calls : ∀ r ∈ s.returns, Exactly r

/-! ### Operations on the outbox -/

theorem inv_outbox_new : OutboxInv {} where
  toFeeds := Feeds.new
  socket_lt := by intro c hc; cases hc
  closed := by intro c hc; exact absurd hc (Nat.not_lt_zero c)

theorem OutboxInv.enqueue {o : Outbox} (ho : OutboxInv o) (data : List UInt8) :
    OutboxInv (o.enqueue data) := by
  have hdata : acceptedData (o.enqueue data) = acceptedData o ++ [data] := by
    simp [acceptedData, Outbox.enqueue]
  have hlength : (acceptedData o).length = o.accepted.length := List.length_map _
  have hfeeds := ho.toFeeds.enqueue data
  rw [hlength, ← hdata] at hfeeds
  exact ⟨hfeeds, ho.socket_lt, ho.closed⟩

theorem OutboxInv.drop {o : Outbox} (ho : OutboxInv o) {queue : List (Packet UInt8)}
    (hq : queue.Sublist o.queue) : OutboxInv { o with queue := queue } :=
  ⟨ho.toFeeds.drop hq, ho.socket_lt, ho.closed⟩

theorem OutboxInv.openSocket {o : Outbox} (ho : OutboxInv o) (hs : o.socket = none) :
    OutboxInv o.openSocket := by
  refine ⟨ho.toFeeds.openLink, ?_, fun c hc hne => ?_⟩
  · rintro c ⟨⟩
    exact Nat.lt_succ_self _
  · have hlt : c < o.opened := by
      refine lt_of_le_of_ne (Nat.le_of_lt_succ hc) ?_
      rintro rfl
      exact hne rfl
    exact ho.closed c hlt (by rw [hs]; exact Option.some_ne_none c ∘ Eq.symm)

theorem OutboxInv.establish {o : Outbox} (ho : OutboxInv o) : OutboxInv o.establish :=
  ⟨ho.toFeeds, ho.socket_lt, ho.closed⟩

theorem onLink_some {o : Outbox} {c : ℕ} (hc : o.socket = some c)
    (f : Link UInt8 → Link UInt8) :
    o.onLink f = { o with links := Function.update o.links c (f (o.links c)) } := by
  simp [Outbox.onLink, hc]

/-- An operation on the link of the socket that keeps it whole and begins nothing new. -/
theorem OutboxInv.onLink {o : Outbox} (ho : OutboxInv o) {c : ℕ} (hc : o.socket = some c)
    {f : Link UInt8 → Link UInt8} (hwhole : (f (o.links c)).Whole)
    (hbegun : ∀ p ∈ (f (o.links c)).begun, p ∈ (o.links c).begun) : OutboxInv (o.onLink f) := by
  rw [onLink_some hc]
  refine ⟨ho.toFeeds.update (ho.socket_lt c hc) hwhole fun p hp => Or.inl (hbegun p hp), ho.socket_lt,
    fun d hd hne => ?_⟩
  have hdc : d ≠ c := by
    rintro rfl
    exact hne hc
  simpa only [Function.update_of_ne hdc] using ho.closed d hd hne

theorem OutboxInv.closeSocket {o : Outbox} (ho : OutboxInv o)
    (h : ∀ c, o.socket = some c → ∀ p k, (o.links c).phase ≠ .sending p k) :
    OutboxInv o.closeSocket := by
  rcases hs : o.socket with _ | c
  · have hclose : o.closeSocket = { o with socket := none, up := false } := by
      simp [Outbox.closeSocket, Outbox.onLink, hs]
    rw [hclose]
    refine ⟨ho.toFeeds, ?_, fun c hc _ => ?_⟩
    · rintro c ⟨⟩
    · exact ho.closed c hc (by rw [hs]; exact Option.some_ne_none c ∘ Eq.symm)
  · have hlink := ho.onLink hs (f := Link.close) ((ho.whole c).close (h c hs)) fun p hp => hp
    refine ⟨hlink.toFeeds, ?_, fun d hd _ => ?_⟩
    · rintro d ⟨⟩
    · have hsocket : (o.onLink Link.close).socket = some c := by rw [onLink_some hs, hs]
      rcases eq_or_ne d c with rfl | hdc
      · refine ⟨(o.links d).phase.current, ?_⟩
        show ((o.onLink Link.close).links d).phase = _
        rw [onLink_some hs]
        simp [Link.close]
      · refine hlink.closed d hd ?_
        rw [hsocket]
        simpa using hdc.symm

/-- The worker takes the oldest packet and begins to send it. -/
theorem OutboxInv.receive {o : Outbox} (ho : OutboxInv o) {c : ℕ} (hc : o.socket = some c)
    (hidle : (o.links c).phase = .idle) {p : Packet UInt8} {rest : List (Packet UInt8)}
    (hq : o.queue = p :: rest) : OutboxInv (o.receive p) := by
  have hp : p ∈ o.queue := by rw [hq]; exact List.mem_cons_self
  have hgrow := ho.growing
  rw [hq, Link.Growing, List.map_cons, List.pairwise_cons] at hgrow
  have hnew : IsAccepted (acceptedData o) p ∧ ∀ r ∈ o.queue.tail, p.number < r.number := by
    refine ⟨ho.queued p hp, fun r hr => ?_⟩
    rw [hq, List.tail_cons] at hr
    exact hgrow.1 r.number (List.mem_map_of_mem hr)
  rw [Outbox.receive, onLink_some (o := { o with queue := o.queue.tail, packet := p }) hc]
  refine ⟨?_, ho.socket_lt, fun d hd hne => ?_⟩
  · refine (ho.toFeeds.drop (List.tail_sublist _)).update (ho.socket_lt c hc)
      ((ho.whole c).start hidle fun q h => ho.older c q h p hp) fun q h => ?_
    rcases Link.mem_begun_start hidle h with h | rfl
    · exact Or.inl h
    · exact Or.inr hnew
  · have hdc : d ≠ c := by
      rintro rfl
      exact hne hc
    simpa only [Function.update_of_ne hdc] using ho.closed d hd hne

/-! ### Steps of the worker -/

theorem idle_closeSocket (o : Outbox) : Idle o.closeSocket := by
  rintro c ⟨⟩

/-- A link between two packets may be closed. -/
theorem not_sending_of_idle {o : Outbox} (h : Idle o) (c : ℕ) (hc : o.socket = some c)
    (p : Packet UInt8) (k : ℕ) : (o.links c).phase ≠ .sending p k := by
  rw [h c hc]
  rintro ⟨⟩

theorem not_sending_of_over {l : Link UInt8} (h : l.phase.over = true) (p : Packet UInt8) (k : ℕ) :
    l.phase ≠ .sending p k := by
  intro hp
  rw [hp] at h
  cases h

theorem exactly_returned {returns : List SendCall} (hr : ∀ r ∈ returns, Exactly r) {call : SendAll}
    (hcall : Exact call) {ok : Bool} (hp : call.point = .returned ok) :
    ∀ r ∈ returns ++ [⟨call.data, call.handed, ok⟩], Exactly r := by
  intro r hmem
  rcases List.mem_append.mp hmem with hmem | hmem
  · exact hr r hmem
  · rw [List.mem_singleton.mp hmem]
    exact hcall.ok_iff hp

theorem exact_sendAllStep {s : Client} {e : Env} {call next : SendAll} (hcall : Exact call)
    (h : s.sendAllStep e call = some next) : Exact next := by
  unfold Client.sendAllStep at h
  rcases hp : call.point with _ | _ | _ | ok <;> rw [hp] at h
  · cases h
    exact hcall.ntripHead _
  · exact hcall.onSend hp h
  · cases h
    exact hcall.ntripSelect hp _
  · cases h

theorem sendAllStep_data {s : Client} {e : Env} {call next : SendAll}
    (h : s.sendAllStep e call = some next) :
    next.data = call.data ∧ next.offset = call.offset + (Client.sendAllChunk e call).length ∧
      Client.sendAllChunk e call <+: call.data.drop call.offset := by
  unfold Client.sendAllStep at h
  unfold Client.sendAllChunk
  rcases hp : call.point with _ | _ | _ | ok <;> rw [hp] at h
  · cases h
    exact ⟨(loopHead_data _ _ _).1, (loopHead_data _ _ _).2, List.nil_prefix⟩
  · rw [if_pos rfl]
    exact onSend_data h
  · cases h
    exact ⟨(ntripSelect_data _ _).1, (ntripSelect_data _ _).2, List.nil_prefix⟩
  · cases h

theorem inv_handshakeStep {s s' : Client} {e : Env} {call : SendAll} (hs : Inv s)
    (hidle : Idle s.out ∧ s.out.socket.isSome = true) (hcall : Exact call)
    (h : s.handshakeStep e call = some s') : Inv s' := by
  unfold Client.handshakeStep at h
  split at h
  · cases h
    exact ⟨hs.out, hidle, exactly_returned hs.calls hcall ‹_›⟩
  · cases h
    exact ⟨hs.out, hidle.1, exactly_returned hs.calls hcall ‹_›⟩
  · obtain ⟨next, hnext, rfl⟩ := Option.map_eq_some_iff.mp h
    exact ⟨hs.out, ⟨hidle, exact_sendAllStep hcall hnext⟩, hs.calls⟩

/-- A step inside a packet's `send_all`: the link follows the call. -/
theorem inv_sendingStep {s s' : Client} {e : Env} {call : SendAll} (hs : Inv s)
    (hpc : AtPc s.out (.sending call)) (h : s.sendingStep e call = some s') : Inv s' := by
  obtain ⟨hcall, hdata, c, hc, hphase⟩ := hpc
  have hwhole := hs.out.whole c
  unfold Client.sendingStep at h
  split at h
  · rename_i hp
    cases h
    have hend := (hcall.returned true hp).mp rfl
    rw [hdata] at hend
    refine ⟨?_, ?_, exactly_returned hs.calls hcall hp⟩
    · exact hs.out.onLink hc (hwhole.finish hphase hend.ge) fun p => Link.mem_begun_finish
    · intro d hd
      simp only [onLink_some hc] at hd ⊢
      obtain rfl : c = d := Option.some.inj (hc.symm.trans hd)
      simp [Link.finish, hphase]
  · rename_i hp
    cases h
    have hlt : call.offset < s.out.packet.data.length := by
      rw [← hdata]
      refine lt_of_le_of_ne hcall.le_length fun heq => ?_
      exact Bool.false_ne_true ((hcall.returned false hp).mpr heq)
    refine ⟨?_, ?_, exactly_returned hs.calls hcall hp⟩
    · exact hs.out.onLink hc (hwhole.tear hphase hlt) fun p => Link.mem_begun_tear
    · intro d hd
      simp only [onLink_some hc] at hd ⊢
      obtain rfl : c = d := Option.some.inj (hc.symm.trans hd)
      simp [Link.tear, hphase, Phase.over]
  · obtain ⟨next, hnext, rfl⟩ := Option.map_eq_some_iff.mp h
    obtain ⟨hnd, hno, hchunk⟩ := sendAllStep_data hnext
    rw [hdata] at hchunk
    refine ⟨?_, ⟨exact_sendAllStep hcall hnext, ?_, c, ?_, ?_⟩, hs.calls⟩
    · exact hs.out.onLink hc (f := (·.put (Client.sendAllChunk e call)))
        (hwhole.put hphase hchunk) fun p => Link.mem_begun_put
    · rw [onLink_some hc, hnd, hdata]
    · rw [onLink_some hc, hc]
    · rw [onLink_some hc]
      simp [Link.put, hphase, hno]

theorem inv_receiveStep {s s' : Client} {k : Constants} {e : Env} (hs : Inv s)
    (hpc : s.pc = .receive) (h : s.work k e = some s') : Inv s' := by
  have hat := hs.pc
  rw [hpc] at hat
  obtain ⟨hidle, hsome⟩ := hat
  obtain ⟨c, hc⟩ := Option.isSome_iff_exists.mp hsome
  rcases hq : s.out.queue with _ | ⟨p, rest⟩
  · simp only [Client.work, hpc, hq] at h
    cases h
    exact ⟨hs.out, hidle, hs.calls⟩
  · simp only [Client.work, hpc, hq] at h
    cases h
    have hreceive : s.out.receive p = { s.out with
        queue := s.out.queue.tail, packet := p
        links := Function.update s.out.links c ((s.out.links c).start p) } :=
      onLink_some (o := { s.out with queue := s.out.queue.tail, packet := p }) hc _
    refine ⟨hs.out.receive hc (hidle c hc) hq, ⟨exact_new _, ?_, c, ?_, ?_⟩, hs.calls⟩
    · rw [hreceive]
    · rw [hreceive, hc]
    · rw [hreceive]
      simp [Link.start]

theorem inv_work {s s' : Client} {k : Constants} {e : Env} (hs : Inv s)
    (h : s.work k e = some s') : Inv s' := by
  have hat := hs.pc
  have hout := hs.out
  have hcalls := hs.calls
  rcases hpc : s.pc with _ | _ | en | _ | _ | _ | _ | _ | _ | _ | _ | _ | _ | _ | _ | ⟨m, w⟩ | call |
    _ | _ | _ | _ | _ | call | _ | _ | _ | _ | wake | _ | _
  case receive => exact inv_receiveStep hs hpc h
  all_goals
    rw [hpc] at hat
    simp only [Client.work, hpc] at h
  case handshake => exact inv_handshakeStep hs hat.1 hat.2 h
  case sending => exact inv_sendingStep hs hat h
  -- the socket is closed
  case suspendedClose | reconnectClose | finalClose =>
    cases h
    exact ⟨hout.closeSocket (not_sending_of_idle hat), idle_closeSocket _, hcalls⟩
  case rejected =>
    cases h
    exact ⟨hout.closeSocket (not_sending_of_idle hat), rfl, hcalls⟩
  case sendClose =>
    cases h
    exact ⟨hout.closeSocket fun c hc => not_sending_of_over (hat c hc), idle_closeSocket _, hcalls⟩
  -- the queue is emptied
  case suspendedReset | reconnectReset =>
    cases h
    exact ⟨hout.drop (List.nil_sublist _), hat, hcalls⟩
  -- a socket is opened
  case connectSocket =>
    split_ifs at h
    · cases h
      refine ⟨hout.openSocket hat, ⟨⟨?_, rfl⟩, exact_new _⟩, hcalls⟩
      rintro c ⟨⟩
      exact congrArg Link.phase (hout.unopened _ le_rfl)
    · cases h
      exact ⟨hout, hat, hcalls⟩
  case socketCheck =>
    cases h
    refine ⟨hout, ?_, hcalls⟩
    rcases hsock : s.out.socket with _ | c
    · exact hsock
    · exact ⟨hat, by rw [hsock]; rfl⟩
  case readResponse =>
    cases h
    refine ⟨hout, ?_, hcalls⟩
    split_ifs
    · exact hat
    · exact hat.1
  case establish =>
    cases h
    exact ⟨hout.establish, hat, hcalls⟩
  case connectFailed =>
    cases h
    have hnone : s.out.socket = none := hat
    exact ⟨hout, fun c hc => (by cases hnone.symm.trans hc), hcalls⟩
  -- only the place in the loop changes
  case exited => cases h
  case delayed | stagger =>
    split_ifs at h <;>
    · cases h
      exact ⟨hout, hat, hcalls⟩
  case top | checkSuspended | checkReconnect =>
    cases h
    refine ⟨hout, ?_, hcalls⟩
    split_ifs <;> exact hat
  all_goals
    cases h
    exact ⟨hout, hat, hcalls⟩

/-! ### The other steps -/

/-- `push` does not touch what the worker's place speaks of. -/
theorem atPc_congr {o o' : Outbox} (hsocket : o'.socket = o.socket) (hlinks : o'.links = o.links)
    (hpacket : o'.packet = o.packet) {pc : Pc} (h : AtPc o pc) : AtPc o' pc := by
  cases pc <;> simpa only [AtPc, Idle, hsocket, hlinks, hpacket] using h

theorem inv_produce {s s' : Client} (hs : Inv s) (h : s.produce = some s') : Inv s' := by
  unfold Client.produce at h
  have henqueue : ∀ data pc, Inv { s with out := s.out.enqueue data, producer := pc } :=
    fun data pc => ⟨hs.out.enqueue data, atPc_congr rfl rfl rfl hs.pc, hs.calls⟩
  have hsame : ∀ pc, Inv { s with producer := pc } := fun pc => ⟨hs.out, hs.pc, hs.calls⟩
  rcases hp : s.producer with _ | data | data | data | data | data | ok <;> rw [hp] at h
  · cases h
  · cases h
    exact hsame _
  · cases h
    exact hsame _
  · simp only at h
    split_ifs at h <;> cases h
    · exact henqueue data _
    · exact hsame _
  · cases h
    exact ⟨hs.out.drop (List.tail_sublist _), atPc_congr rfl rfl rfl hs.pc, hs.calls⟩
  · simp only at h
    split_ifs at h <;> cases h
    · exact henqueue data _
    · exact hsame _
  · cases h

theorem inv_step {k : Constants} {s s' : Client} {i : Input} (hs : Inv s)
    (h : step k s i = some s') : Inv s' := by
  rcases i with e | data | _ | b | ⟨en, m, w⟩ | _ | i | us
  case work => exact inv_work hs h
  case produce => exact inv_produce hs h
  case push =>
    simp only [step, Client.push] at h
    split at h <;> cases h <;> exact ⟨hs.out, hs.pc, hs.calls⟩
  case call =>
    simp only [step, Client.callStep] at h
    split at h
    · rename_i w ws _
      cases h
      cases w <;> exact ⟨hs.out, hs.pc, hs.calls⟩
    · cases h
  all_goals
    cases h
    exact ⟨hs.out, hs.pc, hs.calls⟩

/-! ### What a step does to the outbox -/

/-- **All that a step can do to the outbox**, with where the worker is when it does it. -/
inductive OutStep (s : Client) (i : Input) : Outbox → Prop
  | same : OutStep s i s.out
  | enqueue (data : List UInt8) : OutStep s i (s.out.enqueue data)
  | drop (queue : List (Packet UInt8)) (h : queue.Sublist s.out.queue) :
    OutStep s i { s.out with queue := queue }
  | close : OutStep s i s.out.closeSocket
  | opened (mountpoint password : List UInt8) (hpc : s.pc = .connectSocket mountpoint password) :
    OutStep s i s.out.openSocket
  | establish (e : Env) (hi : i = .work e) (hpc : s.pc = .establish) : OutStep s i s.out.establish
  | receive (p : Packet UInt8) (rest : List (Packet UInt8)) (hpc : s.pc = .receive)
    (hq : s.out.queue = p :: rest) : OutStep s i (s.out.receive p)
  | finish (call : SendAll) (hpc : s.pc = .sending call) : OutStep s i (s.out.onLink Link.finish)
  | tear (call : SendAll) (hpc : s.pc = .sending call) : OutStep s i (s.out.onLink Link.tear)
  | put (call : SendAll) (chunk : List UInt8) (hpc : s.pc = .sending call) :
    OutStep s i (s.out.onLink (·.put chunk))

theorem outStep_sending {s s' : Client} {i : Input} {e : Env} {call : SendAll} (hpc : s.pc = .sending call)
    (h : s.sendingStep e call = some s') : OutStep s i s'.out := by
  unfold Client.sendingStep at h
  split at h
  · cases h
    exact .finish call hpc
  · cases h
    exact .tear call hpc
  · obtain ⟨next, -, rfl⟩ := Option.map_eq_some_iff.mp h
    exact .put call _ hpc

theorem outStep_handshake {s s' : Client} {i : Input} {e : Env} {call : SendAll}
    (h : s.handshakeStep e call = some s') : OutStep s i s'.out := by
  unfold Client.handshakeStep at h
  split at h
  · cases h
    exact .same
  · cases h
    exact .same
  · obtain ⟨next, -, rfl⟩ := Option.map_eq_some_iff.mp h
    exact .same

theorem outStep_work {s s' : Client} {k : Constants} {e : Env} (h : s.work k e = some s') :
    OutStep s (.work e) s'.out := by
  rcases hpc : s.pc with _ | _ | en | _ | _ | _ | _ | _ | _ | _ | _ | _ | _ | _ | _ | ⟨m, w⟩ | call |
    _ | _ | _ | _ | _ | call | _ | _ | _ | _ | wake | _ | _
  all_goals simp only [Client.work, hpc] at h
  case handshake => exact outStep_handshake h
  case sending => exact outStep_sending hpc h
  case receive =>
    split at h <;> cases h
    · exact .same
    · exact .receive _ _ hpc ‹_›
  case suspendedClose | reconnectClose | finalClose | rejected | sendClose =>
    cases h
    exact .close
  case suspendedReset | reconnectReset =>
    cases h
    exact .drop [] (List.nil_sublist _)
  case connectSocket =>
    split_ifs at h <;> cases h
    · exact .opened m w hpc
    · exact .same
  case establish =>
    cases h
    exact .establish e rfl hpc
  case exited => cases h
  case delayed | stagger =>
    split_ifs at h <;>
    · cases h
      exact .same
  all_goals
    cases h
    exact .same

theorem outStep_produce {s s' : Client} {i : Input} (h : s.produce = some s') :
    OutStep s i s'.out := by
  unfold Client.produce at h
  rcases hp : s.producer with _ | data | data | data | data | data | ok <;> rw [hp] at h
  case evict =>
    cases h
    exact .drop _ (List.tail_sublist _)
  case send | resend =>
    simp only at h
    split_ifs at h <;> cases h
    · exact .enqueue data
    · exact .same
  all_goals
    cases h
  all_goals
    exact .same

/-- **The inversion of a step, as far as the outbox goes.** -/
theorem outStep_step {k : Constants} {s s' : Client} {i : Input} (h : step k s i = some s') :
    OutStep s i s'.out := by
  rcases i with e | data | _ | b | ⟨en, m, w⟩ | _ | i | us
  case work => exact outStep_work h
  case produce => exact outStep_produce h
  case push =>
    simp only [step, Client.push] at h
    split at h <;> cases h <;> exact .same
  case call =>
    simp only [step, Client.callStep] at h
    split at h
    · rename_i w ws _
      cases h
      cases w <;> exact .same
    · cases h
  all_goals
    cases h
    exact .same

/-! ### A link on which sending is over -/

theorem kept_onLink {o : Outbox} {c : ℕ} (hc : o.socket = some c)
    (hopen : (o.links c).phase.over = false) (f : Link UInt8 → Link UInt8) :
    Kept o.links (o.onLink f).links := by
  rw [onLink_some hc]
  exact kept_open hopen _

theorem kept_closeSocket (o : Outbox) : Kept o.links o.closeSocket.links := by
  have hlinks : o.closeSocket.links = (o.onLink Link.close).links := rfl
  rw [hlinks]
  rcases hs : o.socket with _ | c
  · rw [Outbox.onLink, hs]
    exact Kept.refl _
  · rw [onLink_some hs]
    exact kept_close o.links c

/-- **A step writes nothing where sending is over.** -/
theorem kept_step {k : Constants} {s s' : Client} {i : Input} (hs : Inv s)
    (h : step k s i = some s') : Kept s.out.links s'.out.links := by
  have hat := hs.pc
  have hsending : ∀ call, s.pc = .sending call → ∀ f,
      Kept s.out.links (s.out.onLink f).links := by
    intro call hpc f
    rw [hpc] at hat
    obtain ⟨-, -, c, hc, hphase⟩ := hat
    exact kept_onLink hc (by rw [hphase]; rfl) f
  have hout := outStep_step h
  generalize s'.out = o' at hout ⊢
  cases hout with
  | same => exact Kept.refl _
  | enqueue data => exact Kept.refl _
  | drop queue hq => exact Kept.refl _
  | close => exact kept_closeSocket _
  | opened m w hpc => exact Kept.refl _
  | establish e hi hpc => exact Kept.refl _
  | receive p rest hpc hq =>
    rw [hpc] at hat
    obtain ⟨c, hc⟩ := Option.isSome_iff_exists.mp hat.2
    exact kept_onLink (o := { s.out with queue := s.out.queue.tail, packet := p }) hc
      (by rw [hat.1 c hc]; rfl) _
  | finish call hpc => exact hsending call hpc _
  | tear call hpc => exact hsending call hpc _
  | put call chunk hpc => exact hsending call hpc _

/-! ### Runs -/

theorem inv_start (enabled : Bool) (mountpoint password : List UInt8) (suspended : Bool)
    (resumedUs now : ℤ) : Inv (Client.start enabled mountpoint password suspended resumedUs now) where
  out := inv_outbox_new
  pc := by rintro c ⟨⟩
  calls := by intro r hr; cases hr

/-- The state of the client after `start`, whatever the arguments. -/
def Started (s : Client) : Prop :=
  ∃ enabled mountpoint password suspended resumedUs now,
    s = Client.start enabled mountpoint password suspended resumedUs now

/-- **Every state the client reaches meets the invariant.** -/
theorem inv_reaches {k : Constants} {s₀ s : Client} (h₀ : Started s₀)
    (h : Reaches (step k) s₀ s) : Inv s := by
  obtain ⟨en, m, w, b, r, t, rfl⟩ := h₀
  exact h.invariant (I := Inv) (fun _ _ _ hs => inv_step hs) (inv_start en m w b r t)

/-- Nothing more is written where sending is over, in any continuation. -/
theorem kept_reaches {k : Constants} {s s' : Client} (hs : Inv s) (h : Reaches (step k) s s') :
    Kept s.out.links s'.out.links :=
  h.relation (I := Inv) (R := fun s s' => Kept s.out.links s'.out.links) (fun _ _ _ hs => inv_step hs)
    (fun s => Kept.refl s.out.links) (fun _ _ _ => Kept.trans) (fun _ _ _ hs => kept_step hs) hs

end GpsBase.Push.PushWire
