import GpsBase.Push.PushWire
import GpsBase.Push.LocalCaster

/-! # What the local caster writes

The invariant of the local caster, in the manner of the push client: queued packets are accepted ones
in order, every packet begun on a link is older than every packet queued, each link holds whole
packets, and no client's link is over. During a broadcast the packet is older than every packet
queued, and newer than what was begun on the clients still to be served (`Pending`). -/

namespace GpsBase.Push.CasterWire

open GpsBase.Lib.Wire GpsBase.Lib.Machine GpsBase.Push.SendLoop GpsBase.Push.LocalCaster
open GpsBase.Push.PushWire (Exactly exactly_returned)

/-! ### The invariant -/

/-- **The invariant of the queue, the slots and the links.** -/
structure OutboxInv (o : Outbox) : Prop extends Feeds o.accepted o.queue o.links o.opened where
  held_lt : ∀ i c, o.clients i = some c → c < o.opened
  held_open : ∀ i c, o.clients i = some c → (o.links c).phase.over = false
  injective : ∀ i j c, o.clients i = some c → o.clients j = some c → i = j

/-- No packet is under way. -/
def Quiet (o : Outbox) : Prop := ∀ c p k, (o.links c).phase ≠ .sending p k

/-- The packet of the broadcast may be begun on the clients from slot `i` on. -/
structure Pending (o : Outbox) (i : ℕ) : Prop where
  accepted : IsAccepted o.accepted o.packet
  older : ∀ q ∈ o.queue, o.packet.number < q.number
  newer : ∀ j : Slot, i ≤ j → ∀ c, o.clients j = some c →
    ∀ p ∈ (o.links c).begun, p.number < o.packet.number

/-- A descriptor accepted and not yet in a slot. -/
structure Incoming (o : Outbox) (fd : ℕ) : Prop where
  lt : fd < o.opened
  free : ∀ i, o.clients i ≠ some fd
  idle : (o.links fd).phase = .idle

/-- What holds at a place in `run`. -/
def AtPc (o : Outbox) : Pc → Prop
  | .request fd _ _ => Quiet o ∧ Incoming o fd
  | .sendTable fd call => Quiet o ∧ Incoming o fd ∧ Exact call
  | .sendReply fd _ _ call => Quiet o ∧ Incoming o fd ∧ Exact call
  | .broadcast i => Quiet o ∧ Pending o i
  | .sending slot call => Pending o (slot + 1) ∧ Exact call ∧ call.data = o.packet.data ∧
      ∃ c, o.clients slot = some c ∧ (o.links c).phase = .sending o.packet call.offset ∧
        ∀ d, d ≠ c → ∀ p k, (o.links d).phase ≠ .sending p k
  | _ => Quiet o

/-- **The invariant of the local caster.** -/
structure Inv (s : Caster) : Prop where
  out : OutboxInv s.out
  pc : AtPc s.out s.pc
  calls : ∀ r ∈ s.returns, Exactly r

theorem inv_outbox_new : OutboxInv {} where
  toFeeds := Feeds.new
  held_lt := by intro i c hc; cases hc
  held_open := by intro i c hc; cases hc
  injective := by intro i j c hc; cases hc

/-- Between two packets a client's link is idle. -/
theorem Quiet.idle {o : Outbox} (hq : Quiet o) (ho : OutboxInv o) {i : Slot} {c : ℕ}
    (hc : o.clients i = some c) : (o.links c).phase = .idle := by
  have hover := ho.held_open i c hc
  rcases hp : (o.links c).phase with _ | ⟨p, k⟩ | ⟨p, k⟩ | cut
  · rfl
  · exact absurd hp (hq c p k)
  · rw [hp] at hover
    cases hover
  · rw [hp] at hover
    cases hover

/-! ### Operations on the outbox -/

theorem OutboxInv.enqueue {o : Outbox} (ho : OutboxInv o) (data : List UInt8) :
    OutboxInv (o.enqueue data) :=
  ⟨ho.toFeeds.enqueue data, ho.held_lt, ho.held_open, ho.injective⟩

theorem OutboxInv.drop {o : Outbox} (ho : OutboxInv o) {queue : List (Packet UInt8)}
    (hq : queue.Sublist o.queue) (p : Packet UInt8) :
    OutboxInv { o with queue := queue, packet := p } :=
  ⟨ho.toFeeds.drop hq, ho.held_lt, ho.held_open, ho.injective⟩

theorem OutboxInv.accept {o : Outbox} (ho : OutboxInv o) : OutboxInv o.accept :=
  ⟨ho.toFeeds.openLink, fun i c hc => Nat.lt_succ_of_lt (ho.held_lt i c hc), ho.held_open,
    ho.injective⟩

theorem incoming_accept {o : Outbox} (ho : OutboxInv o) : Incoming o.accept o.opened where
  lt := Nat.lt_succ_self _
  free i h := lt_irrefl _ (ho.held_lt i _ h)
  idle := congrArg Link.phase (ho.unopened _ le_rfl)

/-- An operation on a link that keeps it whole, begins nothing new, and does not end a client's. -/
theorem OutboxInv.onLink {o : Outbox} (ho : OutboxInv o) {c : ℕ} (hc : c < o.opened)
    {f : Link UInt8 → Link UInt8} (hwhole : (f (o.links c)).Whole)
    (hbegun : ∀ p ∈ (f (o.links c)).begun, p ∈ (o.links c).begun)
    (hopen : ∀ i, o.clients i = some c → (f (o.links c)).phase.over = false) :
    OutboxInv (o.onLink c f) := by
  refine ⟨ho.toFeeds.update hc hwhole fun p hp => Or.inl (hbegun p hp), ho.held_lt, fun i d hd => ?_,
    ho.injective⟩
  unfold Outbox.onLink
  rcases eq_or_ne d c with rfl | hdc
  · simpa only [Function.update_self] using hopen i hd
  · simpa only [Function.update_of_ne hdc] using ho.held_open i d hd

theorem OutboxInv.leave {o : Outbox} (ho : OutboxInv o) (slot : Slot) :
    OutboxInv (o.setClient slot none) := by
  have hheld : ∀ i c, (o.setClient slot none).clients i = some c → o.clients i = some c := by
    intro i c hi
    rcases eq_or_ne i slot with rfl | hne
    · simp only [Outbox.setClient, Function.update_self] at hi
      cases hi
    · simpa only [Outbox.setClient, Function.update_of_ne hne] using hi
  exact ⟨ho.toFeeds, fun i c hi => ho.held_lt i c (hheld i c hi),
    fun i c hi => ho.held_open i c (hheld i c hi),
    fun i j c hi hj => ho.injective i j c (hheld i c hi) (hheld j c hj)⟩

theorem OutboxInv.letIn {o : Outbox} (ho : OutboxInv o) {fd : ℕ} (hfd : Incoming o fd)
    (slot : Slot) : OutboxInv (o.setClient slot (some fd)) := by
  have hheld : ∀ i c, (o.setClient slot (some fd)).clients i = some c →
      (i = slot ∧ c = fd) ∨ (i ≠ slot ∧ o.clients i = some c) := by
    intro i c hi
    rcases eq_or_ne i slot with rfl | hne
    · simp only [Outbox.setClient, Function.update_self] at hi
      exact Or.inl ⟨rfl, (Option.some.inj hi).symm⟩
    · simp only [Outbox.setClient, Function.update_of_ne hne] at hi
      exact Or.inr ⟨hne, hi⟩
  refine ⟨ho.toFeeds, fun i c hi => ?_, fun i c hi => ?_, fun i j c hi hj => ?_⟩
  · rcases hheld i c hi with ⟨-, rfl⟩ | ⟨-, h⟩
    · exact hfd.lt
    · exact ho.held_lt i c h
  · rcases hheld i c hi with ⟨-, rfl⟩ | ⟨-, h⟩
    · show (o.links c).phase.over = false
      rw [hfd.idle]
      rfl
    · exact ho.held_open i c h
  · rcases hheld i c hi with ⟨rfl, rfl⟩ | ⟨-, h⟩ <;> rcases hheld j _ hj with ⟨rfl, h'⟩ | ⟨-, h'⟩
    · rfl
    · exact absurd h' (hfd.free j)
    · rw [h'] at h
      exact absurd h (hfd.free i)
    · exact ho.injective i j c h h'

theorem OutboxInv.close {o : Outbox} (ho : OutboxInv o) {c : ℕ} (hc : c < o.opened)
    (hfree : ∀ i, o.clients i ≠ some c) (hsend : ∀ p k, (o.links c).phase ≠ .sending p k) :
    OutboxInv (o.close c) := by
  have h := ho.onLink hc (f := Link.close) ((ho.whole c).close hsend) (fun _ hp => hp)
    fun i hi => absurd hi (hfree i)
  exact ⟨h.toFeeds, h.held_lt, h.held_open, h.injective⟩

theorem Quiet.close {o : Outbox} (hq : Quiet o) (c : ℕ) : Quiet (o.close c) := by
  intro d p k
  simp only [Outbox.close]
  rcases eq_or_ne d c with rfl | hdc
  · rw [Function.update_self]
    rintro ⟨⟩
  · rw [Function.update_of_ne hdc]
    exact hq d p k

theorem OutboxInv.closeClients {o : Outbox} (ho : OutboxInv o) (hq : Quiet o) :
    OutboxInv o.closeClients := by
  have hcases : ∀ c, o.closeClients.links c = (o.links c).close ∧ (∃ i, o.clients i = some c) ∨
      o.closeClients.links c = o.links c := by
    intro c
    by_cases h : o.Held c
    · exact Or.inl ⟨if_pos h, h⟩
    · exact Or.inr (if_neg h)
  refine ⟨ho.toFeeds.relink (fun c => ?_) (fun c p hp => Or.inl ?_) fun c hc => ?_, ?_, ?_, ?_⟩
  · rcases hcases c with ⟨h, -⟩ | h <;> rw [h]
    · exact (ho.whole c).close (hq c)
    · exact ho.whole c
  · rcases hcases c with ⟨h, -⟩ | h <;> rw [h] at hp <;> exact hp
  · rcases hcases c with ⟨-, i, hi⟩ | h
    · exact absurd (ho.held_lt i c hi) (not_lt.mpr hc)
    · exact h
  · intro i c hi
    cases hi
  · intro i c hi
    cases hi
  · intro i j c hi
    cases hi

theorem Quiet.closeClients {o : Outbox} (hq : Quiet o) : Quiet o.closeClients := by
  intro c p k
  simp only [Outbox.closeClients]
  split_ifs
  · rintro ⟨⟩
  · exact hq c p k

/-- A client begins a packet newer than what was begun on it. -/
theorem OutboxInv.start {o : Outbox} (ho : OutboxInv o) {i : Slot} {c : ℕ}
    (hc : o.clients i = some c) (hidle : (o.links c).phase = .idle) (hp : Pending o i) :
    OutboxInv (o.onLink c (·.start o.packet)) := by
  refine ⟨ho.toFeeds.update (ho.held_lt i c hc) ((ho.whole c).start hidle (hp.newer i le_rfl c hc))
    fun q hq => ?_, ho.held_lt, fun j d hd => ?_, ho.injective⟩
  · rcases Link.mem_begun_start hidle hq with hq | rfl
    · exact Or.inl hq
    · exact Or.inr ⟨hp.accepted, hp.older⟩
  · unfold Outbox.onLink
    rcases eq_or_ne d c with rfl | hdc
    · simp only [Function.update_self]
      rfl
    · simpa only [Function.update_of_ne hdc] using ho.held_open j d hd

/-- The slots still to be served have their clients and links as before. -/
theorem Pending.later {o o' : Outbox} {i i' : ℕ} (hp : Pending o i) (hi : i ≤ i')
    (ha : o'.accepted = o.accepted) (hpacket : o'.packet = o.packet) (hq : o'.queue = o.queue)
    (hslots : ∀ j : Slot, i' ≤ j → ∀ c, o'.clients j = some c →
      o.clients j = some c ∧ o'.links c = o.links c) : Pending o' i' where
  accepted := by rw [ha, hpacket]; exact hp.accepted
  older := by rw [hpacket, hq]; exact hp.older
  newer := by
    intro j hj c hc p hpc
    obtain ⟨hc, hlink⟩ := hslots j hj c hc
    rw [hlink] at hpc
    rw [hpacket]
    exact hp.newer j (hi.trans hj) c hc p hpc

theorem Pending.onLink {o : Outbox} {slot : Slot} {i : ℕ} (hp : Pending o i) (hi : i ≤ slot + 1)
    (ho : OutboxInv o) {c : ℕ} (hc : o.clients slot = some c) (f : Link UInt8 → Link UInt8) :
    Pending (o.onLink c f) (slot + 1) := by
  refine hp.later hi rfl rfl rfl fun j hj d hd => ⟨hd, Function.update_of_ne ?_ ..⟩
  rintro rfl
  rw [ho.injective j slot d hd hc] at hj
  omega

/-- The client is given up: its packet torn, its descriptor closed, its slot free. -/
def giveUp (o : Outbox) (slot : Slot) (fd : ℕ) : Outbox :=
  ((o.onLink fd Link.tear).close fd).setClient slot none

theorem giveUp_links {o : Outbox} (slot : Slot) {c : ℕ} {p : Packet UInt8} {k : ℕ}
    (hphase : (o.links c).phase = .sending p k) (d : ℕ) :
    (d = c ∧ (giveUp o slot c).links d = (o.links c).tear.close) ∨
      (d ≠ c ∧ (giveUp o slot c).links d = o.links d) := by
  rcases eq_or_ne d c with rfl | hdc
  · simp [giveUp, Outbox.setClient, Outbox.close, Outbox.onLink]
  · simp [giveUp, Outbox.setClient, Outbox.close, Outbox.onLink, hdc]

theorem OutboxInv.giveUp {o : Outbox} (ho : OutboxInv o) {slot : Slot} {c : ℕ}
    (hc : o.clients slot = some c) {p : Packet UInt8} {k : ℕ}
    (hphase : (o.links c).phase = .sending p k) (hk : k < p.data.length) :
    OutboxInv (giveUp o slot c) := by
  have hfree : ∀ i, (o.setClient slot none).clients i ≠ some c := by
    intro i hi
    rcases eq_or_ne i slot with rfl | hne
    · simp [Outbox.setClient] at hi
    · simp only [Outbox.setClient, Function.update_of_ne hne] at hi
      exact hne (ho.injective i slot c hi hc)
  have htear : (o.links c).tear.phase = .torn p k := by simp [Link.tear, hphase]
  have htorn := (ho.leave slot).onLink (ho.held_lt slot c hc) (f := Link.tear)
    ((ho.whole c).tear hphase hk) (fun p => Link.mem_begun_tear) fun i hi => absurd hi (hfree i)
  refine htorn.close (ho.held_lt slot c hc) hfree fun q j => ?_
  simp only [Outbox.onLink, Outbox.setClient, Function.update_self]
  rw [htear]
  rintro ⟨⟩

/-! ### Steps of the worker -/

theorem exact_sendAllStep {e : Env} {call next : SendAll} (hcall : Exact call)
    (h : Caster.sendAllStep e call = some next) : Exact next := by
  unfold Caster.sendAllStep at h
  rcases hp : call.point with _ | _ | _ | ok <;> rw [hp] at h
  · cases h
    exact hcall.casterHead
  · exact hcall.onSend hp h
  · cases h
    exact hcall.casterSelect hp _
  · cases h

theorem sendAllStep_data {e : Env} {call next : SendAll}
    (h : Caster.sendAllStep e call = some next) :
    next.data = call.data ∧ next.offset = call.offset + (Caster.sendAllChunk e call).length ∧
      Caster.sendAllChunk e call <+: call.data.drop call.offset := by
  unfold Caster.sendAllStep at h
  unfold Caster.sendAllChunk
  rcases hp : call.point with _ | _ | _ | ok <;> rw [hp] at h
  · cases h
    exact ⟨(loopHead_data _ _ _).1, (loopHead_data _ _ _).2, List.nil_prefix⟩
  · rw [if_pos rfl]
    exact onSend_data h
  · cases h
    exact ⟨(casterSelect_data _ _).1, (casterSelect_data _ _).2, List.nil_prefix⟩
  · cases h

theorem Incoming.close {o : Outbox} (ho : OutboxInv o) {fd : ℕ} (h : Incoming o fd) :
    OutboxInv (o.close fd) := by
  refine ho.close h.lt h.free fun p k => ?_
  rw [h.idle]
  rintro ⟨⟩

theorem inv_onRequest {s : Caster} (hs : Inv s) {fd : ℕ} (hq : Quiet s.out)
    (hfd : Incoming s.out fd) (ipv4 : UInt32) (request : List UInt8) :
    Inv (s.onRequest fd ipv4 request) := by
  unfold Caster.onRequest
  split_ifs
  · rcases s.out.freeSlot with _ | slot
    · exact ⟨hfd.close hs.out, hq.close fd, hs.calls⟩
    · exact ⟨hs.out, ⟨hq, hfd, exact_new _⟩, hs.calls⟩
  · exact ⟨hs.out, ⟨hq, hfd, exact_new _⟩, hs.calls⟩

theorem inv_tableStep {s s' : Caster} {e : Env} {fd : ℕ} {call : SendAll} (hs : Inv s)
    (hq : Quiet s.out) (hfd : Incoming s.out fd) (hcall : Exact call)
    (h : s.tableStep e fd call = some s') : Inv s' := by
  unfold Caster.tableStep at h
  split at h
  · cases h
    exact ⟨hfd.close hs.out, hq.close fd, exactly_returned hs.calls hcall ‹_›⟩
  · obtain ⟨next, hnext, rfl⟩ := Option.map_eq_some_iff.mp h
    exact ⟨hs.out, ⟨hq, hfd, exact_sendAllStep hcall hnext⟩, hs.calls⟩

theorem inv_replyStep {s s' : Caster} {e : Env} {fd : ℕ} {slot : Slot} {ipv4 : UInt32}
    {call : SendAll} (hs : Inv s) (hq : Quiet s.out) (hfd : Incoming s.out fd)
    (hcall : Exact call) (h : s.replyStep e fd slot ipv4 call = some s') : Inv s' := by
  unfold Caster.replyStep at h
  split at h
  · cases h
    exact ⟨hs.out.letIn hfd slot, hq, exactly_returned hs.calls hcall ‹_›⟩
  · cases h
    exact ⟨hfd.close hs.out, hq.close fd, exactly_returned hs.calls hcall ‹_›⟩
  · obtain ⟨next, hnext, rfl⟩ := Option.map_eq_some_iff.mp h
    exact ⟨hs.out, ⟨hq, hfd, exact_sendAllStep hcall hnext⟩, hs.calls⟩

theorem inv_receiveStep {s : Caster} (hs : Inv s) (hq : Quiet s.out) {p : Packet UInt8}
    {rest : List (Packet UInt8)} (hqueue : s.out.queue = p :: rest) :
    Inv { s with out := { s.out with queue := rest, packet := p }, pc := .broadcast 0 } := by
  have hp : p ∈ s.out.queue := by rw [hqueue]; exact List.mem_cons_self
  have hgrow := hs.out.growing
  rw [hqueue, Link.Growing, List.map_cons, List.pairwise_cons] at hgrow
  refine ⟨hs.out.drop (by rw [hqueue]; exact List.sublist_cons_self _ _) p, ⟨hq, ?_⟩, hs.calls⟩
  refine ⟨hs.out.queued p hp, fun q hq => ?_, fun j _ c _ q hq => hs.out.older c q hq p hp⟩
  exact hgrow.1 q.number (List.mem_map_of_mem hq)

theorem inv_broadcastStep {s : Caster} (hs : Inv s) {i : ℕ} (hq : Quiet s.out)
    (hp : Pending s.out i) : Inv (s.broadcastStep i) := by
  unfold Caster.broadcastStep
  split_ifs with hi
  · rcases hc : s.out.clients ⟨i, hi⟩ with _ | c
    · exact ⟨hs.out, ⟨hq, hp.accepted, hp.older, fun j hj => hp.newer j (by omega)⟩, hs.calls⟩
    · have hidle := hq.idle hs.out hc
      have hpending := hp.onLink (Nat.le_succ (⟨i, hi⟩ : Slot).val) hs.out hc (·.start s.out.packet)
      dsimp only
      refine ⟨hs.out.start hc hidle hp, ⟨hpending, exact_new _, rfl, c,
        hc, ?_, fun d hdc p k => ?_⟩, hs.calls⟩
      · simp [Outbox.onLink, Link.start]
      · simp only [Outbox.onLink, Function.update_of_ne hdc]
        exact hq d p k
  · exact ⟨hs.out, hq, hs.calls⟩

theorem inv_sendingStep {s s' : Caster} {e : Env} {slot : Slot} {call : SendAll} (hs : Inv s)
    (hpc : AtPc s.out (.sending slot call)) (h : s.sendingStep e slot call = some s') : Inv s' := by
  obtain ⟨hp, hcall, hdata, c, hc, hphase, hrest⟩ := hpc
  have hwhole := hs.out.whole c
  have hlt := hs.out.held_lt slot c hc
  unfold Caster.sendingStep at h
  simp only [hc] at h
  split at h
  · rename_i hret
    cases h
    have hend := (hcall.returned true hret).mp rfl
    rw [hdata] at hend
    refine ⟨hs.out.onLink hlt (hwhole.finish hphase hend.ge) (fun p => Link.mem_begun_finish)
      fun i _ => ?_, ⟨fun d p k => ?_, hp.onLink le_rfl hs.out hc _⟩,
      exactly_returned hs.calls hcall hret⟩
    · simp [Link.finish, hphase, Phase.over]
    · rcases eq_or_ne d c with rfl | hdc
      · simp [Outbox.onLink, Link.finish, hphase]
      · simp only [Outbox.onLink, Function.update_of_ne hdc]
        exact hrest d hdc p k
  · rename_i hret
    cases h
    have hshort : call.offset < s.out.packet.data.length := by
      rw [← hdata]
      refine lt_of_le_of_ne hcall.le_length fun heq => ?_
      exact Bool.false_ne_true ((hcall.returned false hret).mpr heq)
    refine ⟨hs.out.giveUp hc hphase hshort, ⟨fun d p k => ?_, ?_⟩,
      exactly_returned hs.calls hcall hret⟩
    · rcases giveUp_links slot hphase d with ⟨-, h⟩ | ⟨hdc, h⟩
      · show ((giveUp s.out slot c).links d).phase ≠ _
        rw [h]
        rintro ⟨⟩
      · show ((giveUp s.out slot c).links d).phase ≠ _
        rw [h]
        exact hrest d hdc p k
    · refine hp.later le_rfl rfl rfl rfl fun j hj d hd => ?_
      have hjs : j ≠ slot := by
        rintro rfl
        omega
      have hjd : s.out.clients j = some d := by
        simp only [Outbox.setClient, Function.update_of_ne hjs] at hd
        exact hd
      rcases giveUp_links slot hphase d with ⟨rfl, -⟩ | ⟨-, h⟩
      · exact absurd (hs.out.injective j slot d hjd hc) hjs
      · exact ⟨hjd, h⟩
  · obtain ⟨next, hnext, rfl⟩ := Option.map_eq_some_iff.mp h
    obtain ⟨hnd, hno, hchunk⟩ := sendAllStep_data hnext
    rw [hdata] at hchunk
    refine ⟨hs.out.onLink hlt (f := (·.put (Caster.sendAllChunk e call)))
      (hwhole.put hphase hchunk) (fun p => Link.mem_begun_put) fun i _ => ?_,
      ⟨hp.onLink le_rfl hs.out hc (·.put (Caster.sendAllChunk e call)),
        exact_sendAllStep hcall hnext, hnd.trans hdata, c, hc, ?_,
        fun d hdc p k => ?_⟩, hs.calls⟩
    · simp [Link.put, hphase, Phase.over]
    · simp [Outbox.onLink, Link.put, hphase, hno]
    · simp only [Outbox.onLink, Function.update_of_ne hdc]
      exact hrest d hdc p k

theorem inv_work {s s' : Caster} {e : Env} (hs : Inv s) (h : s.work e = some s') : Inv s' := by
  have hat := hs.pc
  have hout := hs.out
  have hcalls := hs.calls
  rcases hpc : s.pc with _ | _ | _ | _ | _ | _ | _ | _ | _ | ⟨fd, ip, req⟩ | ⟨fd, call⟩ |
    ⟨fd, slot, ip, call⟩ | _ | i | ⟨slot, call⟩ | wake | _ | _
  all_goals
    rw [hpc] at hat
    simp only [Caster.work, hpc] at h
  case request =>
    cases h
    exact inv_onRequest hs hat.1 hat.2 ip req
  case sendTable => exact inv_tableStep hs hat.1 hat.2.1 hat.2.2 h
  case sendReply => exact inv_replyStep hs hat.1 hat.2.1 hat.2.2 h
  case broadcast =>
    cases h
    exact inv_broadcastStep hs hat.1 hat.2
  case sending => exact inv_sendingStep hs hat h
  case receive =>
    rcases hq : s.out.queue with _ | ⟨p, rest⟩ <;> rw [hq] at h <;> cases h
    · exact ⟨hout, hat, hcalls⟩
    · exact inv_receiveStep hs hat hq
  case suspendedClose | resetClose | finalClose =>
    cases h
    exact ⟨hout.closeClients hat, Quiet.closeClients hat, hcalls⟩
  case suspendedReset | resetQueue =>
    cases h
    exact ⟨hout.drop (List.nil_sublist _) _, hat, hcalls⟩
  case checkListener =>
    split_ifs at h
    · cases h
      exact ⟨hout, hat, hcalls⟩
    · split at h <;> cases h
      · exact ⟨hout, hat, hcalls⟩
      · exact ⟨hout, hat, hcalls⟩
      · exact ⟨hout.closeClients hat, Quiet.closeClients hat, hcalls⟩
  case accept =>
    rcases hin : e.incoming with _ | ⟨ip, req⟩ <;> rw [hin] at h <;> cases h
    · exact ⟨hout, hat, hcalls⟩
    · exact ⟨hout.accept, ⟨hat, incoming_accept hout⟩, hcalls⟩
  case top | checkSuspended | checkReset =>
    cases h
    refine ⟨hout, ?_, hcalls⟩
    split_ifs <;> exact hat
  case delayed =>
    split_ifs at h
    cases h
    exact ⟨hout, hat, hcalls⟩
  case exited => cases h

/-! ### The other steps -/

theorem Pending.enqueue {o : Outbox} {i : ℕ} (hp : Pending o i) (data : List UInt8) :
    Pending (o.enqueue data) i where
  accepted := hp.accepted.append _
  older := by
    intro q hq
    rcases List.mem_append.mp hq with hq | hq
    · exact hp.older q hq
    · rw [List.mem_singleton.mp hq]
      exact hp.accepted.number_lt
  newer := hp.newer

theorem atPc_enqueue {o : Outbox} {pc : Pc} (h : AtPc o pc) (data : List UInt8) :
    AtPc (o.enqueue data) pc := by
  cases pc
  case request => exact ⟨h.1, h.2.lt, h.2.free, h.2.idle⟩
  case sendTable => exact ⟨h.1, ⟨h.2.1.lt, h.2.1.free, h.2.1.idle⟩, h.2.2⟩
  case sendReply => exact ⟨h.1, ⟨h.2.1.lt, h.2.1.free, h.2.1.idle⟩, h.2.2⟩
  case broadcast => exact ⟨h.1, h.2.enqueue data⟩
  case sending => exact ⟨h.1.enqueue data, h.2⟩
  all_goals exact h

theorem inv_produce {s s' : Caster} (hs : Inv s) (h : s.produce = some s') : Inv s' := by
  unfold Caster.produce at h
  rcases hp : s.producer with _ | data | data <;> rw [hp] at h
  · cases h
  · cases h
    exact ⟨hs.out, hs.pc, hs.calls⟩
  · simp only at h
    split_ifs at h <;> cases h
    · exact ⟨hs.out.enqueue data, atPc_enqueue hs.pc data, hs.calls⟩
    · exact ⟨hs.out, hs.pc, hs.calls⟩

theorem inv_step {s s' : Caster} {i : Input} (hs : Inv s) (h : step s i = some s') : Inv s' := by
  rcases i with e | data | _ | b | _ | _ | us
  case work => exact inv_work hs h
  case produce => exact inv_produce hs h
  case push =>
    simp only [step, Caster.push] at h
    split_ifs at h <;> cases h <;> exact ⟨hs.out, hs.pc, hs.calls⟩
  case setReset =>
    simp only [step, Caster.setReset] at h
    split_ifs at h
    cases h
    exact ⟨hs.out, hs.pc, hs.calls⟩
  all_goals
    cases h
    exact ⟨hs.out, hs.pc, hs.calls⟩

/-! ### What a step does to the outbox -/

/-- **All that a step can do to the outbox.** Links change only by a close, or for a client. -/
inductive OutStep (o : Outbox) : Outbox → Prop
  | same : OutStep o o
  | enqueue (data : List UInt8) : OutStep o (o.enqueue data)
  | drop (queue : List (Packet UInt8)) (p : Packet UInt8) :
    OutStep o { o with queue := queue, packet := p }
  | accept : OutStep o o.accept
  | letIn (slot : Slot) (fd : ℕ) : OutStep o (o.setClient slot (some fd))
  | close (fd : ℕ) : OutStep o (o.close fd)
  | closeClients : OutStep o o.closeClients
  | onLink (slot : Slot) (fd : ℕ) (h : o.clients slot = some fd) (f : Link UInt8 → Link UInt8) :
    OutStep o (o.onLink fd f)
  | giveUp (slot : Slot) (fd : ℕ) (h : o.clients slot = some fd) : OutStep o (giveUp o slot fd)

theorem outStep_sending {s s' : Caster} {e : Env} {slot : Slot} {call : SendAll}
    (h : s.sendingStep e slot call = some s') : OutStep s.out s'.out := by
  unfold Caster.sendingStep at h
  split at h
  · cases h
  · split at h
    · cases h
      exact .onLink slot _ ‹_› _
    · cases h
      exact .giveUp slot _ ‹_›
    · obtain ⟨next, -, rfl⟩ := Option.map_eq_some_iff.mp h
      exact .onLink slot _ ‹_› (·.put (Caster.sendAllChunk e call))

theorem outStep_work {s s' : Caster} {e : Env} (h : s.work e = some s') :
    OutStep s.out s'.out := by
  rcases hpc : s.pc with _ | _ | _ | _ | _ | _ | _ | _ | _ | ⟨fd, ip, req⟩ | ⟨fd, call⟩ |
    ⟨fd, slot, ip, call⟩ | _ | i | ⟨slot, call⟩ | wake | _ | _
  all_goals simp only [Caster.work, hpc] at h
  case sending => exact outStep_sending h
  case request =>
    cases h
    unfold Caster.onRequest
    split_ifs
    · split
      · exact .close fd
      · exact .same
    · exact .same
  case sendTable =>
    unfold Caster.tableStep at h
    split at h
    · cases h
      exact .close fd
    · obtain ⟨next, -, rfl⟩ := Option.map_eq_some_iff.mp h
      exact .same
  case sendReply =>
    unfold Caster.replyStep at h
    split at h
    · cases h
      exact .letIn slot fd
    · cases h
      exact .close fd
    · obtain ⟨next, -, rfl⟩ := Option.map_eq_some_iff.mp h
      exact .same
  case broadcast =>
    cases h
    unfold Caster.broadcastStep
    split_ifs
    · split
      · exact .same
      · exact .onLink _ _ ‹_› (·.start s.out.packet)
    · exact .same
  case receive =>
    split at h <;> cases h
    · exact .same
    · exact .drop _ _
  case suspendedClose | resetClose | finalClose =>
    cases h
    exact .closeClients
  case suspendedReset | resetQueue =>
    cases h
    exact .drop _ _
  case checkListener =>
    split_ifs at h
    · cases h
      exact .same
    · split at h <;> cases h
      · exact .same
      · exact .same
      · exact .closeClients
  case accept =>
    split at h <;> cases h
    · exact .same
    · exact .accept
  case delayed =>
    split_ifs at h
    cases h
    exact .same
  case exited => cases h
  all_goals
    cases h
    exact .same

/-- **The inversion of a step, as far as the outbox goes.** -/
theorem outStep_step {s s' : Caster} {i : Input} (h : step s i = some s') :
    OutStep s.out s'.out := by
  rcases i with e | data | _ | b | _ | _ | us
  case work => exact outStep_work h
  case produce =>
    simp only [step, Caster.produce] at h
    rcases hp : s.producer with _ | data | data <;> rw [hp] at h
    · cases h
    · cases h
      exact .same
    · simp only at h
      split_ifs at h <;> cases h
      · exact .enqueue data
      · exact .same
  case push =>
    simp only [step, Caster.push] at h
    split_ifs at h <;> cases h <;> exact .same
  case setReset =>
    simp only [step, Caster.setReset] at h
    split_ifs at h
    cases h
    exact .same
  all_goals
    cases h
    exact .same

/-! ### A link on which sending is over -/

theorem kept_closeClients (o : Outbox) : Kept o.links o.closeClients.links := by
  intro d hd
  unfold Outbox.closeClients
  dsimp only
  split_ifs
  · exact ⟨rfl, rfl⟩
  · exact ⟨hd, rfl⟩

theorem kept_onLink {o : Outbox} (ho : OutboxInv o) {slot : Slot} {c : ℕ}
    (hc : o.clients slot = some c) (f : Link UInt8 → Link UInt8) :
    Kept o.links (o.onLink c f).links := kept_open (ho.held_open slot c hc) _

/-- **A step writes nothing where sending is over.** -/
theorem kept_step {s s' : Caster} {i : Input} (hs : Inv s) (h : step s i = some s') :
    Kept s.out.links s'.out.links := by
  have hout := outStep_step h
  generalize s'.out = o' at hout ⊢
  cases hout with
  | same => exact Kept.refl _
  | enqueue data => exact Kept.refl _
  | drop queue p => exact Kept.refl _
  | accept => exact Kept.refl _
  | letIn slot fd => exact Kept.refl _
  | close fd => exact kept_close _ fd
  | closeClients => exact kept_closeClients _
  | onLink slot fd hfd f => exact kept_onLink hs.out hfd f
  | giveUp slot fd hfd =>
    have h1 := kept_onLink hs.out hfd Link.tear
    exact h1.trans (kept_close _ fd)

/-! ### Runs -/

theorem inv_start (suspended resetClients : Bool) : Inv (Caster.start suspended resetClients) where
  out := inv_outbox_new
  pc := by rintro c p k ⟨⟩
  calls := by intro r hr; cases hr

/-- The state of the caster after `start`, whatever was set before. -/
def Started (s : Caster) : Prop := ∃ suspended resetClients, s = Caster.start suspended resetClients

/-- **Every state the caster reaches meets the invariant.** -/
theorem inv_reaches {s₀ s : Caster} (h₀ : Started s₀) (h : Reaches step s₀ s) : Inv s := by
  obtain ⟨b, r, rfl⟩ := h₀
  exact h.invariant (I := Inv) (fun _ _ _ hs => inv_step hs) (inv_start b r)

/-- Nothing more is written where sending is over, in any continuation. -/
theorem kept_reaches {s s' : Caster} (hs : Inv s) (h : Reaches step s s') :
    Kept s.out.links s'.out.links :=
  h.relation (I := Inv) (R := fun s s' => Kept s.out.links s'.out.links) (fun _ _ _ hs => inv_step hs)
    (fun s => Kept.refl s.out.links) (fun _ _ _ => Kept.trans) (fun _ _ _ hs => kept_step hs) hs

end GpsBase.Push.CasterWire
