import GpsBase.Lib.Handles
import GpsBase.Push.CasterWire

/-! # The sockets of the local caster

What the local caster does with the descriptors it accepts is what a pool does with its handles. With the
free slot that `accept_client` found, and the addresses and the count as they are kept beside the slots,
this gives an invariant of every step of any task (`inv_step`), and what holds after each turn of the loop
in every run (`client_sockets`). -/

namespace GpsBase.Push.ClientSockets

open GpsBase.Lib.Handles GpsBase.Lib.Machine GpsBase.Push.SendLoop GpsBase.Push.LocalCaster
open GpsBase.Push.CasterWire (Started)

/-- The descriptor that `accept_client` deals with. -/
def transit : Pc → Option ℕ
  | .request fd _ _ | .sendTable fd _ | .sendReply fd _ _ _ => some fd
  | _ => none

/-- The descriptors of the caster as handles. -/
def pool (s : Caster) : Pool Slot := ⟨s.out.clients, transit s.pc, s.out.opened, s.out.closes⟩

/-- Not within `broadcast`, which counts the clients when it is done. -/
def Counting : Pc → Prop
  | .broadcast _ | .sending _ _ => False
  | _ => True

/-- The slot that was found is free. -/
def SlotFree (o : Outbox) : Pc → Prop
  | .sendReply _ slot _ _ => o.clients slot = none
  | _ => True

/-- **The invariant of the slots.** -/
structure Inv (s : Caster) : Prop where
  sound : Sound (pool s)
  free : SlotFree s.out s.pc
  address : ∀ i, s.clientIpv4 i ≠ 0 → s.out.clients i ≠ none
  counted : Counting s.pc → s.clientCount = s.out.count

theorem inv_start (suspended resetClients : Bool) : Inv (Caster.start suspended resetClients) where
  sound := sound_new
  free := trivial
  address := fun _ h => absurd rfl h
  counted := fun _ => rfl

theorem Inv.same {s s' : Caster} (h : Inv s) (hclients : s'.out.clients = s.out.clients)
    (hopened : s'.out.opened = s.out.opened) (hcloses : s'.out.closes = s.out.closes)
    (hipv4 : s'.clientIpv4 = s.clientIpv4) (hcount : s'.clientCount = s.clientCount)
    (htransit : transit s'.pc = transit s.pc) (hfree : SlotFree s'.out s'.pc)
    (hcounting : Counting s'.pc → Counting s.pc) : Inv s' := by
  refine ⟨?_, hfree, ?_, fun hc => ?_⟩
  · have hpool : pool s' = pool s := by
      unfold pool
      rw [hclients, hopened, hcloses, htransit]
    rw [hpool]
    exact h.sound
  · rw [hipv4, hclients]
    exact h.address
  · rw [hcount, h.counted (hcounting hc), Outbox.count, Outbox.count, hclients]

theorem Inv.closed {s : Caster} (h : Inv s) :
    ((List.finRange kMaxClients).filterMap s.out.clients).Nodup ∧
      ∀ c, c ∈ (List.finRange kMaxClients).filterMap s.out.clients ↔ ∃ i, s.out.clients i = some c := by
  refine ⟨(List.nodup_finRange _).filterMap fun i j c hi hj => ?_, fun c => ?_⟩
  · exact h.sound.injective i j c hi hj
  · rw [List.mem_filterMap]
    exact ⟨fun ⟨i, _, hi⟩ => ⟨i, hi⟩, fun ⟨i, hi⟩ => ⟨i, List.mem_finRange i, hi⟩⟩

/-- All clients are closed, and the worker goes on elsewhere. -/
theorem Inv.clear {s s' : Caster} (h : Inv s) (hout : s'.out = s.out.closeClients)
    (hipv4 : s'.clientIpv4 = fun _ => 0) (hcount : s'.clientCount = s.out.closeClients.count)
    (htransit : transit s'.pc = transit s.pc) (hfree : SlotFree s'.out s'.pc) : Inv s' := by
  refine ⟨?_, hfree, ?_, fun _ => ?_⟩
  · have hstep := Step.clear (p := pool s) _ h.closed.1 h.closed.2
    have hsound := hstep.sound h.sound
    have hpool : pool s' = { pool s with held := fun _ => none, closes := (pool s).closes ++
        (List.finRange kMaxClients).filterMap s.out.clients } := by
      unfold pool
      rw [hout, htransit]
      rfl
    rw [hpool]
    exact hsound
  · intro i hi
    rw [hipv4] at hi
    exact absurd rfl hi
  · rw [hcount, hout]

theorem Inv.accept {s s' : Caster} (h : Inv s) (hout : s'.out = s.out.accept)
    (hipv4 : s'.clientIpv4 = s.clientIpv4) (hcount : s'.clientCount = s.clientCount)
    (hpc : s.pc = .accept) (htransit : transit s'.pc = some s.out.opened)
    (hfree : SlotFree s'.out s'.pc) : Inv s' := by
  refine ⟨?_, hfree, ?_, fun _ => ?_⟩
  · have hnone : (pool s).transit = none := by
      rw [pool, hpc]
      rfl
    have hpool : pool s' =
        { pool s with transit := some (pool s).opened, opened := (pool s).opened + 1 } := by
      unfold pool
      rw [hout, htransit]
      rfl
    rw [hpool]
    exact (Step.accept hnone).sound h.sound
  · rw [hipv4, hout]
    exact h.address
  · have hcounted := h.counted (by rw [hpc]; exact trivial)
    rw [hcount, hout, hcounted]
    rfl

theorem Inv.refuse {s s' : Caster} (h : Inv s) {fd : ℕ} (htransit : transit s.pc = some fd)
    (hcounting : Counting s.pc) (hout : s'.out = s.out.close fd) (hipv4 : s'.clientIpv4 = s.clientIpv4)
    (hcount : s'.clientCount = s.clientCount) (hpc : s'.pc = .receive) : Inv s' := by
  refine ⟨?_, ?_, ?_, fun _ => ?_⟩
  · have hpool : pool s' = { pool s with transit := none, closes := (pool s).closes ++ [fd] } := by
      unfold pool
      rw [hout, hpc]
      rfl
    rw [hpool]
    exact (Step.refuse fd htransit).sound h.sound
  · rw [hpc]
    exact trivial
  · rw [hipv4, hout]
    exact h.address
  · rw [hcount, hout, h.counted hcounting]
    rfl

theorem Inv.settle {s s' : Caster} (h : Inv s) {fd : ℕ} {slot : Slot} {ipv4 : UInt32} {call : SendAll}
    (hat : s.pc = .sendReply fd slot ipv4 call) (hout : s'.out = s.out.setClient slot (some fd))
    (hipv4 : s'.clientIpv4 = Function.update s.clientIpv4 slot ipv4)
    (hcount : s'.clientCount = s'.out.count) (hpc : s'.pc = .receive) : Inv s' := by
  have hfree : s.out.clients slot = none := by
    have hslot := h.free
    rw [hat] at hslot
    exact hslot
  refine ⟨?_, ?_, fun i hi => ?_, fun _ => hcount⟩
  · have htransit : (pool s).transit = some fd := by
      rw [pool, hat]
      rfl
    have hpool : pool s' = { pool s with
        held := Function.update (pool s).held slot (some fd), transit := none } := by
      unfold pool
      rw [hout, hpc]
      rfl
    rw [hpool]
    exact (Step.settle slot fd htransit hfree).sound h.sound
  · rw [hpc]
    exact trivial
  · rw [hout]
    show Function.update s.out.clients slot (some fd) i ≠ none
    rcases eq_or_ne i slot with rfl | hne
    · rw [Function.update_self]
      exact Option.some_ne_none fd
    · rw [Function.update_of_ne hne]
      rw [hipv4, Function.update_of_ne hne] at hi
      exact h.address i hi

theorem Inv.release {s s' : Caster} (h : Inv s) {fd : ℕ} {slot : Slot}
    (hfd : s.out.clients slot = some fd) (htransit : transit s.pc = none)
    (hclients : s'.out.clients = Function.update s.out.clients slot none)
    (hopened : s'.out.opened = s.out.opened) (hcloses : s'.out.closes = s.out.closes ++ [fd])
    (hipv4 : s'.clientIpv4 = Function.update s.clientIpv4 slot 0) {i : ℕ} (hpc : s'.pc = .broadcast i) :
    Inv s' := by
  refine ⟨?_, ?_, fun j hj => ?_, fun hc => ?_⟩
  · have hpool : pool s' = { pool s with
        held := Function.update (pool s).held slot none, closes := (pool s).closes ++ [fd] } := by
      unfold pool
      rw [hclients, hopened, hcloses, hpc, htransit]
      rfl
    rw [hpool]
    exact (Step.release slot fd hfd).sound h.sound
  · rw [hpc]
    exact trivial
  · rw [hclients]
    rw [hipv4] at hj
    rcases eq_or_ne j slot with rfl | hne
    · rw [Function.update_self] at hj
      exact absurd rfl hj
    · rw [Function.update_of_ne hne] at hj ⊢
      exact h.address j hj
  · rw [hpc] at hc
    exact absurd hc id

/-! ### The steps -/

theorem free_of_freeSlot {o : Outbox} {slot : Slot} (h : o.freeSlot = some slot) :
    o.clients slot = none :=
  Option.isNone_iff_eq_none.mp (List.find?_some (p := fun i => (o.clients i).isNone) h)

theorem inv_onRequest {s : Caster} (h : Inv s) {fd : ℕ} {ipv4 ipv4' : UInt32} {request request' : List UInt8}
    (hpc : s.pc = .request fd ipv4' request') : Inv (s.onRequest fd ipv4 request) := by
  have htransit : transit s.pc = some fd := by
    rw [hpc]
    rfl
  have hcounting : Counting s.pc := by
    rw [hpc]
    exact trivial
  unfold Caster.onRequest
  split_ifs
  · split
    · exact h.refuse htransit hcounting rfl rfl rfl rfl
    · exact h.same rfl rfl rfl rfl rfl htransit.symm (free_of_freeSlot ‹_›) fun _ => hcounting
  · exact h.same rfl rfl rfl rfl rfl htransit.symm trivial fun _ => hcounting

theorem inv_tableStep {s s' : Caster} (h : Inv s) {e : Env} {fd : ℕ} {call : SendAll}
    (hpc : s.pc = .sendTable fd call) (hs : s.tableStep e fd call = some s') : Inv s' := by
  have htransit : transit s.pc = some fd := by
    rw [hpc]
    rfl
  have hcounting : Counting s.pc := by
    rw [hpc]
    exact trivial
  unfold Caster.tableStep at hs
  split at hs
  · cases hs
    exact h.refuse htransit hcounting rfl rfl rfl rfl
  · obtain ⟨next, -, rfl⟩ := Option.map_eq_some_iff.mp hs
    exact h.same rfl rfl rfl rfl rfl htransit.symm trivial fun _ => hcounting

theorem inv_replyStep {s s' : Caster} (h : Inv s) {e : Env} {fd : ℕ} {slot : Slot} {ipv4 : UInt32}
    {call : SendAll} (hpc : s.pc = .sendReply fd slot ipv4 call)
    (hs : s.replyStep e fd slot ipv4 call = some s') : Inv s' := by
  have htransit : transit s.pc = some fd := by
    rw [hpc]
    rfl
  have hcounting : Counting s.pc := by
    rw [hpc]
    exact trivial
  have hfree := h.free
  rw [hpc] at hfree
  unfold Caster.replyStep at hs
  split at hs
  · cases hs
    exact h.settle hpc rfl rfl rfl rfl
  · cases hs
    exact h.refuse htransit hcounting rfl rfl rfl rfl
  · obtain ⟨next, -, rfl⟩ := Option.map_eq_some_iff.mp hs
    exact h.same rfl rfl rfl rfl rfl htransit.symm hfree fun _ => hcounting

theorem inv_broadcastStep {s : Caster} (h : Inv s) {i : ℕ} (hpc : s.pc = .broadcast i) :
    Inv (s.broadcastStep i) := by
  have htransit : none = transit s.pc := by
    rw [hpc]
    rfl
  unfold Caster.broadcastStep
  split_ifs
  · split
    · exact h.same rfl rfl rfl rfl rfl htransit trivial fun hc => absurd hc id
    · exact h.same rfl rfl rfl rfl rfl htransit trivial fun hc => absurd hc id
  · -- the clients are counted
    refine ⟨?_, trivial, h.address, fun _ => rfl⟩
    have hsound := h.sound
    unfold pool at hsound
    rw [← htransit] at hsound
    exact hsound

theorem inv_sendingStep {s s' : Caster} (h : Inv s) {e : Env} {slot : Slot} {call : SendAll}
    (hpc : s.pc = .sending slot call) (hs : s.sendingStep e slot call = some s') : Inv s' := by
  have htransit : none = transit s.pc := by
    rw [hpc]
    rfl
  unfold Caster.sendingStep at hs
  split at hs
  · cases hs
  · split at hs
    · cases hs
      exact h.same rfl rfl rfl rfl rfl htransit trivial fun hc => absurd hc id
    · cases hs
      exact h.release ‹_› htransit.symm rfl rfl rfl rfl rfl
    · obtain ⟨next, -, rfl⟩ := Option.map_eq_some_iff.mp hs
      exact h.same rfl rfl rfl rfl rfl htransit trivial fun hc => absurd hc id

theorem inv_work {s s' : Caster} {e : Env} (h : Inv s) (hs : s.work e = some s') : Inv s' := by
  rcases hpc : s.pc with _ | _ | _ | _ | _ | _ | _ | _ | _ | ⟨fd, ip, req⟩ | ⟨fd, call⟩ |
    ⟨fd, slot, ip, call⟩ | _ | i | ⟨slot, call⟩ | wake | _ | _
  all_goals simp only [Caster.work, hpc] at hs
  case request =>
    cases hs
    exact inv_onRequest h hpc
  case sendTable => exact inv_tableStep h hpc hs
  case sendReply => exact inv_replyStep h hpc hs
  case broadcast =>
    cases hs
    exact inv_broadcastStep h hpc
  case sending => exact inv_sendingStep h hpc hs
  case exited => cases hs
  all_goals
    -- no descriptor is under way
    have htransit : none = transit s.pc := by
      rw [hpc]
      rfl
    have hcounting : Counting s.pc := by
      rw [hpc]
      exact trivial
  case suspendedClose | resetClose | finalClose =>
    cases hs
    exact h.clear rfl rfl rfl htransit trivial
  case checkListener =>
    split_ifs at hs
    · cases hs
      exact h.same rfl rfl rfl rfl rfl htransit trivial fun _ => hcounting
    · split at hs <;> cases hs
      · exact h.same rfl rfl rfl rfl rfl htransit trivial fun _ => hcounting
      · exact h.same rfl rfl rfl rfl rfl htransit trivial fun _ => hcounting
      · exact h.clear rfl rfl rfl htransit trivial
  case accept =>
    rcases hin : e.incoming with _ | ⟨ip, req⟩ <;> rw [hin] at hs <;> cases hs
    · exact h.same rfl rfl rfl rfl rfl htransit trivial fun _ => hcounting
    · exact h.accept rfl rfl rfl hpc rfl trivial
  case receive =>
    rcases hq : s.out.queue with _ | ⟨p, rest⟩ <;> rw [hq] at hs <;> cases hs
    · exact h.same rfl rfl rfl rfl rfl htransit trivial fun _ => hcounting
    · exact h.same rfl rfl rfl rfl rfl htransit trivial fun _ => hcounting
  case top | checkSuspended | checkReset =>
    cases hs
    split_ifs
    · exact h.same rfl rfl rfl rfl rfl htransit trivial fun _ => hcounting
    · exact h.same rfl rfl rfl rfl rfl htransit trivial fun _ => hcounting
  case delayed =>
    split_ifs at hs
    cases hs
    exact h.same rfl rfl rfl rfl rfl htransit trivial fun _ => hcounting
  case suspendedReset | resetQueue =>
    cases hs
    exact h.same rfl rfl rfl rfl rfl htransit trivial fun _ => hcounting

/-- A step of another task leaves the slots alone. -/
theorem Inv.other {s s' : Caster} (h : Inv s) (hclients : s'.out.clients = s.out.clients)
    (hopened : s'.out.opened = s.out.opened) (hcloses : s'.out.closes = s.out.closes)
    (hipv4 : s'.clientIpv4 = s.clientIpv4) (hcount : s'.clientCount = s.clientCount)
    (hpc : s'.pc = s.pc) : Inv s' := by
  refine h.same hclients hopened hcloses hipv4 hcount (congrArg transit hpc) ?_ fun hc => hpc ▸ hc
  have hfree := h.free
  rw [hpc]
  cases hat : s.pc with
  | sendReply fd slot ipv4 call =>
    rw [hat] at hfree
    exact (congrFun hclients slot).trans hfree
  | _ => exact trivial

theorem inv_step {s s' : Caster} {i : Input} (h : Inv s) (hs : step s i = some s') : Inv s' := by
  cases i with
  | work e => exact inv_work h hs
  | push data =>
    simp only [step, Caster.push] at hs
    split_ifs at hs <;> cases hs <;> exact h.other rfl rfl rfl rfl rfl rfl
  | produce =>
    simp only [step, Caster.produce] at hs
    rcases hp : s.producer with _ | data | data <;> rw [hp] at hs
    · cases hs
    · cases hs
      exact h.other rfl rfl rfl rfl rfl rfl
    · simp only at hs
      split_ifs at hs <;> cases hs <;> exact h.other rfl rfl rfl rfl rfl rfl
  | setReset =>
    simp only [step, Caster.setReset] at hs
    split_ifs at hs
    cases hs
    exact h.other rfl rfl rfl rfl rfl rfl
  | setSuspended b =>
    cases hs
    exact h.other rfl rfl rfl rfl rfl rfl
  | stop =>
    cases hs
    exact h.other rfl rfl rfl rfl rfl rfl
  | tick us =>
    cases hs
    exact h.other rfl rfl rfl rfl rfl rfl

/-! ### After a turn of the loop -/

/-- A turn of the loop of `run` is over, or `run` is. -/
def TurnOver : Pc → Prop
  | .top | .delayed _ | .exited => True
  | _ => False

def heldDescriptors (o : Outbox) : List ℕ := (List.finRange kMaxClients).filterMap o.clients

/-- **The sockets are accounted for**: each descriptor accepted is in exactly one slot, or was closed exactly
once; at most eight are held, and as many as counted; only a slot that is held has an address. -/
structure Accounted (s : Caster) : Prop where
  exact : ∀ fd < s.out.opened, (∃! i, s.out.clients i = some fd) ∧ fd ∉ s.out.closes ∨
    (∀ i, s.out.clients i ≠ some fd) ∧ s.out.closes.count fd = 1
  known : ∀ fd, fd ∈ heldDescriptors s.out ∨ fd ∈ s.out.closes → fd < s.out.opened
  distinct : (heldDescriptors s.out).Nodup
  atMost : (heldDescriptors s.out).length ≤ 8
  counted : s.clientCount = (heldDescriptors s.out).length
  address : ∀ i, s.clientIpv4 i ≠ 0 → ∃ fd, s.out.clients i = some fd

theorem Inv.inFlight_counted {s : Caster} (h : Inv s) (htransit : transit s.pc = none)
    (hcounting : Counting s.pc) : Accounted s where
  exact fd hfd := h.sound.exact htransit hfd
  known fd hfd := by
    rcases hfd with hfd | hfd
    · obtain ⟨i, hi⟩ := (h.closed.2 fd).mp hfd
      exact h.sound.held_lt i fd hi
    · exact h.sound.closes_lt fd hfd
  distinct := h.closed.1
  atMost := (List.length_filterMap_le _ _).trans (List.length_finRange).le
  counted := (h.counted hcounting).trans List.length_filterMap_eq_countP.symm
  address i hi := Option.ne_none_iff_exists'.mp (h.address i hi)

/-- **The sockets of the local caster**: in every run, after each turn of the loop the sockets are accounted
for; and so they are after the `close_all` with which `stop` ends. -/
theorem client_sockets {s₀ s : Caster} (h₀ : Started s₀) (h : Reaches step s₀ s) (hturn : TurnOver s.pc) :
    Accounted s ∧ Accounted s.closeAll := by
  obtain ⟨b, r, rfl⟩ := h₀
  have hinv : Inv s := h.invariant (I := Inv) (fun _ _ _ hI hs => inv_step hI hs) (inv_start b r)
  have hboth : transit s.pc = none ∧ Counting s.pc ∧ SlotFree s.closeAll.out s.pc := by
    cases hpc : s.pc with
    | top | delayed wake | exited => exact ⟨rfl, trivial, trivial⟩
    | _ =>
      rw [hpc] at hturn
      exact absurd hturn id
  obtain ⟨htransit, hcounting, hfree⟩ := hboth
  have hclosed : Inv s.closeAll := hinv.clear rfl rfl rfl rfl hfree
  exact ⟨hinv.inFlight_counted htransit hcounting,
    hclosed.inFlight_counted htransit hcounting⟩

/-- A client comes with the right request and is answered. -/
def oneClient : List Input :=
  .setSuspended false :: List.replicate 11
    (.work { incoming := some (0x0200000a, requestPrefix), send := .sent 14 })

theorem client_sockets_one :
    ∃ s, run step (Caster.start true false) oneClient = some s ∧ s.clientCount = 1 ∧
      Accounted s ∧ Accounted s.closeAll := by
  have hfinal : (run step (Caster.start true false) oneClient).map (fun s =>
      (decide (s.pc = .top), s.clientCount)) = some (true, 1) := by
    decide +kernel
  obtain ⟨s, hrun, heq⟩ := Option.map_eq_some_iff.mp hfinal
  obtain ⟨hpc, hcount⟩ := Prod.mk.inj heq
  refine ⟨s, hrun, hcount, client_sockets ⟨true, false, rfl⟩ ⟨oneClient, hrun⟩ ?_⟩
  rw [of_decide_eq_true hpc]
  exact trivial

end GpsBase.Push.ClientSockets
