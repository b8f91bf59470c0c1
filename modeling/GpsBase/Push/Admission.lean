import GpsBase.Push.ClientSockets

/-! # Who is admitted

`accept_client` decides on what one call of `recv` returns. A request comes in segments, some of which are
there when `recv` is called; if there is none it waits for the first. The run of `accept_client` from the
call of `accept` on, with the other tasks in between, admits the client exactly if the start of the request
is in these bytes (`admitted_iff`), so it does what it does for a request in one piece exactly if they are
no fewer than that start has (`admitted_same_iff`). -/

namespace GpsBase.Push.Admission

open GpsBase.Lib.Machine GpsBase.Push.SendLoop GpsBase.Push.LocalCaster
open GpsBase.Lib.CText (ascii)
open GpsBase.Push.CasterWire (exact_sendAllStep sendAllStep_data)
open GpsBase.Push.ClientSockets (free_of_freeSlot)
open scoped List

/-! ### Delivery -/

/-- A request as it comes: its segments, and how many of them are there when `recv` is called. -/
structure Delivery where
  segments : List (List UInt8)
  ready : ℕ
  nonempty : ∀ segment ∈ segments, segment ≠ []

namespace Delivery

def request (d : Delivery) : List UInt8 := d.segments.flatten

/-- The bytes that `recv` finds: without a segment it waits for the first. -/
def found (d : Delivery) : List UInt8 := (d.segments.take (max 1 d.ready)).flatten

/-- A request that begins as it should, in one piece. -/
def whole (d : Delivery) (h : requestPrefix <+: d.request) : Delivery where
  segments := [d.request]
  ready := 1
  nonempty := by
    intro segment hmem hnil
    have hlength := h.length_le
    have hpos : 0 < requestPrefix.length := by decide +kernel
    rw [← List.mem_singleton.mp hmem, hnil, List.length_nil] at hlength
    omega

theorem found_whole (d : Delivery) (h : requestPrefix <+: d.request) : (d.whole h).found = d.request := by
  simp [found, whole]

theorem found_prefix (d : Delivery) : d.found <+: d.request :=
  ⟨(d.segments.drop (max 1 d.ready)).flatten, by
    unfold found request
    rw [← List.flatten_append, List.take_append_drop]⟩

end Delivery

/-- The start of a request is in the bytes that were received exactly if they are as many. -/
theorem prefix_received_iff {request found : List UInt8} (hrequest : requestPrefix <+: request)
    (hfound : found <+: request) :
    requestPrefix.isPrefixOf (found.take 511) = true ↔ requestPrefix.length ≤ found.length := by
  have hlength : requestPrefix.length ≤ 511 := by decide +kernel
  rw [List.isPrefixOf_iff_prefix]
  constructor
  · intro h
    exact h.length_le.trans (List.take_prefix 511 found).length_le
  · intro h
    refine List.prefix_of_prefix_length_le hrequest ((List.take_prefix 511 found).trans hfound) ?_
    rw [List.length_take]
    omega

/-! ### The run of `accept_client` -/

/-- Within `accept_client`, no `send_all` having given up. -/
def Going (s : Caster) (_ : Input) : Prop :=
  s.pc ≠ .receive ∧ ∀ fd slot ipv4 call, s.pc = .sendReply fd slot ipv4 call → call.point ≠ .returned false

/-- A run of `accept_client` for a client that delivers a request, the sends being successful. -/
def Serves (d : Delivery) (s s' : Caster) : Prop :=
  s.pc = .accept ∧ s'.pc = .receive ∧ ∃ e ipv4 t is, e.incoming = some (ipv4, d.found) ∧
    s.work e = some t ∧ Along step Going t is ∧ run step t is = some s'

/-- The client is answered ICY 200 OK, and its socket is kept in a slot that was free. -/
def Admitted (s s' : Caster) : Prop :=
  ∃ slot, s.out.clients slot = none ∧ s'.out.clients slot = some s.out.opened ∧
    s'.returns = s.returns ++ [⟨icyResponse, icyResponse, true⟩]

/-- **What holds within `accept_client`**, begun in `s` with the bytes received. -/
def Serving (s : Caster) (received : List UInt8) (t : Caster) : Prop :=
  match t.pc with
  | .request fd _ request =>
    fd = s.out.opened ∧ request = received ∧ t.out.clients = s.out.clients ∧ t.returns = s.returns
  | .sendReply fd slot _ call =>
    requestPrefix.isPrefixOf received = true ∧ fd = s.out.opened ∧ s.out.clients slot = none ∧ Exact call ∧
      call.data = icyResponse ∧ t.out.clients = s.out.clients ∧ t.returns = s.returns
  | .sendTable _ _ => requestPrefix.isPrefixOf received = false ∧ t.out.clients = s.out.clients
  | .receive =>
    if requestPrefix.isPrefixOf received = true then Admitted s t else t.out.clients = s.out.clients
  | _ => False

variable {s t t' : Caster} {received : List UInt8}

theorem freeSlot_congr {o o' : Outbox} (h : o'.clients = o.clients) : o'.freeSlot = o.freeSlot := by
  unfold Outbox.freeSlot
  rw [h]

theorem Serving.same (h : Serving s received t) (hpc : t'.pc = t.pc) (hclients : t'.out.clients = t.out.clients)
    (hreturns : t'.returns = t.returns) : Serving s received t' := by
  unfold Serving Admitted at h ⊢
  rw [hpc, hclients, hreturns]
  exact h

theorem serving_onRequest {fd : ℕ} {ipv4 : UInt32} {request : List UInt8} (hfree : s.out.freeSlot ≠ none)
    (hpc : t.pc = .request fd ipv4 request) (h : Serving s received t) :
    Serving s received (t.onRequest fd ipv4 request) := by
  unfold Serving at h
  rw [hpc] at h
  obtain ⟨rfl, rfl, hclients, hreturns⟩ := h
  unfold Caster.onRequest
  split_ifs with hstart
  · rw [freeSlot_congr hclients]
    rcases hslot : s.out.freeSlot with _ | slot
    · exact absurd hslot hfree
    · exact ⟨hstart, rfl, free_of_freeSlot hslot, exact_new _, rfl, hclients, hreturns⟩
  · exact ⟨Bool.eq_false_iff.mpr hstart, hclients⟩

theorem serving_replyStep {e : Env} {fd : ℕ} {slot : Slot} {ipv4 : UInt32} {call : SendAll}
    (hpc : t.pc = .sendReply fd slot ipv4 call) (h : Serving s received t) (hgo : call.point ≠ .returned false)
    (ht : t.replyStep e fd slot ipv4 call = some t') : Serving s received t' := by
  unfold Serving at h
  rw [hpc] at h
  obtain ⟨hstart, rfl, hfree, hexact, hdata, hclients, hreturns⟩ := h
  unfold Caster.replyStep at ht
  split at ht
  · next hpoint =>
    cases ht
    have hhanded := (hexact.ok_iff hpoint).mp rfl
    unfold Serving
    refine (if_pos hstart).mpr ⟨slot, hfree, Function.update_self _ _ _, ?_⟩
    show t.returns ++ [⟨call.data, call.handed, true⟩] = _
    rw [hreturns, hhanded, hdata]
  · next hpoint => exact absurd hpoint hgo
  · obtain ⟨next, hnext, rfl⟩ := Option.map_eq_some_iff.mp ht
    exact ⟨hstart, rfl, hfree, exact_sendAllStep hexact hnext, (sendAllStep_data hnext).1.trans hdata, hclients,
      hreturns⟩

theorem serving_tableStep {e : Env} {fd : ℕ} {call : SendAll} (hpc : t.pc = .sendTable fd call)
    (h : Serving s received t) (ht : t.tableStep e fd call = some t') : Serving s received t' := by
  unfold Serving at h
  rw [hpc] at h
  obtain ⟨hstart, hclients⟩ := h
  unfold Caster.tableStep at ht
  split at ht
  · cases ht
    exact (if_neg (by simp [hstart])).mpr hclients
  · obtain ⟨next, -, rfl⟩ := Option.map_eq_some_iff.mp ht
    exact ⟨hstart, hclients⟩

/-- **A step** within `accept_client`, of the worker or of another task. -/
theorem serving_step (hfree : s.out.freeSlot ≠ none) {i : Input} (h : Serving s received t) (hgo : Going t i)
    (ht : step t i = some t') : Serving s received t' := by
  rcases i with e | data | _ | suspended | _ | _ | us
  · -- the worker
    have hwork : t.work e = some t' := ht
    rcases hpc : t.pc with _ | _ | _ | _ | _ | _ | _ | _ | _ | ⟨fd, ip, req⟩ | ⟨fd, call⟩ |
      ⟨fd, slot, ip, call⟩ | _ | i | ⟨slot, call⟩ | wake | _ | _
    case request =>
      rw [Caster.work, hpc] at hwork
      cases hwork
      exact serving_onRequest hfree hpc h
    case sendTable =>
      rw [Caster.work, hpc] at hwork
      exact serving_tableStep hpc h hwork
    case sendReply =>
      rw [Caster.work, hpc] at hwork
      exact serving_replyStep hpc h (hgo.2 fd slot ip call hpc) hwork
    case receive => exact absurd hpc hgo.1
    all_goals
      unfold Serving at h
      rw [hpc] at h
      exact h.elim
  · have hpush : t.push data = some t' := ht
    unfold Caster.push at hpush
    split_ifs at hpush <;> cases hpush <;> exact h
  · have hproduce : t.produce = some t' := ht
    unfold Caster.produce at hproduce
    split at hproduce
    · cases hproduce
    · cases hproduce
      exact h
    · split_ifs at hproduce <;> cases hproduce <;> exact h
  · cases ht
    exact h
  · have hreset : t.setReset = some t' := ht
    unfold Caster.setReset at hreset
    split_ifs at hreset
    cases hreset
    exact h
  · cases ht
    exact h
  · cases ht
    exact h

theorem serving_accept {d : Delivery} {e : Env} {ipv4 : UInt32} (hpc : s.pc = .accept)
    (hin : e.incoming = some (ipv4, d.found)) (ht : s.work e = some t) :
    Serving s (d.found.take 511) t := by
  rw [Caster.work, hpc] at ht
  dsimp only at ht
  rw [hin] at ht
  cases ht
  exact ⟨rfl, rfl, rfl, rfl⟩

/-- **The client is admitted exactly if the start of its request was received.** -/
theorem admitted_iff {d : Delivery} {s s' : Caster} (hfree : s.out.freeSlot ≠ none) (h : Serves d s s') :
    Admitted s s' ↔ requestPrefix.isPrefixOf (d.found.take 511) = true := by
  obtain ⟨hpc, hpc', e, ipv4, t, is, hin, ht, hgoing, hrun⟩ := h
  have hserving : Serving s (d.found.take 511) s' :=
    run_invariant_along (fun t i t' => serving_step hfree) is (serving_accept hpc hin ht) hgoing hrun
  unfold Serving at hserving
  rw [hpc'] at hserving
  dsimp only at hserving
  split_ifs at hserving with hstart
  · exact iff_of_true hserving hstart
  · refine iff_of_false ?_ hstart
    rintro ⟨slot, hnone, hsome, -⟩
    rw [hserving, hnone] at hsome
    cases hsome

/-! ### Such runs -/

/-- What `send` answers that takes all the bytes. -/
def taking (d : Delivery) (data : List UInt8) : Env := { incoming := some (0, d.found), send := .sent data.length }

theorem sendAllStep_taking (d : Delivery) {data : List UInt8} (h : data ≠ []) :
    Caster.sendAllStep (taking d data) { data := data } = some { data := data, point := .send } ∧
      Caster.sendAllStep (taking d data) { data := data, point := .send } =
        some { data := data, offset := data.length, handed := data } ∧
      Caster.sendAllStep (taking d data) { data := data, offset := data.length, handed := data } =
        some { data := data, offset := data.length, handed := data, point := .returned true } := by
  have hpos : 0 < data.length := List.length_pos_iff.mpr h
  refine ⟨congrArg some (if_pos ⟨hpos, rfl⟩), ?_, congrArg some (if_neg (by simp))⟩
  obtain ⟨n, hn⟩ : ∃ n, data.length = n + 1 := ⟨data.length - 1, by omega⟩
  show SendAll.onSend { data := data, point := .send } (.sent data.length) = _
  rw [hn, SendAll.onSend]
  unfold SendAll.left
  rw [List.drop_zero, if_pos hn.ge, ← hn, List.take_length]
  simp

/-- `accept_client` can be carried to its end. -/
def Ends (t : Caster) : Prop :=
  ∃ s' is, s'.pc = .receive ∧ Along step Going t is ∧ run step t is = some s'

theorem ends_receive (hpc : t.pc = .receive) : Ends t := ⟨t, [], hpc, trivial, rfl⟩

theorem Ends.step {i : Input} (h : Ends t') (hgo : Going t i) (ht : step t i = some t') : Ends t := by
  obtain ⟨s', is, hpc, hgoing, hrun⟩ := h
  refine ⟨s', i :: is, hpc, ⟨hgo, fun t₁ ht₁ => ?_⟩, run_cons_eq_some.mpr ⟨t', ht, hrun⟩⟩
  obtain rfl : t' = t₁ := Option.some.inj (ht.symm.trans ht₁)
  exact hgoing

/-- **A `send_all` for which `send` takes all the bytes** goes to its end, wherever the worker is in it. -/
theorem ends_sendAll (d : Delivery) {data : List UInt8} (hne : data ≠ []) (place : SendAll → Pc)
    (hgo : ∀ (u : Caster) (call : SendAll) i, u.pc = place call → call.point ≠ .returned false → Going u i)
    (hstep : ∀ (u : Caster) (call next : SendAll) e, u.pc = place call → (∀ ok, call.point ≠ .returned ok) →
      Caster.sendAllStep e call = some next → step u (.work e) = some { u with pc := place next })
    (hlast : ∀ (u : Caster) (call : SendAll) e, u.pc = place call → call.point = .returned true →
      ∃ u', step u (.work e) = some u' ∧ u'.pc = .receive)
    (hpc : t.pc = place { data := data }) : Ends t := by
  obtain ⟨h1, h2, h3⟩ := sendAllStep_taking d hne
  refine Ends.step ?_ (hgo _ _ _ hpc (by simp)) (hstep _ _ _ _ hpc (by simp) h1)
  refine Ends.step ?_ (hgo _ _ _ rfl (by simp)) (hstep _ _ _ _ rfl (by simp) h2)
  refine Ends.step ?_ (hgo _ _ _ rfl (by simp)) (hstep _ _ _ _ rfl (by simp) h3)
  obtain ⟨u', hu', hreceive⟩ := hlast
    { t with pc := place { data := data, offset := data.length, handed := data, point := .returned true } } _
    (taking d data) rfl rfl
  exact Ends.step (ends_receive hreceive) (hgo _ _ _ rfl (by simp)) hu'

theorem ends_reply (d : Delivery) {fd : ℕ} {slot : Slot} {ipv4 : UInt32}
    (hpc : t.pc = .sendReply fd slot ipv4 { data := icyResponse }) : Ends t := by
  refine ends_sendAll d (by decide +kernel) (.sendReply fd slot ipv4) (fun u call i hu hpoint => ?_)
    (fun u call next e hu hpoint hnext => ?_) (fun u call e hu hpoint => ?_) hpc
  · refine ⟨by rw [hu]; simp, fun fd' slot' ipv4' call' h => ?_⟩
    rw [hu] at h
    cases h
    exact hpoint
  · show u.work e = _
    rw [Caster.work, hu]
    show u.replyStep e fd slot ipv4 call = _
    unfold Caster.replyStep
    split
    · next h => exact absurd h (hpoint true)
    · next h => exact absurd h (hpoint false)
    · rw [hnext]
      rfl
  · show ∃ u', u.work e = some u' ∧ _
    rw [Caster.work, hu]
    show ∃ u', u.replyStep e fd slot ipv4 call = some u' ∧ _
    unfold Caster.replyStep
    rw [hpoint]
    exact ⟨_, rfl, rfl⟩

theorem ends_table (d : Delivery) {fd : ℕ} (hpc : t.pc = .sendTable fd { data := sourceTable }) : Ends t := by
  refine ends_sendAll d (by decide +kernel) (.sendTable fd) (fun u call i hu _ => ?_)
    (fun u call next e hu hpoint hnext => ?_) (fun u call e hu hpoint => ?_) hpc
  · refine ⟨by rw [hu]; simp, fun fd' slot' ipv4' call' h => ?_⟩
    rw [hu] at h
    cases h
  · show u.work e = _
    rw [Caster.work, hu]
    show u.tableStep e fd call = _
    unfold Caster.tableStep
    split
    · next h => exact absurd h (hpoint _)
    · rw [hnext]
      rfl
  · show ∃ u', u.work e = some u' ∧ _
    rw [Caster.work, hu]
    show ∃ u', u.tableStep e fd call = some u' ∧ _
    unfold Caster.tableStep
    rw [hpoint]
    exact ⟨_, rfl, rfl⟩

theorem ends_onRequest (d : Delivery) (hfree : t.out.freeSlot ≠ none) (fd : ℕ) (ipv4 : UInt32)
    (request : List UInt8) : Ends (t.onRequest fd ipv4 request) := by
  unfold Caster.onRequest
  split_ifs with hstart
  · rcases hslot : t.out.freeSlot with _ | slot
    · exact absurd hslot hfree
    · exact ends_reply d rfl
  · exact ends_table d rfl

/-- **There is such a run for every delivery.** -/
theorem exists_serves (d : Delivery) (hpc : s.pc = .accept) (hfree : s.out.freeSlot ≠ none) :
    ∃ s', Serves d s s' := by
  have hwork : s.work (taking d []) =
      some { s with out := s.out.accept, pc := .request s.out.opened 0 (d.found.take 511) } := by
    rw [Caster.work, hpc]
    rfl
  have hends : Ends { s with out := s.out.accept, pc := .request s.out.opened 0 (d.found.take 511) } := by
    refine Ends.step (i := .work (taking d [])) ?_ ⟨by simp, fun _ _ _ _ h => by cases h⟩ rfl
    refine ends_onRequest d ?_ _ _ _
    exact hfree
  obtain ⟨s', is, hpc', hgoing, hrun⟩ := hends
  exact ⟨s', hpc, hpc', taking d [], 0, _, is, rfl, hwork, hgoing, hrun⟩

/-- **Admission and segments**: a request that begins as it should is answered as in one piece exactly if
what `recv` finds is as long as that beginning. -/
theorem admitted_same_iff {d : Delivery} (hrequest : requestPrefix <+: d.request) {s s₁ s₂ : Caster}
    (hfree : s.out.freeSlot ≠ none) (h₁ : Serves d s s₁) (h₂ : Serves (d.whole hrequest) s s₂) :
    (Admitted s s₁ ↔ Admitted s s₂) ↔ requestPrefix.length ≤ d.found.length := by
  rw [admitted_iff hfree h₁, admitted_iff hfree h₂, d.found_whole hrequest,
    prefix_received_iff hrequest d.found_prefix, prefix_received_iff hrequest (List.prefix_refl _)]
  exact iff_true_right hrequest.length_le

/-- A request in two segments, the second of which is late. -/
def splitRequest (first second : List UInt8) (hfirst : first ≠ []) (hsecond : second ≠ []) : Delivery where
  segments := [first, second]
  ready := 1
  nonempty := by
    intro segment hmem
    rcases List.mem_cons.mp hmem with rfl | hmem
    · exact hfirst
    · rw [List.mem_singleton.mp hmem]
      exact hsecond

/-- The caster without clients, about to accept one. -/
def idleCaster : Caster := { Caster.start false false with listening := true, pc := .accept }

/-- A request that is split behind its first line. -/
def splitLate : Delivery :=
  splitRequest (ascii "GET /BASE0 HTTP/1.0\r\n") (ascii "\r\n") (by decide +kernel) (by decide +kernel)

/-- A request that is split within its first line. -/
def splitEarly : Delivery :=
  splitRequest (ascii "GET /BAS") (ascii "E0 HTTP/1.0\r\n\r\n") (by decide +kernel) (by decide +kernel)

theorem idleCaster_free : idleCaster.out.freeSlot ≠ none := by decide

theorem idleCaster_reached : Reaches step (Caster.start false false) idleCaster :=
  ⟨[.work {}, .work {}, .work {}, .work {}], rfl⟩

theorem splitLate_prefix : requestPrefix <+: splitLate.request := by decide +kernel

theorem splitEarly_prefix : requestPrefix <+: splitEarly.request := by decide +kernel

theorem admitted_same_splitLate : ∃ s₁ s₂, Serves splitLate idleCaster s₁ ∧
    Serves (splitLate.whole splitLate_prefix) idleCaster s₂ ∧ (Admitted idleCaster s₁ ↔ Admitted idleCaster s₂) := by
  obtain ⟨s₁, h₁⟩ := exists_serves splitLate (s := idleCaster) rfl idleCaster_free
  obtain ⟨s₂, h₂⟩ := exists_serves (splitLate.whole splitLate_prefix) (s := idleCaster) rfl idleCaster_free
  exact ⟨s₁, s₂, h₁, h₂, (admitted_same_iff splitLate_prefix idleCaster_free h₁ h₂).mpr (by decide +kernel)⟩

/-- **The same request is admitted in one piece and refused in two.** -/
theorem splitEarly_refused : Reaches step (Caster.start false false) idleCaster ∧ ∃ s₁ s₂,
    Serves splitEarly idleCaster s₁ ∧ Serves (splitEarly.whole splitEarly_prefix) idleCaster s₂ ∧
      ¬ Admitted idleCaster s₁ ∧ Admitted idleCaster s₂ := by
  obtain ⟨s₁, h₁⟩ := exists_serves splitEarly (s := idleCaster) rfl idleCaster_free
  obtain ⟨s₂, h₂⟩ := exists_serves (splitEarly.whole splitEarly_prefix) (s := idleCaster) rfl idleCaster_free
  refine ⟨idleCaster_reached, s₁, s₂, h₁, h₂, ?_, ?_⟩
  · rw [admitted_iff idleCaster_free h₁]
    decide +kernel
  · rw [admitted_iff idleCaster_free h₂]
    decide +kernel

end GpsBase.Push.Admission
