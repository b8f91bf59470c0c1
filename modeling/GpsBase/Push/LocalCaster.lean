import GpsBase.Push.NtripPush

/-! # The local caster

`LocalCaster` as a machine, in the manner of the push client: the worker task (`run`), the task that
calls `push` and the callers of `set_suspended` and `stop` take turns in any order. -/

namespace GpsBase.Push.LocalCaster

open GpsBase.Lib.Wire GpsBase.Push.SendLoop
open GpsBase.Push.NtripPush (kMaxPacket SendCall)
open GpsBase.Lib.CText (ascii)

/-! ### Constants -/

def kMaxClients : ℕ := 8

def kQueueDepth : ℕ := 16

def kLocalMountpoint : String := "BASE0"

abbrev Slot := Fin kMaxClients

/-- The start of a request that is admitted. -/
def requestPrefix : List UInt8 := ascii "GET /" ++ ascii kLocalMountpoint ++ ascii " HTTP/"

/-- The answer to any other request. -/
def sourceTable : List UInt8 :=
  ascii "SOURCETABLE 200 OK\r\nContent-Type: text/plain\r\n\r\nSTR;" ++ ascii kLocalMountpoint ++
    ascii ";GPS Base;RTCM 3.2;" ++
    ascii "1005(5),1077(1),1087(1),1097(1),1117(1),1127(1),1137(1),1230(30);" ++
    ascii "2;GPS+GLO+GAL+QZSS+BDS+NAVIC;NONE;0;0;N;N;0;\r\nENDSOURCETABLE\r\n"

/-- The answer to a request that is admitted. -/
def icyResponse : List UInt8 := ascii "ICY 200 OK\r\n\r\n"

/-! ### The machine -/

/-- Where the worker is in `run`. -/
inductive Pc
  | top
  | checkSuspended
  | suspendedClose
  | suspendedReset
  | checkReset
  | resetClose
  | resetQueue
  | checkListener
  | accept
  | request (fd : ℕ) (ipv4 : UInt32) (request : List UInt8)
  | sendTable (fd : ℕ) (call : SendAll)
  | sendReply (fd : ℕ) (slot : Slot) (ipv4 : UInt32) (call : SendAll)
  | receive
  | broadcast (i : ℕ)
  | sending (slot : Slot) (call : SendAll)
  | delayed (wake : ℤ)
  | finalClose
  | exited
  deriving DecidableEq, Repr

/-- Where a call of `push` is. -/
inductive PushPc
  | idle
  | checkSuspended (data : List UInt8)
  | send (data : List UInt8)
  deriving DecidableEq, Repr

/-- The outcome of `open_listener`. -/
inductive ListenAnswer
  | listening
  | noSocket
  | bindFailed
  deriving DecidableEq, Repr

/-- The queue, the clients' descriptors and the packet being sent, with their record. Descriptors are
numbered in the order they are accepted, and `closes` lists those closed. -/
structure Outbox where
  queue : List (Packet UInt8) := []
  clients : Slot → Option ℕ := fun _ => none
  packet : Packet UInt8 := ⟨0, []⟩
  accepted : List (List UInt8) := []
  links : ℕ → Link UInt8 := fun _ => {}
  opened : ℕ := 0
  closes : List ℕ := []

namespace Outbox

/-- The descriptor is a client's. -/
def Held (o : Outbox) (fd : ℕ) : Prop := ∃ i, o.clients i = some fd

instance (o : Outbox) (fd : ℕ) : Decidable (o.Held fd) :=
  inferInstanceAs (Decidable (∃ i, o.clients i = some fd))

/-- `close` of a descriptor. -/
def close (o : Outbox) (fd : ℕ) : Outbox :=
  { o with links := Function.update o.links fd (o.links fd).close, closes := o.closes ++ [fd] }

/-- Apply an operation to the link of a descriptor. -/
def onLink (o : Outbox) (fd : ℕ) (f : Link UInt8 → Link UInt8) : Outbox :=
  { o with links := Function.update o.links fd (f (o.links fd)) }

/-- `clients_[slot] = fd`. -/
def setClient (o : Outbox) (slot : Slot) (fd : Option ℕ) : Outbox :=
  { o with clients := Function.update o.clients slot fd }

/-- The descriptors closed by `close_clients`. -/
def closeClients (o : Outbox) : Outbox :=
  { o with clients := fun _ => none
           links := fun fd => if o.Held fd then (o.links fd).close else o.links fd
           closes := o.closes ++ (List.finRange kMaxClients).filterMap o.clients }

/-- A successful `xQueueSend`. -/
def enqueue (o : Outbox) (data : List UInt8) : Outbox :=
  { o with queue := o.queue ++ [⟨o.accepted.length, data⟩], accepted := o.accepted ++ [data] }

/-- A successful `accept`. -/
def accept (o : Outbox) : Outbox := { o with opened := o.opened + 1 }

def freeSlot (o : Outbox) : Option Slot :=
  (List.finRange kMaxClients).find? fun i => (o.clients i).isNone

/-- The count of `recount_clients`. -/
def count (o : Outbox) : ℕ := (List.finRange kMaxClients).countP fun i => (o.clients i).isSome

end Outbox

/-- `LocalCaster` with the locals of its tasks. `pendingResets` counts the calls of `set_suspended`
that have still to set `reset_clients_`. -/
structure Caster where
  out : Outbox := {}
  stopping : Bool := false
  suspended : Bool := true
  resetClients : Bool := false
  listening : Bool := false
  clientIpv4 : Slot → UInt32 := fun _ => 0
  clientCount : ℕ := 0
  pc : Pc := .top
  producer : PushPc := .idle
  pendingResets : ℕ := 0
  now : ℤ := 0
  returns : List SendCall := []

/-- What the outside answers to a step of the worker. -/
structure Env where
  listen : ListenAnswer := .listening
  incoming : Option (UInt32 × List UInt8) := none
  send : SendAnswer := .eagain
  select : SelectAnswer := .ready

namespace Caster

def recountClients (s : Caster) : Caster := { s with clientCount := s.out.count }

def closeClients (s : Caster) : Caster :=
  { s with out := s.out.closeClients, clientIpv4 := fun _ => 0 }.recountClients

def closeAll (s : Caster) : Caster := { s.closeClients with listening := false }

/-- `vTaskDelay`, at the end of a turn of the loop. -/
def delay (s : Caster) (ms : ℕ) : Caster := { s with pc := .delayed (s.now + ms * 1000) }

/-- A step inside `send_all`; `none` when it has returned. -/
def sendAllStep (e : Env) (call : SendAll) : Option SendAll :=
  match call.point with
  | .head => some (casterHead call)
  | .send => call.onSend e.send
  | .select => some (casterSelect call e.select)
  | .returned _ => none

/-- The bytes a step inside `send_all` hands to the socket. -/
def sendAllChunk (e : Env) (call : SendAll) : List UInt8 :=
  if call.point = .send then call.chunk e.send else []

/-- A call of `send_all` returns. -/
def record (s : Caster) (call : SendAll) (ok : Bool) : Caster :=
  { s with returns := s.returns ++ [⟨call.data, call.handed, ok⟩] }

/-- `accept_client` after the request is read. -/
def onRequest (s : Caster) (fd : ℕ) (ipv4 : UInt32) (request : List UInt8) : Caster :=
  if requestPrefix.isPrefixOf request then
    match s.out.freeSlot with
    | none => { s with out := s.out.close fd, pc := .receive }
    | some slot => { s with pc := .sendReply fd slot ipv4 { data := icyResponse } }
  else { s with pc := .sendTable fd { data := sourceTable } }

/-- A step of the `send_all` of the source table. -/
def tableStep (s : Caster) (e : Env) (fd : ℕ) (call : SendAll) : Option Caster :=
  match call.point with
  | .returned ok => some { s.record call ok with out := s.out.close fd, pc := .receive }
  | _ => (sendAllStep e call).map fun next => { s with pc := .sendTable fd next }

/-- A step of the `send_all` of the reply. -/
def replyStep (s : Caster) (e : Env) (fd : ℕ) (slot : Slot) (ipv4 : UInt32) (call : SendAll) :
    Option Caster :=
  match call.point with
  | .returned true =>
    some { s.record call true with
            out := s.out.setClient slot (some fd)
            clientIpv4 := Function.update s.clientIpv4 slot ipv4
            pc := .receive }.recountClients
  | .returned false => some { s.record call false with out := s.out.close fd, pc := .receive }
  | _ => (sendAllStep e call).map fun next => { s with pc := .sendReply fd slot ipv4 next }

/-- A turn of the loop of `broadcast`, up to the call of `send_all`. -/
def broadcastStep (s : Caster) (i : ℕ) : Caster :=
  if h : i < kMaxClients then
    match s.out.clients ⟨i, h⟩ with
    | none => { s with pc := .broadcast (i + 1) }
    | some fd =>
      { s with out := s.out.onLink fd (·.start s.out.packet)
               pc := .sending ⟨i, h⟩ { data := s.out.packet.data } }
  else { s with pc := .top }.recountClients

/-- A step of the `send_all` of a packet. After a failed one the client is closed at once. -/
def sendingStep (s : Caster) (e : Env) (slot : Slot) (call : SendAll) : Option Caster :=
  match s.out.clients slot with
  | none => none
  | some fd =>
    match call.point with
    | .returned true =>
      some { s.record call true with
              out := s.out.onLink fd Link.finish
              pc := .broadcast (slot + 1) }
    | .returned false =>
      some { s.record call false with
              out := ((s.out.onLink fd Link.tear).close fd).setClient slot none
              clientIpv4 := Function.update s.clientIpv4 slot 0
              pc := .broadcast (slot + 1) }
    | _ => (sendAllStep e call).map fun next =>
        { s with out := s.out.onLink fd (·.put (sendAllChunk e call)), pc := .sending slot next }

/-- A step of `run`. -/
def work (s : Caster) (e : Env) : Option Caster :=
  match s.pc with
  | .top => some { s with pc := if s.stopping then .finalClose else .checkSuspended }
  | .checkSuspended => some { s with pc := if s.suspended then .suspendedClose else .checkReset }
  | .suspendedClose => some { s.closeAll with pc := .suspendedReset }
  | .suspendedReset => some ({ s with out := { s.out with queue := [] } }.delay 200)
  | .checkReset =>
    some { s with resetClients := false
                  pc := if s.resetClients then .resetClose else .checkListener }
  | .resetClose => some { s.closeClients with pc := .resetQueue }
  | .resetQueue => some { s with out := { s.out with queue := [] }, pc := .checkListener }
  | .checkListener =>
    if s.listening then some { s with pc := .accept }
    else match e.listen with
      | .listening => some { s with listening := true, pc := .accept }
      | .noSocket => some (s.delay 5000)
      | .bindFailed => some (s.closeAll.delay 5000)
  | .accept =>
    match e.incoming with
    | none => some { s with pc := .receive }
    | some (ipv4, request) =>
      some { s with out := s.out.accept, pc := .request s.out.opened ipv4 (request.take 511) }
  | .request fd ipv4 request => some (s.onRequest fd ipv4 request)
  | .sendTable fd call => s.tableStep e fd call
  | .sendReply fd slot ipv4 call => s.replyStep e fd slot ipv4 call
  | .receive =>
    match s.out.queue with
    | [] => some { s with pc := .top }
    | p :: rest => some { s with out := { s.out with queue := rest, packet := p }, pc := .broadcast 0 }
  | .broadcast i => some (s.broadcastStep i)
  | .sending slot call => s.sendingStep e slot call
  | .delayed wake => if wake ≤ s.now then some { s with pc := .top } else none
  | .finalClose => some { s.closeAll with pc := .exited }
  | .exited => none

/-- A call of `push`, when none is in progress. -/
def push (s : Caster) (data : List UInt8) : Option Caster :=
  if s.producer = .idle then
    if data = [] then some s else some { s with producer := .checkSuspended (data.take kMaxPacket) }
  else none

/-- A step of `push`. -/
def produce (s : Caster) : Option Caster :=
  match s.producer with
  | .idle => none
  | .checkSuspended data =>
    some { s with producer := if s.suspended then .idle else .send data }
  | .send data =>
    if s.out.queue.length < kQueueDepth then
      some { s with out := s.out.enqueue data, producer := .idle }
    else some { s with producer := .idle }

/-- `set_suspended`, up to the second write. -/
def setSuspended (s : Caster) (suspended : Bool) : Caster :=
  { s with suspended := suspended
           pendingResets := if suspended then s.pendingResets + 1 else s.pendingResets }

/-- The second write of a `set_suspended`. -/
def setReset (s : Caster) : Option Caster :=
  if 0 < s.pendingResets then
    some { s with resetClients := true, pendingResets := s.pendingResets - 1 }
  else none

/-- The caster after `start`. -/
def start (suspended resetClients : Bool) : Caster :=
  { suspended := suspended, resetClients := resetClients }

end Caster

/-- A step: of the worker, of `push`, of another caller, or of the clock. -/
inductive Input
  | work (e : Env)
  | push (data : List UInt8)
  | produce
  | setSuspended (suspended : Bool)
  | setReset
  | stop
  | tick (us : ℕ)

/-- **The machine.** -/
def step (s : Caster) : Input → Option Caster
  | .work e => s.work e
  | .push data => s.push data
  | .produce => s.produce
  | .setSuspended b => some (s.setSuspended b)
  | .setReset => s.setReset
  | .stop => some { s with stopping := true }
  | .tick us => some { s with now := s.now + us }

end GpsBase.Push.LocalCaster
