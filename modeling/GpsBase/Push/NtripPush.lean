import GpsBase.Lib.CText
import GpsBase.Lib.Machine
import GpsBase.Push.SendLoop

/-! # The push client

`NtripPushClient` as a machine. The worker task (`run`), the task that calls `push`, and the callers
of `set_suspended`, `configure` and `stop` take turns in any order; a step is one access to what they
share. What the network, the clock and the random generator answer is the input of the step.

`Outbox` is the part the packets go through: the queue, the packet being sent and the socket, with a
record of the packets accepted (each with the connection that was up), of what was written on each
connection and of the connections established. The members that only `status` reads as text are left
out. -/

namespace GpsBase.Push.NtripPush

open GpsBase.Lib.Wire GpsBase.Push.SendLoop
open GpsBase.Lib.CText (ascii)

/-! ### Constants -/

def kMaxPacket : ℕ := 1200

def kQueueDepth : ℕ := 8

def kBaseRetryMs : ℕ := 10000

def kMaxRetryMs : ℕ := 120000

def kLongBackoffThreshold : ℕ := 8

def kLongBackoffMs : ℕ := 600000

def kLongBackoffJitterMs : ℕ := 120000

def kHealthyStreakUs : ℤ := 5000000

/-- `retry_delay_ms`, with the value of `esp_random`. -/
def retryDelayMs (failures random : ℕ) : ℕ :=
  if kLongBackoffThreshold ≤ failures then kLongBackoffMs + random % kLongBackoffJitterMs
  else
    let capped := max 1 (min failures 4)
    let base := min (kBaseRetryMs <<< (capped - 1)) kMaxRetryMs
    let jitter := random % 5000
    min (base + jitter) kMaxRetryMs

inductive NtripProtocol
  | kV1
  | kV2
  deriving DecidableEq, Repr

/-- The members set by the constructor, and `mbedtls_base64_encode`. -/
structure Constants where
  host : List UInt8
  port : ℕ
  protocol : NtripProtocol
  connectStaggerMs : ℕ
  base64 : List UInt8 → List UInt8

/-- The members `config_mutex_` guards. -/
structure Config where
  enabled : Bool
  mountpoint : List UInt8
  password : List UInt8

/-- The request of `connect_caster`. -/
def request (k : Constants) (mountpoint password : List UInt8) : List UInt8 :=
  match k.protocol with
  | .kV1 =>
    ascii "SOURCE " ++ password ++ ascii " /" ++ mountpoint ++
      ascii "\r\nSource-Agent: NTRIP ESP32BaseStation/2.0\r\n\r\n"
  | .kV2 =>
    ascii "POST /" ++ mountpoint ++ ascii " HTTP/1.1\r\nHost: " ++ k.host ++ ascii ":" ++
      ascii (toString k.port) ++
      ascii "\r\nNtrip-Version: Ntrip/2.0\r\nUser-Agent: NTRIP ESP32BaseStation/2.0\r\n" ++
      ascii "Authorization: Basic " ++ k.base64 (mountpoint ++ ascii ":" ++ password) ++
      ascii "\r\nContent-Type: application/octet-stream\r\nConnection: keep-alive\r\n\r\n"

/-- The caster's answers that `connect_caster` takes as success. -/
def responseAccepted (response : List UInt8) : Bool :=
  (ascii "ICY 200").isPrefixOf response || (ascii "HTTP/1.1 200").isPrefixOf response ||
    (ascii "HTTP/1.0 200").isPrefixOf response

/-! ### The outbox -/

/-- A packet put in the queue, and the connection that was up at that moment. -/
structure Accepted where
  data : List UInt8
  upOn : Option ℕ
  deriving DecidableEq

/-- `queue_`, `socket_` and the worker's `packet`, with their record. Connections are numbered in
the order they are opened; `up` says that the one on `socket_` has been established. -/
structure Outbox where
  queue : List (Packet UInt8) := []
  socket : Option ℕ := none
  packet : Packet UInt8 := ⟨0, []⟩
  accepted : List Accepted := []
  links : ℕ → Link UInt8 := fun _ => {}
  opened : ℕ := 0
  up : Bool := false
  established : ℕ := 0

namespace Outbox

def live (o : Outbox) : Option ℕ := if o.up then o.socket else none

/-- Apply an operation to the link of the socket. -/
def onLink (o : Outbox) (f : Link UInt8 → Link UInt8) : Outbox :=
  match o.socket with
  | none => o
  | some c => { o with links := Function.update o.links c (f (o.links c)) }

/-- A successful `xQueueSend`. -/
def enqueue (o : Outbox) (data : List UInt8) : Outbox :=
  { o with queue := o.queue ++ [⟨o.accepted.length, data⟩]
           accepted := o.accepted ++ [⟨data, o.live⟩] }

/-- `xQueueReceive` of the oldest packet by `push`. -/
def evict (o : Outbox) : Outbox := { o with queue := o.queue.tail }

/-- `xQueueReset`. -/
def reset (o : Outbox) : Outbox := { o with queue := [] }

/-- `xQueueReceive` of a packet by the worker, which begins to send it. -/
def receive (o : Outbox) (p : Packet UInt8) : Outbox :=
  { o with queue := o.queue.tail, packet := p }.onLink (·.start p)

def openSocket (o : Outbox) : Outbox := { o with socket := some o.opened, opened := o.opened + 1 }

/-- The caster has accepted the connection. -/
def establish (o : Outbox) : Outbox := { o with up := true, established := o.established + 1 }

/-- The socket part of `close_socket`. -/
def closeSocket (o : Outbox) : Outbox := { o.onLink Link.close with socket := none, up := false }

end Outbox

/-! ### The machine -/

/-- Where the worker is in `run`. -/
inductive Pc
  | top
  | readEnabled
  | checkSuspended (enabled : Bool)
  | suspendedClose
  | suspendedReset
  | suspendedMessage
  | checkReconnect
  | reconnectClose
  | reconnectReset
  | stagger
  | staggerMessage
  | staggerDone
  | socketCheck
  | connecting
  | readConfig
  | connectSocket (mountpoint password : List UInt8)
  | handshake (call : SendAll)
  | readResponse
  | rejected
  | establish
  | connectFailed
  | receive
  | sending (call : SendAll)
  | sendOk
  | sendFailed
  | sendClose
  | sendMessage
  | delayed (wake : ℤ)
  | finalClose
  | exited
  deriving DecidableEq, Repr

/-- Where a call of `push` is. -/
inductive PushPc
  | idle
  | checkSuspended (data : List UInt8)
  | checkConnected (data : List UInt8)
  | send (data : List UInt8)
  | evict (data : List UInt8)
  | resend (data : List UInt8)
  | returned (ok : Bool)
  deriving DecidableEq, Repr

/-- A write that a call of `set_suspended`, `configure` or `stop` has still to make. -/
inductive Write
  | resumedZero
  | resumedNow
  | reconnect
  deriving DecidableEq, Repr

/-- A call of `send_all` that has returned. -/
structure SendCall where
  data : List UInt8
  handed : List UInt8
  ok : Bool
  deriving DecidableEq

/-- `NtripPushClient` with the locals of its tasks. -/
structure Client where
  out : Outbox := {}
  stopping : Bool := false
  suspended : Bool := true
  reconnect : Bool := false
  connected : Bool := false
  config : Config := ⟨false, [], []⟩
  everConnected : Bool := false
  reconnects : ℕ := 0
  droppedBatches : ℕ := 0
  bytesSent : ℕ := 0
  connectedSinceUs : ℤ := 0
  lastSendUs : ℤ := 0
  resumedUs : ℤ := 0
  pc : Pc := .top
  failures : ℕ := 0
  healthySinceUs : ℤ := 0
  producer : PushPc := .idle
  calls : List (List Write) := []
  now : ℤ := 0
  returns : List SendCall := []

/-- What the outside answers to a step of the worker; each step reads the part it asks for. -/
structure Env where
  tcp : Bool := true
  send : SendAnswer := .eagain
  select : SelectAnswer := .ready
  response : List UInt8 := []
  random : ℕ := 0

namespace Client

def closeSocket (s : Client) : Client := { s with out := s.out.closeSocket, connected := false }

/-- `vTaskDelay`, at the end of a turn of the loop. -/
def delay (s : Client) (ms : ℕ) : Client := { s with pc := .delayed (s.now + ms * 1000) }

/-- `socket_ >= 0 && !suspended_ && !stopping_`. -/
def maySend (s : Client) : Bool := s.out.socket.isSome && !s.suspended && !s.stopping

/-- A step inside `send_all`; `none` when it has returned. -/
def sendAllStep (s : Client) (e : Env) (call : SendAll) : Option SendAll :=
  match call.point with
  | .head => some (ntripHead call s.maySend)
  | .send => call.onSend e.send
  | .select => some (ntripSelect call e.select)
  | .returned _ => none

/-- The bytes a step inside `send_all` hands to the socket. -/
def sendAllChunk (e : Env) (call : SendAll) : List UInt8 :=
  if call.point = .send then call.chunk e.send else []

/-- A call of `send_all` returns. -/
def record (s : Client) (call : SendAll) (ok : Bool) : Client :=
  { s with returns := s.returns ++ [⟨call.data, call.handed, ok⟩] }

/-- A step of the handshake's `send_all`. -/
def handshakeStep (s : Client) (e : Env) (call : SendAll) : Option Client :=
  match call.point with
  | .returned true => some { s.record call true with pc := .readResponse }
  | .returned false => some { s.record call false with pc := .rejected }
  | _ => (s.sendAllStep e call).map fun next =>
      { s with pc := .handshake next, bytesSent := s.bytesSent + (sendAllChunk e call).length }

/-- A step of a packet's `send_all`. -/
def sendingStep (s : Client) (e : Env) (call : SendAll) : Option Client :=
  match call.point with
  | .returned true => some { s.record call true with pc := .sendOk, out := s.out.onLink Link.finish }
  | .returned false =>
    some { s.record call false with pc := .sendFailed, out := s.out.onLink Link.tear }
  | _ => (s.sendAllStep e call).map fun next =>
      { s with pc := .sending next, bytesSent := s.bytesSent + (sendAllChunk e call).length
               out := s.out.onLink (·.put (sendAllChunk e call)) }

/-- A step of `run`. -/
def work (k : Constants) (s : Client) (e : Env) : Option Client :=
  match s.pc with
  | .top => some { s with pc := if s.stopping then .finalClose else .readEnabled }
  | .readEnabled => some { s with pc := .checkSuspended s.config.enabled }
  | .checkSuspended enabled =>
    some { s with pc := if s.suspended || !enabled then .suspendedClose else .checkReconnect }
  | .suspendedClose => some { s.closeSocket with pc := .suspendedReset }
  | .suspendedReset => some { s with out := s.out.reset, pc := .suspendedMessage }
  | .suspendedMessage =>
    some ({ s with connected := false, failures := 0, healthySinceUs := 0 }.delay 250)
  | .checkReconnect =>
    some { s with reconnect := false, pc := if s.reconnect then .reconnectClose else .stagger }
  | .reconnectClose => some { s.closeSocket with pc := .reconnectReset }
  | .reconnectReset =>
    some { s with out := s.out.reset, failures := 0, healthySinceUs := 0, pc := .stagger }
  | .stagger =>
    if 0 < s.resumedUs ∧ 0 < k.connectStaggerMs then
      if s.now - s.resumedUs < k.connectStaggerMs * 1000 then some { s with pc := .staggerMessage }
      else some { s with pc := .staggerDone }
    else some { s with pc := .socketCheck }
  | .staggerMessage => some ({ s with connected := false }.delay 250)
  | .staggerDone => some { s with resumedUs := 0, pc := .socketCheck }
  | .socketCheck => some { s with pc := if s.out.socket.isSome then .receive else .connecting }
  | .connecting => some { s with connected := false, pc := .readConfig }
  | .readConfig => some { s with pc := .connectSocket s.config.mountpoint s.config.password }
  | .connectSocket mountpoint password =>
    if e.tcp then
      some { s with out := s.out.openSocket
                    pc := .handshake { data := request k mountpoint password } }
    else some { s with pc := .connectFailed }
  | .handshake call => s.handshakeStep e call
  | .readResponse =>
    some { s with pc := if responseAccepted e.response then .establish else .rejected }
  | .rejected => some { s.closeSocket with pc := .connectFailed }
  | .establish =>
    some { s with out := s.out.establish, connected := true, everConnected := true
                  reconnects := if s.everConnected then s.reconnects + 1 else s.reconnects
                  connectedSinceUs := s.now, pc := .receive }
  | .connectFailed =>
    some ({ s with failures := s.failures + 1, healthySinceUs := 0 }.delay
      (retryDelayMs (s.failures + 1) e.random))
  | .receive =>
    match s.out.queue with
    | [] => some { s with pc := .top }
    | p :: _ => some { s with out := s.out.receive p, pc := .sending { data := p.data } }
  | .sending call => s.sendingStep e call
  | .sendOk =>
    let healthy := if s.healthySinceUs = 0 then s.now else s.healthySinceUs
    some { s with lastSendUs := s.now, healthySinceUs := healthy, pc := .top
                  failures := if kHealthyStreakUs ≤ s.now - healthy then 0 else s.failures }
  | .sendFailed =>
    some { s with reconnects := s.reconnects + 1, failures := s.failures + 1, healthySinceUs := 0
                  pc := .sendClose }
  | .sendClose => some { s.closeSocket with pc := .sendMessage }
  | .sendMessage => some ({ s with connected := false }.delay (retryDelayMs s.failures e.random))
  | .delayed wake => if wake ≤ s.now then some { s with pc := .top } else none
  | .finalClose => some { s.closeSocket with pc := .exited }
  | .exited => none

/-- A step of `push`. -/
def produce (s : Client) : Option Client :=
  match s.producer with
  | .idle => none
  | .checkSuspended data =>
    some { s with producer := if s.suspended then .returned false else .checkConnected data }
  | .checkConnected data =>
    some { s with producer := if s.connected then .send data else .returned false }
  | .send data =>
    if s.out.queue.length < kQueueDepth then
      some { s with out := s.out.enqueue data, producer := .returned true }
    else some { s with producer := .evict data }
  | .evict data =>
    some { s with out := s.out.evict, droppedBatches := s.droppedBatches + 1
                  producer := .resend data }
  | .resend data =>
    if s.out.queue.length < kQueueDepth then
      some { s with out := s.out.enqueue data, producer := .returned true }
    else some { s with producer := .returned true }
  | .returned _ => none

/-- A call of `push`, when none is in progress. -/
def push (s : Client) (data : List UInt8) : Option Client :=
  match s.producer with
  | .idle | .returned _ =>
    some { s with producer := if data = [] then .returned false
                              else .checkSuspended (data.take kMaxPacket) }
  | _ => none

/-- `set_suspended`: the exchange, then the writes still to make. -/
def setSuspended (s : Client) (suspended : Bool) : Client :=
  { s with suspended := suspended
           calls := s.calls ++ [if suspended then [.resumedZero, .reconnect]
                                else if s.suspended then [.resumedNow] else []] }

/-- `configure`: the guarded members, then the write still to make. -/
def configure (s : Client) (enabled : Bool) (mountpoint password : List UInt8) : Client :=
  { s with config := ⟨enabled && !mountpoint.isEmpty, mountpoint, password⟩
           calls := s.calls ++ [[.reconnect]] }

/-- `stop` up to its wait for the worker. -/
def stop (s : Client) : Client := { s with stopping := true, calls := s.calls ++ [[.reconnect]] }

def write (s : Client) : Write → Client
  | .resumedZero => { s with resumedUs := 0 }
  | .resumedNow => { s with resumedUs := s.now }
  | .reconnect => { s with reconnect := true }

/-- The next write of the `i`-th call. -/
def callStep (s : Client) (i : ℕ) : Option Client :=
  match s.calls[i]? with
  | some (w :: ws) => some ({ s with calls := s.calls.set i ws }.write w)
  | _ => none

/-- The client after `start`: the configuration in place, the queue empty, the worker at the top of
its loop. The suspension may have been lifted before. -/
def start (enabled : Bool) (mountpoint password : List UInt8) (suspended : Bool)
    (resumedUs now : ℤ) : Client where
  config := ⟨enabled && !mountpoint.isEmpty, mountpoint, password⟩
  suspended := suspended
  reconnect := true
  resumedUs := resumedUs
  now := now

end Client

/-- A step: of the worker, of `push`, of another caller, or of the clock. -/
inductive Input
  | work (e : Env)
  | push (data : List UInt8)
  | produce
  | setSuspended (suspended : Bool)
  | configure (enabled : Bool) (mountpoint password : List UInt8)
  | stop
  | call (i : ℕ)
  | tick (us : ℕ)

/-- **The machine.** -/
def step (k : Constants) (s : Client) : Input → Option Client
  | .work e => s.work k e
  | .push data => s.push data
  | .produce => s.produce
  | .setSuspended b => some (s.setSuspended b)
  | .configure enabled mountpoint password => some (s.configure enabled mountpoint password)
  | .stop => some s.stop
  | .call i => s.callStep i
  | .tick us => some { s with now := s.now + us }

end GpsBase.Push.NtripPush
