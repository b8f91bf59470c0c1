import GpsBase.Lib.Wire

/-! # The send loops

`NtripPushClient::send_all` and `LocalCaster::send_all` are one loop with different limits: they hand
what is left to `send`, wait in `select` when the socket is full, and give up after too many stalls
or an error. A `SendAll` is a call in progress, between two calls of the socket library. `handed` is
what the call has handed to the socket so far. -/

namespace GpsBase.Push.SendLoop

/-! ### The code -/

/-- What `send` answers: a count of bytes, or −1 with an `errno`. -/
inductive SendAnswer
  | sent (count : ℕ)
  | eintr
  | eagain
  | failed
  deriving DecidableEq, Repr

/-- What `select` answers: ready, 0 after the time-out, or −1 with an `errno`. -/
inductive SelectAnswer
  | ready
  | timeout
  | eintr
  | failed
  deriving DecidableEq, Repr

/-- The next thing a call does. -/
inductive Point
  | head
  | send
  | select
  | returned (ok : Bool)
  deriving DecidableEq, Repr

/-- A call of `send_all` in progress. -/
structure SendAll where
  data : List UInt8
  offset : ℕ := 0
  stalls : ℕ := 0
  point : Point := .head
  handed : List UInt8 := []
  deriving DecidableEq, Repr

namespace SendAll

def left (l : SendAll) : List UInt8 := l.data.drop l.offset

/-- `while (offset < length && go)`, and the value returned after the loop. -/
def loopHead (l : SendAll) (go afterLoop : Bool) : SendAll :=
  if l.offset < l.data.length ∧ go = true then { l with point := .send }
  else { l with point := .returned afterLoop }

/-- The branches on the answer of `send`. No answer counts more bytes than were left. -/
def onSend (l : SendAll) : SendAnswer → Option SendAll
  | .sent 0 => some { l with point := .returned false }
  | .sent (n + 1) =>
    if n + 1 ≤ l.left.length then
      some { l with offset := l.offset + (n + 1), stalls := 0, point := .head,
                    handed := l.handed ++ l.left.take (n + 1) }
    else none
  | .eintr => some { l with point := .head }
  | .eagain => some { l with point := .select }
  | .failed => some { l with point := .returned false }

def stall (l : SendAll) (limit : ℕ) : SendAll :=
  if l.stalls + 1 < limit then { l with stalls := l.stalls + 1, point := .head }
  else { l with stalls := l.stalls + 1, point := .returned false }

/-- The bytes an answer of `send` has taken. -/
def chunk (l : SendAll) : SendAnswer → List UInt8
  | .sent n => l.left.take n
  | _ => []

end SendAll

/-- `kMaxSendStallSeconds` of the push client. -/
def kMaxSendStallSeconds : ℕ := 8

/-- `NtripPushClient::send_all` at the head of its loop. `go` is
`socket_ >= 0 && !suspended_ && !stopping_`. -/
def ntripHead (l : SendAll) (go : Bool) : SendAll := l.loopHead go (l.offset == l.data.length)

/-- `NtripPushClient::send_all` after `select`. -/
def ntripSelect (l : SendAll) : SelectAnswer → SendAll
  | .ready => { l with point := .head }
  | .eintr => { l with point := .head }
  | .failed => { l with point := .returned false }
  | .timeout => l.stall kMaxSendStallSeconds

/-- `LocalCaster::send_all` at the head of its loop. -/
def casterHead (l : SendAll) : SendAll := l.loopHead true true

/-- `LocalCaster::send_all` after `select`: an error counts as a stall. -/
def casterSelect (l : SendAll) : SelectAnswer → SendAll
  | .ready => { l with point := .head }
  | .eintr => { l with point := .head }
  | .failed => l.stall 10
  | .timeout => l.stall 10

/-! ### What a call has done -/

/-- A call has handed over its first `offset` bytes, has bytes left while it waits for the socket,
and returns true exactly at the end. -/
structure Exact (l : SendAll) : Prop where
  handed_eq : l.handed = l.data.take l.offset
  le_length : l.offset ≤ l.data.length
  waiting : l.point = .send ∨ l.point = .select → l.offset < l.data.length
  returned : ∀ ok, l.point = .returned ok → (ok = true ↔ l.offset = l.data.length)

theorem exact_new (data : List UInt8) : Exact { data := data } where
  handed_eq := rfl
  le_length := Nat.zero_le _
  waiting := by rintro (h | h) <;> cases h
  returned := by rintro ok ⟨⟩

theorem Exact.toHead {l : SendAll} (hl : Exact l) : Exact { l with point := .head } :=
  ⟨hl.handed_eq, hl.le_length, (by rintro (h | h) <;> cases h), by rintro ok ⟨⟩⟩

theorem Exact.giveUp {l : SendAll} (hl : Exact l) (hlt : l.offset < l.data.length) :
    Exact { l with point := .returned false } := by
  refine ⟨hl.handed_eq, hl.le_length, (by rintro (h | h) <;> cases h), ?_⟩
  rintro ok ⟨⟩
  exact iff_of_false Bool.false_ne_true hlt.ne

theorem Exact.stall {l : SendAll} (hl : Exact l) (hlt : l.offset < l.data.length) (limit : ℕ) :
    Exact (l.stall limit) := by
  have hl' : Exact { l with stalls := l.stalls + 1 } :=
    ⟨hl.handed_eq, hl.le_length, hl.waiting, hl.returned⟩
  unfold SendAll.stall
  split_ifs
  · exact hl'.toHead
  · exact hl'.giveUp hlt

theorem Exact.loopHead {l : SendAll} (hl : Exact l) {go afterLoop : Bool}
    (h : ¬ (l.offset < l.data.length ∧ go = true) →
      (afterLoop = true ↔ l.offset = l.data.length)) : Exact (l.loopHead go afterLoop) := by
  unfold SendAll.loopHead
  split_ifs with hgo
  · exact ⟨hl.handed_eq, hl.le_length, fun _ => hgo.1, by rintro ok ⟨⟩⟩
  · refine ⟨hl.handed_eq, hl.le_length, (by rintro (h | h) <;> cases h), ?_⟩
    rintro ok ⟨⟩
    exact h hgo

theorem Exact.onSend {l l' : SendAll} (hl : Exact l) (hp : l.point = .send) {a : SendAnswer}
    (h : l.onSend a = some l') : Exact l' := by
  have hlt := hl.waiting (Or.inl hp)
  rcases a with (_ | n) | _ | _ | _
  · cases h
    exact hl.giveUp hlt
  · rw [SendAll.onSend] at h
    split_ifs at h with hn
    cases h
    rw [SendAll.left, List.length_drop] at hn
    refine ⟨?_, by simp only; omega, (by rintro (h | h) <;> cases h), by rintro ok ⟨⟩⟩
    simp only [SendAll.left]
    rw [hl.handed_eq, ← List.take_add]
  · cases h
    exact hl.toHead
  · cases h
    exact ⟨hl.handed_eq, hl.le_length, fun _ => hlt, by rintro ok ⟨⟩⟩
  · cases h
    exact hl.giveUp hlt

theorem Exact.ntripHead {l : SendAll} (hl : Exact l) (go : Bool) : Exact (ntripHead l go) :=
  hl.loopHead fun _ => beq_iff_eq

theorem Exact.casterHead {l : SendAll} (hl : Exact l) : Exact (casterHead l) := by
  refine hl.loopHead fun h => iff_of_true rfl ?_
  have := hl.le_length
  simp only [and_true] at h
  omega

theorem Exact.ntripSelect {l : SendAll} (hl : Exact l) (hp : l.point = .select)
    (a : SelectAnswer) : Exact (ntripSelect l a) := by
  have hlt := hl.waiting (Or.inr hp)
  cases a with
  | ready => exact hl.toHead
  | timeout => exact hl.stall hlt _
  | eintr => exact hl.toHead
  | failed => exact hl.giveUp hlt

theorem Exact.casterSelect {l : SendAll} (hl : Exact l) (hp : l.point = .select)
    (a : SelectAnswer) : Exact (casterSelect l a) := by
  have hlt := hl.waiting (Or.inr hp)
  cases a with
  | ready => exact hl.toHead
  | timeout => exact hl.stall hlt _
  | eintr => exact hl.toHead
  | failed => exact hl.stall hlt _

/-- **A call that has returned returned true exactly if it handed over all its bytes.** -/
theorem Exact.ok_iff {l : SendAll} (hl : Exact l) {ok : Bool} (hp : l.point = .returned ok) :
    ok = true ↔ l.handed = l.data := by
  rw [hl.returned ok hp, hl.handed_eq]
  constructor
  · intro h
    rw [h, List.take_length]
  · intro h
    have hlen := congrArg List.length h
    rw [List.length_take] at hlen
    have := hl.le_length
    omega

/-! ### What a step leaves as it was -/

theorem loopHead_data (l : SendAll) (go afterLoop : Bool) :
    (l.loopHead go afterLoop).data = l.data ∧ (l.loopHead go afterLoop).offset = l.offset := by
  unfold SendAll.loopHead
  split_ifs <;> exact ⟨rfl, rfl⟩

theorem stall_data (l : SendAll) (limit : ℕ) :
    (l.stall limit).data = l.data ∧ (l.stall limit).offset = l.offset := by
  unfold SendAll.stall
  split_ifs <;> exact ⟨rfl, rfl⟩

theorem ntripSelect_data (l : SendAll) (a : SelectAnswer) :
    (ntripSelect l a).data = l.data ∧ (ntripSelect l a).offset = l.offset := by
  cases a
  case timeout => exact stall_data l _
  all_goals exact ⟨rfl, rfl⟩

theorem casterSelect_data (l : SendAll) (a : SelectAnswer) :
    (casterSelect l a).data = l.data ∧ (casterSelect l a).offset = l.offset := by
  cases a
  case timeout => exact stall_data l _
  case failed => exact stall_data l _
  all_goals exact ⟨rfl, rfl⟩

theorem onSend_data {l l' : SendAll} {a : SendAnswer} (h : l.onSend a = some l') :
    l'.data = l.data ∧ l'.offset = l.offset + (l.chunk a).length ∧
      l.chunk a <+: l.data.drop l.offset := by
  rcases a with (_ | n) | _ | _ | _
  · cases h
    exact ⟨rfl, rfl, List.nil_prefix⟩
  · rw [SendAll.onSend] at h
    split_ifs at h with hn
    cases h
    refine ⟨rfl, ?_, List.take_prefix _ _⟩
    rw [SendAll.chunk, List.length_take, Nat.min_eq_left hn]
  all_goals
    cases h
    exact ⟨rfl, rfl, List.nil_prefix⟩

end GpsBase.Push.SendLoop
