import GpsBase.Lib.Fuel
import GpsBase.Push.NtripPush

/-! # The handshake with the caster

`connect_caster` behind the connection, with every call of the socket library: the request is sent, a
response line is read, and behind an HTTP response the lines of its header. What the peer, the network and
the clock do is an environment that answers by the number of calls so far.

A line has a time limit and ends (`readLine_ends`), and its text is what has come until then
(`returns_readLine`); the sending ends as well (`sendAll_returns`). The header has no limit: it ends with
the first empty line that comes. So the calls of a handshake are bounded, over a class of peers, exactly if
the lines before that one are (`connectCaster_bounded_iff`). -/

namespace GpsBase.Push.Handshake

open GpsBase.Lib.Fuel GpsBase.Push.SendLoop GpsBase.Push.NtripPush
open GpsBase.Lib.CText (ascii)

/-! ### The outside -/

/-- What `recv` of a byte answers; `again` is −1 with `EAGAIN` or `EINTR`. -/
inductive RecvAnswer
  | byte (b : UInt8)
  | closed
  | again
  | failed
  deriving DecidableEq, Repr

/-- The answers of the socket library by the number of calls so far, `tick` the tick counter by the calls
and its own reads so far, and `go` whether the socket is open and the client neither suspended nor
stopping. -/
structure Env where
  periodMs : ℕ
  tick : ℕ → ℕ → ℕ
  send : ℕ → ℕ → SendAnswer
  selectWrite : ℕ → SelectAnswer
  selectRead : ℕ → SelectAnswer
  recv : ℕ → RecvAnswer
  go : ℕ → Bool

/-- How many socket calls were made, and how often the tick counter was read. -/
structure World where
  calls : ℕ := 0
  reads : ℕ := 0
  deriving DecidableEq, Repr

namespace World

def call (w : World) : World := { w with calls := w.calls + 1 }

def read (w : World) : World := { w with reads := w.reads + 1 }

@[simp] theorem call_calls (w : World) : w.call.calls = w.calls + 1 := rfl

@[simp] theorem call_reads (w : World) : w.call.reads = w.reads := rfl

@[simp] theorem read_calls (w : World) : w.read.calls = w.calls := rfl

@[simp] theorem read_reads (w : World) : w.read.reads = w.reads + 1 := rfl

end World

/-! ### The code -/

section

variable (env : Env)

/-- `send_all`, point by point. -/
def sendAll : ℕ → SendAll → World → Option (Bool × World)
  | 0, _, _ => none
  | fuel + 1, l, w =>
    match l.point with
    | .head => sendAll fuel (ntripHead l (env.go w.calls)) w
    | .send => (l.onSend (env.send w.calls l.left.length)).bind fun l => sendAll fuel l w.call
    | .select => sendAll fuel (ntripSelect l (env.selectWrite w.calls)) w.call
    | .returned ok => some (ok, w)

/-- What a round of `read_line` gets: a byte, nothing yet, or nothing any more. -/
inductive Poll
  | byte (b : UInt8)
  | again
  | stop
  deriving DecidableEq, Repr

/-- The calls of a round of `read_line`. -/
def poll (w : World) : Poll × World :=
  match env.selectRead w.calls with
  | .timeout => (.again, w.call)
  | .eintr => (.again, w.call)
  | .failed => (.stop, w.call)
  | .ready =>
    let w := w.call
    match env.recv w.calls with
    | .byte b => (.byte b, w.call)
    | .closed => (.stop, w.call)
    | .again => (.again, w.call)
    | .failed => (.stop, w.call)

/-- The line with one byte more. -/
def push (line : List UInt8) (byte : UInt8) : List UInt8 :=
  if byte ≠ 13 ∧ line.length < 255 then line ++ [byte] else line

/-- The loop of `read_line`; `TickType_t` has 32 bits. -/
def readLoop (timeoutMs started : ℕ) : ℕ → List UInt8 → World → Option (List UInt8 × World)
  | 0, _, _ => none
  | fuel + 1, line, w =>
    if (env.tick w.calls w.reads - started) * env.periodMs % 2 ^ 32 < timeoutMs then
      match poll env w.read with
      | (.stop, w) => some (line, w)
      | (.again, w) => readLoop timeoutMs started fuel line w
      | (.byte byte, w) =>
        if byte = 10 then some (line, w) else readLoop timeoutMs started fuel (push line byte) w
    else some (line, w.read)

def readLine (timeoutMs : ℕ) (w : World) (fuel : ℕ) : Option (List UInt8 × World) :=
  readLoop env timeoutMs (env.tick w.calls w.reads) fuel [] w.read

def drainHeaders : ℕ → World → Option World
  | 0, _ => none
  | fuel + 1, w =>
    (readLine env 3000 w fuel).bind fun (line, w) => if line = [] then some w else drainHeaders fuel w

/-- `connect_caster` on an open connection: whether it is accepted. -/
def connectCaster (k : Constants) (mountpoint password : List UInt8) (fuel : ℕ) : Option (Bool × World) :=
  (sendAll env fuel { data := request k mountpoint password } {}).bind fun (sent, w) =>
    if sent = false then some (false, w)
    else
      (readLine env 4000 w fuel).bind fun (response, w) =>
        if responseAccepted response = false then some (false, w)
        else if (ascii "HTTP/").isPrefixOf response then
          (drainHeaders env fuel w).bind fun w => some (true, w)
        else some (true, w)

end

/-! ### More fuel -/

variable {env : Env}

theorem grows_readLoop (timeoutMs started : ℕ) (line : List UInt8) (w : World) :
    Grows fun fuel => readLoop env timeoutMs started fuel line w := by
  intro fuel
  induction fuel generalizing line w with
  | zero =>
    intro a h
    cases h
  | succ fuel ih =>
    intro a h
    dsimp only at h ⊢
    unfold readLoop at h ⊢
    generalize poll env w.read = r at h ⊢
    obtain ⟨byte | _ | _, w'⟩ := r
    · dsimp only at h ⊢
      split_ifs at h ⊢ with htime hlf
      · exact h
      · exact ih _ _ a h
      · exact h
    · dsimp only at h ⊢
      split_ifs at h ⊢ with htime
      · exact ih _ _ a h
      · exact h
    · exact h

theorem grows_readLine (timeoutMs : ℕ) (w : World) : Grows (readLine env timeoutMs w) :=
  grows_readLoop timeoutMs _ _ _

theorem grows_drainHeaders (w : World) : Grows fun fuel => drainHeaders env fuel w := by
  intro fuel
  induction fuel generalizing w with
  | zero =>
    intro a h
    cases h
  | succ fuel ih =>
    intro a h
    dsimp only at h ⊢
    unfold drainHeaders at h ⊢
    obtain ⟨⟨line, w'⟩, hline, hrest⟩ := Option.bind_eq_some_iff.mp h
    refine Option.bind_eq_some_iff.mpr ⟨_, grows_readLine 3000 w fuel _ hline, ?_⟩
    dsimp only at hrest ⊢
    split_ifs at hrest ⊢ with hnil
    · exact hrest
    · exact ih w' a hrest

theorem grows_sendAll (l : SendAll) (w : World) : Grows fun fuel => sendAll env fuel l w := by
  intro fuel
  induction fuel generalizing l w with
  | zero =>
    intro a h
    cases h
  | succ fuel ih =>
    intro a h
    dsimp only at h ⊢
    unfold sendAll at h ⊢
    rcases hpoint : l.point with _ | _ | _ | ok
    · rw [hpoint] at h
      exact ih _ _ a h
    · rw [hpoint] at h
      obtain ⟨l', hl, hrest⟩ := Option.bind_eq_some_iff.mp h
      exact Option.bind_eq_some_iff.mpr ⟨l', hl, ih _ _ a hrest⟩
    · rw [hpoint] at h
      exact ih _ _ a h
    · rw [hpoint] at h
      exact h

/-! ### Lines -/

/-- **The clock**: the tick counter never goes back, moves on at least once in any `n` calls, and does not
move by half its range of milliseconds in a round of calls. -/
structure Clock (env : Env) (n : ℕ) : Prop where
  period : 0 < env.periodMs
  mono : ∀ {c c' r r' : ℕ}, c ≤ c' → r ≤ r' → env.tick c r ≤ env.tick c' r'
  advances : ∀ {c c' r r' : ℕ}, c + n ≤ c' → r ≤ r' → env.tick c r < env.tick c' r'
  steady : ∀ c r, (env.tick (c + 2) (r + 1) - env.tick c r) * env.periodMs < 2 ^ 31

theorem Clock.advances_mul {n : ℕ} (h : Clock env n) {c r : ℕ} :
    ∀ {q c' r' : ℕ}, c + n * q ≤ c' → r ≤ r' → env.tick c r + q ≤ env.tick c' r'
  | 0, c', r', hc, hr => h.mono (by omega) hr
  | q + 1, c', r', hc, hr => by
    have hq : c + n * q + n ≤ c' := by rwa [Nat.mul_succ, ← Nat.add_assoc] at hc
    have ih : env.tick c r + q ≤ env.tick (c + n * q) r' := h.advances_mul (le_refl _) hr
    have hlt := h.advances hq (le_refl r')
    omega

theorem poll_calls (w : World) : w.calls < (poll env w).2.calls ∧ (poll env w).2.calls ≤ w.calls + 2 ∧
    (poll env w).2.reads = w.reads := by
  unfold poll
  rcases env.selectRead w.calls with _ | _ | _ | _
  · dsimp only
    rcases env.recv w.call.calls with byte | _ | _ | _ <;> simp
  · simp
  · simp
  · simp

/-- The clock that shows less than the time limit has seen few calls. -/
theorem Clock.calls_lt {n : ℕ} (h : Clock env n) {timeoutMs c r c' r' : ℕ} (hr : r ≤ r')
    (hlt : (env.tick c' r' - env.tick c r) * env.periodMs < timeoutMs) : c' < c + n * timeoutMs := by
  by_contra hge
  have hadvance := h.advances_mul (q := timeoutMs) (not_lt.mp hge) hr
  have hperiod := h.period
  have hmul : timeoutMs * 1 ≤ (env.tick c' r' - env.tick c r) * env.periodMs :=
    Nat.mul_le_mul (by omega) hperiod
  omega

/-- **A round later** the time shown has not wrapped around. -/
theorem Clock.elapsed_lt {n : ℕ} (h : Clock env n) {timeoutMs c0 r0 c r c' : ℕ} (hlimit : timeoutMs ≤ 2 ^ 31)
    (hc0 : c0 ≤ c) (hr0 : r0 ≤ r) (hc : c ≤ c') (hc' : c' ≤ c + 2)
    (hlt : (env.tick c r - env.tick c0 r0) * env.periodMs < timeoutMs) :
    (env.tick c' (r + 1) - env.tick c0 r0) * env.periodMs < 2 ^ 32 := by
  have hsteady := h.steady c r
  have hstart := h.mono hc0 hr0
  have hnow := h.mono hc (by omega : r ≤ r + 1)
  have hnext := h.mono hc' (le_refl (r + 1))
  have hsplit : (env.tick c' (r + 1) - env.tick c0 r0) * env.periodMs =
      (env.tick c' (r + 1) - env.tick c r) * env.periodMs + (env.tick c r - env.tick c0 r0) * env.periodMs := by
    rw [← Nat.add_mul]
    congr 1
    omega
  have hround : (env.tick c' (r + 1) - env.tick c r) * env.periodMs ≤
      (env.tick (c + 2) (r + 1) - env.tick c r) * env.periodMs := Nat.mul_le_mul_right _ (by omega)
  omega

/-- A line takes at most this many calls. -/
def lineCalls (n timeoutMs : ℕ) : ℕ := n * timeoutMs + 1

theorem returns_readLoop {timeoutMs started : ℕ} {line : List UInt8} {w : World} {a : List UInt8 × World} :
    Returns (fun fuel => readLoop env timeoutMs started fuel line w) a ↔
      if (env.tick w.calls w.reads - started) * env.periodMs % 2 ^ 32 < timeoutMs then
        match poll env w.read with
        | (.stop, w) => (line, w) = a
        | (.again, w) => Returns (fun fuel => readLoop env timeoutMs started fuel line w) a
        | (.byte byte, w) =>
          if byte = 10 then (line, w) = a
          else Returns (fun fuel => readLoop env timeoutMs started fuel (push line byte) w) a
      else (line, w.read) = a := by
  split_ifs with htime
  · rcases hpoll : poll env w.read with ⟨byte | _ | _, w'⟩
    · dsimp only
      split_ifs with hlf
      · rw [← returns_const]
        refine returns_succ rfl fun fuel => ?_
        rw [readLoop, if_pos htime, hpoll]
        exact if_pos hlf
      · refine returns_succ rfl fun fuel => ?_
        rw [readLoop, if_pos htime, hpoll]
        exact if_neg hlf
    · refine returns_succ rfl fun fuel => ?_
      rw [readLoop, if_pos htime, hpoll]
    · dsimp only
      rw [← returns_const]
      refine returns_succ rfl fun fuel => ?_
      rw [readLoop, if_pos htime, hpoll]
  · rw [← returns_const]
    refine returns_succ rfl fun fuel => ?_
    rw [readLoop, if_neg htime]

/-- **The loop of a line ends**, from any round whose time was not over before it. -/
theorem readLoop_ends {n timeoutMs : ℕ} (h : Clock env n) (hlimit : timeoutMs ≤ 2 ^ 31) {c0 r0 : ℕ}
    (budget : ℕ) : ∀ (line : List UInt8) (w : World) (c r : ℕ), c0 + n * timeoutMs - w.calls = budget →
      c0 ≤ c → r0 ≤ r → c ≤ w.calls → w.calls ≤ c + 2 → w.reads = r + 1 →
      (env.tick c r - env.tick c0 r0) * env.periodMs < timeoutMs →
      ∃ line' w', Returns (fun fuel => readLoop env timeoutMs (env.tick c0 r0) fuel line w) (line', w') ∧
        w'.calls ≤ c0 + lineCalls n timeoutMs := by
  induction budget using Nat.strong_induction_on with
  | _ budget ih =>
    intro line w c r hbudget hc0 hr0 hc hc' hr hlt
    have hbefore := h.calls_lt hr0 hlt
    have hwrap := h.elapsed_lt hlimit hc0 hr0 hc hc' hlt
    rw [← hr] at hwrap
    have hbound : w.calls ≤ c0 + lineCalls n timeoutMs := by unfold lineCalls; omega
    have hround := fun a => @returns_readLoop env timeoutMs (env.tick c0 r0) line w a
    simp only [Nat.mod_eq_of_lt hwrap] at hround
    by_cases htime : (env.tick w.calls w.reads - env.tick c0 r0) * env.periodMs < timeoutMs
    · have hnow := h.calls_lt (by omega) htime
      obtain ⟨h1, h2, h3⟩ := @poll_calls env w.read
      simp only [if_pos htime] at hround
      generalize poll env w.read = next at h1 h2 h3 hround
      obtain ⟨byte | _ | _, w'⟩ := next
      all_goals simp only [World.read_calls, World.read_reads] at h1 h2 h3 hround
      · by_cases hlf : byte = 10
        · simp only [if_pos hlf] at hround
          exact ⟨line, w', (hround _).mpr rfl, by unfold lineCalls; omega⟩
        · simp only [if_neg hlf] at hround
          obtain ⟨line', w'', hrest, hcalls⟩ := ih _ (by omega) (push line byte) w' w.calls w.reads rfl
            (by omega) (by omega) (by omega) h2 h3 htime
          exact ⟨line', w'', (hround _).mpr hrest, hcalls⟩
      · obtain ⟨line', w'', hrest, hcalls⟩ := ih _ (by omega) line w' w.calls w.reads rfl
          (by omega) (by omega) (by omega) h2 h3 htime
        exact ⟨line', w'', (hround _).mpr hrest, hcalls⟩
      · exact ⟨line, w', (hround _).mpr rfl, by unfold lineCalls; omega⟩
    · simp only [if_neg htime] at hround
      exact ⟨line, w.read, (hround _).mpr rfl, hbound⟩

/-- **Every line is read to its end**, with a number of calls that the peer has no part in. -/
theorem readLine_ends {n timeoutMs : ℕ} (h : Clock env n) (hpos : 0 < timeoutMs) (hlimit : timeoutMs ≤ 2 ^ 31)
    (w : World) : ∃ line w', Returns (readLine env timeoutMs w) (line, w') ∧
      w'.calls ≤ w.calls + lineCalls n timeoutMs :=
  readLoop_ends h hlimit _ [] w.read w.calls w.reads rfl (le_refl _) (le_refl _) (le_refl _)
    (Nat.le_add_right _ 2) rfl (by rwa [Nat.sub_self, Nat.zero_mul])

/-! ### What a line is -/

/-- The time of a line that began at the tick `started` is not over. -/
def InTime (env : Env) (timeoutMs started : ℕ) (w : World) : Prop :=
  (env.tick w.calls w.reads - started) * env.periodMs % 2 ^ 32 < timeoutMs

/-- The bytes that come in the time of a line, up to a line feed, the end of the connection or the time
limit. -/
inductive Line (env : Env) (timeoutMs started : ℕ) : World → List UInt8 → World → Prop
  | late {w : World} (htime : ¬ InTime env timeoutMs started w) : Line env timeoutMs started w [] w.read
  | stop {w w' : World} (htime : InTime env timeoutMs started w) (hpoll : poll env w.read = (.stop, w')) :
    Line env timeoutMs started w [] w'
  | feed {w w' : World} (htime : InTime env timeoutMs started w) (hpoll : poll env w.read = (.byte 10, w')) :
    Line env timeoutMs started w [] w'
  | again {w w' w'' : World} {bytes : List UInt8} (htime : InTime env timeoutMs started w)
    (hpoll : poll env w.read = (.again, w')) (hrest : Line env timeoutMs started w' bytes w'') :
    Line env timeoutMs started w bytes w''
  | byte {w w' w'' : World} {bytes : List UInt8} {b : UInt8} (htime : InTime env timeoutMs started w)
    (hpoll : poll env w.read = (.byte b, w')) (hb : b ≠ 10) (hrest : Line env timeoutMs started w' bytes w'') :
    Line env timeoutMs started w (b :: bytes) w''

/-- A line that begins at `w`. -/
def LineFrom (env : Env) (timeoutMs : ℕ) (w : World) (bytes : List UInt8) (w' : World) : Prop :=
  Line env timeoutMs (env.tick w.calls w.reads) w.read bytes w'

def text (bytes : List UInt8) : List UInt8 := (bytes.filter (· ≠ 13)).take 255

theorem foldl_push (bytes : List UInt8) : ∀ line : List UInt8, line.length ≤ 255 →
    bytes.foldl push line = line ++ (bytes.filter (· ≠ 13)).take (255 - line.length) := by
  induction bytes with
  | nil => simp
  | cons b bytes ih =>
    intro line hline
    rw [List.foldl_cons]
    by_cases hpush : b ≠ 13 ∧ line.length < 255
    · obtain ⟨hb, hlt⟩ := hpush
      rw [show push line b = line ++ [b] from if_pos ⟨hb, hlt⟩, ih _ (by rw [List.length_append]; exact hlt),
        List.filter_cons_of_pos (by simpa using hb), List.append_assoc, List.length_append, List.length_singleton,
        show 255 - line.length = 255 - (line.length + 1) + 1 by omega, List.take_succ_cons, List.singleton_append]
    · rw [show push line b = line from if_neg hpush, ih line hline]
      by_cases hb : b = 13
      · rw [List.filter_cons_of_neg (by simpa using hb)]
      · have hfull : 255 - line.length = 0 := by
          have hlong : ¬ line.length < 255 := fun hlt => hpush ⟨hb, hlt⟩
          omega
        rw [hfull, List.take_zero, List.take_zero]

theorem Line.returns {timeoutMs started : ℕ} {w w' : World} {bytes : List UInt8}
    (h : Line env timeoutMs started w bytes w') : ∀ line,
      Returns (fun fuel => readLoop env timeoutMs started fuel line w) (bytes.foldl push line, w') := by
  induction h with
  | late htime => exact fun line => returns_readLoop.mpr ((if_neg htime).mpr rfl)
  | stop htime hpoll =>
    intro line
    refine returns_readLoop.mpr ((if_pos htime).mpr ?_)
    rw [hpoll]
    rfl
  | feed htime hpoll =>
    intro line
    refine returns_readLoop.mpr ((if_pos htime).mpr ?_)
    rw [hpoll]
    rfl
  | again htime hpoll hrest ih =>
    intro line
    refine returns_readLoop.mpr ((if_pos htime).mpr ?_)
    rw [hpoll]
    exact ih line
  | byte htime hpoll hb hrest ih =>
    intro line
    refine returns_readLoop.mpr ((if_pos htime).mpr ?_)
    rw [hpoll]
    exact (if_neg hb).mpr (ih (push line _))

theorem line_of_readLoop {timeoutMs started fuel : ℕ} : ∀ {line line' : List UInt8} {w w' : World},
    readLoop env timeoutMs started fuel line w = some (line', w') →
      ∃ bytes, Line env timeoutMs started w bytes w' ∧ line' = bytes.foldl push line := by
  induction fuel with
  | zero =>
    intro line line' w w' h
    cases h
  | succ fuel ih =>
    intro line line' w w' h
    unfold readLoop at h
    split_ifs at h with htime
    · rcases hpoll : poll env w.read with ⟨b | _ | _, w1⟩
      all_goals rw [hpoll] at h; dsimp only at h
      · split_ifs at h with hb
        · cases h
          exact ⟨[], .feed htime (hb ▸ hpoll), rfl⟩
        · obtain ⟨bytes, hline, rfl⟩ := ih h
          exact ⟨b :: bytes, .byte htime hpoll hb hline, rfl⟩
      · obtain ⟨bytes, hline, rfl⟩ := ih h
        exact ⟨bytes, .again htime hpoll hline, rfl⟩
      · cases h
        exact ⟨[], .stop htime hpoll, rfl⟩
    · cases h
      exact ⟨[], .late htime, rfl⟩

theorem returns_readLine {timeoutMs : ℕ} {w w' : World} {line : List UInt8} :
    Returns (readLine env timeoutMs w) (line, w') ↔ ∃ bytes, LineFrom env timeoutMs w bytes w' ∧ line = text bytes := by
  have htext : ∀ bytes : List UInt8, bytes.foldl push [] = text bytes := fun bytes => foldl_push bytes [] (by simp)
  constructor
  · rintro ⟨fuel, h⟩
    obtain ⟨bytes, hline, hfold⟩ := line_of_readLoop h
    exact ⟨bytes, hline, hfold.trans (htext bytes)⟩
  · rintro ⟨bytes, hline, rfl⟩
    rw [← htext]
    exact hline.returns []

theorem text_eq_nil {bytes : List UInt8} : text bytes = [] ↔ ∀ b ∈ bytes, b = 13 := by
  unfold text
  rw [List.take_eq_nil_iff, List.filter_eq_nil_iff]
  simp

theorem poll_calls_lt {w w' : World} {next : Poll} (h : poll env w.read = (next, w')) : w.calls < w'.calls := by
  have hcalls := (@poll_calls env w.read).1
  rwa [h] at hcalls

theorem Line.calls_le {timeoutMs started : ℕ} {w w' : World} {bytes : List UInt8}
    (h : Line env timeoutMs started w bytes w') : w.calls ≤ w'.calls ∧ (bytes ≠ [] → w.calls < w'.calls) := by
  induction h with
  | late htime => exact ⟨le_refl _, fun h => absurd rfl h⟩
  | stop htime hpoll => exact ⟨(poll_calls_lt hpoll).le, fun h => absurd rfl h⟩
  | feed htime hpoll => exact ⟨(poll_calls_lt hpoll).le, fun h => absurd rfl h⟩
  | again htime hpoll hrest ih =>
    have hlt := lt_of_lt_of_le (poll_calls_lt hpoll) ih.1
    exact ⟨hlt.le, fun _ => hlt⟩
  | byte htime hpoll hb hrest ih =>
    have hlt := lt_of_lt_of_le (poll_calls_lt hpoll) ih.1
    exact ⟨hlt.le, fun _ => hlt⟩

/-! ### The request -/

/-- **The socket**: it takes no more than it is given, no signal interrupts its calls, and a socket that is
ready to be written takes a byte or fails. -/
structure Socket (env : Env) : Prop where
  fits : ∀ c n k, env.send c n = .sent k → k ≤ n
  send : ∀ c n, env.send c n ≠ .eintr
  select : ∀ c, env.selectWrite c ≠ .eintr
  ready : ∀ c n, env.selectWrite c = .ready → env.send (c + 1) n ≠ .eagain

/-- A call of `send_all` returns before so many calls are made. -/
def SendReturns (env : Env) (l : SendAll) (w : World) (calls : ℕ) : Prop :=
  ∃ ok w', Returns (fun fuel => sendAll env fuel l w) (ok, w') ∧ w'.calls ≤ calls

theorem sendReturns_returned {l : SendAll} {ok : Bool} (h : l.point = .returned ok) (w : World) {calls : ℕ}
    (hcalls : w.calls ≤ calls) : SendReturns env l w calls := by
  refine ⟨ok, w, ⟨1, ?_⟩, hcalls⟩
  show sendAll env (0 + 1) l w = _
  unfold sendAll
  rw [h]

theorem sendReturns_head {l : SendAll} (h : l.point = .head) {w : World} {calls : ℕ}
    (hnext : SendReturns env (ntripHead l (env.go w.calls)) w calls) : SendReturns env l w calls := by
  obtain ⟨ok, w', hret, hcalls⟩ := hnext
  refine ⟨ok, w', (returns_succ rfl fun fuel => ?_).mpr hret, hcalls⟩
  rw [sendAll, h]

theorem sendReturns_send {l l' : SendAll} (h : l.point = .send) {w : World}
    (hsend : l.onSend (env.send w.calls l.left.length) = some l') {calls : ℕ}
    (hnext : SendReturns env l' w.call calls) : SendReturns env l w calls := by
  obtain ⟨ok, w', hret, hcalls⟩ := hnext
  refine ⟨ok, w', (returns_succ rfl fun fuel => ?_).mpr hret, hcalls⟩
  rw [sendAll, h, hsend]
  rfl

theorem sendReturns_select {l : SendAll} (h : l.point = .select) {w : World} {calls : ℕ}
    (hnext : SendReturns env (ntripSelect l (env.selectWrite w.calls)) w.call calls) :
    SendReturns env l w calls := by
  obtain ⟨ok, w', hret, hcalls⟩ := hnext
  refine ⟨ok, w', (returns_succ rfl fun fuel => ?_).mpr hret, hcalls⟩
  rw [sendAll, h]

/-- A byte of the request takes at most this many calls. -/
def byteCalls : ℕ := 19

section

variable (hsocket : Socket env) {m : ℕ}
include hsocket

/-- **A socket that does not refuse** takes a byte, or the request is given up. -/
theorem sendReturns_taken {l : SendAll} {w : World}
    (ih : ∀ (l : SendAll) (w : World), l.left.length < m → l.point = .head → l.stalls = 0 →
      SendReturns env l w (w.calls + byteCalls * l.left.length))
    (hpoint : l.point = .send) (hm : l.left.length = m) (hpos : 0 < m)
    (hsend : env.send w.calls l.left.length ≠ .eagain) :
    SendReturns env l w (w.calls + 1 + byteCalls * (m - 1)) := by
  rcases hanswer : env.send w.calls l.left.length with (_ | k) | _ | _ | _
  · exact sendReturns_send hpoint (congrArg l.onSend hanswer)
      (sendReturns_returned rfl _ (by simp))
  · have hfits := hsocket.fits _ _ _ hanswer
    have hleft : ({ l with offset := l.offset + (k + 1), stalls := 0, point := .head,
                           handed := l.handed ++ l.left.take (k + 1) } : SendAll).left.length = m - (k + 1) := by
      unfold SendAll.left at hm ⊢
      simp only [List.length_drop] at hm ⊢
      omega
    refine sendReturns_send hpoint ((congrArg l.onSend hanswer).trans (if_pos hfits)) ?_
    have hrest := ih { l with offset := l.offset + (k + 1), stalls := 0, point := .head,
                              handed := l.handed ++ l.left.take (k + 1) } w.call (by omega) rfl rfl
    rw [hleft] at hrest
    obtain ⟨ok, w', hret, hcalls⟩ := hrest
    refine ⟨ok, w', hret, hcalls.trans ?_⟩
    unfold byteCalls
    simp only [World.call_calls]
    omega
  · exact absurd hanswer (hsocket.send _ _)
  · exact absurd hanswer hsend
  · exact sendReturns_send hpoint (congrArg l.onSend hanswer) (sendReturns_returned rfl _ (by simp))

omit hsocket in
theorem left_pos {l : SendAll} (h : l.offset < l.data.length) : 0 < l.left.length := by
  unfold SendAll.left
  rw [List.length_drop]
  omega

omit hsocket in
theorem SendReturns.mono {l : SendAll} {w : World} {calls calls' : ℕ} (h : SendReturns env l w calls)
    (hle : calls ≤ calls') : SendReturns env l w calls' := by
  obtain ⟨ok, w', hret, hcalls⟩ := h
  exact ⟨ok, w', hret, hcalls.trans hle⟩

/-- A round of the loop of `send_all`: a socket that refuses is waited for, and ready or one stall later
the loop goes on. -/
theorem sendReturns_round {l : SendAll} {w : World}
    (ih : ∀ (l : SendAll) (w : World), l.left.length < m → l.point = .head → l.stalls = 0 →
      SendReturns env l w (w.calls + byteCalls * l.left.length))
    (hm : l.left.length = m) (hpoint : l.point = .head) (hstalls : l.stalls ≤ 7)
    (hstall : l.stalls + 1 < kMaxSendStallSeconds → ∀ w' : World, SendReturns env
      { l with stalls := l.stalls + 1, point := .head } w'
        (w'.calls + (byteCalls * m - 2 * (l.stalls + 1)))) :
    SendReturns env l w (w.calls + (byteCalls * m - 2 * l.stalls)) := by
  have hhead : ∀ (l : SendAll) (go : Bool), ntripHead l go =
      if l.offset < l.data.length ∧ go = true then { l with point := .send }
      else { l with point := .returned (l.offset == l.data.length) } := fun _ _ => rfl
  refine sendReturns_head hpoint ?_
  rw [hhead]
  split_ifs with hgo
  · have hpos := left_pos hgo.1
    have hleft : ({ l with point := .send } : SendAll).left.length = m := hm
    obtain ⟨hnow, htaken, hgone, hstalled⟩ :
        w.calls + 1 + byteCalls * (m - 1) ≤ w.calls + (byteCalls * m - 2 * l.stalls) ∧
          w.call.call.calls + 1 + byteCalls * (m - 1) ≤ w.calls + (byteCalls * m - 2 * l.stalls) ∧
          w.call.call.calls ≤ w.calls + (byteCalls * m - 2 * l.stalls) ∧
          w.call.call.calls + (byteCalls * m - 2 * (l.stalls + 1)) ≤ w.calls + (byteCalls * m - 2 * l.stalls) := by
      unfold byteCalls
      simp only [World.call_calls]
      omega
    by_cases hsend : env.send w.calls l.left.length = .eagain
    · have honsend : ({ l with point := .send } : SendAll).onSend
          (env.send w.calls ({ l with point := .send } : SendAll).left.length) =
            some { l with point := .select } :=
        congrArg (SendAll.onSend { l with point := .send }) hsend
      refine sendReturns_send rfl honsend (sendReturns_select rfl ?_)
      rcases hselect : env.selectWrite w.call.calls with _ | _ | _ | _
      · refine sendReturns_head rfl ?_
        rw [hhead]
        split_ifs with hgo'
        · exact (sendReturns_taken hsocket (w := w.call.call) ih (l := { l with point := .send }) rfl hleft
            (by omega) (hsocket.ready _ _ hselect)).mono htaken
        · exact sendReturns_returned rfl _ hgone
      · show SendReturns env (SendAll.stall { l with point := .select } kMaxSendStallSeconds) w.call.call _
        unfold SendAll.stall
        split_ifs with hlimit
        · exact (hstall hlimit w.call.call).mono hstalled
        · exact sendReturns_returned rfl _ hgone
      · exact absurd hselect (hsocket.select _)
      · exact sendReturns_returned rfl _ hgone
    · exact (sendReturns_taken hsocket ih (l := { l with point := .send }) rfl hleft (by omega) hsend).mono hnow
  · exact sendReturns_returned rfl _ (by omega)

/-- **A call of `send_all` from the head of its loop**, with the stalls so far. -/
theorem sendReturns_stalls
    (ih : ∀ (l : SendAll) (w : World), l.left.length < m → l.point = .head → l.stalls = 0 →
      SendReturns env l w (w.calls + byteCalls * l.left.length)) (room : ℕ) :
    ∀ (l : SendAll) (w : World), l.left.length = m → l.point = .head → l.stalls + room = 7 →
      SendReturns env l w (w.calls + (byteCalls * m - 2 * l.stalls)) := by
  induction room with
  | zero =>
    intro l w hm hpoint hroom
    refine sendReturns_round hsocket ih hm hpoint (by omega) fun hlt => ?_
    unfold kMaxSendStallSeconds at hlt
    omega
  | succ room ihroom =>
    intro l w hm hpoint hroom
    refine sendReturns_round hsocket ih hm hpoint (by omega) fun _ w' => ?_
    exact ihroom { l with stalls := l.stalls + 1, point := .head } w' hm rfl
      (show l.stalls + 1 + room = 7 by omega)

/-- **The request is sent or given up**, with a number of calls that the peer has no part in. -/
theorem sendAll_returns (l : SendAll) (w : World) (hpoint : l.point = .head) (hstalls : l.stalls = 0) :
    SendReturns env l w (w.calls + byteCalls * l.left.length) := by
  induction hm : l.left.length using Nat.strong_induction_on generalizing l w with
  | _ m ih =>
    have hrun := sendReturns_stalls hsocket (m := m) (fun l w hlt hpoint hstalls =>
      ih _ hlt l w hpoint hstalls rfl) 7 l w hm hpoint (by omega)
    rw [hstalls] at hrun
    exact hrun

end

/-! ### The header -/

/-- Behind `h` lines that begin at `w`, a line comes without a byte in it other than carriage returns. -/
def EndsAfter (env : Env) : World → ℕ → Prop
  | w, 0 => ∃ bytes w', LineFrom env 3000 w bytes w' ∧ ∀ b ∈ bytes, b = 13
  | w, h + 1 => ∃ bytes w', LineFrom env 3000 w bytes w' ∧ EndsAfter env w' h

theorem returns_drainHeaders {w : World} {a : World} :
    Returns (fun fuel => drainHeaders env fuel w) a ↔ ∃ line w', Returns (readLine env 3000 w) (line, w') ∧
      if line = [] then w' = a else Returns (fun fuel => drainHeaders env fuel w') a := by
  have hgrows : ∀ r : List UInt8 × World,
      Grows fun fuel => if r.1 = [] then some r.2 else drainHeaders env fuel r.2 := by
    intro r
    by_cases hnil : r.1 = []
    · simp only [if_pos hnil]
      exact grows_const _
    · simp only [if_neg hnil]
      exact grows_drainHeaders r.2
  have hround : Returns (fun fuel => drainHeaders env fuel w) a ↔ Returns (fun fuel =>
      (readLine env 3000 w fuel).bind fun r => if r.1 = [] then some r.2 else drainHeaders env fuel r.2) a :=
    returns_succ rfl fun _ => rfl
  rw [hround, returns_bind_iff (grows_readLine 3000 w) hgrows, Prod.exists]
  refine exists_congr fun line => exists_congr fun w' => and_congr_right fun _ => ?_
  by_cases hnil : line = []
  · simp only [if_pos hnil]
    exact returns_const
  · simp only [if_neg hnil]

theorem LineFrom.calls {n timeoutMs : ℕ} (hclock : Clock env n) (hpos : 0 < timeoutMs)
    (hlimit : timeoutMs ≤ 2 ^ 31) {w w' : World} {bytes : List UInt8}
    (h : LineFrom env timeoutMs w bytes w') : w'.calls ≤ w.calls + lineCalls n timeoutMs := by
  obtain ⟨line, w'', hret, hcalls⟩ := readLine_ends hclock hpos hlimit w
  have hsame := Returns.unique (grows_readLine timeoutMs w) (returns_readLine.mpr ⟨bytes, h, rfl⟩) hret
  rw [(Prod.mk.inj hsame).2]
  exact hcalls

/-- **The header is drained if an empty line comes**, with a number of calls for each line up to it. -/
theorem drainHeaders_of_ends {n : ℕ} (hclock : Clock env n) {h : ℕ} {w : World} (hends : EndsAfter env w h) :
    ∃ w', Returns (fun fuel => drainHeaders env fuel w) w' ∧ w'.calls ≤ w.calls + (h + 1) * lineCalls n 3000 := by
  induction h generalizing w with
  | zero =>
    obtain ⟨bytes, w', hline, hblank⟩ := hends
    have hnil := text_eq_nil.mpr hblank
    refine ⟨w', returns_drainHeaders.mpr ⟨_, w', returns_readLine.mpr ⟨bytes, hline, rfl⟩, (if_pos hnil).mpr rfl⟩, ?_⟩
    have hcalls := hline.calls hclock (by decide) (by decide)
    omega
  | succ h ih =>
    obtain ⟨bytes, w', hline, hrest⟩ := hends
    have hcalls := hline.calls hclock (by decide) (by decide)
    rw [Nat.add_mul (h + 1), Nat.one_mul]
    by_cases hnil : text bytes = []
    · refine ⟨w', returns_drainHeaders.mpr ⟨_, w', returns_readLine.mpr ⟨bytes, hline, rfl⟩, (if_pos hnil).mpr rfl⟩, ?_⟩
      exact hcalls.trans (Nat.add_le_add_left (Nat.le_add_left _ _) _)
    · obtain ⟨w'', hret, hcalls'⟩ := ih hrest
      refine ⟨w'', returns_drainHeaders.mpr
        ⟨_, w', returns_readLine.mpr ⟨bytes, hline, rfl⟩, (if_neg hnil).mpr hret⟩, ?_⟩
      omega

/-- A header that is drained ends with an empty line, behind no more lines than calls. -/
theorem ends_of_drainHeaders {w' : World} {fuel : ℕ} {w : World} (h : drainHeaders env fuel w = some w') :
    ∃ lines, EndsAfter env w lines ∧ w.calls + lines ≤ w'.calls := by
  induction fuel generalizing w with
  | zero => cases h
  | succ fuel ih =>
    unfold drainHeaders at h
    obtain ⟨⟨line, w1⟩, hline, hrest⟩ := Option.bind_eq_some_iff.mp h
    obtain ⟨bytes, hfrom, rfl⟩ := returns_readLine.mp ⟨fuel, hline⟩
    have hcalls := hfrom.calls_le
    rw [World.read_calls] at hcalls
    dsimp only at hrest
    split_ifs at hrest with hnil
    · cases hrest
      exact ⟨0, ⟨bytes, _, hfrom, text_eq_nil.mp hnil⟩, hcalls.1⟩
    · obtain ⟨lines, hends, hle⟩ := ih hrest
      have hbytes : bytes ≠ [] := by
        rintro rfl
        exact hnil rfl
      have hlt := hcalls.2 hbytes
      exact ⟨lines + 1, ⟨bytes, w1, hfrom, hends⟩, by omega⟩

/-! ### The handshake -/

/-- The header of an HTTP success begins at `w`. -/
def HeaderFrom (env : Env) (k : Constants) (mountpoint password : List UInt8) (w : World) : Prop :=
  ∃ w0 bytes, Returns (fun fuel => sendAll env fuel { data := request k mountpoint password } {}) (true, w0) ∧
    LineFrom env 4000 w0 bytes w ∧ responseAccepted (text bytes) = true ∧
    (ascii "HTTP/").isPrefixOf (text bytes) = true

/-- No header begins, or an empty line comes behind `h` lines of it. -/
def HeaderEnds (env : Env) (k : Constants) (mountpoint password : List UInt8) (h : ℕ) : Prop :=
  ∀ w, HeaderFrom env k mountpoint password w → EndsAfter env w h

/-- The most calls of a handshake with `h` lines in the header. -/
def handshakeCalls (n size h : ℕ) : ℕ :=
  byteCalls * size + lineCalls n 4000 + (h + 1) * lineCalls n 3000

section

variable (k : Constants) (mountpoint password : List UInt8)

/-- What `connect_caster` does with the response. -/
def onResponse (env : Env) (response : List UInt8) (w : World) (fuel : ℕ) : Option (Bool × World) :=
  if responseAccepted response = false then some (false, w)
  else if (ascii "HTTP/").isPrefixOf response then
    (drainHeaders env fuel w).bind fun w => some (true, w)
  else some (true, w)

theorem grows_onResponse (response : List UInt8) (w : World) : Grows (onResponse env response w) := by
  unfold onResponse
  split_ifs
  · exact grows_const _
  · exact (grows_drainHeaders w).bind fun _ => grows_const _
  · exact grows_const _

/-- **The handshake, part by part.** -/
theorem returns_connectCaster {r : Bool × World} :
    Returns (connectCaster env k mountpoint password) r ↔ ∃ sent w,
      Returns (fun fuel => sendAll env fuel { data := request k mountpoint password } {}) (sent, w) ∧
        if sent = false then (false, w) = r
        else ∃ response w', Returns (readLine env 4000 w) (response, w') ∧
          Returns (onResponse env response w') r := by
  have hread : ∀ w, Grows fun fuel => (readLine env 4000 w fuel).bind fun s => onResponse env s.1 s.2 fuel :=
    fun w => (grows_readLine 4000 w).bind fun s => grows_onResponse s.1 s.2
  have hgrows : ∀ s : Bool × World, Grows fun fuel => if s.1 = false then some (false, s.2)
      else (readLine env 4000 s.2 fuel).bind fun s => onResponse env s.1 s.2 fuel := by
    intro s
    by_cases hsent : s.1 = false
    · simp only [if_pos hsent]
      exact grows_const _
    · simp only [if_neg hsent]
      exact hread s.2
  have hparts : Returns (connectCaster env k mountpoint password) r ↔ Returns (fun fuel =>
      (sendAll env fuel { data := request k mountpoint password } {}).bind fun s =>
        if s.1 = false then some (false, s.2)
        else (readLine env 4000 s.2 fuel).bind fun s => onResponse env s.1 s.2 fuel) r := Iff.rfl
  rw [hparts, returns_bind_iff (grows_sendAll _ _) hgrows, Prod.exists]
  refine exists_congr fun sent => exists_congr fun w => and_congr_right fun _ => ?_
  by_cases hsent : sent = false
  · simp only [if_pos hsent]
    exact returns_const
  · simp only [if_neg hsent]
    rw [returns_bind_iff (grows_readLine 4000 w) fun s => grows_onResponse s.1 s.2, Prod.exists]

theorem HeaderFrom.unique {w w' : World} (h : HeaderFrom env k mountpoint password w)
    (h' : HeaderFrom env k mountpoint password w') : w = w' := by
  obtain ⟨w0, bytes, hsent, hline, -⟩ := h
  obtain ⟨w0', bytes', hsent', hline', -⟩ := h'
  obtain ⟨-, rfl⟩ := Prod.mk.inj (Returns.unique (grows_sendAll _ _) hsent hsent')
  have hsame := Returns.unique (grows_readLine 4000 w0) (returns_readLine.mpr ⟨bytes, hline, rfl⟩)
    (returns_readLine.mpr ⟨bytes', hline', rfl⟩)
  exact (Prod.mk.inj hsame).2

theorem connectCaster_of_ends {n : ℕ} (hclock : Clock env n) (hsocket : Socket env) {h : ℕ}
    (hends : HeaderEnds env k mountpoint password h) :
    ∃ r, Returns (connectCaster env k mountpoint password) r ∧
      r.2.calls ≤ handshakeCalls n (request k mountpoint password).length h := by
  obtain ⟨sent, w, hsent, hw⟩ := sendAll_returns hsocket { data := request k mountpoint password } {} rfl rfl
  have hsize : w.calls ≤ byteCalls * (request k mountpoint password).length := by
    rwa [Nat.zero_add] at hw
  obtain ⟨response, w', hline, hw'⟩ := readLine_ends hclock (by decide : 0 < 4000) (by decide) w
  have hshort : w'.calls ≤ handshakeCalls n (request k mountpoint password).length h := by
    unfold handshakeCalls
    omega
  simp only [returns_connectCaster]
  rcases hs : sent
  · exact ⟨(false, w), ⟨sent, w, hsent, by rw [if_pos hs]⟩, by unfold handshakeCalls; dsimp only; omega⟩
  · suffices hrest : ∃ r, Returns (onResponse env response w') r ∧
        r.2.calls ≤ handshakeCalls n (request k mountpoint password).length h by
      obtain ⟨r, hret, hcalls⟩ := hrest
      refine ⟨r, ⟨sent, w, hsent, ?_⟩, hcalls⟩
      rw [if_neg (by rw [hs]; decide)]
      exact ⟨response, w', hline, hret⟩
    unfold onResponse
    split_ifs with haccepted hhttp
    · exact ⟨(false, w'), returns_const.mpr rfl, hshort⟩
    · obtain ⟨bytes, hfrom, rfl⟩ := returns_readLine.mp hline
      have hheader : HeaderFrom env k mountpoint password w' :=
        ⟨w, bytes, hs ▸ hsent, hfrom, by simpa using haccepted, hhttp⟩
      obtain ⟨w'', hret, hcalls⟩ := drainHeaders_of_ends hclock (hends w' hheader)
      refine ⟨(true, w''), (returns_bind_iff (grows_drainHeaders w') fun _ => grows_const _).mpr
        ⟨w'', hret, returns_const.mpr rfl⟩, ?_⟩
      unfold handshakeCalls
      dsimp only
      omega
    · exact ⟨(true, w'), returns_const.mpr rfl, hshort⟩

/-- A handshake that returns has a header that ends, with no more lines than calls. -/
theorem ends_of_connectCaster {r : Bool × World} (hret : Returns (connectCaster env k mountpoint password) r) :
    ∃ h, HeaderEnds env k mountpoint password h ∧ h ≤ r.2.calls := by
  by_cases hsome : ∃ w, HeaderFrom env k mountpoint password w
  · obtain ⟨w', hfrom⟩ := hsome
    obtain ⟨w, bytes, hsent, hline, haccepted, hhttp⟩ := id hfrom
    obtain ⟨sent, w1, hsent1, hrest⟩ := (returns_connectCaster k mountpoint password).mp hret
    obtain ⟨rfl, rfl⟩ := Prod.mk.inj (Returns.unique (grows_sendAll _ _) hsent hsent1)
    rw [if_neg (by decide)] at hrest
    obtain ⟨response, w2, hresponse, honresponse⟩ := hrest
    obtain ⟨rfl, rfl⟩ := Prod.mk.inj
      (Returns.unique (grows_readLine 4000 w) (returns_readLine.mpr ⟨bytes, hline, rfl⟩) hresponse)
    have hdrains : onResponse env (text bytes) w' =
        fun fuel => (drainHeaders env fuel w').bind fun w => some (true, w) := by
      funext fuel
      unfold onResponse
      rw [if_neg (by rw [haccepted]; decide), if_pos hhttp]
    rw [hdrains] at honresponse
    obtain ⟨w3, ⟨fuel, hdrain⟩, hlast⟩ :=
      (returns_bind_iff (grows_drainHeaders w') fun _ => grows_const _).mp honresponse
    obtain ⟨h, hends, hle⟩ := ends_of_drainHeaders hdrain
    have hcalls : r.2.calls = w3.calls := by rw [← returns_const.mp hlast]
    exact ⟨h, fun w'' hfrom' => HeaderFrom.unique k mountpoint password hfrom hfrom' ▸ hends, by omega⟩
  · exact ⟨0, fun w hfrom => absurd ⟨w, hfrom⟩ hsome, Nat.zero_le _⟩

/-- **The handshake ends within a number of calls that the peer has no part in**, over a class of peers,
exactly if there is a limit on how many lines a peer of the class puts before the empty line of its header. -/
theorem connectCaster_bounded_iff {n : ℕ} (peers : Set Env)
    (hpeers : ∀ env ∈ peers, Clock env n ∧ Socket env) :
    (∃ bound, ∀ env ∈ peers, ∃ r, Returns (connectCaster env k mountpoint password) r ∧ r.2.calls ≤ bound) ↔
      ∃ limit, ∀ env ∈ peers, ∃ h ≤ limit, HeaderEnds env k mountpoint password h := by
  constructor
  · rintro ⟨bound, hbound⟩
    refine ⟨bound, fun env henv => ?_⟩
    obtain ⟨r, hret, hcalls⟩ := hbound env henv
    obtain ⟨h, hends, hle⟩ := ends_of_connectCaster k mountpoint password hret
    exact ⟨h, hle.trans hcalls, hends⟩
  · rintro ⟨limit, hlimit⟩
    refine ⟨handshakeCalls n (request k mountpoint password).length limit, fun env henv => ?_⟩
    obtain ⟨h, hle, hends⟩ := hlimit env henv
    obtain ⟨hclock, hsocket⟩ := hpeers env henv
    obtain ⟨r, hret, hcalls⟩ := connectCaster_of_ends k mountpoint password hclock hsocket hends
    refine ⟨r, hret, hcalls.trans ?_⟩
    unfold handshakeCalls
    exact Nat.add_le_add_left (Nat.mul_le_mul_right _ (Nat.add_le_add_right hle 1)) _

end

/-! ### Two peers -/

/-- A peer that takes the request at once, and answers with a stream of bytes without delay. -/
def serving (stream : ℕ → RecvAnswer) : Env where
  periodMs := 10
  tick calls _ := calls
  send _ length := .sent length
  selectWrite _ := .ready
  selectRead _ := .ready
  recv calls := stream (calls / 2 - 1)
  go _ := true

theorem serving_clock (stream : ℕ → RecvAnswer) : Clock (serving stream) 1 where
  period := Nat.zero_lt_succ 9
  mono hc _ := hc
  advances hc _ := hc
  steady c _ := by
    show (c + 2 - c) * 10 < 2 ^ 31
    omega

theorem serving_socket (stream : ℕ → RecvAnswer) : Socket (serving stream) where
  fits _ n k h := by
    obtain rfl : n = k := SendAnswer.sent.inj h
    exact le_refl n
  send _ _ h := by cases h
  select _ h := by cases h
  ready _ _ _ h := by cases h

def oldCaster : Constants where
  host := ascii "rtk2go.com"
  port := 2101
  protocol := .kV1
  connectStaggerMs := 0
  base64 := id

/-- A response with a line in its header, after which the peer hangs up. -/
def shortStream (i : ℕ) : RecvAnswer :=
  match (ascii "HTTP/1.1 200 OK\r\nServer: x\r\n\r\n")[i]? with
  | some b => .byte b
  | none => .closed

/-- A response with a header that never ends. -/
def endlessStream (i : ℕ) : RecvAnswer :=
  match (ascii "HTTP/1.1 200 \n")[i]? with
  | some b => .byte b
  | none => if i % 2 = 0 then .byte 97 else .byte 10

theorem connectCaster_bounded_short : ∃ bound, ∀ env ∈ ({serving shortStream} : Set Env),
    ∃ r, Returns (connectCaster env oldCaster (ascii "BASE") (ascii "secret")) r ∧ r.2.calls ≤ bound := by
  refine (connectCaster_bounded_iff (n := 1) oldCaster _ _ {serving shortStream} ?_).mpr ⟨1, ?_⟩
  · rintro env rfl
    exact ⟨serving_clock _, serving_socket _⟩
  rintro env rfl
  refine ⟨1, le_refl _, fun w hfrom => ?_⟩
  have hsent : Returns (fun fuel => sendAll (serving shortStream) fuel
      { data := request oldCaster (ascii "BASE") (ascii "secret") } {}) (true, ⟨1, 0⟩) := ⟨5, by decide +kernel⟩
  have hresponse : Returns (readLine (serving shortStream) 4000 ⟨1, 0⟩) (ascii "HTTP/1.1 200 OK", ⟨35, 18⟩) :=
    ⟨20, by decide +kernel⟩
  have hserver : Returns (readLine (serving shortStream) 3000 ⟨35, 18⟩) (ascii "Server: x", ⟨57, 30⟩) :=
    ⟨15, by decide +kernel⟩
  have hempty : Returns (readLine (serving shortStream) 3000 ⟨57, 30⟩) ([], ⟨61, 33⟩) := ⟨4, by decide +kernel⟩
  obtain ⟨w0, bytes, hsent', hline, -⟩ := hfrom
  obtain ⟨-, rfl⟩ := Prod.mk.inj (Returns.unique (grows_sendAll _ _) hsent' hsent)
  obtain ⟨-, rfl⟩ := Prod.mk.inj
    (Returns.unique (grows_readLine _ _) (returns_readLine.mpr ⟨bytes, hline, rfl⟩) hresponse)
  obtain ⟨server, hfrom, -⟩ := returns_readLine.mp hserver
  obtain ⟨blank, hfrom', htext⟩ := returns_readLine.mp hempty
  exact ⟨server, _, hfrom, blank, _, hfrom', text_eq_nil.mp htext.symm⟩

theorem endlessStream_of_le {i : ℕ} (h : 14 ≤ i) :
    endlessStream i = if i % 2 = 0 then .byte 97 else .byte 10 := by
  have hlength : (ascii "HTTP/1.1 200 \n").length = 14 := by decide +kernel
  unfold endlessStream
  rw [List.getElem?_eq_none (by omega)]

theorem poll_serving (stream : ℕ → RecvAnswer) {w : World} {b : UInt8}
    (h : stream ((w.calls + 1) / 2 - 1) = .byte b) : poll (serving stream) w = (.byte b, w.call.call) := by
  unfold poll serving
  dsimp only [World.call_calls]
  rw [h]

theorem endless_line (q reads : ℕ) :
    Returns (readLine (serving endlessStream) 3000 ⟨4 * q + 29, reads⟩) ([97], ⟨4 * q + 33, reads + 3⟩) := by
  have htick : ∀ c r, (serving endlessStream).tick c r = c := fun _ _ => rfl
  have hperiod : (serving endlessStream).periodMs = 10 := rfl
  have hletter : endlessStream ((4 * q + 29 + 1) / 2 - 1) = .byte 97 := by
    rw [endlessStream_of_le (by omega), if_pos (by omega)]
  have hfeed : endlessStream ((4 * q + 29 + 1 + 1 + 1) / 2 - 1) = .byte 10 := by
    rw [endlessStream_of_le (by omega), if_neg (by omega)]
  refine returns_readLoop.mpr ?_
  rw [htick, htick, hperiod, if_pos (by simp), poll_serving endlessStream (b := 97) hletter]
  dsimp only
  rw [if_neg (by decide)]
  refine returns_readLoop.mpr ?_
  rw [htick, hperiod, if_pos (by simp), poll_serving endlessStream (b := 10) hfeed]
  rfl

theorem endless_drain (fuel : ℕ) : ∀ q reads,
    drainHeaders (serving endlessStream) fuel ⟨4 * q + 29, reads⟩ = none := by
  induction fuel with
  | zero => exact fun _ _ => rfl
  | succ fuel ih =>
    intro q reads
    unfold drainHeaders
    rcases hline : readLine (serving endlessStream) 3000 ⟨4 * q + 29, reads⟩ fuel with _ | ⟨line, w⟩
    · rfl
    · obtain ⟨rfl, rfl⟩ := Prod.mk.inj (Returns.unique (grows_readLine _ _) ⟨fuel, hline⟩ (endless_line q reads))
      exact ih (q + 1) (reads + 3)

/-- **A peer that keeps sending header lines** holds the handshake for ever. -/
theorem endless_handshake : Clock (serving endlessStream) 1 ∧ Socket (serving endlessStream) ∧
    ¬ ∃ r, Returns (connectCaster (serving endlessStream) oldCaster (ascii "BASE") (ascii "secret")) r := by
  refine ⟨serving_clock _, serving_socket _, fun ⟨r, hret⟩ => ?_⟩
  have hsent : Returns (fun fuel => sendAll (serving endlessStream) fuel
      { data := request oldCaster (ascii "BASE") (ascii "secret") } {}) (true, ⟨1, 0⟩) := ⟨5, by decide +kernel⟩
  have hresponse : Returns (readLine (serving endlessStream) 4000 ⟨1, 0⟩) (ascii "HTTP/1.1 200 ", ⟨29, 15⟩) :=
    ⟨20, by decide +kernel⟩
  obtain ⟨bytes, hline, htext⟩ := returns_readLine.mp hresponse
  obtain ⟨h, hends, -⟩ := ends_of_connectCaster _ _ _ hret
  obtain ⟨w', hdrain, -⟩ := drainHeaders_of_ends (serving_clock endlessStream)
    (hends ⟨29, 15⟩ ⟨_, bytes, hsent, hline, by rw [← htext]; decide +kernel, by rw [← htext]; decide +kernel⟩)
  obtain ⟨fuel, hdrain⟩ := hdrain
  exact absurd (hdrain.symm.trans (endless_drain fuel 0 15)) (by simp)

end GpsBase.Push.Handshake
