import GpsBase.Lib.Retries
import GpsBase.Push.StalePackets

/-! # The back-off between connect attempts

The casters ban a client that comes back too fast. The history of a run holds its connect attempts,
its failures and the sends that went through, the calls that configure or suspend the client, and the
moments at which the worker takes such a call into account (it finds the client suspended or disabled,
or takes the reconnect flag). Counted since the worker last took a call into account, the failures
space the attempts (`back_off`). Counted since the call they do not: a call made during an attempt
clears the failure of that attempt too, one retry later (`late_configure`). -/

namespace GpsBase.Push.BackOff

open GpsBase.Lib.Machine GpsBase.Lib.Retries GpsBase.Push.SendLoop GpsBase.Push.NtripPush
open GpsBase.Push.WholeFrames

/-! ### The history of a run -/

/-- A call that configures or suspends the client, and the worker's answer to it. -/
inductive Mark
  | called
  | handled
  deriving DecidableEq

/-- The worker has taken a call into account. -/
def handled (r : Mark) : Bool := r = .handled

def called (r : Mark) : Bool := r = .called

structure World where
  client : Client
  history : List (Event Mark) := []

/-- What a step adds to the history. -/
def noted (s : Client) : Input → Option (Event Mark)
  | .work _ =>
    match s.pc with
    | .suspendedMessage | .reconnectReset => some (.mark .handled)
    | .connectSocket _ _ => some (.attempt s.now)
    | .connectFailed | .sendFailed => some .failed
    | .sendOk => some (.sent s.now)
    | _ => none
  | .configure _ _ _ | .setSuspended true => some (.mark .called)
  | _ => none

def step (k : Constants) (w : World) (i : Input) : Option World :=
  (NtripPush.step k w.client i).map fun s => ⟨s, w.history ++ (noted w.client i).toList⟩

def kStreak : ℤ := 5000000

/-- The microseconds between two attempts, after `f` failures. -/
def owed (f : ℕ) : ℤ :=
  if f = 0 then 0 else if f < 8 then 10000000 * 2 ^ (min f 4 - 1) else 600000000

/-- **The client backs off**, its failures counted since the last fresh mark. -/
structure BacksOff (fresh : Mark → Bool) (h : List (Event Mark)) : Prop where
  spaced : Spaced fresh kStreak owed h
  keeps : KeepsCount fresh kStreak h

/-! ### The delay -/

theorem owed_mono {f g : ℕ} (h : f ≤ g) : owed f ≤ owed g := by
  unfold owed
  by_cases hg : g < 8
  · interval_cases g <;> interval_cases f <;> decide
  · have hpow : (2 : ℤ) ^ (min f 4 - 1) ≤ 2 ^ 3 := pow_le_pow_right₀ (by omega) (by omega)
    split_ifs <;> omega

/-- **The delay is what is owed** after the failures counted. -/
theorem owed_le_delay (f random : ℕ) : owed f ≤ retryDelayMs f random * 1000 := by
  unfold owed retryDelayMs kLongBackoffThreshold kLongBackoffMs kBaseRetryMs kMaxRetryMs
  by_cases hf : 8 ≤ f
  · rw [if_neg (by omega), if_neg (by omega), if_pos hf]
    omega
  · rw [if_neg hf]
    interval_cases f <;> norm_num [Nat.shiftLeft_eq] <;> omega

/-! ### The invariant -/

/-- The next attempt may be made at `x`. -/
def Due (a : Tally) (x : ℤ) : Prop := ∀ t, a.last = some t → t + owed a.failures ≤ x

/-- There is a connection, or the next attempt may be made at `x` and no streak is under way. -/
def Ready (s : Client) (a : Tally) (x : ℤ) : Prop :=
  s.out.socket.isSome = true ∨ (Due a x ∧ s.healthySinceUs = 0)

/-- What the place in `run` adds. -/
def AtPc (s : Client) (a : Tally) : Pc → Prop
  | .top | .readEnabled | .checkSuspended _ | .checkReconnect | .stagger | .staggerMessage
  | .staggerDone | .socketCheck => Ready s a s.now
  | .connecting | .readConfig | .connectSocket _ _ => Due a s.now ∧ s.healthySinceUs = 0
  | .delayed wake => Ready s a wake
  | .sendOk => s.out.socket.isSome = true
  | .sendClose | .sendMessage => s.healthySinceUs = 0
  | _ => True

/-- The worker's counter is at least the tally's, and its streak began no earlier. -/
structure Follows (s : Client) (a : Tally) : Prop where
  counted : a.failures ≤ s.failures
  since : ∀ t, a.since = some t → t ≤ s.now
  last : ∀ t, a.last = some t → t ≤ s.now
  streak : s.healthySinceUs ≠ 0 → ∃ t, a.since = some t ∧ t ≤ s.healthySinceUs
  pc : AtPc s a s.pc

theorem Due.mono {a : Tally} {x y : ℤ} (h : Due a x) (hxy : x ≤ y) : Due a y :=
  fun t ht => (h t ht).trans hxy

theorem Ready.mono {s : Client} {a : Tally} {x y : ℤ} (h : Ready s a x) (hxy : x ≤ y) :
    Ready s a y := h.imp_right fun hdue => ⟨hdue.1.mono hxy, hdue.2⟩

theorem due_fresh (x : ℤ) : Due {} x := fun t ht => by cases ht

theorem due_delay {a : Tally} {failures random : ℕ} {now : ℤ} (hcount : a.failures ≤ failures)
    (hlast : ∀ t, a.last = some t → t ≤ now) :
    Due a (now + retryDelayMs failures random * 1000) := by
  intro t ht
  have hnow := hlast t ht
  have howed := (owed_mono hcount).trans (owed_le_delay failures random)
  omega

theorem Follows.same {s s' : Client} {a : Tally} (h : Follows s a) (hfailures : s'.failures = s.failures)
    (hhealthy : s'.healthySinceUs = s.healthySinceUs) (hnow : s'.now = s.now)
    (hpc : AtPc s' a s'.pc) : Follows s' a :=
  ⟨hfailures ▸ h.counted, hnow ▸ h.since, hnow ▸ h.last, hhealthy ▸ h.streak, hpc⟩

theorem follows_fresh {s : Client} (hhealthy : s.healthySinceUs = 0) (hpc : AtPc s {} s.pc) :
    Follows s {} :=
  ⟨Nat.zero_le _, fun t ht => (by cases ht), fun t ht => (by cases ht),
    fun h => absurd hhealthy h, hpc⟩

theorem Follows.fail {s s' : Client} {a : Tally} (h : Follows s a)
    (hfailures : s'.failures = s.failures + 1) (hhealthy : s'.healthySinceUs = 0)
    (hnow : s'.now = s.now) (hpc : AtPc s' (a.note handled kStreak .failed) s'.pc) :
    Follows s' (a.note handled kStreak .failed) :=
  ⟨hfailures ▸ Nat.succ_le_succ h.counted, fun t ht => (by cases ht), hnow ▸ h.last,
    fun h => absurd hhealthy h, hpc⟩

/-! ### A step of the worker -/

/-- The tally after what a step notes. -/
def after (a : Tally) (e : Option (Event Mark)) : Tally := e.elim a (a.note handled kStreak)

/-- A success: the worker's streak began no earlier than the tally's, so where the worker clears its
counter the tally is cleared too. -/
theorem Follows.success {k : Constants} {s s' : Client} {a : Tally} {e : Env} (h : Follows s a)
    (hpc : s.pc = .sendOk) (hwork : s.work k e = some s') :
    Follows s' (a.note handled kStreak (.sent s.now)) := by
  have hsocket := h.pc
  rw [hpc] at hsocket
  simp only [Client.work, hpc] at hwork
  cases hwork
  have hnow : a.since.getD s.now ≤ s.now := by
    rcases hsince : a.since with _ | t
    · exact le_rfl
    · exact h.since t hsince
  have hhealthy : a.since.getD s.now ≤ if s.healthySinceUs = 0 then s.now else s.healthySinceUs := by
    split_ifs with hzero
    · exact hnow
    · obtain ⟨t, ht, hle⟩ := h.streak hzero
      rwa [ht]
  refine ⟨?_, fun t ht => ?_, h.last, fun _ => ⟨_, rfl, hhealthy⟩, Or.inl hsocket⟩
  · dsimp only [Tally.note]
    by_cases hclear : kHealthyStreakUs ≤
        s.now - if s.healthySinceUs = 0 then s.now else s.healthySinceUs
    · have hstreak : kStreak ≤ s.now - a.since.getD s.now := hclear.trans (by omega)
      rw [if_pos hstreak]
      exact Nat.zero_le _
    · rw [if_neg hclear]
      split_ifs
      · exact Nat.zero_le _
      · exact h.counted
  · obtain rfl := Option.some.inj ht
    exact hnow

/-- **A step of the worker**: the counter follows the tally. -/
theorem follows_work {k : Constants} {s s' : Client} {a : Tally} {e : Env} (hwire : PushWire.Inv s)
    (h : Follows s a) (hwork : s.work k e = some s') :
    Follows s' (after a (noted s (.work e))) := by
  have hat := h.pc
  have hlink := hwire.pc
  rcases hpc : s.pc with _ | _ | en | _ | _ | _ | _ | _ | _ | _ | _ | _ | _ | _ | _ | ⟨m, w⟩ | call |
    _ | _ | _ | _ | _ | call | _ | _ | _ | _ | wake | _ | _
  case sendOk =>
    simp only [noted, hpc]
    exact h.success hpc hwork
  all_goals
    rw [hpc] at hat hlink
    simp only [Client.work, hpc] at hwork
    simp only [noted, hpc, after, Option.elim_none, Option.elim_some]
  case exited => cases hwork
  case top | checkReconnect =>
    cases hwork
    refine h.same rfl rfl rfl ?_
    dsimp only
    split_ifs
    · exact trivial
    · exact hat
  case checkSuspended =>
    cases hwork
    refine h.same rfl rfl rfl ?_
    dsimp only
    split_ifs
    · exact trivial
    · exact hat
  case suspendedMessage | reconnectReset =>
    cases hwork
    exact follows_fresh rfl (Or.inr ⟨due_fresh _, rfl⟩)
  case stagger =>
    split_ifs at hwork <;> cases hwork
    · exact h.same rfl rfl rfl hat
    · exact h.same rfl rfl rfl hat
    · exact h.same rfl rfl rfl hat
  case staggerMessage =>
    cases hwork
    refine h.same rfl rfl rfl (hat.mono ?_)
    dsimp only
    omega
  case socketCheck =>
    cases hwork
    refine h.same rfl rfl rfl ?_
    dsimp only
    split_ifs with hsocket
    · exact trivial
    · exact hat.resolve_left hsocket
  case connectSocket =>
    have hkept : ∀ {s'' : Client}, s''.failures = s.failures → s''.healthySinceUs = s.healthySinceUs →
        s''.now = s.now → AtPc s'' (a.note handled kStreak (.attempt s.now)) s''.pc →
        Follows s'' (a.note handled kStreak (.attempt s.now)) := by
      intro s'' hfailures hhealthy hnow hpc'
      refine ⟨hfailures ▸ h.counted, fun t ht => (by cases ht), fun t ht => ?_,
        fun hne => absurd (hhealthy.trans hat.2) hne, hpc'⟩
      obtain rfl := Option.some.inj ht
      exact hnow.ge
    split_ifs at hwork <;> cases hwork
    · exact hkept rfl rfl rfl trivial
    · exact hkept rfl rfl rfl trivial
  case handshake =>
    unfold Client.handshakeStep at hwork
    split at hwork
    · cases hwork
      exact h.same rfl rfl rfl trivial
    · cases hwork
      exact h.same rfl rfl rfl trivial
    · obtain ⟨next, -, rfl⟩ := Option.map_eq_some_iff.mp hwork
      exact h.same rfl rfl rfl trivial
  case readResponse =>
    cases hwork
    refine h.same rfl rfl rfl ?_
    dsimp only
    split_ifs <;> exact trivial
  case connectFailed =>
    cases hwork
    exact h.fail rfl rfl rfl (Or.inr ⟨due_delay (Nat.succ_le_succ h.counted) h.last, rfl⟩)
  case receive =>
    split at hwork <;> cases hwork
    · exact h.same rfl rfl rfl (Or.inl hlink.2)
    · exact h.same rfl rfl rfl trivial
  case sending =>
    obtain ⟨-, -, c, hc, -⟩ := hlink
    unfold Client.sendingStep at hwork
    split at hwork
    · cases hwork
      refine h.same rfl rfl rfl ?_
      show (s.out.onLink _).socket.isSome = true
      rw [StalePackets.onLink_socket, hc]
      rfl
    · cases hwork
      exact h.same rfl rfl rfl trivial
    · obtain ⟨next, -, rfl⟩ := Option.map_eq_some_iff.mp hwork
      exact h.same rfl rfl rfl trivial
  case sendFailed =>
    cases hwork
    exact h.fail rfl rfl rfl rfl
  case sendMessage =>
    cases hwork
    exact h.same rfl rfl rfl (Or.inr ⟨due_delay h.counted h.last, hat⟩)
  case delayed =>
    split_ifs at hwork with hwake
    cases hwork
    exact h.same rfl rfl rfl (hat.mono hwake)
  all_goals
    cases hwork
    exact h.same rfl rfl rfl hat

/-! ### Every run -/

/-- The other callers leave the worker's locals, the socket and the clock, but for a tick. -/
theorem follows_others {k : Constants} {s s' : Client} {a : Tally} {i : Input} (h : Follows s a)
    (hi : ∀ e, i ≠ .work e) (hstep : NtripPush.step k s i = some s') : Follows s' a := by
  have hkept : s'.failures = s.failures → s'.healthySinceUs = s.healthySinceUs → s'.now = s.now →
      s'.pc = s.pc → s'.out.socket = s.out.socket → Follows s' a := by
    intro hfailures hhealthy hnow hpc hsocket
    refine h.same hfailures hhealthy hnow ?_
    have hat := h.pc
    rw [hpc]
    cases hplace : s.pc <;> rw [hplace] at hat
    all_goals
      first
      | exact trivial
      | simpa only [AtPc, Ready, hhealthy, hnow, hsocket] using hat
  rcases i with e | data | _ | b | ⟨en, m, w⟩ | _ | i | us
  case work => exact absurd rfl (hi e)
  case push =>
    simp only [NtripPush.step, Client.push] at hstep
    split at hstep <;> cases hstep <;> exact hkept rfl rfl rfl rfl rfl
  case produce =>
    simp only [NtripPush.step, Client.produce] at hstep
    split at hstep
    all_goals
      first
      | cases hstep
      | split_ifs at hstep <;> cases hstep
    all_goals exact hkept rfl rfl rfl rfl rfl
  case call =>
    simp only [NtripPush.step, Client.callStep] at hstep
    split at hstep
    · rename_i w ws _
      cases hstep
      cases w <;> exact hkept rfl rfl rfl rfl rfl
    · cases hstep
  case tick =>
    cases hstep
    have hle : s.now ≤ s.now + us := by omega
    refine ⟨h.counted, fun t ht => (h.since t ht).trans hle, fun t ht => (h.last t ht).trans hle,
      h.streak, ?_⟩
    have hat := h.pc
    show AtPc _ a s.pc
    cases hplace : s.pc <;> rw [hplace] at hat
    case connecting | readConfig | connectSocket => exact ⟨hat.1.mono hle, hat.2⟩
    case delayed | sendOk | sendClose | sendMessage => exact hat
    all_goals first | exact trivial | exact hat.mono hle
  all_goals
    cases hstep
    exact hkept rfl rfl rfl rfl rfl

/-- **The invariant of the run.** -/
structure Inv (w : World) : Prop where
  wire : PushWire.Inv w.client
  follows : Follows w.client (tally handled kStreak w.history)
  spaced : Spaced handled kStreak owed w.history

/-- A call by itself is not yet taken into account. -/
theorem after_others {s : Client} {i : Input} (hi : ∀ e, i ≠ .work e) (a : Tally) :
    after a (noted s i) = a ∧ ∀ t, noted s i ≠ some (.attempt t) := by
  rcases i with e | data | _ | b | ⟨en, m, w⟩ | _ | i | us
  case work => exact absurd rfl (hi e)
  case setSuspended =>
    cases b
    · exact ⟨rfl, fun t h => by cases h⟩
    · exact ⟨rfl, fun t h => by cases h⟩
  all_goals exact ⟨rfl, fun t h => by cases h⟩

theorem due_of_attempt {s : Client} {a : Tally} {i : Input} {t : ℤ} (h : Follows s a)
    (hi : noted s i = some (.attempt t)) : Due a t := by
  by_cases hwork : ∃ e, i = .work e
  · obtain ⟨e, rfl⟩ := hwork
    have hat := h.pc
    rcases hpc : s.pc <;> simp only [noted, hpc] at hi
    case connectSocket =>
      cases hi
      rw [hpc] at hat
      exact hat.1
    all_goals cases hi
  · exact absurd hi ((after_others (fun e he => hwork ⟨e, he⟩) a).2 t)

theorem inv_step {k : Constants} {w w' : World} {i : Input} (h : Inv w)
    (hstep : step k w i = some w') : Inv w' := by
  obtain ⟨s', hs', rfl⟩ := Option.map_eq_some_iff.mp hstep
  have htally : tally handled kStreak (w.history ++ (noted w.client i).toList) =
      after (tally handled kStreak w.history) (noted w.client i) := by
    rcases noted w.client i with _ | e
    · simp only [Option.toList_none, List.append_nil]
      rfl
    · exact tally_concat _ e
  refine ⟨PushWire.inv_step h.wire hs', ?_, ?_⟩
  · rw [htally]
    by_cases hwork : ∃ e, i = .work e
    · obtain ⟨e, rfl⟩ := hwork
      exact follows_work h.wire h.follows hs'
    · have hi : ∀ e, i ≠ .work e := fun e he => hwork ⟨e, he⟩
      rw [(after_others hi _).1]
      exact follows_others h.follows hi hs'
  · rcases hnoted : noted w.client i with _ | e
    · simpa using h.spaced
    · refine h.spaced.concat ?_
      rintro t rfl t₁ hlast
      have hdue := due_of_attempt h.follows hnoted t₁ hlast
      omega

/-- **Back-off.** In every run the failures counted since the worker last took a call into account
space the attempts, and the worker's own counter is never below them. -/
theorem back_off {k : Constants} {s : Client} (hs : PushWire.Started s) {is : List Input} {w : World}
    (h : run (step k) ⟨s, []⟩ is = some w) :
    BacksOff handled w.history ∧ (tally handled kStreak w.history).failures ≤ w.client.failures := by
  have hinv : Inv w := by
    refine run_invariant (I := Inv) (fun _ _ _ hi => inv_step hi) ?_ h
    obtain ⟨en, m, p, b, r, t, rfl⟩ := hs
    exact ⟨PushWire.inv_start en m p b r t, follows_fresh rfl (Or.inr ⟨due_fresh _, rfl⟩), spaced_nil⟩
  exact ⟨⟨hinv.spaced, keepsCount w.history⟩, hinv.follows.counted⟩

/-! ### A call during an attempt -/

/-- Three failed attempts; during the first the client is configured again. -/
def configuredLate : List Input :=
  List.flatten [.replicate 10 (.work {}),
    [.work { tcp := false }, .configure true [77] [112], .call 0, .work {}, .tick 10000000],
    .replicate 11 (.work {}), [.work { tcp := false }, .work {}, .tick 10000000],
    .replicate 9 (.work {}), [.work { tcp := false }]]

/-- What is seen of it: the first failure, counted after the call, is cleared with the call. -/
def lateHistory : List (Event Mark) :=
  [.mark .handled, .attempt 0, .mark .called, .failed, .mark .handled, .attempt 10000000, .failed,
    .attempt 20000000]

/-- **Two failures after a call, and a third attempt ten seconds later.** -/
theorem late_configure : ∃ w, run (step sampleConstants) ⟨sampleClient, []⟩ configuredLate = some w ∧
    ¬ BacksOff called w.history := by
  have hhistory : (run (step sampleConstants) ⟨sampleClient, []⟩ configuredLate).map
      (fun w => w.history) = some lateHistory := by decide +kernel
  obtain ⟨w, hw, heq⟩ := Option.map_eq_some_iff.mp hhistory
  refine ⟨w, hw, fun h => ?_⟩
  have hgap := h.spaced [.mark .handled, .attempt 0, .mark .called, .failed, .mark .handled] 10000000
    [.failed] 20000000 [] heq (by simp [Event.Quiet])
  revert hgap
  decide

/-- A run to which the theorem applies. -/
theorem back_off_late : ∃ w, run (step sampleConstants) ⟨sampleClient, []⟩ configuredLate = some w ∧
    BacksOff handled w.history := by
  have hhistory : (run (step sampleConstants) ⟨sampleClient, []⟩ configuredLate).map
      (fun w => w.history) = some lateHistory := by decide +kernel
  obtain ⟨w, hw, -⟩ := Option.map_eq_some_iff.mp hhistory
  exact ⟨w, hw, (back_off ⟨true, [77], [112], false, 0, 0, rfl⟩ hw).1⟩

end GpsBase.Push.BackOff
