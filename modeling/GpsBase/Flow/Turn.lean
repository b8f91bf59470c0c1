import GpsBase.Flow.PushDelivery

/-! # The base task is never held up

Whatever the casters' tasks, their callers and the network do, the base task can always take its next
step inside `read_data_uart` (`ready`: no write out of bounds, no call of `push` that waits), and each of
its steps brings the call nearer to its end (`left_base`), while no other step sets it back
(`left_other`). So a call takes at most a fixed number of steps, as long as the receiver does not fill
the buffer at once. -/

namespace GpsBase.Flow.Turn

open GpsBase.Lib.Machine GpsBase.Mailbox.Slots GpsBase.Rtcm.Parser GpsBase.Rtcm.Parser.RtcmParser
open GpsBase.Push GpsBase.Push.LocalBatch GpsBase.Flow.Pipeline GpsBase.Flow.Delivery
open GpsBase.Flow.PushDelivery GpsBase.Rtcm.Framing
open GpsBase.Push.LocalCaster (Caster)
open GpsBase.Push.NtripPush (Client Constants)

/-! ### The next step -/

theorem map_isSome {α β : Type*} {o : Option α} (h : ∃ a, o = some a) (f : α → β) :
    ∃ b, o.map f = some b := by
  obtain ⟨a, rfl⟩ := h
  exact ⟨f a, rfl⟩

theorem produce_isSome {c : Client} {data : List UInt8} (h : handing c.producer = some data) :
    ∃ c', c.produce = some c' := by
  unfold Client.produce
  rcases hp : c.producer with _ | data | data | data | data | data | ok
  case idle | returned =>
    rw [hp] at h
    cases h
  case send | resend =>
    dsimp only
    split_ifs <;> exact ⟨_, rfl⟩
  all_goals exact ⟨_, rfl⟩

theorem caster_produce_isSome {c : Caster} (h : c.producer ≠ .idle) : ∃ c', c.produce = some c' := by
  unfold Caster.produce
  rcases hp : c.producer with _ | data | data
  · exact absurd hp h
  · exact ⟨_, rfl⟩
  · dsimp only
    split_ifs <;> exact ⟨_, rfl⟩

theorem feedByte_isSome {s : Station} (hlocal : Local s) (x : UInt8) (bytes : List UInt8) (again : Bool) :
    ∃ s', s.feedByte x bytes again = some s' := by
  obtain ⟨held, hfits, -⟩ := hlocal.way
  unfold Station.feedByte
  dsimp only
  rcases hframe : (feedRtcmByte s.parser x).2 with _ | frame
  · exact ⟨_, rfl⟩
  · dsimp only
    unfold Station.publish
    split_ifs with hbad
    · exact ⟨_, rfl⟩
    · obtain ⟨r, held', hr, -⟩ := hfits.publish frame (by omega) s.now 0
      dsimp only
      rw [hr]
      exact ⟨_, rfl⟩

/-- **The base task can go on.** -/
theorem ready {k : PushDestination → Constants} {s : Station} (hlocal : Local s) (houtside : Outside s)
    (hpc : s.pc ≠ .top) : ∃ s', Pipeline.step k s (.base []) = some s' := by
  show ∃ s', s.base [] = some s'
  unfold Station.base
  rcases hat : s.pc with _ | _ | ⟨_ | ⟨x, bytes⟩, again⟩ | ⟨_ | ⟨frame, frames⟩, after⟩ |
    ⟨frames, after⟩ | ⟨d, now⟩ | ⟨d, now, i⟩ | ⟨d, now, i⟩
  · exact absurd hat hpc
  · exact ⟨_, rfl⟩
  · exact ⟨_, rfl⟩
  · exact feedByte_isSome hlocal x bytes again
  · exact ⟨_, rfl⟩
  · have hidle := hlocal.free fun _ _ => by rw [hat]; nofun
    have hpush : ∃ c, s.caster.push frame = some c := by
      unfold Caster.push
      rw [if_pos hidle]
      split_ifs <;> exact ⟨_, rfl⟩
    exact map_isSome hpush _
  · dsimp only
    split_ifs with hidle
    · exact ⟨_, rfl⟩
    · exact map_isSome (caster_produce_isSome hidle) _
  · exact ⟨_, rfl⟩
  · dsimp only
    unfold Station.slotStep
    split_ifs with hi
    · dsimp only
      split_ifs
      · exact ⟨_, rfl⟩
      · have hfree := houtside.free d fun _ _ => by rw [hat]; nofun
        have hpush : ∃ c, (s.client d).push (s.box.correctionSlots ⟨i, hi⟩).frame = some c := by
          unfold Client.push
          rcases hp : (s.client d).producer <;> rw [hp] at hfree
          case idle | returned => exact ⟨_, rfl⟩
          all_goals cases hfree
        exact map_isSome hpush _
    · exact ⟨_, rfl⟩
  · dsimp only
    have hcall := houtside.call d now i hat
    unfold Station.slotCallStep
    split
    · exact ⟨_, rfl⟩
    · exact ⟨_, rfl⟩
    · rename_i htrue hfalse
      have hdata : ∃ data, handing (s.client d).producer = some data := by
        rcases hp : (s.client d).producer with _ | data | data | data | data | data | ok
        case idle => exact absurd hp hcall.begun
        case returned =>
          cases ok
          · exact absurd hp hfalse
          · exact absurd hp htrue
        all_goals exact ⟨data, rfl⟩
      obtain ⟨data, hdata⟩ := hdata
      exact map_isSome (produce_isSome hdata) _

/-! ### What is left of a call -/

/-- The steps left of a call of the local caster's `push`, the return included. -/
def leftOfLocal : LocalCaster.PushPc → ℕ
  | .idle => 1
  | .send _ => 2
  | .checkSuspended _ => 3

/-- The steps left of a call of a client's `push`, the return included. -/
def leftOfPush : NtripPush.PushPc → ℕ
  | .idle => 0
  | .returned _ => 1
  | .resend _ => 2
  | .evict _ => 3
  | .send _ => 4
  | .checkConnected _ => 5
  | .checkSuspended _ => 6

/-- A call of a client's `push`, from the turn of the loop that makes it. -/
def slotCost : ℕ := 7

def destinationCost : ℕ := 2 + slotCost * kMaxCorrectionSlots

def laterCost : PushDestination → ℕ
  | .kPushRtk2go => 2 * destinationCost
  | .kPushOnocoy => destinationCost
  | .kPushRtkdata => 0

/-- The end of `read_data_uart`, from the last byte. -/
def endCost : ℕ := 2 + 3 * destinationCost

/-- A byte, with the frame it may complete. -/
def byteCost : ℕ := 6

/-- A frame that is handed to the local caster. -/
def frameCost : ℕ := 4

/-- A read of less than a full buffer, and the end. -/
def readCost : ℕ := 1 + byteCost * (kReadBuffer - 1) + endCost

/-- What comes after the bytes in the buffer. -/
def againCost (again : Bool) : ℕ := if again then 1 + readCost else endCost

/-- What comes after a flush of the batch. -/
def afterCost : After → ℕ
  | .publish _ _ bytes again => 1 + byteCost * bytes.length + againCost again
  | .flushed _ => 1 + 3 * destinationCost

/-- The steps that are left at a place of the base task, without the frames in the batch. -/
def leftAt (s : Station) : Pc → ℕ
  | .top => 0
  | .read => readCost
  | .feed bytes again => byteCost * bytes.length + againCost again
  | .batch frames after => frameCost * frames.length + afterCost after
  | .batchCall frames after =>
    leftOfLocal s.caster.producer + frameCost * frames.length + afterCost after
  | .destination d _ => destinationCost + laterCost d
  | .slot d _ i => 1 + slotCost * (kMaxCorrectionSlots - i) + laterCost d
  | .slotCall d _ i =>
    leftOfPush (s.client d).producer + (1 + slotCost * (kMaxCorrectionSlots - (i + 1))) + laterCost d

/-- **The steps left of a call of `read_data_uart`**, at most. -/
def left (s : Station) : ℕ := frameCost * s.batch.frameCount + leftAt s s.pc

/-- The bytes of a read do not fill the buffer. -/
def Short : Input → Prop
  | .base received => received.length < kReadBuffer
  | _ => True

def isBase : Input → Bool
  | .base _ => true
  | _ => false

theorem leftAt_nextPc (s : Station) (d : PushDestination) (now : ℤ) :
    leftAt s (Station.nextPc d now) = laterCost d := by
  cases d
  · show destinationCost + destinationCost = 2 * destinationCost
    omega
  · show destinationCost + 0 = destinationCost
    omega
  · rfl

theorem left_casterProduce {c c' : Caster} (h : c.produce = some c') :
    leftOfLocal c'.producer < leftOfLocal c.producer := by
  unfold Caster.produce at h
  rcases hp : c.producer with _ | data | data <;> rw [hp] at h
  · cases h
  · cases h
    dsimp only
    split_ifs <;> simp [leftOfLocal]
  · simp only at h
    split_ifs at h <;> cases h <;> simp [leftOfLocal]

theorem left_produce {c c' : Client} (h : c.produce = some c') :
    leftOfPush c'.producer < leftOfPush c.producer := by
  unfold Client.produce at h
  rcases hp : c.producer with _ | data | data | data | data | data | ok <;> rw [hp] at h
  case idle | returned => cases h
  case checkSuspended | checkConnected =>
    cases h
    dsimp only
    split_ifs <;> simp [leftOfPush]
  case send | resend =>
    simp only at h
    split_ifs at h <;> cases h <;> simp [leftOfPush]
  case evict =>
    cases h
    simp [leftOfPush]

theorem left_feedByte {s s' : Station} (hlocal : Local s) {x : UInt8} {bytes : List UInt8} {again : Bool}
    (hpc : s.pc = .feed (x :: bytes) again) (h : s.feedByte x bytes again = some s') :
    left s' < left s := by
  obtain ⟨held, hfits, -⟩ := hlocal.way
  unfold left
  rw [hpc]
  unfold Station.feedByte at h
  dsimp only at h
  rcases hframe : (feedRtcmByte s.parser x).2 with _ | frame <;> rw [hframe] at h
  · cases h
    simp only [leftAt, List.length_cons, byteCost]
    omega
  · simp only [Station.publish] at h
    split_ifs at h with hbad
    · cases h
      simp only [leftAt, List.length_cons, byteCost]
      omega
    · obtain ⟨r, hr, rfl⟩ := Option.map_eq_some_iff.mp h
      obtain ⟨r', held', hr', hfits', hheld⟩ := hfits.publish frame (by omega) s.now 0
      obtain rfl : r = r' := Option.some.inj (hr.symm.trans hr')
      have hcount := congrArg List.length hheld
      rw [List.length_append, List.length_append, ← hfits'.count, ← hfits.count, List.length_singleton]
        at hcount
      simp only [leftAt, afterCost, List.length_cons, byteCost, frameCost]
      omega

theorem left_flushDue {s : Station} (hlocal : Local s) (hpc : s.pc = .feed [] false) :
    left s.flushDue < left s := by
  obtain ⟨held, hfits, -⟩ := hlocal.way
  obtain ⟨held', hfits', hheld⟩ := hfits.flushDue s.now
  have hcount := congrArg List.length hheld
  rw [List.length_append, ← hfits'.count, ← hfits.count] at hcount
  unfold left
  rw [hpc]
  simp only [Station.flushDue, leftAt, afterCost, againCost, endCost, frameCost, List.length_nil,
    Bool.false_eq_true, if_false]
  omega

theorem left_slotStep {s s' : Station} {d : PushDestination} {now : ℤ} {i : ℕ}
    (hpc : s.pc = .slot d now i) (h : s.slotStep d now i = some s') : left s' < left s := by
  unfold left
  rw [hpc]
  unfold Station.slotStep at h
  dsimp only at h
  split_ifs at h with hi hskip
  · cases h
    simp only [leftAt, slotCost]
    omega
  · obtain ⟨c, hc, rfl⟩ := Option.map_eq_some_iff.mp h
    have hcall : leftOfPush c.producer ≤ 6 := by
      unfold Client.push at hc
      split at hc
      · cases hc
        dsimp only
        split_ifs <;> simp [leftOfPush]
      · cases hc
        dsimp only
        split_ifs <;> simp [leftOfPush]
      · cases hc
    simp only [leftAt, Function.update_self, slotCost]
    omega
  · cases h
    dsimp only
    rw [leftAt_nextPc]
    simp only [leftAt]
    omega

theorem left_slotCallStep {s s' : Station} {d : PushDestination} {now : ℤ} {i : SlotIndex}
    (hpc : s.pc = .slotCall d now i) (h : s.slotCallStep d now i = some s') : left s' < left s := by
  unfold left
  rw [hpc]
  unfold Station.slotCallStep at h
  split at h
  · rename_i hreturned
    cases h
    simp only [leftAt, hreturned, leftOfPush]
    omega
  · rename_i hreturned
    cases h
    simp only [leftAt, hreturned, leftOfPush]
    omega
  · obtain ⟨c, hc, rfl⟩ := Option.map_eq_some_iff.mp h
    have hproduce := left_produce hc
    simp only [hpc, leftAt, Function.update_self]
    omega

/-- **Each step of the base task brings the call nearer to its end.** -/
theorem left_base {s s' : Station} (hlocal : Local s) {received : List UInt8}
    (hshort : received.length < kReadBuffer) (h : s.base received = some s') : left s' < left s := by
  unfold Station.base at h
  rcases hpc : s.pc with _ | _ | ⟨_ | ⟨x, bytes⟩, again⟩ | ⟨_ | ⟨frame, frames⟩, after⟩ |
    ⟨frames, after⟩ | ⟨d, now⟩ | ⟨d, now, i⟩ | ⟨d, now, i⟩ <;> rw [hpc] at h <;> dsimp only at h
  · cases h
  · rw [if_pos hshort.le] at h
    cases h
    have hbytes : byteCost * received.length ≤ byteCost * (kReadBuffer - 1) :=
      Nat.mul_le_mul_left _ (by omega)
    unfold left
    rw [hpc]
    simp only [leftAt, readCost, againCost, decide_eq_true_eq, if_neg hshort.ne]
    omega
  · cases h
    cases again
    · exact left_flushDue hlocal hpc
    · unfold left
      rw [hpc]
      simp only [leftAt, againCost, if_true, List.length_nil]
      omega
  · exact left_feedByte hlocal hpc h
  · cases h
    unfold left
    rw [hpc]
    rcases after with ⟨frame, now, bytes, again⟩ | now
    · simp only [Station.goOn, leftAt, afterCost, List.length_nil]
      omega
    · simp only [Station.goOn, leftAt, afterCost, laterCost, List.length_nil]
      omega
  · obtain ⟨c, hc, rfl⟩ := Option.map_eq_some_iff.mp h
    have hcall : leftOfLocal c.producer ≤ 3 := by
      cases c.producer <;> simp [leftOfLocal]
    unfold left
    rw [hpc]
    simp only [leftAt, List.length_cons, frameCost]
    omega
  · split_ifs at h with hidle
    · cases h
      unfold left
      rw [hpc]
      simp only [leftAt, hidle, leftOfLocal]
      omega
    · obtain ⟨c, hc, rfl⟩ := Option.map_eq_some_iff.mp h
      have hproduce := left_casterProduce hc
      unfold left
      rw [hpc]
      simp only [leftAt]
      omega
  · cases h
    unfold left
    rw [hpc]
    dsimp only
    split_ifs
    · rw [leftAt_nextPc]
      simp only [leftAt, destinationCost]
      omega
    · simp only [leftAt, destinationCost, Nat.sub_zero]
      omega
  · exact left_slotStep hpc h
  · exact left_slotCallStep hpc h

/-- **No other step sets it back.** -/
theorem left_other {k : PushDestination → Constants} {s s' : Station} {i : Input}
    (hi : isBase i = false) (hpc : s.pc ≠ .top) (h : Pipeline.step k s i = some s') :
    left s' = left s := by
  have hsame : ∀ {t : Station}, t.batch = s.batch → t.pc = s.pc →
      t.caster.producer = s.caster.producer →
      (∀ d, (t.client d).producer = (s.client d).producer) → left t = left s := by
    intro t hbatch hpc hcaster hclient
    unfold left
    rw [hbatch, hpc]
    cases s.pc <;> simp only [leftAt, hcaster, hclient]
  cases i with
  | base received => cases hi
  | reset | readDataUart =>
    simp only [Pipeline.step, if_neg hpc] at h
    cases h
  | caster j =>
    simp only [Pipeline.step] at h
    split_ifs at h with hj
    obtain ⟨c, hc, rfl⟩ := Option.map_eq_some_iff.mp h
    exact hsame rfl rfl (caster_own hj hc).2 fun _ => rfl
  | client d j =>
    simp only [Pipeline.step] at h
    split_ifs at h with hj
    obtain ⟨c, hc, rfl⟩ := Option.map_eq_some_iff.mp h
    refine hsame rfl rfl rfl fun d' => ?_
    dsimp only
    rcases eq_or_ne d' d with rfl | hd
    · rw [Function.update_self]
      exact (client_own hj hc).2
    · rw [Function.update_of_ne hd]
  | tick us =>
    cases h
    exact hsame rfl rfl rfl fun _ => rfl

/-! ### The bound -/

/-- Inside a call of `read_data_uart`, with reads that do not fill the buffer. -/
def Within (s : Station) (i : Input) : Prop := s.pc ≠ .top ∧ Short i

/-- The steps of the base task in a run inside a call are no more than were left. -/
theorem countP_isBase_le {k : PushDestination → Constants} :
    ∀ (is : List Input) {s s' : Station}, Local s → Along (Pipeline.step k) Within s is →
      run (Pipeline.step k) s is = some s' → is.countP isBase + left s' ≤ left s
  | [], s, s', _, _, hrun => by
    cases hrun
    simp
  | i :: is, s, s', hlocal, halong, hrun => by
    obtain ⟨t, ht, hrest⟩ := run_cons_eq_some.mp hrun
    obtain ⟨⟨hpc, hshort⟩, hlater⟩ := halong
    have hmore := countP_isBase_le is (hlocal.step (stepTo_step ht)) (hlater t ht) hrest
    rcases hi : isBase i
    · rw [List.countP_cons_of_neg (by simp [hi]), ← left_other hi hpc ht]
      exact hmore
    · cases i with
      | base received =>
        have hless := left_base hlocal hshort ht
        rw [List.countP_cons_of_pos (by simp [isBase])]
        omega
      | _ => cases hi

/-- **The base task is never held up.** From the moment it begins a call of `read_data_uart`, in every
run of the station in which the receiver does not fill the buffer at once, the base task takes at most
1923 steps until the call returns; and as long as it has not returned, it can take its next step,
whatever the local caster and the clients, their callers and the network do. -/
theorem read_data_uart_returns {k : PushDestination → Constants} {s₀ s s' : Station} (h₀ : Started s₀)
    (h : Reaches (Pipeline.step k) s₀ s) (hpc : s.pc = .read) {is : List Input}
    (hwithin : Along (Pipeline.step k) Within s is) (hrun : run (Pipeline.step k) s is = some s') :
    is.countP isBase ≤ 1923 ∧
      (s'.pc ≠ .top → ∃ t, Pipeline.step k s' (.base []) = some t) := by
  have hlocal := local_reaches h₀ h
  have h' : Reaches (Pipeline.step k) s₀ s' := h.trans ⟨is, hrun⟩
  obtain ⟨held, hfits, -⟩ := hlocal.way
  have hleft : left s ≤ 1923 := by
    have hcount := hfits.count_le
    unfold left
    rw [hpc]
    simp only [leftAt, readCost, byteCost, endCost, destinationCost, slotCost, frameCost, kReadBuffer,
      kMaxCorrectionSlots, kMaxFramesPerBatch] at hcount ⊢
    omega
  have hbase := countP_isBase_le is hlocal hwithin hrun
  exact ⟨by omega, ready (local_reaches h₀ h') (outside_reaches h₀ h')⟩

/-- `Within`, computed. -/
def within (s : Station) (i : Input) : Bool :=
  decide (s.pc ≠ .top) && match i with
    | .base received => decide (received.length < kReadBuffer)
    | _ => true

theorem within_spec (s : Station) (i : Input) (h : within s i = true) : Within s i := by
  unfold within at h
  rw [Bool.and_eq_true, decide_eq_true_eq] at h
  refine ⟨h.1, ?_⟩
  cases i with
  | base received =>
    have hlength : received.length < kReadBuffer := of_decide_eq_true h.2
    exact hlength
  | _ => exact trivial

/-- A call up to the `push` of the local caster, whose task then takes a step. -/
def sampleHandOver : List Input := List.replicate 3 (Input.base []) ++ [Input.caster (.work {})]

def sampleCall : List Input := sampleHandOver ++ List.replicate 7 (Input.base [])

theorem read_data_uart_returns_sample :
    let step := Pipeline.step fun _ => WholeFrames.sampleConstants
    ∃ s s' s'', run step sampleStation sampleFrame = some s ∧ run step s sampleHandOver = some s' ∧
      (∃ t, step s' (.base []) = some t) ∧ run step s sampleCall = some s'' ∧ s''.pc = .top ∧
      sampleCall.countP isBase ≤ 1923 := by
  intro step
  have heval : ((run step sampleStation sampleFrame).any fun s => s.pc = .read ∧
      ((run step s sampleHandOver).any fun s' => s'.pc ≠ .top) ∧
      ((run step s sampleCall).any fun s'' => s''.pc = .top) ∧
      checkAlong step within s sampleHandOver ∧ checkAlong step within s sampleCall) = true := by
    decide +kernel
  obtain ⟨s, hs, hall⟩ := (Option.any_eq_true _ _).mp heval
  obtain ⟨hread, hover, hcall, halong, halong'⟩ := of_decide_eq_true hall
  obtain ⟨s', hs', hpc⟩ := (Option.any_eq_true _ _).mp hover
  obtain ⟨s'', hs'', htop⟩ := (Option.any_eq_true _ _).mp hcall
  have hgoes := read_data_uart_returns started_sampleStation ⟨sampleFrame, hs⟩ hread
    (along_of_check within_spec _ _ halong) hs'
  have hends := read_data_uart_returns started_sampleStation ⟨sampleFrame, hs⟩ hread
    (along_of_check within_spec _ _ halong') hs''
  exact ⟨s, s', s'', hs, hs', hgoes.2 (of_decide_eq_true hpc), hs'', of_decide_eq_true htop, hends.1⟩

end GpsBase.Flow.Turn
